import Scriptlet.CommandLine.Repl

/-!
# The command

Reads the file or the lines that a command line asks for and prints the transcript. All decisions
are made elsewhere; this module only talks to the terminal and the file system.
-/

namespace Scriptlet.CommandLine.Console

def readBytes (file : String) : IO (Except FileError ByteArray) := do
  try
    return .ok (← IO.FS.readBinFile file)
  catch e =>
    match e with
    | .noFileOrDirectory .. => return .error .notFound
    | .inappropriateType _ code _ =>
      return .error (if code = 20 then .notDirectory else .isDirectory)
    | .invalidArgument _ 36 _ => return .error .nameTooLong
    | _ => return .error (.other (toString e))

/-- The exit code as the operating system keeps it. -/
def exitStatus (code : Int) : UInt32 := UInt32.ofNat (code % 256).toNat

def print (transcript : Transcript) : IO UInt32 := do
  let stdout ← IO.getStdout
  stdout.write transcript.stdout
  stdout.flush
  IO.eprint transcript.stderr
  return exitStatus transcript.code

/-- The bytes of the next line after those already read; none at the end of the input. -/
partial def readLine (stdin : IO.FS.Stream) (line : ByteArray) : IO ByteArray := do
  let byte ← stdin.read 1
  if byte.isEmpty then return line
  let line := line ++ byte
  if byte.data.back? == some 10 then return line else readLine stdin line

partial def converse (settings : Settings) (env : Env) : IO UInt32 := do
  let stdout ← IO.getStdout
  stdout.putStr Repl.prompt
  stdout.flush
  let line ← readLine (← IO.getStdin) .empty
  let reply := if line.isEmpty then Repl.farewell else Repl.replyBytes settings line env
  stdout.write reply.stdout
  stdout.flush
  IO.eprint reply.stderr
  match reply.next with
  | .goOn env => converse settings env
  | .stop code => return exitStatus code

end Scriptlet.CommandLine.Console

open Scriptlet CommandLine in
def main (args : List String) : IO UInt32 := do
  match parse args with
  | .usage =>
    IO.eprint helpText
    return 2
  | .version => Console.print ⟨versionText.toUTF8, "", 0⟩
  | .help => Console.print ⟨helpText.toUTF8, "", 0⟩
  | .execute (.run file) settings => Console.print (run settings file (← Console.readBytes file))
  | .execute (.check file) settings =>
    Console.print (check settings file (← Console.readBytes file))
  | .execute .repl settings =>
    IO.print Repl.banner
    Console.converse settings .empty
