import Scriptlet.CommandLine.Args
import Scriptlet.Node.Json
import Scriptlet.Program
import Scriptlet.Report.Basic
import Scriptlet.Report.Snippet
import Scriptlet.Token.Json

/-!
# Commands

What a command prints and which exit code it ends with, given the contents of its file. Log
records and errors share one stream, in the order in which they arise.
-/

namespace Scriptlet.CommandLine

/-- Why a file cannot be read. -/
inductive FileError where
  | notFound
  | isDirectory
  | notDirectory
  | nameTooLong
  | notText
  | other (reason : String)
deriving DecidableEq, Repr

def FileError.reason : FileError → String
  | notFound => "No such file or directory (os error 2)"
  | isDirectory => "Is a directory (os error 21)"
  | notDirectory => "Not a directory (os error 20)"
  | nameTooLong => "File name too long (os error 36)"
  | notText => "stream did not contain valid UTF-8"
  | other reason => reason

/-- What a command leaves: its two output streams and its exit code. -/
structure Transcript where
  stdout : ByteArray
  stderr : String
  code : Int

/-- The source text that the bytes of a file spell. -/
def decodeSource (contents : Except FileError ByteArray) : Except FileError String :=
  match contents with
  | .error e => .error e
  | .ok bytes =>
    match String.fromUTF8? bytes with
    | some source => .ok source
    | none => .error .notText

/-- The error as the settings want it shown. -/
def showError (settings : Settings) (file source : String) (error : Error) : String :=
  match settings.errorFormat with
  | .human => error.render file source
  | .json => (Report.ofError file error).compact ++ "\n"

/-- The log records so far, as they are shown. -/
def showLog (log : Log) : String :=
  String.join (log.records.toList.map Record.entry)

/-- What is said about a run that needs more fuel than there is. -/
def outOfFuelMessage : String := "Error: out of fuel\n"

/-- The transcript of a command that ends with a machine's output, or with an error. -/
def conclude (settings : Settings) (file source : String) : Outcome Int → Transcript
  | .done machine code => ⟨machine.sink.written, showLog machine.log, code⟩
  | .failed machine error =>
    ⟨machine.sink.written, showLog machine.log ++ showError settings file source error, 1⟩
  | .outOfFuel => ⟨.empty, outOfFuelMessage, 1⟩

/-- Runs a file, or prints its tokens or tree. -/
def runFile (settings : Settings) (file source : String) (machine : Machine) : Outcome Int :=
  (machine.lex source).bind fun machine tokens ↦
    let machine :=
      machine.debug .command (file ++ ": " ++ toString tokens.length ++ " tokens")
    if settings.emit = some .tokens then
      (machine.write ((tokensToJson tokens).wide ++ "\n")).bind fun machine _ ↦ .done machine 0
    else
      (machine.parse tokens).bind fun machine program ↦
        if settings.emit = some .tree then
          (machine.write ((programToJson program).wide ++ "\n")).bind fun machine _ ↦
            .done machine 0
        else
          (machine.interpret settings.blockScope Machine.ampleFuel program).bind fun machine code ↦
            .done machine (code.getD 0)

/-- Reads a file as a program without running it. -/
def checkFile (file source : String) (machine : Machine) : Outcome Int :=
  (machine.load source).bind fun machine program ↦
    (machine.write (file ++ ": ok (" ++ toString program.length ++ " statements)\n")).bind
      fun machine _ ↦ .done machine 0

/-- Carries out a command on a file with the given contents. -/
def onFile (settings : Settings) (file : String) (contents : Except FileError ByteArray)
    (action : String → Machine → Outcome Int) : Transcript :=
  match decodeSource contents with
  | .error e => ⟨.empty, "Error: failed to read " ++ file ++ ": " ++ e.reason ++ "\n", 1⟩
  | .ok source =>
    conclude settings file source (action source (.start .unlimited settings.verbosity))

def run (settings : Settings) (file : String) (contents : Except FileError ByteArray) :
    Transcript :=
  onFile settings file contents (runFile settings file)

def check (settings : Settings) (file : String) (contents : Except FileError ByteArray) :
    Transcript :=
  onFile settings file contents (checkFile file)

/-- What `--version` prints. -/
def versionText : String := "mocha 0.1.0\n"

/-- What `--help` prints. -/
def helpText : String :=
  "Usage: mocha [OPTIONS] [FILE] [COMMAND]\n\n" ++
  "Commands:\n  run FILE    Run a script\n  check FILE  Check a script without running it\n" ++
  "  repl        Start the interactive read-eval loop\n\n" ++
  "Options:\n  --emit <tokens|ast>\n  --error-format <human|json>\n  --block-scope\n" ++
  "  -v, --verbose\n  -h, --help\n  -V, --version\n"

end Scriptlet.CommandLine
