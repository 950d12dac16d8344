import Scriptlet.CommandLine.Run

/-!
# The read-eval loop

Lines are run one by one on the same environment. An error ends its line only; a returned value
ends the session. The lines `exit` and `:vars` are commands of the loop itself.
-/

namespace Scriptlet.CommandLine.Repl

def banner : String := "MochaScript v0.1.0\n"

def prompt : String := ">> "

/-- What the loop does after a line. -/
inductive Next where
  | goOn (env : Env)
  | stop (code : Int)

structure Reply where
  stdout : ByteArray
  stderr : String
  next : Next

/-- One line of the listing of variables. -/
def describe (name : String) (found : Variable) : String :=
  (if found.isMutable then "mut " else "") ++ name ++ ": " ++ found.value.typeName ++ " = " ++
    found.value.display ++ "\n"

/-- Ends output on a line of its own. -/
def closeLine (output : ByteArray) : ByteArray :=
  match output.data.back? with
  | none => output
  | some last => if last == 10 then output else output.push 10

/-- Runs a source text on the environment of the session. -/
def runLine (settings : Settings) (source : String) (env : Env) : Reply :=
  let machine : Machine := ⟨env, .unlimited, .empty settings.verbosity⟩
  match machine.runSource settings.blockScope Machine.ampleFuel source with
  | .done machine code =>
    ⟨closeLine machine.sink.written, showLog machine.log,
      code.elim (.goOn machine.env) .stop⟩
  | .failed machine error =>
    ⟨closeLine machine.sink.written,
      showLog machine.log ++ showError settings "<repl>" source error, .goOn machine.env⟩
  | .outOfFuel => ⟨.empty, outOfFuelMessage, .stop 1⟩

/-- The reply to one line of input. -/
def reply (settings : Settings) (line : String) (env : Env) : Reply :=
  match String.ofList (Text.trim line.toList) with
  | "" => ⟨.empty, "", .goOn env⟩
  | "exit" => ⟨">> Exiting Process\n".toUTF8, "", .stop 0⟩
  | ":vars" =>
    ⟨(String.join (env.visible.map fun (name, found) ↦ describe name found)).toUTF8, "",
      .goOn env⟩
  | source => runLine settings source env

/-- The reply to a line that is no text. -/
def unreadable : Reply := ⟨.empty, "Error: " ++ FileError.notText.reason ++ "\n", .stop 1⟩

/-- The reply to the bytes of a line. -/
def replyBytes (settings : Settings) (line : ByteArray) (env : Env) : Reply :=
  match String.fromUTF8? line with
  | some line => reply settings line env
  | none => unreadable

/-- The reply to the end of the input. -/
def farewell : Reply := ⟨"\n".toUTF8, "", .stop 0⟩

/-- The lines of an input, each with the newline that ends it. -/
def splitLines : List UInt8 → List (List UInt8)
  | [] => []
  | byte :: rest =>
    if byte == 10 then [byte] :: splitLines rest
    else
      match splitLines rest with
      | [] => [[byte]]
      | line :: others => (byte :: line) :: others

/-- Everything that a session prints for the given lines, after what it has printed before. -/
def converse (settings : Settings) : List (List UInt8) → Env → Transcript → Transcript
  | [], _, said =>
    { said with stdout := said.stdout ++ prompt.toUTF8 ++ farewell.stdout }
  | line :: rest, env, said =>
    let answer := replyBytes settings ⟨line.toArray⟩ env
    let said : Transcript :=
      { said with
        stdout := said.stdout ++ prompt.toUTF8 ++ answer.stdout
        stderr := said.stderr ++ answer.stderr }
    match answer.next with
    | .goOn env => converse settings rest env said
    | .stop code => { said with code := code }

/-- The transcript of a session with the given input. -/
def session (settings : Settings) (input : ByteArray) : Transcript :=
  converse settings (splitLines input.toList) .empty ⟨banner.toUTF8, "", 0⟩

end Scriptlet.CommandLine.Repl
