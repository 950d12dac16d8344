import Scriptlet.Exec
import Scriptlet.Node.Parser
import Scriptlet.Token.Lexer

/-!
# Running source texts

A source text is split into tokens, read as a program and run. Each stage leaves a log record when
it succeeds.
-/

namespace Scriptlet.Machine

def lex (source : String) (machine : Machine) : Outcome (List Token) :=
  (machine.yield (Scriptlet.lex source)).bind fun machine tokens ↦
    .done (machine.trace .lexer ("lexed " ++ toString tokens.length ++ " tokens")) tokens

def parse (tokens : List Token) (machine : Machine) : Outcome Program :=
  (machine.yield (Scriptlet.parse tokens)).bind fun machine program ↦
    .done (machine.debug .parser
      ("parsed " ++ toString program.length ++ " top-level statements")) program

/-- The program that a source text spells. -/
def load (source : String) (machine : Machine) : Outcome Program :=
  (machine.lex source).bind fun machine tokens ↦ machine.parse tokens

/-- Runs a source text; the value is its exit code if it returned one. -/
def runSource (blockScope : Bool) (fuel : Nat) (source : String) (machine : Machine) :
    Outcome (Option Int) :=
  (machine.load source).bind fun machine program ↦ machine.interpret blockScope fuel program

/-- Fuel for runs that should not end for lack of it. -/
def ampleFuel : Nat := 1000000000000000

end Scriptlet.Machine
