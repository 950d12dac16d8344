import Scriptlet.Machine
import Scriptlet.Node.Basic
import Scriptlet.Number.Arithmetic
import Scriptlet.Token.Basic

/-!
# Running programs

Expressions are evaluated in an environment and change nothing. A statement ends with the value of
a `ret` that was reached inside it, if any; that value travels outward and ends the program. Fuel
bounds both the nesting of statements and the rounds of each loop, so that every run ends, if only
for lack of fuel.

With block scopes, a loop and the body of every branch and round have a scope of their own.
Without them, their declarations land in the scope around them.
-/

namespace Scriptlet

/-- The value of an expression. A statement has none. -/
def evalExpr (env : Env) : Node → Except Error Scalar
  | .number value => .ok (.number value)
  | .string value => .ok (.string value)
  | .boolean value => .ok (.boolean value)
  | .identifier name =>
    match env.get name with
    | .ok found => .ok found.value
    | .error e => .error e
  | .binary left op right =>
    match evalExpr env left with
    | .error e => .error e
    | .ok first =>
      match evalExpr env right with
      | .error e => .error e
      | .ok second => .ok (.number (op.apply first.toNumber second.toNumber))
  | node => .error (.unknownNode node.kind)

/-- How a statement is run; the value is that of a `ret`. -/
abbrev Runner := Node → Machine → Outcome (Option Scalar)

namespace Machine

def eval (node : Node) (machine : Machine) : Outcome Scalar :=
  machine.yield (evalExpr machine.env node)

/-- Writes the one payload that is given. -/
def writePayload (newline : Bool) (text : Option String) (expression : Option Node)
    (machine : Machine) : Outcome Unit :=
  match text, expression with
  | some text, none => machine.emit newline text
  | none, some node =>
    (machine.eval node).bind fun machine value ↦ machine.emit newline value.display
  | _, _ => .failed machine .invalidWritePayload

/-- Runs statements in order up to the first that returns a value. -/
def runBlock (run : Runner) : List Node → Machine → Outcome (Option Scalar)
  | [], machine => .done machine none
  | node :: rest, machine =>
    (run node machine).bind fun machine returned ↦
      match returned with
      | some value => .done machine (some value)
      | none => runBlock run rest machine

/-- Runs a body, in its own scope if bodies have one. -/
def runBody (blockScope : Bool) (run : Runner) (body : List Node) (machine : Machine) :
    Outcome (Option Scalar) :=
  if blockScope then machine.withScope (runBlock run body) else runBlock run body machine

/-- Runs the first body whose condition holds, or else the last resort. -/
def runBranches (blockScope : Bool) (run : Runner) (otherwise : Option (List Node)) :
    List (Node × List Node) → Machine → Outcome (Option Scalar)
  | [], machine =>
    match otherwise with
    | some body => runBody blockScope run body machine
    | none => .done machine none
  | (condition, body) :: rest, machine =>
    (machine.eval condition).bind fun machine value ↦
      if value.isTruthy then runBody blockScope run body machine
      else runBranches blockScope run otherwise rest machine

/-- Runs body and update while the condition's number is not zero. -/
def runRounds (blockScope : Bool) (run : Runner) (condition update : Node) (body : List Node) :
    Nat → Machine → Outcome (Option Scalar)
  | 0, _ => .outOfFuel
  | fuel + 1, machine =>
    (machine.eval condition).bind fun machine value ↦
      if value.toNumber == 0 then .done machine none
      else
        (runBody blockScope run body machine).bind fun machine returned ↦
          match returned with
          | some value => .done machine (some value)
          | none =>
            (run update machine).bind fun machine _ ↦
              runRounds blockScope run condition update body fuel machine

/-- Runs a whole loop; what its first part returns is dropped. -/
def runLoop (blockScope : Bool) (run : Runner) (fuel : Nat) (init condition update : Node)
    (body : List Node) (machine : Machine) : Outcome (Option Scalar) :=
  (run init machine).bind fun machine _ ↦
    runRounds blockScope run condition update body fuel machine

/-- Runs one statement, given how the statements inside it are run and how many rounds a loop may
have. -/
def execWith (blockScope : Bool) (run : Runner) (fuel : Nat) : Runner
  | .declare name value isMutable, machine =>
    if (Keyword.ofWord? name).isSome then .failed machine (.illegalIdentifier name)
    else
      (machine.eval value).bind fun machine value ↦
        (machine.update (Env.declare name value isMutable)).bind fun machine _ ↦
          .done machine none
  | .assign name value, machine =>
    if machine.env.has name then
      (machine.eval value).bind fun machine value ↦
        (machine.update (Env.assign name value)).bind fun machine _ ↦ .done machine none
    else .failed machine (.undeclaredAssignment name)
  | .branch condition body elseIfs otherwise, machine =>
    runBranches blockScope run otherwise ((condition, body) :: elseIfs) machine
  | .loop init condition update body, machine =>
    let loop := runLoop blockScope run fuel init condition update body
    if blockScope then machine.withScope loop else loop machine
  | .write newline text expression, machine =>
    (machine.writePayload newline text expression).bind fun machine _ ↦ .done machine none
  | .ret value, machine => (machine.eval value).bind fun machine value ↦ .done machine (some value)
  | .comment _, machine => .done machine none
  | expression, machine => (machine.eval expression).bind fun machine _ ↦ .done machine none

/-- Runs one statement. -/
def exec (blockScope : Bool) : Nat → Runner
  | 0, _, _ => .outOfFuel
  | fuel + 1, node, machine =>
    execWith blockScope (exec blockScope fuel) fuel node
      (machine.trace .interpreter ("exec " ++ node.kind))

/-- Runs a program; a returned value ends it and becomes its exit code. -/
def interpret (blockScope : Bool) (fuel : Nat) (program : Program) (machine : Machine) :
    Outcome (Option Int) :=
  (runBlock (exec blockScope fuel) program machine).bind fun machine returned ↦
    match returned with
    | some value =>
      .done (machine.debug .interpreter ("program returned " ++ value.display ++ " (exit code " ++
        toString value.exitCode ++ ")")) (some value.exitCode)
    | none => .done machine none

end Machine

end Scriptlet
