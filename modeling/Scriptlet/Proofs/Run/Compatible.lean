import Scriptlet.Proofs.Consistency.Runnable
import Scriptlet.Proofs.Mentions.Basic

/-!
# Relations between runs

A statement's run is put together from few kinds of steps: evaluating, changing the environment,
writing, keeping a log, going on, and doing so in a scope of its own. A relation between steps that
respects each of them relates the run of every statement and of every program to itself. What is to
be shown of all runs is thus shown of the steps; the walk through the forms of statements is done
here, once.

A relation may depend on names. It then has to respect the steps that do with them what the program
does, and no others.
-/

namespace Scriptlet

/-- A relation between two ways to go on from a machine, for results of any type. -/
abbrev StepRelation := (α : Type) → (Machine → Outcome α) → (Machine → Outcome α) → Prop

namespace Machine

/-- Gives a variable that is there the value of an expression. -/
def assignValue (name : String) (node : Node) (machine : Machine) : Outcome Unit :=
  if machine.env.has name then
    (machine.eval node).bind fun machine value ↦ machine.update (Env.assign name value)
  else .failed machine (.undeclaredAssignment name)

theorem execWith_assign (blockScope : Bool) (run : Runner) (fuel : Nat) (name : String)
    (node : Node) (machine : Machine) :
    execWith blockScope run fuel (.assign name node) machine =
      (machine.assignValue name node).bind fun machine _ ↦ .done machine none := by
  rw [execWith, assignValue]
  split
  · rw [Outcome.bind_assoc]
  · rfl

end Machine

/-- The relation respects the steps that runs are made of and that do with names only what is
`allowed`. Scopes are entered only if bodies have scopes of their own. -/
structure StepRelation.Respects (R : StepRelation) (blockScope : Bool)
    (allowed : Mention → Prop) : Prop where
  outOfFuel {α : Type} : R α (fun _ ↦ .outOfFuel) fun _ ↦ .outOfFuel
  done {α : Type} (value : α) :
    R α (fun machine ↦ .done machine value) fun machine ↦ .done machine value
  misuse {α : Type} {error : Error} (h : error.isInternal = true) :
    R α (fun machine ↦ .failed machine error) fun machine ↦ .failed machine error
  eval {node : Node} (h : ∀ mention ∈ node.mentions, allowed mention) :
    R Scalar (Machine.eval node) (Machine.eval node)
  declare {name : String} (h : allowed (.declared, name)) (value : Scalar) (isMutable : Bool) :
    R Unit (Machine.update (Env.declare name value isMutable))
      (Machine.update (Env.declare name value isMutable))
  assign {name : String} {node : Node} (h : allowed (.assigned, name))
    (hvalue : ∀ mention ∈ node.mentions, allowed mention) :
    R Unit (Machine.assignValue name node) (Machine.assignValue name node)
  write (text : String) : R Unit (Machine.write text) (Machine.write text)
  flush : R Unit Machine.flush Machine.flush
  record {α : Type} (add : Log → Log) {run twin : Machine → Outcome α} (h : R α run twin) :
    R α (fun machine ↦ run { machine with log := add machine.log })
      fun machine ↦ twin { machine with log := add machine.log }
  bind {α β : Type} {run twin : Machine → Outcome α} {next follower : α → Machine → Outcome β}
    (h : R α run twin) (hnext : ∀ value, R β (next value) (follower value)) :
    R β (fun machine ↦ (run machine).bind fun machine value ↦ next value machine)
      fun machine ↦ (twin machine).bind fun machine value ↦ follower value machine
  withScope {α : Type} (hscope : blockScope = true) {run twin : Machine → Outcome α}
    (h : R α run twin) : R α (Machine.withScope run) (Machine.withScope twin)

namespace StepRelation.Respects

open Machine Node

variable {R : StepRelation} {blockScope : Bool} {allowed : Mention → Prop}
  (hR : R.Respects blockScope allowed)

include hR

theorem emit (newline : Bool) (text : String) :
    R Unit (Machine.emit newline text) (Machine.emit newline text) := by
  refine hR.bind (hR.write text) fun _ ↦ ?_
  refine hR.bind ?_ fun _ ↦ hR.flush
  cases newline with
  | true => exact hR.write "\n"
  | false => exact hR.done ()

theorem writePayload (newline : Bool) (text : Option String) {expression : Option Node}
    (h : ∀ mention ∈ mentionsOption expression, allowed mention) :
    R Unit (Machine.writePayload newline text expression)
      (Machine.writePayload newline text expression) := by
  match text, expression with
  | some text, none => exact hR.emit newline text
  | none, some node => exact hR.bind (hR.eval h) fun value ↦ hR.emit newline value.display
  | none, none | some _, some _ => exact hR.misuse rfl

/-! ## Statements -/

section Runner

variable {run : Runner}
  (hrun : ∀ {node : Node}, (∀ mention ∈ node.mentions, allowed mention) →
    R (Option Scalar) (run node) (run node))

include hrun

theorem runBlock {body : List Node} (h : ∀ mention ∈ mentionsBody body, allowed mention) :
    R (Option Scalar) (Machine.runBlock run body) (Machine.runBlock run body) := by
  induction body with
  | nil => exact hR.done none
  | cons node rest ih =>
    rw [mentionsBody, List.forall_mem_append] at h
    refine hR.bind (hrun h.1) fun returned ↦ ?_
    cases returned with
    | some value => exact hR.done (some value)
    | none => exact ih h.2

theorem runBody {body : List Node} (h : ∀ mention ∈ mentionsBody body, allowed mention) :
    R (Option Scalar) (Machine.runBody blockScope run body)
      (Machine.runBody blockScope run body) := by
  cases blockScope with
  | true => exact hR.withScope rfl (hR.runBlock hrun h)
  | false => exact hR.runBlock hrun h

theorem runBranches {otherwise : Option (List Node)} {branches : List (Node × List Node)}
    (hbranches : ∀ mention ∈ mentionsClauses branches, allowed mention)
    (hotherwise : ∀ mention ∈ mentionsOtherwise otherwise, allowed mention) :
    R (Option Scalar) (Machine.runBranches blockScope run otherwise branches)
      (Machine.runBranches blockScope run otherwise branches) := by
  induction branches with
  | nil =>
    cases otherwise with
    | some body => exact hR.runBody hrun hotherwise
    | none => exact hR.done none
  | cons branch rest ih =>
    obtain ⟨condition, body⟩ := branch
    simp only [mentionsClauses, List.forall_mem_append] at hbranches
    obtain ⟨⟨hcondition, hbody⟩, hrest⟩ := hbranches
    refine hR.bind (hR.eval hcondition) fun value ↦ ?_
    cases value.isTruthy with
    | true => exact hR.runBody hrun hbody
    | false => exact ih hrest

theorem runRounds {condition update : Node} {body : List Node}
    (hcondition : ∀ mention ∈ condition.mentions, allowed mention)
    (hupdate : ∀ mention ∈ update.mentions, allowed mention)
    (hbody : ∀ mention ∈ mentionsBody body, allowed mention) (fuel : Nat) :
    R (Option Scalar) (Machine.runRounds blockScope run condition update body fuel)
      (Machine.runRounds blockScope run condition update body fuel) := by
  induction fuel with
  | zero => exact hR.outOfFuel
  | succ fuel ih =>
    refine hR.bind (hR.eval hcondition) fun value ↦ ?_
    cases value.toNumber == 0 with
    | true => exact hR.done none
    | false =>
      refine hR.bind (hR.runBody hrun hbody) fun returned ↦ ?_
      cases returned with
      | some value => exact hR.done (some value)
      | none => exact hR.bind (hrun hupdate) fun _ ↦ ih

theorem runLoop {init condition update : Node} {body : List Node}
    (hinit : ∀ mention ∈ init.mentions, allowed mention)
    (hcondition : ∀ mention ∈ condition.mentions, allowed mention)
    (hupdate : ∀ mention ∈ update.mentions, allowed mention)
    (hbody : ∀ mention ∈ mentionsBody body, allowed mention) (fuel : Nat) :
    R (Option Scalar) (Machine.runLoop blockScope run fuel init condition update body)
      (Machine.runLoop blockScope run fuel init condition update body) :=
  hR.bind (hrun hinit) fun _ ↦ hR.runRounds hrun hcondition hupdate hbody fuel

theorem execWith (fuel : Nat) {node : Node} (h : ∀ mention ∈ node.mentions, allowed mention) :
    R (Option Scalar) (Machine.execWith blockScope run fuel node)
      (Machine.execWith blockScope run fuel node) := by
  have hvalue := hR.bind (hR.eval h) fun _ ↦ hR.done (none : Option Scalar)
  cases node with
  | declare name value isMutable =>
    rw [mentions, List.forall_mem_cons] at h
    cases hname : (Keyword.ofWord? name).isSome with
    | true =>
      have hillegal : Machine.execWith blockScope run fuel (.declare name value isMutable) =
          fun machine ↦ .failed machine (.illegalIdentifier name) :=
        funext fun machine ↦ if_pos hname
      rw [hillegal]
      exact hR.misuse rfl
    | false =>
      have hlegal : Machine.execWith blockScope run fuel (.declare name value isMutable) =
          fun machine ↦ (machine.eval value).bind fun machine value ↦
            (machine.update (Env.declare name value isMutable)).bind fun machine _ ↦
              .done machine none :=
        funext fun machine ↦ if_neg (by simp [hname])
      rw [hlegal]
      refine hR.bind (hR.eval h.2) fun value ↦ ?_
      exact hR.bind (hR.declare h.1 value isMutable) fun _ ↦ hR.done none
  | assign name value =>
    rw [mentions, List.forall_mem_cons] at h
    rw [funext (execWith_assign blockScope run fuel name value)]
    exact hR.bind (hR.assign h.1 h.2) fun _ ↦ hR.done none
  | branch condition body elseIfs otherwise =>
    simp only [mentions, List.forall_mem_append] at h
    refine hR.runBranches hrun ?_ h.2
    simp only [mentionsClauses, List.forall_mem_append]
    exact h.1
  | loop init condition update body =>
    simp only [mentions, List.forall_mem_append] at h
    obtain ⟨⟨⟨hinit, hcondition⟩, hupdate⟩, hbody⟩ := h
    have hloop := hR.runLoop hrun hinit hcondition hupdate hbody fuel
    cases blockScope with
    | true => exact hR.withScope rfl hloop
    | false => exact hloop
  | write newline text expression =>
    exact hR.bind (hR.writePayload newline text h) fun _ ↦ hR.done none
  | ret value => exact hR.bind (hR.eval h) fun value ↦ hR.done (some value)
  | comment text => exact hR.done none
  | number | string | boolean | identifier | binary => exact hvalue

end Runner

/-! ## Programs -/

/-- The induction is on the fuel: a statement runs the statements inside it with less. -/
theorem exec (fuel : Nat) {node : Node} (h : ∀ mention ∈ node.mentions, allowed mention) :
    R (Option Scalar) (Machine.exec blockScope fuel node) (Machine.exec blockScope fuel node) := by
  induction fuel generalizing node with
  | zero => exact hR.outOfFuel
  | succ fuel ih =>
    exact hR.record (fun log ↦ log.add .trace .interpreter ("exec " ++ node.kind))
      (hR.execWith ih fuel h)

/-- Every run of a program that does what is allowed is related to itself. -/
theorem interpret (fuel : Nat) {program : Program}
    (h : ∀ mention ∈ mentionsBody program, allowed mention) :
    R (Option Int) (Machine.interpret blockScope fuel program)
      (Machine.interpret blockScope fuel program) := by
  refine hR.bind (hR.runBlock (hR.exec fuel) h) fun returned ↦ ?_
  cases returned with
  | some value =>
    exact hR.record (fun log ↦ log.add .debug .interpreter ("program returned " ++ value.display ++
      " (exit code " ++ toString value.exitCode ++ ")")) (hR.done (some value.exitCode))
  | none => exact hR.done none

end StepRelation.Respects

/-! ## Relations that names do not matter for -/

/-- The relation respects the steps that runs are made of. -/
structure StepRelation.Compatible (R : StepRelation) : Prop where
  outOfFuel {α : Type} : R α (fun _ ↦ .outOfFuel) fun _ ↦ .outOfFuel
  /-- What is computed depends on the environment alone. -/
  yield {α : Type} (result : Env → Except Error α) :
    R α (fun machine ↦ machine.yield (result machine.env))
      fun machine ↦ machine.yield (result machine.env)
  update (operation : Env → Except Error Env) :
    R Unit (Machine.update operation) (Machine.update operation)
  write (text : String) : R Unit (Machine.write text) (Machine.write text)
  flush : R Unit Machine.flush Machine.flush
  record {α : Type} (add : Log → Log) {run twin : Machine → Outcome α} (h : R α run twin) :
    R α (fun machine ↦ run { machine with log := add machine.log })
      fun machine ↦ twin { machine with log := add machine.log }
  choose {α : Type} (test : Env → Bool) {run twin next follower : Machine → Outcome α}
    (h : R α run twin) (hnext : R α next follower) :
    R α (fun machine ↦ if test machine.env then run machine else next machine)
      fun machine ↦ if test machine.env then twin machine else follower machine
  bind {α β : Type} {run twin : Machine → Outcome α} {next follower : α → Machine → Outcome β}
    (h : R α run twin) (hnext : ∀ value, R β (next value) (follower value)) :
    R β (fun machine ↦ (run machine).bind fun machine value ↦ next value machine)
      fun machine ↦ (twin machine).bind fun machine value ↦ follower value machine
  withScope {α : Type} {run twin : Machine → Outcome α} (h : R α run twin) :
    R α (Machine.withScope run) (Machine.withScope twin)

namespace StepRelation.Compatible

open Machine

variable {R : StepRelation} (hR : R.Compatible)

include hR

theorem eval (node : Node) : R Scalar (Machine.eval node) (Machine.eval node) :=
  hR.yield fun env ↦ evalExpr env node

theorem respects (blockScope : Bool) (allowed : Mention → Prop) :
    R.Respects blockScope allowed where
  outOfFuel := hR.outOfFuel
  done value := hR.yield fun _ ↦ .ok value
  misuse {_ error} _ := hR.yield fun _ ↦ .error error
  eval {node} _ := hR.eval node
  declare _ _ _ := hR.update _
  assign {name node} _ _ :=
    hR.choose (fun env ↦ env.has name)
      (hR.bind (hR.eval node) fun value ↦ hR.update (Env.assign name value))
      (hR.yield fun _ ↦ .error (.undeclaredAssignment name))
  write := hR.write
  flush := hR.flush
  record := hR.record
  bind := hR.bind
  withScope _ := hR.withScope

/-- Every run of a program is related to itself. -/
theorem interpret (blockScope : Bool) (fuel : Nat) (program : Program) :
    R (Option Int) (Machine.interpret blockScope fuel program)
      (Machine.interpret blockScope fuel program) :=
  (hR.respects blockScope fun _ ↦ True).interpret fuel fun _ _ ↦ trivial

end StepRelation.Compatible

end Scriptlet
