import Scriptlet.Exec

/-!
# Trees that run without internal errors

Some errors say that the machine was misused: a tree with a statement in an expression's place or a
keyword for a name, an output without exactly one payload, a scope popped that was never pushed.
In a runnable tree every node stands where it belongs, and running one, in any environment and with
any sink, fails for no such cause.
-/

namespace Scriptlet

/-- The causes that blame the tree or the caller and not the script. -/
def Error.isInternal : Error → Bool
  | .illegalIdentifier _ | .invalidWritePayload | .unknownOperator _ | .unknownNode _
  | .popGlobalScope | .duplicateFunction _ | .undefinedFunction _ => true
  | _ => false

namespace Node

/-- An expression all the way down. -/
inductive Evaluable : Node → Prop
  | number (value : Float) : Evaluable (.number value)
  | string (value : String) : Evaluable (.string value)
  | boolean (value : Bool) : Evaluable (.boolean value)
  | identifier (name : String) : Evaluable (.identifier name)
  | binary {left right : Node} (op : BinOp) (hleft : Evaluable left) (hright : Evaluable right) :
      Evaluable (.binary left op right)

/-- A statement, or an expression as a loop may have for its update, with expressions where values
are wanted. -/
inductive Runnable : Node → Prop
  | declare {name : String} {value : Node} (isMutable : Bool)
      (hname : Keyword.ofWord? name = none) (hvalue : Evaluable value) :
      Runnable (.declare name value isMutable)
  | assign {value : Node} (name : String) (hvalue : Evaluable value) :
      Runnable (.assign name value)
  | branch {condition : Node} {body : List Node} {elseIfs : List (Node × List Node)}
      {otherwise : Option (List Node)} (hcondition : Evaluable condition)
      (hbody : ∀ node ∈ body, Runnable node)
      (hguards : ∀ clause ∈ elseIfs, Evaluable clause.1)
      (hbodies : ∀ clause ∈ elseIfs, ∀ node ∈ clause.2, Runnable node)
      (hotherwise : ∀ body ∈ otherwise, ∀ node ∈ body, Runnable node) :
      Runnable (.branch condition body elseIfs otherwise)
  | loop {init condition update : Node} {body : List Node} (hinit : Runnable init)
      (hcondition : Evaluable condition) (hupdate : Runnable update)
      (hbody : ∀ node ∈ body, Runnable node) : Runnable (.loop init condition update body)
  | text (newline : Bool) (text : String) : Runnable (.write newline (some text) none)
  | output {value : Node} (newline : Bool) (hvalue : Evaluable value) :
      Runnable (.write newline none (some value))
  | ret {value : Node} (hvalue : Evaluable value) : Runnable (.ret value)
  | comment (text : String) : Runnable (.comment text)
  | expression {node : Node} (h : Evaluable node) : Runnable node

end Node

/-- Only the lack of a variable keeps an expression from having a value. -/
theorem Node.Evaluable.error_eq {node : Node} (h : node.Evaluable) {env : Env} {error : Error}
    (herror : evalExpr env node = .error error) : ∃ name, error = .undefinedVariable name := by
  induction h generalizing error with
  | number | string | boolean => cases herror
  | identifier name =>
    rw [evalExpr, Env.get] at herror
    cases hfound : env.lookup? name with
    | some found =>
      rw [hfound] at herror
      cases herror
    | none =>
      rw [hfound] at herror
      cases herror
      exact ⟨name, rfl⟩
  | binary op hleft hright ihleft ihright =>
    rw [evalExpr] at herror
    split at herror
    · rename_i hfirst
      cases herror
      exact ihleft hfirst
    · split at herror
      · rename_i hsecond
        cases herror
        exact ihright hsecond
      · cases herror

/-- The outcome is no failure for an internal cause. -/
def Outcome.Regular {α : Type} : Outcome α → Prop
  | failed _ error => error.isInternal = false
  | done _ _ | outOfFuel => True

theorem Outcome.Regular.bind {α β : Type} {outcome : Outcome α} {next : Machine → α → Outcome β}
    (h : outcome.Regular) (hnext : ∀ machine value, (next machine value).Regular) :
    (outcome.bind next).Regular := by
  cases outcome with
  | done machine value => exact hnext machine value
  | failed machine error => exact h
  | outOfFuel => trivial

namespace Machine

open Outcome

/-! ## Single steps -/

theorem regular_eval {node : Node} (h : node.Evaluable) (machine : Machine) :
    (machine.eval node).Regular := by
  unfold eval yield
  split
  · trivial
  · rename_i error herror
    obtain ⟨name, rfl⟩ := h.error_eq herror
    rfl

theorem regular_declare (name : String) (value : Scalar) (isMutable : Bool) (machine : Machine) :
    (machine.update (Env.declare name value isMutable)).Regular := by
  unfold update
  split
  · trivial
  · rename_i error herror
    unfold Env.declare at herror
    split at herror <;> cases herror
    rfl

theorem isInternal_assignIn {name : String} {value : Scalar} {scopes : List Scope} {error : Error}
    (h : Env.assignIn name value scopes = .error error) : error.isInternal = false := by
  fun_induction Env.assignIn name value scopes with
  | case1 => cases h; rfl
  | case2 => cases h
  | case3 => cases h; rfl
  | case4 => cases h
  | case5 scope rest hnone other hother ih =>
    cases h
    exact ih hother

theorem regular_assign (name : String) (value : Scalar) (machine : Machine) :
    (machine.update (Env.assign name value)).Regular := by
  unfold update
  split
  · trivial
  · rename_i error herror
    unfold Env.assign at herror
    split at herror <;> cases herror
    rename_i hassign
    exact isInternal_assignIn hassign

theorem regular_write (text : String) (machine : Machine) : (machine.write text).Regular := by
  unfold write Sink.write
  split
  · trivial
  · split <;> trivial

theorem regular_flush (machine : Machine) : machine.flush.Regular := by
  unfold flush Sink.flush
  cases machine.sink.flushFailure? machine.sink.requests machine.sink.written <;> trivial

theorem regular_emit (newline : Bool) (text : String) (machine : Machine) :
    (machine.emit newline text).Regular := by
  refine (regular_write text machine).bind fun machine _ ↦ ?_
  refine Regular.bind ?_ fun machine _ ↦ regular_flush machine
  split
  · exact regular_write "\n" machine
  · trivial

/-! ## Statements -/

/-- From every machine the step ends without an internal error. -/
def RegularStep {α : Type} (run : Machine → Outcome α) : Prop := ∀ machine, (run machine).Regular

theorem regularStep_withScope {α : Type} {run : Machine → Outcome α} (h : RegularStep run) :
    RegularStep (withScope run) := by
  intro machine
  have hinner := h machine.pushScope
  unfold withScope
  dsimp only
  split
  · trivial
  · rename_i inner error hrun
    rw [hrun] at hinner
    exact hinner
  · trivial

variable {run : Runner}

theorem regularStep_runBlock {body : List Node} (h : ∀ node ∈ body, RegularStep (run node)) :
    RegularStep (runBlock run body) := by
  induction body with
  | nil => exact fun machine ↦ trivial
  | cons node rest ih =>
    obtain ⟨hnode, hrest⟩ := List.forall_mem_cons.1 h
    intro machine
    refine (hnode machine).bind fun machine returned ↦ ?_
    cases returned with
    | some value => trivial
    | none => exact ih hrest machine

theorem regularStep_runBody (blockScope : Bool) {body : List Node}
    (h : ∀ node ∈ body, RegularStep (run node)) : RegularStep (runBody blockScope run body) := by
  intro machine
  unfold runBody
  split
  · exact regularStep_withScope (regularStep_runBlock h) machine
  · exact regularStep_runBlock h machine

theorem regularStep_runBranches (blockScope : Bool) {otherwise : Option (List Node)}
    {branches : List (Node × List Node)}
    (hotherwise : ∀ body ∈ otherwise, ∀ node ∈ body, RegularStep (run node))
    (hguards : ∀ clause ∈ branches, clause.1.Evaluable)
    (hbodies : ∀ clause ∈ branches, ∀ node ∈ clause.2, RegularStep (run node)) :
    RegularStep (runBranches blockScope run otherwise branches) := by
  induction branches with
  | nil =>
    intro machine
    cases otherwise with
    | some body => exact regularStep_runBody blockScope (hotherwise body rfl) machine
    | none => trivial
  | cons clause rest ih =>
    obtain ⟨hguard, hguards⟩ := List.forall_mem_cons.1 hguards
    obtain ⟨hbody, hbodies⟩ := List.forall_mem_cons.1 hbodies
    intro machine
    refine (regular_eval hguard machine).bind fun machine value ↦ ?_
    split
    · exact regularStep_runBody blockScope hbody machine
    · exact ih hguards hbodies machine

theorem regularStep_runRounds (blockScope : Bool) {condition update : Node} {body : List Node}
    (hcondition : condition.Evaluable) (hupdate : RegularStep (run update))
    (hbody : ∀ node ∈ body, RegularStep (run node)) (fuel : Nat) :
    RegularStep (runRounds blockScope run condition update body fuel) := by
  induction fuel with
  | zero => exact fun machine ↦ trivial
  | succ fuel ih =>
    intro machine
    refine (regular_eval hcondition machine).bind fun machine value ↦ ?_
    split
    · trivial
    refine (regularStep_runBody blockScope hbody machine).bind fun machine returned ↦ ?_
    cases returned with
    | some value => trivial
    | none => exact (hupdate machine).bind fun machine _ ↦ ih machine

theorem regularStep_execWith (blockScope : Bool) (fuel : Nat)
    (hrun : ∀ node, node.Runnable → RegularStep (run node)) {node : Node} (h : node.Runnable) :
    RegularStep (execWith blockScope run fuel node) := by
  intro machine
  cases h with
  | declare isMutable hname hvalue =>
    rw [execWith, hname, if_neg (by simp)]
    refine (regular_eval hvalue machine).bind fun machine value ↦ ?_
    exact (regular_declare _ value isMutable machine).bind fun _ _ ↦ trivial
  | assign name hvalue =>
    rw [execWith]
    split
    · refine (regular_eval hvalue machine).bind fun machine value ↦ ?_
      exact (regular_assign name value machine).bind fun _ _ ↦ trivial
    · rfl
  | branch hcondition hbody hguards hbodies hotherwise =>
    refine regularStep_runBranches blockScope ?_ ?_ ?_ machine
    · exact fun body hmem node hnode ↦ hrun node (hotherwise body hmem node hnode)
    · exact List.forall_mem_cons.2 ⟨hcondition, hguards⟩
    · refine List.forall_mem_cons.2 ⟨fun node hnode ↦ hrun node (hbody node hnode), ?_⟩
      exact fun clause hclause node hnode ↦ hrun node (hbodies clause hclause node hnode)
  | @loop init condition update body hinit hcondition hupdate hbody =>
    have hloop : RegularStep (runLoop blockScope run fuel init condition update body) :=
      fun machine ↦ (hrun init hinit machine).bind fun machine _ ↦
        regularStep_runRounds blockScope hcondition (hrun update hupdate)
          (fun node hnode ↦ hrun node (hbody node hnode)) fuel machine
    rw [execWith]
    split
    · exact regularStep_withScope hloop machine
    · exact hloop machine
  | text newline text => exact (regular_emit newline text machine).bind fun _ _ ↦ trivial
  | output newline hvalue =>
    refine Regular.bind ?_ fun _ _ ↦ trivial
    exact (regular_eval hvalue machine).bind fun machine value ↦
      regular_emit newline value.display machine
  | ret hvalue => exact (regular_eval hvalue machine).bind fun _ _ ↦ trivial
  | comment text => trivial
  | expression h =>
    have heval := regular_eval h machine
    cases h
    all_goals
      simp only [execWith]
      exact heval.bind fun _ _ ↦ trivial

/-- The induction is on the fuel: a statement runs the statements inside it with less. -/
theorem regularStep_exec (blockScope : Bool) (fuel : Nat) {node : Node} (h : node.Runnable) :
    RegularStep (exec blockScope fuel node) := by
  induction fuel generalizing node with
  | zero => exact fun machine ↦ trivial
  | succ fuel ih =>
    exact fun machine ↦ regularStep_execWith blockScope fuel (fun node h ↦ ih h) h _

theorem regularStep_interpret (blockScope : Bool) (fuel : Nat) {program : Program}
    (h : ∀ node ∈ program, node.Runnable) : RegularStep (interpret blockScope fuel program) := by
  intro machine
  refine (regularStep_runBlock (fun node hnode ↦ regularStep_exec blockScope fuel (h node hnode))
    machine).bind fun machine returned ↦ ?_
  cases returned <;> trivial

end Machine

end Scriptlet
