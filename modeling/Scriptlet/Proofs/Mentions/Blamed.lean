import Scriptlet.Proofs.Environment.Within
import Scriptlet.Proofs.Run.Compatible

/-!
# What errors say of the environment

An error that blames a name is checked before the environment changes and is reported at once, but
it may come from many scopes deep. It is shown to be true of the environment in which it arises and
to stay true as the scopes around it are left. Without block scopes none is left, so that an error
about the innermost scope or about a variable in sight stays true as well.
-/

namespace Scriptlet

/-- What an error says of the environment that a run leaves behind and of the names in its program:
a name that is said to be missing is not visible, and the name that is blamed stands in the program
in the role it is blamed for. Without block scopes, a name that was declared twice is in the
innermost scope, and one that cannot be assigned to refers to an immutable variable. -/
def Error.TrueOf (blockScope : Bool) (mentions : List Mention) (env : Env) : Error → Prop
  | undefinedVariable name => env.lookup? name = none ∧ (.read, name) ∈ mentions
  | undeclaredAssignment name => env.lookup? name = none ∧ (.assigned, name) ∈ mentions
  | duplicateDeclaration name =>
    (blockScope = false → (env.innermost.lookup name).isSome) ∧ (.declared, name) ∈ mentions
  | immutableAssignment name =>
    (blockScope = false → ∃ held, env.lookup? name = some held ∧ held.isMutable = false) ∧
      (.assigned, name) ∈ mentions
  | _ => True

theorem Error.trueOf_of_isInternal {error : Error} (h : error.isInternal = true)
    (blockScope : Bool) (mentions : List Mention) (env : Env) :
    error.TrueOf blockScope mentions env := by
  cases error with
  | undefinedVariable | undeclaredAssignment | duplicateDeclaration | immutableAssignment => cases h
  | _ => trivial

namespace Env

/-- Leaving scopes uncovers no name. -/
theorem lookup?_truncate_eq_none {env : Env} {name : String} (h : env.lookup? name = none)
    {depth : Nat} (hdepth : 0 < depth) : (env.truncate depth).lookup? name = none := by
  unfold lookup? at h ⊢
  rw [scopes_truncate env hdepth]
  rw [List.findSome?_eq_none_iff] at h ⊢
  exact fun scope hscope ↦ h scope (List.mem_of_mem_drop hscope)

end Env

/-- With block scopes, what an error says is still true once scopes have been left. -/
theorem Error.TrueOf.truncate {error : Error} {mentions : List Mention} {env : Env}
    (h : error.TrueOf true mentions env) {depth : Nat} (hdepth : 0 < depth) :
    error.TrueOf true mentions (env.truncate depth) := by
  cases error with
  | undefinedVariable | undeclaredAssignment =>
    exact ⟨Env.lookup?_truncate_eq_none h.1 hdepth, h.2⟩
  | duplicateDeclaration | immutableAssignment => exact ⟨fun hscope ↦ (nomatch hscope), h.2⟩
  | _ => trivial

/-- Only names that an expression reads, or trees that are none, keep it from having a value. -/
theorem evalExpr_eq_error {env : Env} {node : Node} {error : Error}
    (h : evalExpr env node = .error error) :
    (∃ name, error = .undefinedVariable name ∧ env.lookup? name = none ∧
      (.read, name) ∈ node.mentions) ∨ error.isInternal = true := by
  fun_induction evalExpr env node generalizing error with
  | case1 | case2 | case3 | case4 | case8 => cases h
  | case5 name reason hreason =>
    cases h
    unfold Env.get at hreason
    split at hreason
    · cases hreason
    · rename_i hnone
      cases hreason
      exact .inl ⟨name, rfl, hnone, List.mem_singleton.2 rfl⟩
  | case6 left op right reason hreason ih =>
    cases h
    refine (ih hreason).imp_left ?_
    rintro ⟨name, rfl, hnone, hmention⟩
    exact ⟨name, rfl, hnone, List.mem_append_left _ hmention⟩
  | case7 left op right value _ reason hreason _ ih =>
    cases h
    refine (ih hreason).imp_left ?_
    rintro ⟨name, rfl, hnone, hmention⟩
    exact ⟨name, rfl, hnone, List.mem_append_right _ hmention⟩
  | case9 =>
    cases h
    exact .inr rfl

/-- The outcome is no failure, or one for an error that is true of what it leaves. -/
def Outcome.Truthful {α : Type} (blockScope : Bool) (mentions : List Mention) :
    Outcome α → Prop
  | failed machine error => error.TrueOf blockScope mentions machine.env
  | done _ _ | outOfFuel => True

namespace Machine

open Outcome

/-- Every error of the step is true of the environment that it leaves. -/
def Reports (blockScope : Bool) (mentions : List Mention) : StepRelation :=
  fun _ run _ ↦ ∀ machine, (run machine).Truthful blockScope mentions

variable {blockScope : Bool} {mentions : List Mention}

theorem truthful_request (answer : Sink × Option Error) (machine : Machine)
    (h : ∀ error ∈ answer.2, ∃ reason, error = .io reason) :
    (machine.request answer).Truthful blockScope mentions := by
  obtain ⟨sink, _ | error⟩ := answer
  · trivial
  · obtain ⟨reason, rfl⟩ := h error rfl
    trivial

theorem truthful_write (text : String) (machine : Machine) :
    (machine.write text).Truthful blockScope mentions := by
  refine truthful_request _ machine fun error herror ↦ ?_
  unfold Sink.write at herror
  split at herror
  · cases herror
  · split at herror
    · cases herror
    · cases herror
      exact ⟨_, rfl⟩

theorem truthful_flush (machine : Machine) :
    machine.flush.Truthful blockScope mentions := by
  refine truthful_request _ machine fun error herror ↦ ?_
  obtain ⟨reason, -, rfl⟩ := Option.map_eq_some_iff.1 herror
  exact ⟨reason, rfl⟩

theorem truthful_eval {node : Node} (h : ∀ mention ∈ node.mentions, mention ∈ mentions)
    (machine : Machine) : (machine.eval node).Truthful blockScope mentions := by
  unfold eval yield
  split
  · trivial
  · rename_i error herror
    obtain ⟨name, rfl, hnone, hmention⟩ | hinternal := evalExpr_eq_error herror
    · exact ⟨hnone, h _ hmention⟩
    · exact Error.trueOf_of_isInternal hinternal _ _ _

theorem truthful_declare {name : String} (h : (.declared, name) ∈ mentions) (value : Scalar)
    (isMutable : Bool) (machine : Machine) :
    (machine.update (Env.declare name value isMutable)).Truthful blockScope mentions := by
  unfold update Env.declare
  cases hfound : machine.env.innermost.lookup name with
  | some found => exact ⟨fun _ ↦ hfound ▸ rfl, h⟩
  | none => trivial

theorem truthful_assignValue {name : String} {node : Node} (h : (.assigned, name) ∈ mentions)
    (hnode : ∀ mention ∈ node.mentions, mention ∈ mentions) (machine : Machine) :
    (machine.assignValue name node).Truthful blockScope mentions := by
  unfold assignValue Env.has
  cases hheld : machine.env.lookup? name with
  | none => exact ⟨hheld, h⟩
  | some held =>
    -- Evaluating changes nothing, so the variable that the first check found is still there.
    have heval : (machine.eval node).Truthful blockScope mentions := truthful_eval hnode machine
    rw [Option.isSome_some, if_pos rfl]
    unfold eval yield at heval ⊢
    cases hvalue : evalExpr machine.env node with
    | error error =>
      rw [hvalue] at heval
      exact heval
    | ok value =>
      dsimp only
      rw [bind_done]
      unfold update
      split
      · trivial
      · rename_i error herror
        obtain ⟨rfl, himmutable⟩ := Env.assign_eq_error hheld herror
        exact ⟨fun _ ↦ ⟨held, hheld, himmutable⟩, h⟩

theorem Reports.bind {α β : Type} {run twin : Machine → Outcome α}
    {next follower : α → Machine → Outcome β} (h : Reports blockScope mentions α run twin)
    (hnext : ∀ value, Reports blockScope mentions β (next value) (follower value)) :
    Reports blockScope mentions β
      (fun machine ↦ (run machine).bind fun machine value ↦ next value machine)
      fun machine ↦ (twin machine).bind fun machine value ↦ follower value machine := by
  intro machine
  have hrun := h machine
  dsimp only
  cases hleft : run machine with
  | done after value => exact hnext value after
  | failed after error =>
    rw [hleft] at hrun
    exact hrun
  | outOfFuel => trivial

theorem Reports.withScope {α : Type} {run twin : Machine → Outcome α}
    (h : Reports true mentions α run twin) :
    Reports true mentions α (Machine.withScope run) (Machine.withScope twin) := by
  intro machine
  have hinner := h machine.pushScope
  unfold Machine.withScope
  dsimp only
  cases hrun : run machine.pushScope with
  | failed inner error =>
    rw [hrun] at hinner
    exact Error.TrueOf.truncate hinner (Nat.succ_pos _)
  | done | outOfFuel => trivial

theorem reports_respects (blockScope : Bool) (mentions : List Mention) :
    (Reports blockScope mentions).Respects blockScope (· ∈ mentions) where
  outOfFuel _ := trivial
  done _ _ := trivial
  misuse h machine := Error.trueOf_of_isInternal h blockScope mentions machine.env
  eval := truthful_eval
  declare := truthful_declare
  assign := truthful_assignValue
  write := truthful_write
  flush := truthful_flush
  record add _ _ h machine := h { machine with log := add machine.log }
  bind := .bind
  withScope := by
    rintro _ rfl _ _ h
    exact h.withScope

/-- The error that a program ends with is true of the environment that the program leaves. -/
theorem trueOf_of_interpret {blockScope : Bool} {fuel : Nat} {program : Program}
    {machine after : Machine} {error : Error}
    (h : machine.interpret blockScope fuel program = .failed after error) :
    error.TrueOf blockScope (Node.mentionsBody program) after.env := by
  have htruthful := (reports_respects blockScope (Node.mentionsBody program)).interpret fuel
    (fun _ ↦ id) machine
  rw [h] at htruthful
  exact htruthful

/-- Declares in a branch of a loop what it then assigns to outside of that branch. -/
def escapeProgram : Program :=
  [.declare "x" (.boolean true) true,
    .loop (.assign "x" (.boolean true)) (.identifier "x") (.assign "x" (.boolean false))
      [.branch (.identifier "x") [.declare "y" (.string "a") false] [] none,
        .assign "y" (.identifier "x")]]

/-- With block scopes the variable is gone, without them it is there and cannot be changed. -/
theorem trueOf_of_interpret_escape :
    (∃ after, interpret true 6 escapeProgram ⟨.empty, .unlimited, .empty .quiet⟩ =
        .failed after (.undeclaredAssignment "y") ∧
      after.env.lookup? "y" = none ∧ (.assigned, "y") ∈ Node.mentionsBody escapeProgram) ∧
    ∃ after, interpret false 6 escapeProgram ⟨.empty, .unlimited, .empty .quiet⟩ =
        .failed after (.immutableAssignment "y") ∧
      ∃ held, after.env.lookup? "y" = some held ∧ held.isMutable = false := by
  refine ⟨⟨_, rfl, ?_⟩, ⟨_, rfl, ?_⟩⟩
  · exact @trueOf_of_interpret true 6 escapeProgram ⟨.empty, .unlimited, .empty .quiet⟩ _ _ rfl
  · have h := @trueOf_of_interpret false 6 escapeProgram ⟨.empty, .unlimited, .empty .quiet⟩ _ _ rfl
    exact h.1 rfl

end Machine

end Scriptlet
