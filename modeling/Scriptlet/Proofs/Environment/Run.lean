import Mathlib.Logic.Relation
import Scriptlet.Proofs.Environment.Operation
import Scriptlet.Proofs.Run.Compatible

/-!
# Runs keep their environment safe

However a run ends, by reaching its last statement, by a `ret` at any depth or by an error, the
environment it leaves is a safe change of the one it found. To be a safe change is a relation that
can be followed through the steps of a run: single changes of the environment have it, it goes on
from one step to the next, and it outlasts a scope that is left. What can be followed through the
steps holds of whole runs, and so it does of sessions of many runs.
-/

namespace Scriptlet

/-! ## What a step does to the environment -/

namespace Machine

/-- An expression is evaluated on the machine as it is, and leaves it so. -/
theorem eval_cases (node : Node) (machine : Machine) :
    (∃ value, machine.eval node = .done machine value) ∨
      ∃ error, machine.eval node = .failed machine error := by
  unfold eval yield
  cases evalExpr machine.env node with
  | ok value => exact .inl ⟨value, rfl⟩
  | error e => exact .inr ⟨e, rfl⟩

variable {machine left : Machine}

theorem env_of_request {answer : Sink × Option Error}
    (h : (machine.request answer).machine? = some left) : left.env = machine.env := by
  unfold request at h
  split at h <;> cases h <;> rfl

theorem env_of_withScope {α : Type} {run : Machine → Outcome α}
    (h : (machine.withScope run).machine? = some left) :
    ∃ inner, (run machine.pushScope).machine? = some inner ∧
      left.env = inner.env.truncate machine.env.depth := by
  unfold withScope at h
  split at h
  · rename_i inner value hrun
    cases h
    exact ⟨inner, by rw [hrun]; rfl, rfl⟩
  · rename_i inner error hrun
    cases h
    exact ⟨inner, by rw [hrun]; rfl, rfl⟩
  · cases h

end Machine

theorem Outcome.machine?_bind_cases {α β : Type} {outcome : Outcome α}
    {next : Machine → α → Outcome β} {left : Machine}
    (h : (outcome.bind next).machine? = some left) :
    outcome.machine? = some left ∨ ∃ machine value, outcome.machine? = some machine ∧
      (next machine value).machine? = some left := by
  cases outcome with
  | done machine value => exact .inr ⟨machine, value, rfl, h⟩
  | failed machine error => exact .inl h
  | outOfFuel => cases h

/-! ## Relations that runs inherit from their steps -/

/-- The relation can be followed through the steps of a run. -/
structure Env.Stepwise (R : Env → Env → Prop) : Prop where
  refl (env : Env) : R env env
  trans {first second third : Env} (hfirst : R first second) (hsecond : R second third) :
    R first third
  declare {name : String} {value : Scalar} {isMutable : Bool} {before after : Env}
    (h : before.declare name value isMutable = .ok after) : R before after
  assign {name : String} {value : Scalar} {before after : Env}
    (h : before.assign name value = .ok after) : R before after
  scope {env inner : Env} (h : R env.push inner) : R env (inner.truncate env.depth)

theorem Env.safe_stepwise : Env.Stepwise Env.Safe where
  refl := Env.Safe.refl
  trans hfirst hsecond := hfirst.trans hsecond
  declare := Env.safe_declare
  assign h := (Env.sealed_assign h).toSafe
  scope h := (Env.sealed_truncate h).toSafe

namespace Machine

/-- However the step ends, the environment it leaves is related to the one it found. -/
def Changes (R : Env → Env → Prop) : StepRelation := fun _ run _ ↦
  ∀ machine left : Machine, (run machine).machine? = some left → R machine.env left.env

section Stepwise

variable {R : Env → Env → Prop} (hR : Env.Stepwise R)

include hR

theorem changes_eval (node : Node) : Changes R Scalar (eval node) (eval node) := by
  intro machine left h
  obtain ⟨value, hvalue⟩ | ⟨error, herror⟩ := eval_cases node machine
  · rw [hvalue] at h
    cases h
    exact hR.refl _
  · rw [herror] at h
    cases h
    exact hR.refl _

theorem changes_update {operation : Env → Except Error Env}
    (hoperation : ∀ {before after}, operation before = .ok after → R before after) :
    Changes R Unit (update operation) (update operation) := by
  intro machine left h
  obtain ⟨after, hafter, hchange⟩ | ⟨error, hfailed, -⟩ := machine.update_cases operation
  · rw [hafter] at h
    cases h
    exact hoperation hchange
  · rw [hfailed] at h
    cases h
    exact hR.refl _

theorem changes_bind {α β : Type} {run twin : Machine → Outcome α}
    {next follower : α → Machine → Outcome β} (h : Changes R α run twin)
    (hnext : ∀ value, Changes R β (next value) (follower value)) :
    Changes R β (fun machine ↦ (run machine).bind fun machine value ↦ next value machine)
      fun machine ↦ (twin machine).bind fun machine value ↦ follower value machine := by
  intro machine left hleft
  obtain hfailed | ⟨between, value, hrun, hlast⟩ := Outcome.machine?_bind_cases hleft
  · exact h machine left hfailed
  · exact hR.trans (h machine between hrun) (hnext value between left hlast)

theorem changes_assignValue (name : String) (node : Node) :
    Changes R Unit (assignValue name node) (assignValue name node) := by
  intro machine left h
  unfold assignValue at h
  split at h
  · exact changes_bind hR (changes_eval hR node) (fun _ ↦ changes_update hR hR.assign) machine left h
  · cases h
    exact hR.refl _

theorem changes_respects (blockScope : Bool) (allowed : Mention → Prop) :
    (Changes R).Respects blockScope allowed where
  outOfFuel := by
    rintro _ _ _ ⟨⟩
  done := by
    rintro _ _ _ _ ⟨⟩
    exact hR.refl _
  misuse := by
    rintro _ _ _ _ _ ⟨⟩
    exact hR.refl _
  eval _ := changes_eval hR _
  declare _ _ _ := changes_update hR hR.declare
  assign _ _ := changes_assignValue hR _ _
  write _ machine _ h := by
    rw [env_of_request h]
    exact hR.refl machine.env
  flush machine _ h := by
    rw [env_of_request h]
    exact hR.refl machine.env
  record add _ _ h machine := h { machine with log := add machine.log }
  bind := changes_bind hR
  withScope _ _ _ h machine left hleft := by
    obtain ⟨inner, hinner, henv⟩ := env_of_withScope hleft
    rw [henv]
    exact hR.scope (h machine.pushScope inner hinner)

end Stepwise

/-! ## Safe runs -/

/-- Running from any machine is a safe change of its environment. -/
def SafeStep {α : Type} (run : Machine → Outcome α) : Prop := Changes Env.Safe α run run

theorem safe_respects (blockScope : Bool) :
    (Changes Env.Safe).Respects blockScope fun _ ↦ True :=
  changes_respects Env.safe_stepwise blockScope _

/-- What happens in a fresh scope is sealed there. -/
theorem sealed_withScope {α : Type} {run : Machine → Outcome α} (h : SafeStep run)
    {machine after : Machine} (hafter : (machine.withScope run).machine? = some after) :
    machine.env.Sealed after.env := by
  obtain ⟨inner, hinner, henv⟩ := env_of_withScope hafter
  rw [henv]
  exact Env.sealed_truncate (h machine.pushScope inner hinner)

theorem safeStep_runBlock {run : Runner} (hrun : ∀ node, SafeStep (run node)) (body : List Node) :
    SafeStep (runBlock run body) :=
  (safe_respects false).runBlock (fun _ ↦ hrun _) fun _ _ ↦ trivial

theorem safeStep_runLoop (blockScope : Bool) {run : Runner} (hrun : ∀ node, SafeStep (run node))
    (fuel : Nat) (init condition update : Node) (body : List Node) :
    SafeStep (runLoop blockScope run fuel init condition update body) :=
  (safe_respects blockScope).runLoop (fun _ ↦ hrun _) (fun _ _ ↦ trivial) (fun _ _ ↦ trivial)
    (fun _ _ ↦ trivial) (fun _ _ ↦ trivial) fuel

theorem safeStep_exec (blockScope : Bool) (fuel : Nat) (node : Node) :
    SafeStep (exec blockScope fuel node) :=
  (safe_respects blockScope).exec fuel fun _ _ ↦ trivial

end Machine

/-! ## Sessions -/

/-- One run of some program, with any sink and log, that found `before` and left `after`. -/
def Env.Run (before after : Env) : Prop :=
  ∃ (blockScope : Bool) (fuel : Nat) (program : Program) (machine left : Machine),
    machine.env = before ∧ (machine.interpret blockScope fuel program).machine? = some left ∧
      left.env = after

/-- What can be followed through the steps of a run holds of the run. -/
theorem Env.Stepwise.of_run {R : Env → Env → Prop} (hR : Stepwise R) {before after : Env}
    (h : before.Run after) : R before after := by
  obtain ⟨blockScope, fuel, program, machine, left, rfl, hleft, rfl⟩ := h
  have hrespects := Machine.changes_respects hR blockScope fun _ ↦ True
  have hprogram : Machine.Changes R (Option Int) (Machine.interpret blockScope fuel program)
      (Machine.interpret blockScope fuel program) := hrespects.interpret fuel fun _ _ ↦ trivial
  exact hprogram machine left hleft

/-- Runs one after another on one environment keep it safe. -/
theorem safe_of_runs {before after : Env} (h : Relation.ReflTransGen Env.Run before after) :
    before.Safe after := by
  induction h with
  | refl => exact Env.Safe.refl _
  | tail _ hrun ih => exact ih.trans (Env.safe_stepwise.of_run hrun)

/-- A mutable variable inside, an immutable one around it, and a function. -/
def nestedEnv (value : Scalar) : Env :=
  ⟨[("x", ⟨value, true⟩)], [[("k", ⟨.boolean true, false⟩)]], [("f", "body")]⟩

/-- A `ret` from a branch in a loop with block scopes, then a run that a full sink cuts short. -/
theorem safe_of_runs_ret_then_refusal :
    Relation.ReflTransGen Env.Run (nestedEnv (.string "a")) (nestedEnv (.string "c")) ∧
      (nestedEnv (.string "a")).Safe (nestedEnv (.string "c")) := by
  have hret : (nestedEnv (.string "a")).Run (nestedEnv (.string "b")) :=
    ⟨true, 4, [.loop (.declare "i" (.boolean true) true) (.identifier "i") (.boolean true)
        [.assign "x" (.string "b"), .declare "x" (.boolean false) true,
          .branch (.identifier "k") [.ret (.identifier "x")] [] none]],
      ⟨nestedEnv (.string "a"), .unlimited, .empty .quiet⟩, _, rfl, rfl, rfl⟩
  have hrefused : (nestedEnv (.string "b")).Run (nestedEnv (.string "c")) :=
    ⟨false, 2, [.assign "x" (.string "c"), .write true (some "text") none,
        .assign "x" (.string "d")],
      ⟨nestedEnv (.string "b"), .ofBounded ⟨.empty, some 3, false⟩, .empty .quiet⟩, _, rfl, rfl,
      rfl⟩
  have hruns := (Relation.ReflTransGen.single hret).tail hrefused
  exact ⟨hruns, safe_of_runs hruns⟩

end Scriptlet
