import Scriptlet.Proofs.Environment.Operation

/-!
# Whatever is done in a fresh scope

A step in a fresh scope may open and leave scopes as it likes, run further steps in fresh scopes,
and end well or fail. Behind it the scopes are cut down to the depth from before. They are never
built up again: a step that leaves scopes it has not opened loses them, and opening others in their
place does not bring back what was declared in them. What lies below the least depth on the way is
kept.
-/

namespace Scriptlet

/-! ## Actions -/

/-- What can be done to an environment: an operation, or actions in a fresh scope that end with a
result. -/
inductive Action where
  | operation (single : Operation)
  | scope (body : List Action) (result : Except Error Unit)

namespace Action

mutual

/-- The machine that an action leaves. -/
def after : Action → Machine → Machine
  | operation single, machine => machine.perform single
  | scope body result, machine =>
    (machine.withScope fun inner ↦ (afterAll body inner).yield result).machine?.getD machine

def afterAll : List Action → Machine → Machine
  | [], machine => machine
  | action :: rest, machine => afterAll rest (action.after machine)

end

mutual

/-- The least depth on the way through an action. -/
def lowest : Action → Machine → Nat
  | operation single, machine => min machine.env.depth (machine.perform single).env.depth
  | scope body _, machine => min machine.env.depth (lowestAll body machine.pushScope)

def lowestAll : List Action → Machine → Nat
  | [], machine => machine.env.depth
  | action :: rest, machine => min (action.lowest machine) (lowestAll rest (action.after machine))

end

theorem lowestAll_le (actions : List Action) (machine : Machine) :
    lowestAll actions machine ≤ (afterAll actions machine).env.depth := by
  induction actions generalizing machine with
  | nil => exact Nat.le_refl _
  | cons action rest ih =>
    rw [lowestAll, afterAll]
    exact (Nat.min_le_right _ _).trans (ih _)

end Action

/-- Whatever the result is, the scope is left and the result passed on. -/
theorem Machine.withScope_yield {α : Type} (run : Machine → Machine) (result : Except Error α)
    (machine : Machine) :
    machine.withScope (fun inner ↦ (run inner).yield result) =
      ((run machine.pushScope).leaveScope machine.env.depth).yield result := by
  cases result <;> rfl

theorem Action.after_scope (body : List Action) (result : Except Error Unit) (machine : Machine) :
    (scope body result).after machine =
      (afterAll body machine.pushScope).leaveScope machine.env.depth := by
  rw [after, Machine.withScope_yield]
  cases result <;> rfl

/-! ## What is kept -/

namespace Env

theorem levels_truncate (env : Env) {depth : Nat} (h : 0 < depth) :
    (env.truncate depth).levels = env.levels.take depth := by
  rw [levels, scopes_truncate env h, levels, List.take_reverse, depth_eq_length]

theorem depth_truncate (env : Env) {depth : Nat} (h : 0 < depth) :
    (env.truncate depth).depth = min depth env.depth := by
  rw [← length_levels, levels_truncate env h, List.length_take, length_levels]

/-- The outermost scopes keep their variables. -/
def KeptBelow (depth : Nat) (before after : Env) : Prop :=
  List.Forall₂ Scope.Kept (before.levels.take depth) (after.levels.take depth)

theorem keptBelow_of_eq {depth : Nat} {before after : Env}
    (h : before.levels.take depth = after.levels.take depth) : before.KeptBelow depth after := by
  rw [KeptBelow, h]
  exact List.forall₂_refl _

theorem KeptBelow.trans {depth : Nat} {first second third : Env}
    (hfirst : first.KeptBelow depth second) (hsecond : second.KeptBelow depth third) :
    first.KeptBelow depth third :=
  forall₂_trans @Scope.Kept.trans hfirst hsecond

theorem Safe.keptBelow {before after : Env} (h : before.Safe after) (depth : Nat) :
    before.KeptBelow depth after :=
  List.forall₂_take depth (List.forall₂_reverse_iff.2 h.kept)

theorem KeptBelow.forall₂_scopes {depth : Nat} {before after : Env}
    (h : before.KeptBelow depth after) (hbefore : before.depth ≤ depth)
    (hafter : after.depth ≤ depth) :
    List.Forall₂ Scope.Kept before.scopes after.scopes := by
  rw [KeptBelow, List.take_of_length_le (by rwa [length_levels]),
    List.take_of_length_le (by rwa [length_levels])] at h
  exact List.forall₂_reverse_iff.1 h

theorem keptBelow_push {depth : Nat} {env : Env} (h : depth ≤ env.depth) :
    env.KeptBelow depth env.push := by
  apply keptBelow_of_eq
  rw [levels_push, List.take_append_of_le_length (by rwa [length_levels])]

theorem keptBelow_pop {depth : Nat} {env rest : Env} (hpop : env.pop = .ok rest)
    (h : depth ≤ rest.depth) : env.KeptBelow depth rest := by
  apply keptBelow_of_eq
  rw [levels_pop hpop, List.take_append_of_le_length (by rwa [length_levels])]

theorem keptBelow_truncate {depth least : Nat} (env : Env) (hpos : 0 < depth) (h : least ≤ depth) :
    env.KeptBelow least (env.truncate depth) := by
  apply keptBelow_of_eq
  rw [levels_truncate env hpos, List.take_take, Nat.min_eq_left h]

end Env

theorem Operation.keptBelow_change {operation : Operation} {before after : Env}
    (h : operation.change before = .ok after) {depth : Nat} (hbefore : depth ≤ before.depth)
    (hafter : depth ≤ after.depth) : before.KeptBelow depth after := by
  cases operation with
  | push =>
    cases h
    exact Env.keptBelow_push hbefore
  | pop => exact Env.keptBelow_pop h hafter
  | declare => exact (Env.safe_declare h).keptBelow depth
  | assign => exact (Env.sealed_assign h).keptBelow depth
  | declareFunction => exact Env.keptBelow_of_eq (by rw [Env.levels_declareFunction h])

theorem Machine.keptBelow_perform {machine : Machine} {operation : Operation} {depth : Nat}
    (hbefore : depth ≤ machine.env.depth) (hafter : depth ≤ (machine.perform operation).env.depth) :
    machine.env.KeptBelow depth (machine.perform operation).env := by
  obtain ⟨hchange, -⟩ | ⟨hsame, -⟩ := machine.perform_cases operation
  · exact operation.keptBelow_change hchange hbefore hafter
  · exact Env.keptBelow_of_eq (by rw [hsame])

namespace Action

mutual

theorem keptBelow_after {depth : Nat} :
    (action : Action) → (machine : Machine) → depth ≤ action.lowest machine →
      machine.env.KeptBelow depth (action.after machine).env
  | operation single, machine, h => by
    rw [lowest, Nat.le_min] at h
    rw [after]
    exact Machine.keptBelow_perform h.1 h.2
  | scope body result, machine, h => by
    rw [lowest, Nat.le_min] at h
    rw [after_scope]
    -- Opening a scope and cutting the stack behind it keep whatever the body keeps.
    have hbody := keptBelow_afterAll body machine.pushScope h.2
    exact (Env.keptBelow_push h.1).trans
      (hbody.trans (Env.keptBelow_truncate _ (Nat.succ_pos _) h.1))

theorem keptBelow_afterAll {depth : Nat} :
    (actions : List Action) → (machine : Machine) → depth ≤ lowestAll actions machine →
      machine.env.KeptBelow depth (afterAll actions machine).env
  | [], machine, _ => Env.keptBelow_of_eq rfl
  | action :: rest, machine, h => by
    rw [lowestAll, Nat.le_min] at h
    rw [afterAll]
    exact (keptBelow_after action machine h.1).trans (keptBelow_afterAll rest _ h.2)

end

end Action

namespace Machine

/-- A step in a fresh scope ends with its own result and no deeper than before, and keeps the scopes
below the least depth on its way. So the scopes are restored if the step has left none of them. -/
theorem withScope_afterAll {α : Type} (machine : Machine) (actions : List Action)
    (result : Except Error α) :
    ∃ left : Machine,
      machine.withScope (fun inner ↦ (Action.afterAll actions inner).yield result) =
        left.yield result ∧
      left.env.depth =
        min machine.env.depth (Action.afterAll actions machine.pushScope).env.depth ∧
      machine.env.KeptBelow
        (min machine.env.depth (Action.lowestAll actions machine.pushScope)) left.env ∧
      (machine.env.depth ≤ Action.lowestAll actions machine.pushScope →
        left.env.depth = machine.env.depth ∧
        List.Forall₂ Scope.Kept machine.env.scopes left.env.scopes) := by
  have hlowest := Action.lowestAll_le actions machine.pushScope
  have hkept := Action.keptBelow_after (.scope actions (.ok ())) machine (Nat.le_refl _)
  rw [Action.after_scope, Action.lowest] at hkept
  have hdepth := Env.depth_truncate (Action.afterAll actions machine.pushScope).env
    (Nat.succ_pos machine.env.enclosing.length)
  refine ⟨_, withScope_yield _ result machine, hdepth, hkept, fun h ↦ ?_⟩
  have hsame := hdepth.trans (Nat.min_eq_left (h.trans hlowest))
  rw [Nat.min_eq_left h] at hkept
  exact ⟨hsame, hkept.forall₂_scopes (Nat.le_refl _) hsame.le⟩

/-- From a scope with the variable `x`: leaving it ends one scope too low, and opening another one
in its place loses `x`. -/
theorem withScope_loses_scope :
    hidden.env.depth = 2 ∧ (hidden.env.binding? 1 "x").isSome = true ∧
    (∃ left, hidden.withScope (fun inner ↦ (Action.afterAll
        [.operation .pop, .operation .pop] inner).yield (.ok ())) = .done left () ∧
      left.env.depth = 1) ∧
    ∃ left, hidden.withScope (fun inner ↦ (Action.afterAll
        [.operation .pop, .operation .pop, .operation .push] inner).yield (.ok ())) =
        .done left () ∧
      left.env.depth = 2 ∧ left.env.binding? 1 "x" = none :=
  ⟨rfl, rfl, ⟨_, rfl, rfl⟩, ⟨_, rfl, rfl, rfl⟩⟩

/-- The actions open a scope and leave it, then run others that fail in a scope of their own. -/
theorem withScope_afterAll_failing :
    ∃ left : Machine, hidden.withScope (fun inner ↦ (Action.afterAll
        [.operation .push, .operation .pop, .scope [.operation .pop] (.error .popGlobalScope),
          .operation (.assign "y" (.string "d"))] inner).yield
          (.error .popGlobalScope : Except Error Unit)) = .failed left .popGlobalScope ∧
      left.env.depth = 2 ∧ List.Forall₂ Scope.Kept hidden.env.scopes left.env.scopes := by
  obtain ⟨left, hleft, -, -, hrestored⟩ := withScope_afterAll hidden
    [.operation .push, .operation .pop, .scope [.operation .pop] (.error .popGlobalScope),
      .operation (.assign "y" (.string "d"))] (.error .popGlobalScope : Except Error Unit)
  obtain ⟨hdepth, hkept⟩ := hrestored (by decide)
  exact ⟨left, hleft, hdepth, hkept⟩

end Machine

end Scriptlet
