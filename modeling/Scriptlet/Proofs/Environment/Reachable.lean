import Mathlib.Data.List.Nodup
import Scriptlet.Proofs.Environment.Run

/-!
# Reachable environments

An environment starts out empty. Operations change it or fail, programs run on it, and both may
happen in a fresh scope that is left afterwards. A property that every single operation keeps, and
that scopes can be left without losing, holds of each environment that comes of this.

The invariant that is needed below is that no scope declares a name twice. The order of the entries
of a scope then means nothing: what a name refers to depends on which entries there are.
-/

namespace Scriptlet

/-! ## What can happen to an environment -/

/-- The environments that come of operations, of runs of programs, and of steps in a fresh scope
that leave such environments themselves. -/
inductive Env.Reachable : Env → Prop
  | empty : Reachable .empty
  | perform {machine : Machine} (operation : Operation) (h : Reachable machine.env) :
      Reachable (machine.perform operation).env
  | run {before after : Env} (h : Reachable before) (hrun : before.Run after) : Reachable after
  | scope {α : Type} {machine left : Machine} {step : Machine → Outcome α}
      (h : Reachable machine.env)
      (hinside : ∀ inner, (step machine.pushScope).machine? = some inner → Reachable inner.env)
      (hleft : (machine.withScope step).machine? = some left) : Reachable left.env

theorem Env.Reachable.performAll {machine : Machine} (h : machine.env.Reachable)
    (operations : List Operation) : (machine.performAll operations).env.Reachable := by
  induction operations generalizing machine with
  | nil => exact h
  | cons operation rest ih => exact ih (h.perform operation)

/-- A property that environments start out with and that no operation takes from them. -/
structure Env.Invariant (P : Env → Prop) : Prop where
  empty : P .empty
  change (operation : Operation) {before after : Env} (h : P before)
    (hafter : operation.change before = .ok after) : P after
  truncate {env : Env} (h : P env) (depth : Nat) : P (env.truncate depth)

namespace Env

/-- The steps of a run keep the property. -/
theorem Invariant.stepwise {P : Env → Prop} (hP : Invariant P) :
    Stepwise fun before after ↦ P before → P after where
  refl _ h := h
  trans hfirst hsecond h := hsecond (hfirst h)
  declare {name value isMutable _ _} hafter h :=
    hP.change (.declare name value isMutable) h hafter
  assign {name value _ _} hafter h := hP.change (.assign name value) h hafter
  scope hinner h := hP.truncate (hinner (hP.change .push h rfl)) _

theorem Invariant.of_reachable {P : Env → Prop} (hP : Invariant P) {env : Env}
    (h : env.Reachable) : P env := by
  induction h with
  | empty => exact hP.empty
  | @perform machine operation _ ih =>
    obtain ⟨hchange, -⟩ | ⟨hsame, -⟩ := machine.perform_cases operation
    · exact hP.change operation ih hchange
    · rwa [hsame]
  | run _ hrun ih => exact hP.stepwise.of_run hrun ih
  | scope _ _ hleft _ ih =>
    obtain ⟨inner, hinner, henv⟩ := Machine.env_of_withScope hleft
    rw [henv]
    exact hP.truncate (ih inner hinner) _

end Env

/-! ## Names are declared once -/

namespace Scope

/-- The names that the scope declares, in the order of its entries. -/
def names (scope : Scope) : List String := scope.map Prod.fst

theorem names_update (name : String) (value : Scalar) (scope : Scope) :
    (scope.update name value).names = scope.names := by
  have h := congrArg (List.map Prod.fst) (map_update name value scope)
  rwa [List.map_map, List.map_map] at h

theorem lookup_eq_none_iff {name : String} {scope : Scope} :
    scope.lookup name = none ↔ name ∉ scope.names := by
  rw [List.lookup_eq_none_iff, names, List.mem_map]
  constructor
  · rintro h ⟨entry, hentry, rfl⟩
    exact bne_iff_ne.1 (h entry hentry) rfl
  · intro h entry hentry
    exact bne_iff_ne.2 fun heq ↦ h ⟨entry, hentry, heq.symm⟩

theorem isSome_lookup_iff {name : String} {scope : Scope} :
    (scope.lookup name).isSome = true ↔ name ∈ scope.names := by
  rw [← not_iff_not, Bool.not_eq_true, Option.isSome_eq_false_iff, Option.isNone_iff_eq_none]
  exact lookup_eq_none_iff

/-- Where names are declared once, to look one up is to find its entry. -/
theorem mem_iff_lookup {scope : Scope} (h : scope.names.Nodup) {name : String} {held : Variable} :
    (name, held) ∈ scope ↔ scope.lookup name = some held := by
  induction scope with
  | nil => simp
  | cons entry rest ih =>
    obtain ⟨key, other⟩ := entry
    obtain ⟨hkey, hrest⟩ := List.nodup_cons.1 h
    rw [List.mem_cons, Prod.mk.injEq, ih hrest, List.lookup_cons]
    by_cases hname : name = key
    · subst hname
      rw [lookup_eq_none_iff.2 hkey, beq_self_eq_true]
      simp [eq_comm]
    · rw [beq_false_of_ne hname]
      simp [hname]

theorem lookup_perm {scope order : Scope} (h : scope.Perm order) (hnames : scope.names.Nodup)
    (name : String) : order.lookup name = scope.lookup name := by
  ext held
  have horder : order.names.Nodup := (h.map Prod.fst).nodup_iff.1 hnames
  rw [← mem_iff_lookup hnames, ← mem_iff_lookup horder]
  exact h.mem_iff.symm

end Scope

namespace Env

/-- No scope declares a name twice. -/
def Unambiguous (env : Env) : Prop := ∀ scope ∈ env.scopes, scope.names.Nodup

theorem map_names_assignIn {name : String} {value : Scalar} {before after : List Scope}
    (h : assignIn name value before = .ok after) :
    after.map Scope.names = before.map Scope.names := by
  fun_induction assignIn name value before generalizing after with
  | case1 => cases h
  | case2 scope rest found hfound hmutable =>
    cases h
    rw [List.map_cons, List.map_cons, Scope.names_update]
  | case3 => cases h
  | case4 scope rest hnone changed hchanged ih =>
    cases h
    rw [List.map_cons, List.map_cons, ih hchanged]
  | case5 => cases h

theorem unambiguous_change {operation : Operation} {before after : Env}
    (h : before.Unambiguous) (hafter : operation.change before = .ok after) :
    after.Unambiguous := by
  cases operation with
  | push =>
    cases hafter
    exact List.forall_mem_cons.2 ⟨List.nodup_nil, h⟩
  | pop =>
    intro scope hscope
    apply h
    rw [scopes_pop hafter]
    exact List.mem_cons_of_mem _ hscope
  | declare name value isMutable =>
    obtain ⟨hinnermost, henclosing⟩ := List.forall_mem_cons.1 h
    replace hafter : before.declare name value isMutable = .ok after := hafter
    unfold declare at hafter
    split at hafter
    · cases hafter
    · rename_i hnew
      cases hafter
      refine List.forall_mem_cons.2 ⟨?_, henclosing⟩
      rw [Scope.names, List.map_append]
      apply List.Nodup.append hinnermost (List.nodup_singleton name)
      exact List.disjoint_singleton.2 (Scope.lookup_eq_none_iff.1 hnew)
  | assign name value =>
    have hnames : after.scopes.map Scope.names = before.scopes.map Scope.names :=
      map_names_assignIn (scopes_assign hafter)
    unfold Unambiguous at h ⊢
    rwa [← @List.forall_mem_map _ _ Scope.names, hnames, List.forall_mem_map]
  | declareFunction name body =>
    replace hafter : before.declareFunction name body = .ok after := hafter
    unfold declareFunction at hafter
    split at hafter
    · cases hafter
    · cases hafter
      exact h

theorem unambiguous_truncate {env : Env} (h : env.Unambiguous) (depth : Nat) :
    (env.truncate depth).Unambiguous := by
  unfold truncate
  split
  · exact h
  · rename_i scope rest hscopes
    intro other hother
    apply h
    apply List.mem_of_mem_drop
    rw [hscopes]
    exact hother

theorem unambiguous_invariant : Invariant Unambiguous where
  empty := by
    intro scope hscope
    rw [List.mem_singleton.1 hscope]
    exact List.nodup_nil
  change _ _ _ := unambiguous_change
  truncate := unambiguous_truncate

end Env

end Scriptlet
