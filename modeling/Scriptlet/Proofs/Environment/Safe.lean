import Mathlib.Data.List.Forall2
import Scriptlet.Env

/-!
# What environments keep

Two relations between an environment and a later one. In a safe change no variable gets lost or
changes its mutability, no immutable value changes, and only the innermost scope gains names. In a
sealed change not even that scope does. Declaring is safe, assigning is sealed, and whatever is
safe inside a scope is sealed outside it once the scope has been left.
-/

namespace Scriptlet

namespace Scope

/-- Every variable stays, with its mutability and, unless it is mutable, with its value. -/
def Kept (before after : Scope) : Prop :=
  ∀ name held, before.lookup name = some held →
    ∃ now, after.lookup name = some now ∧ now.isMutable = held.isMutable ∧
      (held.isMutable = false → now.value = held.value)

/-- The two scopes declare the same names. -/
def SameNames (before after : Scope) : Prop :=
  ∀ name, (before.lookup name).isSome = (after.lookup name).isSome

instance : Std.Refl Kept where
  refl _ _ held h := ⟨held, h, rfl, fun _ ↦ rfl⟩

theorem Kept.trans {first second third : Scope} (hfirst : first.Kept second)
    (hsecond : second.Kept third) : first.Kept third := by
  intro name held hheld
  obtain ⟨now, hnow, hmutable, hvalue⟩ := hfirst name held hheld
  obtain ⟨later, hlater, hmutable', hvalue'⟩ := hsecond name now hnow
  refine ⟨later, hlater, hmutable'.trans hmutable, fun himmutable ↦ ?_⟩
  rw [hvalue' (hmutable.trans himmutable), hvalue himmutable]

instance : Std.Refl SameNames where
  refl _ _ := rfl

theorem SameNames.trans {first second third : Scope} (hfirst : first.SameNames second)
    (hsecond : second.SameNames third) : first.SameNames third :=
  fun name ↦ (hfirst name).trans (hsecond name)

/-- A new entry behind the others hides none of them. -/
theorem kept_append (scope : Scope) (entry : String × Variable) : scope.Kept (scope ++ [entry]) := by
  intro name held hheld
  refine ⟨held, ?_, rfl, fun _ ↦ rfl⟩
  rw [List.lookup_append, hheld, Option.some_or]

theorem sameNames_update (scope : Scope) (name : String) (value : Scalar) :
    scope.SameNames (scope.update name value) := by
  intro other
  rw [lookup_update]
  split
  · rw [Option.isSome_map]
  · rfl

theorem kept_update {scope : Scope} {name : String} {found : Variable}
    (hfound : scope.lookup name = some found) (hmutable : found.isMutable = true)
    (value : Scalar) : scope.Kept (scope.update name value) := by
  intro other held hheld
  rw [lookup_update]
  split
  · rename_i hother
    subst hother
    obtain rfl : held = found := Option.some.inj (hheld.symm.trans hfound)
    rw [hheld]
    refine ⟨_, rfl, rfl, fun himmutable ↦ ?_⟩
    rw [hmutable] at himmutable
    cases himmutable
  · exact ⟨held, hheld, rfl, fun _ ↦ rfl⟩

end Scope

namespace Env

/-- What holds between the environments before and after any run. -/
structure Safe (before after : Env) : Prop where
  depth : after.depth = before.depth
  kept : List.Forall₂ Scope.Kept before.scopes after.scopes
  sameNames : List.Forall₂ Scope.SameNames before.enclosing after.enclosing
  functions : after.functions = before.functions

/-- A safe change that declares nothing. -/
structure Sealed (before after : Env) : Prop extends Safe before after where
  innermost : before.innermost.SameNames after.innermost

theorem forall₂_trans {R : Scope → Scope → Prop}
    (htrans : ∀ first second third, R first second → R second third → R first third)
    {first second third : List Scope} (hfirst : List.Forall₂ R first second)
    (hsecond : List.Forall₂ R second third) : List.Forall₂ R first third := by
  induction hfirst generalizing third with
  | nil => exact hsecond
  | cons hhead _ ih =>
    cases hsecond with
    | cons hhead' htail' => exact .cons (htrans _ _ _ hhead hhead') (ih htail')

theorem Safe.refl (env : Env) : env.Safe env where
  depth := rfl
  kept := List.forall₂_refl _
  sameNames := List.forall₂_refl _
  functions := rfl

theorem Safe.trans {first second third : Env} (hfirst : first.Safe second)
    (hsecond : second.Safe third) : first.Safe third where
  depth := hsecond.depth.trans hfirst.depth
  kept := forall₂_trans @Scope.Kept.trans hfirst.kept hsecond.kept
  sameNames := forall₂_trans @Scope.SameNames.trans hfirst.sameNames hsecond.sameNames
  functions := hsecond.functions.trans hfirst.functions

/-! ## The operations on environments -/

theorem safe_declare {name : String} {value : Scalar} {isMutable : Bool} {before after : Env}
    (h : before.declare name value isMutable = .ok after) : before.Safe after := by
  unfold declare at h
  split at h
  · cases h
  · cases h
    exact ⟨rfl, .cons (Scope.kept_append _ _) (List.forall₂_refl _), List.forall₂_refl _, rfl⟩

/-- An assignment changes one mutable value in one scope. -/
theorem forall₂_assignIn {name : String} {value : Scalar} {before after : List Scope}
    (h : assignIn name value before = .ok after) :
    List.Forall₂ (fun scope changed ↦ scope.Kept changed ∧ scope.SameNames changed)
      before after := by
  fun_induction assignIn name value before generalizing after with
  | case1 => cases h
  | case2 scope rest found hfound hmutable =>
    cases h
    refine .cons ⟨Scope.kept_update hfound hmutable value, Scope.sameNames_update scope name value⟩
      (List.forall₂_same.2 fun other _ ↦ ⟨refl other, refl other⟩)
  | case3 => cases h
  | case4 scope rest hnone changed hchanged ih =>
    cases h
    exact .cons ⟨refl scope, refl scope⟩ (ih hchanged)
  | case5 => cases h

theorem functions_assign {name : String} {value : Scalar} {before after : Env}
    (h : before.assign name value = .ok after) : after.functions = before.functions := by
  unfold assign at h
  split at h <;> cases h <;> rfl

theorem sealed_assign {name : String} {value : Scalar} {before after : Env}
    (h : before.assign name value = .ok after) : before.Sealed after := by
  have hscopes := forall₂_assignIn (scopes_assign h)
  have hkept := hscopes.imp fun _ _ hscope ↦ hscope.1
  obtain ⟨hinnermost, hsameNames⟩ :=
    List.forall₂_cons.1 (hscopes.imp fun _ _ hscope ↦ hscope.2)
  exact ⟨⟨hkept.length_eq.symm, hkept, hsameNames, functions_assign h⟩, hinnermost⟩

/-- After a safe change inside a fresh scope, leaving it brings back the scopes around it. -/
theorem scopes_truncate_of_safe {env inner : Env} (h : env.push.Safe inner) :
    (inner.truncate env.depth).scopes = inner.enclosing := by
  have hpush : env.push.depth = env.depth + 1 := rfl
  have hdepth : inner.depth - env.depth = 1 := by
    rw [h.depth, hpush]
    omega
  have hpos : 0 < env.depth := Nat.succ_pos _
  rw [scopes_truncate inner hpos, hdepth]
  rfl

/-- Leaving a scope drops what was declared in it and nothing else. -/
theorem sealed_truncate {env inner : Env} (h : env.push.Safe inner) :
    env.Sealed (inner.truncate env.depth) := by
  have hkept : List.Forall₂ Scope.Kept env.scopes inner.enclosing :=
    (List.forall₂_cons.1 h.kept).2
  have hnames : List.Forall₂ Scope.SameNames env.scopes inner.enclosing := h.sameNames
  rw [← scopes_truncate_of_safe h] at hkept hnames
  obtain ⟨hinnermost, hsameNames⟩ := List.forall₂_cons.1 hnames
  refine ⟨⟨hkept.length_eq.symm, hkept, hsameNames, ?_⟩, hinnermost⟩
  rw [functions_truncate, h.functions]
  rfl

end Env

end Scriptlet
