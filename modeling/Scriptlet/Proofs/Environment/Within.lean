import Scriptlet.Proofs.Environment.Safe

/-!
# What environments show

An environment is within another if the other shows every variable that it shows, in whichever
scopes the two keep them. Assigning keeps one environment within another, and so does declaring a
name that the larger one does not have. A scope of the smaller one can be left as long as the names
declared in it were not shown before: then it has hidden nothing that now comes back.

Which names an environment has gained is kept in a list, and how often a name may be declared can
be read off that list.
-/

namespace Scriptlet

namespace Env

/-- The variable that a name refers to in a stack of scopes. -/
abbrev shown (name : String) (scopes : List Scope) : Option Variable :=
  scopes.findSome? fun scope ↦ scope.lookup name

theorem shown_cons (name : String) (scope : Scope) (rest : List Scope) :
    shown name (scope :: rest) = (scope.lookup name).or (shown name rest) := by
  rw [shown, List.findSome?_cons]
  cases scope.lookup name <;> rfl

theorem lookup?_eq_or (name : String) (env : Env) :
    env.lookup? name = (env.innermost.lookup name).or (shown name env.enclosing) :=
  shown_cons name env.innermost env.enclosing

theorem isSome_shown {before after : List Scope}
    (h : List.Forall₂ Scope.SameNames before after) (name : String) :
    (shown name before).isSome = (shown name after).isSome := by
  induction h with
  | nil => rfl
  | cons hscope _ ih => rw [shown_cons, shown_cons, Option.isSome_or, Option.isSome_or, hscope, ih]

theorem Sealed.isSome_lookup? {before after : Env} (h : before.Sealed after) (name : String) :
    (before.lookup? name).isSome = (after.lookup? name).isSome :=
  isSome_shown (.cons h.innermost h.sameNames) name

/-! ## Declarations and assignments -/

theorem lookup?_declare {name : String} {value : Scalar} {isMutable : Bool} {before after : Env}
    (h : before.declare name value isMutable = .ok after) (other : String) :
    after.lookup? other =
      if other = name then some ⟨value, isMutable⟩ else before.lookup? other := by
  unfold declare at h
  split at h
  · cases h
  rename_i hnew
  cases h
  rw [lookup?_eq_or, List.lookup_append]
  by_cases hother : other = name
  · subst hother
    rw [hnew, if_pos rfl, List.lookup_cons_self]
    rfl
  · have hbeq : (other == name) = false := beq_false_of_ne hother
    rw [List.lookup_cons, hbeq, List.lookup_nil, Option.or_none, if_neg hother]
    exact (lookup?_eq_or other before).symm

theorem exists_declare {name : String} {env : Env} (h : env.lookup? name = none) (value : Scalar)
    (isMutable : Bool) : ∃ after, env.declare name value isMutable = .ok after := by
  have hnew : env.innermost.lookup name = none := by
    rw [lookup?_eq_or, Option.or_eq_none_iff] at h
    exact h.1
  unfold declare
  rw [hnew]
  exact ⟨_, rfl⟩

/-- Only what the name refers to changes, and that is mutable. -/
theorem shown_assignIn {name : String} {value : Scalar} {before after : List Scope}
    (h : assignIn name value before = .ok after) :
    ∃ held, shown name before = some held ∧ held.isMutable = true ∧
      ∀ other, shown other after =
        if other = name then some { held with value := value } else shown other before := by
  fun_induction assignIn name value before generalizing after with
  | case1 => cases h
  | case2 scope rest found hfound hmutable =>
    cases h
    refine ⟨found, by rw [shown_cons, hfound, Option.some_or], hmutable, fun other ↦ ?_⟩
    rw [shown_cons, Scope.lookup_update]
    split
    · rename_i hother
      rw [hother, hfound]
      rfl
    · exact (shown_cons other scope rest).symm
  | case3 => cases h
  | case4 scope rest hnone changed hchanged ih =>
    cases h
    obtain ⟨held, hheld, hmutable, hafter⟩ := ih hchanged
    refine ⟨held, by rw [shown_cons, hnone, Option.none_or, hheld], hmutable, fun other ↦ ?_⟩
    rw [shown_cons, hafter]
    split
    · rename_i hother
      rw [hother, hnone, Option.none_or]
    · exact (shown_cons other scope rest).symm
  | case5 => cases h

theorem exists_assignIn {name : String} {held : Variable} {scopes : List Scope}
    (h : shown name scopes = some held) (hmutable : held.isMutable = true) (value : Scalar) :
    ∃ after, assignIn name value scopes = .ok after := by
  induction scopes with
  | nil => cases h
  | cons scope rest ih =>
    rw [shown_cons] at h
    unfold assignIn
    cases hscope : scope.lookup name with
    | some found =>
      rw [hscope, Option.some_or, Option.some.injEq] at h
      dsimp only
      rw [h, hmutable]
      exact ⟨_, rfl⟩
    | none =>
      rw [hscope, Option.none_or] at h
      obtain ⟨after, hafter⟩ := ih h
      dsimp only
      rw [hafter]
      exact ⟨_, rfl⟩

theorem exists_assign {name : String} {held : Variable} {env : Env}
    (h : env.lookup? name = some held) (hmutable : held.isMutable = true) (value : Scalar) :
    ∃ after, env.assign name value = .ok after := by
  obtain ⟨after, hafter⟩ := exists_assignIn h hmutable value
  unfold assign
  rw [hafter]
  cases after with
  | nil => exact ⟨_, rfl⟩
  | cons scope rest => exact ⟨_, rfl⟩

/-- An assignment to a variable in sight fails only if that variable is immutable. -/
theorem assignIn_eq_error {name : String} {value : Scalar} {scopes : List Scope} {held : Variable}
    (hheld : shown name scopes = some held) {error : Error}
    (h : assignIn name value scopes = .error error) :
    error = .immutableAssignment name ∧ held.isMutable = false := by
  fun_induction assignIn name value scopes with
  | case1 => cases hheld
  | case2 => cases h
  | case3 scope rest found hfound hmutable =>
    cases h
    rw [shown_cons, hfound, Option.some_or, Option.some.injEq] at hheld
    rw [← hheld]
    exact ⟨rfl, Bool.not_eq_true _ ▸ hmutable⟩
  | case4 => cases h
  | case5 scope rest hnone error herror ih =>
    cases h
    rw [shown_cons, hnone, Option.none_or] at hheld
    exact ih hheld herror

theorem assign_eq_error {name : String} {value : Scalar} {env : Env} {held : Variable}
    (hheld : env.lookup? name = some held) {error : Error}
    (h : env.assign name value = .error error) :
    error = .immutableAssignment name ∧ held.isMutable = false := by
  unfold assign at h
  split at h
  · cases h
  · cases h
  · rename_i herror
    cases h
    exact assignIn_eq_error hheld herror

/-- An immutable variable refuses what is assigned to its name. -/
theorem assign_of_immutable {name : String} {held : Variable} {env : Env}
    (h : env.lookup? name = some held) (himmutable : held.isMutable = false) (value : Scalar) :
    env.assign name value = .error (.immutableAssignment name) := by
  cases hassign : env.assign name value with
  | ok after =>
    obtain ⟨found, hfound, hmutable, -⟩ := shown_assignIn (scopes_assign hassign)
    obtain rfl : held = found := Option.some.inj (h.symm.trans hfound)
    rw [himmutable] at hmutable
    cases hmutable
  | error error => rw [(assign_eq_error h hassign).1]

theorem assignIn_of_shown_eq_none {name : String} {scopes : List Scope}
    (h : shown name scopes = none) (value : Scalar) :
    assignIn name value scopes = .error (.undefinedVariable name) := by
  induction scopes with
  | nil => rfl
  | cons scope rest ih =>
    rw [shown_cons, Option.or_eq_none_iff] at h
    rw [assignIn, h.1]
    dsimp only
    rw [ih h.2]

theorem assign_of_lookup?_eq_none {name : String} {env : Env} (h : env.lookup? name = none)
    (value : Scalar) : env.assign name value = .error (.undefinedVariable name) := by
  rw [assign, assignIn_of_shown_eq_none h]

/-! ## Growing by names -/

/-- A safe change whose new names are all in the list. -/
structure Grows (names : List String) (before after : Env) : Prop extends Safe before after where
  gained : ∀ name, (after.innermost.lookup name).isSome →
    (before.innermost.lookup name).isSome ∨ name ∈ names

theorem Sealed.grows {before after : Env} (h : before.Sealed after) (names : List String) :
    before.Grows names after :=
  ⟨h.toSafe, fun name hname ↦ .inl (h.innermost name ▸ hname)⟩

theorem Grows.refl (names : List String) (env : Env) : env.Grows names env :=
  ⟨.refl env, fun _ hname ↦ .inl hname⟩

theorem Grows.mono {names more : List String} (hnames : names ⊆ more) {before after : Env}
    (h : before.Grows names after) : before.Grows more after :=
  ⟨h.toSafe, fun name hname ↦ (h.gained name hname).imp_right (@hnames name)⟩

/-- One change after another gains the names of both. -/
theorem Grows.trans {names others : List String} {first second third : Env}
    (hfirst : first.Grows names second) (hsecond : second.Grows others third) :
    first.Grows (names ++ others) third := by
  refine ⟨hfirst.toSafe.trans hsecond.toSafe, fun name hname ↦ ?_⟩
  obtain hold | hnew := hsecond.gained name hname
  · exact (hfirst.gained name hold).imp_right (List.mem_append_left others)
  · exact .inr (List.mem_append_right names hnew)

theorem grows_declare {name : String} {value : Scalar} {isMutable : Bool} {before after : Env}
    (h : before.declare name value isMutable = .ok after) : before.Grows [name] after := by
  refine ⟨safe_declare h, fun other hother ↦ ?_⟩
  unfold declare at h
  split at h
  · cases h
  cases h
  rw [List.lookup_append, Option.isSome_or, Bool.or_eq_true] at hother
  refine hother.imp_right fun hother ↦ ?_
  obtain rfl | hne := eq_or_ne other name
  · exact List.mem_singleton.2 rfl
  · rw [List.lookup_cons, beq_false_of_ne hne] at hother
    cases hother

/-- A name that is not in the list stays new. -/
theorem Grows.lookup?_eq_none {names : List String} {before after : Env}
    (h : before.Grows names after) {name : String} (hnew : before.lookup? name = none)
    (hname : name ∉ names) : after.lookup? name = none := by
  rw [lookup?_eq_or, Option.or_eq_none_iff] at hnew ⊢
  constructor
  · refine Option.eq_none_iff_forall_ne_some.2 fun held hheld ↦ ?_
    obtain hold | hgained := h.gained name (hheld ▸ rfl)
    · rw [hnew.1] at hold
      cases hold
    · exact hname hgained
  · have hsome := isSome_shown h.sameNames name
    rw [hnew.2] at hsome
    exact Option.isNone_iff_eq_none.1 (Option.isSome_eq_false_iff.1 hsome.symm)

/-! ## One environment within another -/

/-- Every variable that the first environment shows, the second shows too. -/
def Within (env other : Env) : Prop :=
  ∀ name held, env.lookup? name = some held → other.lookup? name = some held

theorem Within.has {env other : Env} (h : env.Within other) {name : String}
    (hname : env.has name = true) : other.has name = true := by
  obtain ⟨held, hheld⟩ := Option.isSome_iff_exists.1 hname
  exact Option.isSome_iff_exists.2 ⟨held, h name held hheld⟩

theorem Within.declare {env other after : Env} (h : env.Within other) {name : String}
    (hnew : other.lookup? name = none) {value : Scalar} {isMutable : Bool}
    (hafter : env.declare name value isMutable = .ok after) :
    ∃ reached, other.declare name value isMutable = .ok reached ∧ after.Within reached := by
  obtain ⟨reached, hreached⟩ := exists_declare hnew value isMutable
  refine ⟨reached, hreached, fun name held hheld ↦ ?_⟩
  rw [lookup?_declare hafter] at hheld
  rw [lookup?_declare hreached]
  split at hheld
  · rename_i hname
    rw [if_pos hname, hheld]
  · rename_i hname
    rw [if_neg hname]
    exact h name held hheld

theorem Within.assign {env other after : Env} (h : env.Within other) {name : String}
    {value : Scalar} (hafter : env.assign name value = .ok after) :
    ∃ reached, other.assign name value = .ok reached ∧ after.Within reached := by
  obtain ⟨held, hheld, hmutable, hchange⟩ := shown_assignIn (scopes_assign hafter)
  obtain ⟨reached, hreached⟩ := exists_assign (h name held hheld) hmutable value
  obtain ⟨found, hfound, -, hother⟩ := shown_assignIn (scopes_assign hreached)
  obtain rfl : held = found := Option.some.inj ((h name held hheld).symm.trans hfound)
  refine ⟨reached, hreached, fun name now hnow ↦ ?_⟩
  rw [lookup?, ← shown, hchange] at hnow
  rw [lookup?, ← shown, hother]
  split at hnow
  · rename_i hname
    rw [if_pos hname, hnow]
  · rename_i hname
    rw [if_neg hname]
    exact h name now hnow

/-- A name that comes back into sight was in sight before, and so no declaration inside the scope
that is left can have hidden it. -/
theorem Within.truncate {names : List String} {env other inner reached : Env}
    (h : env.Within other) (hnew : ∀ name ∈ names, other.lookup? name = none)
    (hgrows : env.push.Grows names inner) (hinner : inner.Within reached) :
    (inner.truncate env.depth).Within reached := by
  intro name held hheld
  have hname : name ∉ names := by
    intro hmem
    have hbefore : (env.lookup? name).isSome := by
      rw [(sealed_truncate hgrows.toSafe).isSome_lookup?, hheld]
      rfl
    have hother : (other.lookup? name).isSome := h.has hbefore
    rw [hnew name hmem] at hother
    cases hother
  have hinnermost : inner.innermost.lookup name = none := by
    refine Option.eq_none_iff_forall_ne_some.2 fun found hfound ↦ ?_
    obtain hpush | hgained := hgrows.gained name (hfound ▸ rfl)
    · cases hpush
    · exact hname hgained
  apply hinner
  calc
    inner.lookup? name = shown name inner.enclosing := by
      rw [lookup?_eq_or, hinnermost, Option.none_or]
    _ = some held := by
      rw [← scopes_truncate_of_safe hgrows.toSafe]
      exact hheld

end Env

end Scriptlet
