import Mathlib.Data.String.Basic
import Scriptlet.Proofs.Environment.Reachable
import Scriptlet.Proofs.Environment.Within

/-!
# The listing agrees with lookup

Reading a name takes the first scope that declares it. The listing goes through the entries of all
scopes instead and inserts each one whose name is new, in whatever order a scope enumerates them.
Two facts about one insertion carry the rest: the listing stays in order, and what it shows of a
name is what it showed before or else the new entry. So a listing shows of each name what the first
scope says of it, and two listings in order that show the same are the same.
-/

namespace Scriptlet

/-! ## Listings in order -/

namespace Scope

/-- The names are in ascending order, each of them once. -/
def Ascending (scope : Scope) : Prop := scope.names.Pairwise (· < ·)

variable {name : String} {held : Variable} {rest : Scope}

theorem ascending_cons :
    Ascending ((name, held) :: rest) ↔ (∀ other ∈ rest.names, name < other) ∧ rest.Ascending :=
  List.pairwise_cons

theorem ascending_nil : Ascending [] := List.Pairwise.nil

theorem Ascending.nodup {listing : Scope} (h : listing.Ascending) : listing.names.Nodup :=
  List.Pairwise.imp ne_of_lt h

/-- A name before the first one is not there. -/
theorem Ascending.lookup_eq_none (h : Ascending ((name, held) :: rest)) {other : String}
    (hother : other < name) : List.lookup other ((name, held) :: rest) = none := by
  apply lookup_eq_none_iff.2
  intro hmem
  obtain rfl | hrest := List.mem_cons.1 hmem
  · exact lt_irrefl _ hother
  · exact lt_asymm hother ((ascending_cons.1 h).1 other hrest)

/-- In order, a listing is determined by what it shows of each name. -/
theorem Ascending.eq_of_lookup {listing other : Scope} (h : listing.Ascending)
    (hother : other.Ascending) (heq : ∀ name, listing.lookup name = other.lookup name) :
    listing = other := by
  have hperm : listing.Perm other := by
    apply (List.perm_ext_iff_of_nodup h.nodup.of_map hother.nodup.of_map).2
    rintro ⟨name, held⟩
    rw [mem_iff_lookup h.nodup, mem_iff_lookup hother.nodup, heq]
  apply hperm.eq_of_pairwise _ (List.pairwise_map.1 h) (List.pairwise_map.1 hother)
  intro entry twin _ _ hlt hgt
  exact absurd hgt (lt_asymm hlt)

end Scope

namespace Env

open Scope

/-! ## The order of names -/

theorem precedes_iff {first second : List Char} :
    precedes first second = true ↔ first < second := by
  induction first generalizing second with
  | nil => cases second <;> simp [precedes]
  | cons c rest ih =>
    cases second with
    | nil => simp [precedes]
    | cons d others =>
      rw [precedes, List.cons_lt_cons_iff, Bool.or_eq_true, decide_eq_true_iff, Bool.and_eq_true,
        beq_iff_eq, Char.toNat_inj, ih]
      rfl

theorem precedes_toList_iff {name other : String} :
    precedes name.toList other.toList = true ↔ name < other :=
  precedes_iff.trans String.lt_iff_toList_lt.symm

/-! ## One insertion -/

variable {name other : String} {found held : Variable} {rest : Scope}

theorem insertNew_same : insertNew name found ((name, held) :: rest) = (name, held) :: rest := by
  rw [insertNew, beq_self_eq_true, if_pos rfl]

theorem insertNew_of_lt (h : name < other) :
    insertNew name found ((other, held) :: rest) = (name, found) :: (other, held) :: rest := by
  rw [insertNew, beq_false_of_ne h.ne, if_neg Bool.false_ne_true, if_pos (precedes_toList_iff.2 h)]

theorem insertNew_of_gt (h : other < name) :
    insertNew name found ((other, held) :: rest) = (other, held) :: insertNew name found rest := by
  rw [insertNew, beq_false_of_ne h.ne', if_neg Bool.false_ne_true,
    if_neg (mt precedes_toList_iff.1 (lt_asymm h))]

/-- What is listed already stays, and nothing is listed but the new entry. -/
theorem lookup_insertNew {listing : Scope} (h : listing.Ascending) (name other : String)
    (found : Variable) :
    (insertNew name found listing).lookup other =
      (listing.lookup other).or (if other = name then some found else none) := by
  induction listing with
  | nil =>
    rw [insertNew, List.lookup_nil, Option.none_or, List.lookup_cons, List.lookup_nil]
    by_cases hother : other = name
    · rw [hother, beq_self_eq_true, if_pos rfl]
    · rw [beq_false_of_ne hother, if_neg hother]
  | cons entry rest ih =>
    obtain ⟨key, held⟩ := entry
    have hrest := ih (ascending_cons.1 h).2
    obtain hlt | rfl | hgt := lt_trichotomy name key
    · rw [insertNew_of_lt hlt, List.lookup_cons]
      by_cases hother : other = name
      · rw [hother, beq_self_eq_true, h.lookup_eq_none hlt, Option.none_or, if_pos rfl]
      · rw [beq_false_of_ne hother, if_neg hother, Option.or_none]
    · rw [insertNew_same]
      by_cases hother : other = name
      · rw [hother, List.lookup_cons_self, Option.some_or]
      · rw [if_neg hother, Option.or_none]
    · rw [insertNew_of_gt hgt, List.lookup_cons, List.lookup_cons]
      by_cases hother : other = key
      · rw [hother, beq_self_eq_true, Option.some_or]
      · rw [beq_false_of_ne hother]
        exact hrest

theorem ascending_insertNew {listing : Scope} (h : listing.Ascending) (name : String)
    (found : Variable) : (insertNew name found listing).Ascending := by
  induction listing with
  | nil => exact List.pairwise_singleton _ _
  | cons entry rest ih =>
    obtain ⟨key, held⟩ := entry
    obtain ⟨hkey, hrest⟩ := ascending_cons.1 h
    obtain hlt | rfl | hgt := lt_trichotomy name key
    · rw [insertNew_of_lt hlt]
      refine ascending_cons.2 ⟨?_, h⟩
      intro other hother
      obtain rfl | hmem := List.mem_cons.1 hother
      · exact hlt
      · exact hlt.trans (hkey other hmem)
    · rwa [insertNew_same]
    · rw [insertNew_of_gt hgt]
      refine ascending_cons.2 ⟨?_, ih hrest⟩
      intro other hother
      rw [← isSome_lookup_iff, lookup_insertNew hrest, Option.isSome_or, Bool.or_eq_true,
        isSome_lookup_iff] at hother
      obtain hmem | hnew := hother
      · exact hkey other hmem
      · by_cases hname : other = name
        · exact hname ▸ hgt
        · rw [if_neg hname] at hnew
          cases hnew

/-! ## All scopes -/

theorem ascending_extend {listing : Scope} (h : listing.Ascending) (scope : Scope) :
    (extend listing scope).Ascending := by
  induction scope generalizing listing with
  | nil => exact h
  | cons entry rest ih => exact ih (ascending_insertNew h entry.1 entry.2)

theorem lookup_extend {listing : Scope} (h : listing.Ascending) (scope : Scope) (name : String) :
    (extend listing scope).lookup name = (listing.lookup name).or (scope.lookup name) := by
  induction scope generalizing listing with
  | nil => rw [List.lookup_nil, Option.or_none]; rfl
  | cons entry rest ih =>
    obtain ⟨key, found⟩ := entry
    calc
      _ = ((insertNew key found listing).lookup name).or (List.lookup name rest) :=
        ih (ascending_insertNew h key found)
      _ = (listing.lookup name).or
          ((if name = key then some found else none).or (List.lookup name rest)) := by
        rw [lookup_insertNew h, Option.or_assoc]
      _ = _ := by
        rw [List.lookup_cons]
        by_cases hname : name = key
        · rw [if_pos hname, hname, beq_self_eq_true, Option.some_or]
        · rw [if_neg hname, beq_false_of_ne hname, Option.none_or]

/-- The listing when the scopes, the innermost first, enumerate their entries in these orders. -/
def listing (orders : List Scope) : Scope := orders.foldl extend []

theorem ascending_foldl_extend {table : Scope} (h : table.Ascending) (orders : List Scope) :
    (orders.foldl extend table).Ascending := by
  induction orders generalizing table with
  | nil => exact h
  | cons scope rest ih => exact ih (ascending_extend h scope)

theorem lookup_foldl_extend {table : Scope} (h : table.Ascending) (orders : List Scope)
    (name : String) :
    (orders.foldl extend table).lookup name = (table.lookup name).or (shown name orders) := by
  induction orders generalizing table with
  | nil => exact (Option.or_none).symm
  | cons scope rest ih =>
    rw [List.foldl_cons, ih (ascending_extend h scope), lookup_extend h, Option.or_assoc,
      shown_cons]

theorem ascending_listing (orders : List Scope) : (listing orders).Ascending :=
  ascending_foldl_extend ascending_nil orders

/-- The listing shows of a name what the first scope that declares it says. -/
theorem lookup_listing (orders : List Scope) (name : String) :
    (listing orders).lookup name = shown name orders :=
  lookup_foldl_extend ascending_nil orders name

theorem shown_of_perm {scopes orders : List Scope} (h : List.Forall₂ List.Perm scopes orders)
    (hnames : ∀ scope ∈ scopes, scope.names.Nodup) (name : String) :
    shown name orders = shown name scopes := by
  induction h with
  | nil => rfl
  | cons hscope _ ih =>
    obtain ⟨hfirst, hrest⟩ := List.forall_mem_cons.1 hnames
    rw [shown_cons, shown_cons, lookup_perm hscope hfirst, ih hrest]

/-- The order in which the scopes enumerate their entries makes no difference. -/
theorem listing_eq_visible {env : Env} (h : env.Unambiguous) {orders : List Scope}
    (horders : List.Forall₂ List.Perm env.scopes orders) : listing orders = env.visible := by
  apply (ascending_listing orders).eq_of_lookup (ascending_listing env.scopes)
  intro name
  rw [lookup_listing, lookup_listing, shown_of_perm horders h]

/-! ## What a name refers to -/

/-- The variable that a level declares under a name, with no scope above the level that declares
the name as well. -/
def Refers (env : Env) (name : String) (level : Nat) (held : Variable) : Prop :=
  env.binding? level name = some held ∧ env.exposes level name = true

theorem exists_refers {env : Env} {name : String} {held : Variable}
    (h : env.lookup? name = some held) : ∃ level, env.Refers name level held := by
  obtain ⟨above, scope, below, hscopes, hscope, habove⟩ := List.findSome?_eq_some_iff.1 h
  have hlevels : env.levels = below.reverse ++ scope :: above.reverse := by
    rw [levels, hscopes]
    simp
  refine ⟨below.length, ?_, ?_⟩
  · rw [binding?, hlevels, List.getElem?_append_right (by simp), List.length_reverse, Nat.sub_self]
    exact hscope
  · rw [exposes, hlevels, List.drop_append, List.all_append, Bool.and_eq_true]
    constructor
    · rw [List.drop_eq_nil_of_le (by simp)]
      rfl
    · rw [List.length_reverse, Nat.add_sub_cancel_left, List.drop_one, List.tail_cons,
        List.all_reverse, List.all_eq_true]
      intro other hother
      rw [habove other hother]
      rfl

/-- A level that is exposed has nothing above it under that name. -/
theorem binding?_of_exposes {env : Env} {name : String} {level above : Nat}
    (h : env.exposes level name = true) (habove : level < above) :
    env.binding? above name = none := by
  rw [binding?, Option.bind_eq_none_iff]
  intro scope hscope
  apply Option.isNone_iff_eq_none.1
  apply List.all_eq_true.1 h
  apply List.mem_of_getElem? (i := above - (level + 1))
  rw [List.getElem?_drop, Nat.add_sub_cancel' habove, hscope]

/-- The assignment reaches the variable that the name refers to and changes nothing else. -/
theorem Refers.binding?_assign {env after : Env} {name : String} {level : Nat} {held : Variable}
    (h : env.Refers name level held) {value : Scalar} (hafter : env.assign name value = .ok after)
    (place : Nat) (other : String) :
    after.binding? place other =
      if place = level ∧ other = name then some { held with value := value }
      else env.binding? place other := by
  rw [Env.binding?_assign hafter]
  by_cases hother : other = name
  · subst hother
    obtain hlt | rfl | hgt := lt_trichotomy place level
    · have hhidden : env.exposes place other = false := by
        apply Bool.eq_false_iff.2
        intro hexposed
        have hnone := binding?_of_exposes hexposed hlt
        rw [h.1] at hnone
        cases hnone
      rw [hhidden, if_neg (by simp), if_neg (by omega)]
    · rw [if_pos ⟨rfl, h.2⟩, if_pos ⟨rfl, rfl⟩, h.1]
      rfl
    · rw [binding?_of_exposes h.2 hgt, Option.map_none, ite_self, if_neg (by omega)]
  · rw [if_neg (fun hboth ↦ hother hboth.1), if_neg (fun hboth ↦ hother hboth.2)]

/-! ## The listing of a reachable environment -/

theorem get_eq_ok_iff {env : Env} {name : String} {held : Variable} :
    env.get name = .ok held ↔ env.lookup? name = some held := by
  unfold get
  cases env.lookup? name with
  | none => simp
  | some found => simp

/-- The table has each visible name once, in ascending order, with the variable that reading the
name gives. That is the variable which an assignment changes, and no other one, unless it refuses
because the variable is immutable. -/
structure Lists (env : Env) (table : Scope) : Prop where
  ascending : table.names.Pairwise (· < ·)
  mem_names_iff (name : String) : name ∈ table.names ↔ env.has name = true
  mem_iff (name : String) (held : Variable) : (name, held) ∈ table ↔ env.get name = .ok held
  assigned {name : String} {held : Variable} (h : (name, held) ∈ table) :
    ∃ level, env.Refers name level held ∧ ∀ value,
      (held.isMutable = false → env.assign name value = .error (.immutableAssignment name)) ∧
      (held.isMutable = true → ∃ after, env.assign name value = .ok after ∧
        ∀ place other, after.binding? place other =
          if place = level ∧ other = name then some { held with value := value }
          else env.binding? place other)
  unassigned {name : String} (h : name ∉ table.names) (value : Scalar) :
    env.assign name value = .error (.undefinedVariable name)

theorem lists_of_lookup {env : Env} {table : Scope} (h : table.Ascending)
    (hlookup : ∀ name, table.lookup name = env.lookup? name) : env.Lists table where
  ascending := h
  mem_names_iff name := by rw [← isSome_lookup_iff, hlookup, has]
  mem_iff name held := by rw [mem_iff_lookup h.nodup, hlookup, get_eq_ok_iff]
  assigned {name held} hmem := by
    rw [mem_iff_lookup h.nodup, hlookup] at hmem
    obtain ⟨level, hrefers⟩ := exists_refers hmem
    refine ⟨level, hrefers, fun value ↦ ⟨fun himmutable ↦ ?_, fun hmutable ↦ ?_⟩⟩
    · exact assign_of_immutable hmem himmutable value
    · obtain ⟨after, hafter⟩ := exists_assign hmem hmutable value
      exact ⟨after, hafter, hrefers.binding?_assign hafter⟩
  unassigned {name} hnew value := by
    apply assign_of_lookup?_eq_none
    rw [← hlookup]
    exact lookup_eq_none_iff.2 hnew

/-- However the scopes of a reachable environment enumerate their entries, the same listing comes of
it, and it agrees with reading and assigning. -/
theorem listing_of_reachable {env : Env} (h : env.Reachable) {orders : List Scope}
    (horders : List.Forall₂ List.Perm env.scopes orders) :
    env.Lists (listing orders) ∧ listing orders = env.visible := by
  have hnames := unambiguous_invariant.of_reachable h
  refine ⟨lists_of_lookup (ascending_listing orders) fun name ↦ ?_, ?_⟩
  · rw [lookup_listing, shown_of_perm horders hnames]
    rfl
  · exact listing_eq_visible hnames horders

/-- An immutable `a` inside hides a mutable one outside. -/
def shadowedEnv : Env :=
  ⟨[("a", ⟨.string "in", false⟩), ("Z", ⟨.string "new", true⟩)],
    [[("b", ⟨.boolean true, false⟩), ("a", ⟨.string "out", true⟩)]], []⟩

def shadowedOrders : List Scope :=
  [[("Z", ⟨.string "new", true⟩), ("a", ⟨.string "in", false⟩)],
    [("a", ⟨.string "out", true⟩), ("b", ⟨.boolean true, false⟩)]]

/-- Operations lead there, the last two of which fail, and then a program that fails at `b`. -/
theorem reachable_shadowedEnv : shadowedEnv.Reachable := by
  let operations : List Operation :=
    [.declare "b" (.boolean true) false, .declare "a" (.string "out") true, .push,
      .declare "a" (.string "in") false, .assign "a" (.string "no"), .declare "a" (.string "no") true]
  have hstart : (Machine.start .unlimited .quiet).env.Reachable := .empty
  have hrun : Env.Run ((Machine.start .unlimited .quiet).performAll operations).env shadowedEnv :=
    ⟨true, 3, [.declare "Z" (.string "new") true, .assign "b" (.boolean false)], _, _, rfl, rfl, rfl⟩
  exact (hstart.performAll operations).run hrun

theorem listing_of_reachable_shadowed :
    shadowedEnv.Reachable ∧ List.Forall₂ List.Perm shadowedEnv.scopes shadowedOrders ∧
    shadowedEnv.Lists (listing shadowedOrders) ∧ listing shadowedOrders = shadowedEnv.visible ∧
    listing shadowedOrders =
      [("Z", ⟨.string "new", true⟩), ("a", ⟨.string "in", false⟩),
        ("b", ⟨.boolean true, false⟩)] := by
  have horders : List.Forall₂ List.Perm shadowedEnv.scopes shadowedOrders :=
    .cons (.swap _ _ _) (.cons (.swap _ _ _) .nil)
  obtain ⟨hlists, hvisible⟩ := listing_of_reachable reachable_shadowedEnv horders
  exact ⟨reachable_shadowedEnv, horders, hlists, hvisible, by decide⟩

end Env

end Scriptlet
