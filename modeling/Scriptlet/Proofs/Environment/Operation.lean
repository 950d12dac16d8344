import Mathlib.Data.List.Infix
import Scriptlet.Machine
import Scriptlet.Proofs.Environment.Safe

/-!
# Sequences of operations inside a scope

Any operations may follow one another once a scope has been opened, failing ones among them. As long
as the scope stays open, leaving it undoes them all except for the assignments that reached a
variable outside. Which variable an assignment reaches depends on what the scopes above declare at
that moment; so the history of a variable lists the values given to its name while none of them did.

Scopes are counted from the global one, since a scope then keeps its level while others are opened
and left above it.
-/

namespace Scriptlet

/-! ## Levels -/

namespace Env

/-- All scopes, the global one first. -/
def levels (env : Env) : List Scope := env.scopes.reverse

theorem length_levels (env : Env) : env.levels.length = env.depth := List.length_reverse

theorem levels_eq (env : Env) : env.levels = env.enclosing.reverse ++ [env.innermost] :=
  List.reverse_cons

@[simp] theorem levels_push (env : Env) : env.push.levels = env.levels ++ [[]] := List.reverse_cons

theorem levels_pop {env rest : Env} (h : env.pop = .ok rest) :
    env.levels = rest.levels ++ [env.innermost] := by
  rw [levels, scopes_pop h, List.reverse_cons]
  rfl

theorem levels_declare {name : String} {value : Scalar} {isMutable : Bool} {before after : Env}
    (h : before.declare name value isMutable = .ok after) :
    after.levels =
      before.enclosing.reverse ++ [before.innermost ++ [(name, ⟨value, isMutable⟩)]] := by
  unfold declare at h
  split at h <;> cases h
  exact levels_eq _

theorem levels_declareFunction {name body : String} {before after : Env}
    (h : before.declareFunction name body = .ok after) : after.levels = before.levels := by
  unfold declareFunction at h
  split at h <;> cases h
  rfl

/-- No scope above the level declares the name. -/
def exposes (level : Nat) (name : String) (env : Env) : Bool :=
  (env.levels.drop (level + 1)).all fun scope ↦ (scope.lookup name).isNone

/-- What the scope of a level declares under a name. -/
def binding? (level : Nat) (name : String) (env : Env) : Option Variable :=
  env.levels[level]?.bind fun scope ↦ scope.lookup name

/-- Environments with the same outermost scopes declare the same in these. -/
theorem binding?_congr {first second : Env} {common upper other : List Scope}
    (hfirst : first.levels = common ++ upper) (hsecond : second.levels = common ++ other)
    {level : Nat} (h : level < common.length) (name : String) :
    first.binding? level name = second.binding? level name := by
  rw [binding?, binding?, hfirst, hsecond, List.getElem?_append_left h, List.getElem?_append_left h]

theorem binding?_push {env : Env} {level : Nat} (h : level < env.depth) (name : String) :
    env.push.binding? level name = env.binding? level name :=
  binding?_congr (levels_push env) (List.append_nil _).symm (by rwa [length_levels]) name

theorem binding?_pop {env rest : Env} (h : env.pop = .ok rest) {level : Nat}
    (hlevel : level < rest.depth) (name : String) :
    rest.binding? level name = env.binding? level name :=
  binding?_congr (List.append_nil _).symm (levels_pop h) (by rwa [length_levels]) name

theorem binding?_eq_none {env : Env} {level : Nat} (h : env.depth ≤ level) (name : String) :
    env.binding? level name = none := by
  rw [binding?, List.getElem?_eq_none_iff.2 (by rwa [length_levels])]
  rfl

theorem depth_pop {env rest : Env} (h : env.pop = .ok rest) : env.depth = rest.depth + 1 := by
  rw [depth_eq_length, scopes_pop h]
  rfl

theorem exists_pop {env : Env} (h : 1 < env.depth) : ∃ rest, env.pop = .ok rest := by
  unfold pop
  split
  · rename_i hnil
    simp [depth, hnil] at h
  · exact ⟨_, rfl⟩

end Env

theorem Scope.update_of_lookup_eq_none {name : String} {scope : Scope}
    (h : scope.lookup name = none) (value : Scalar) : scope.update name value = scope := by
  induction scope with
  | nil => rfl
  | cons entry rest ih =>
    obtain ⟨key, held⟩ := entry
    rw [List.lookup_cons] at h
    unfold update
    split at h
    · cases h
    · rename_i hkey
      rw [BEq.comm, hkey, ih h]
      rfl

namespace Env

/-- An assignment reaches the first scope that declares the name. -/
theorem getElem?_assignIn {name : String} {value : Scalar} {before after : List Scope}
    (h : assignIn name value before = .ok after) (index : Nat) :
    after[index]? =
      if (before.take index).all fun scope ↦ (scope.lookup name).isNone then
        before[index]?.map (Scope.update name value)
      else before[index]? := by
  fun_induction assignIn name value before generalizing after index with
  | case1 => cases h
  | case2 scope rest found hfound hmutable =>
    cases h
    cases index with
    | zero => rfl
    | succ index => simp [hfound]
  | case3 => cases h
  | case4 scope rest hnone changed hchanged ih =>
    cases h
    cases index with
    | zero => simp [Scope.update_of_lookup_eq_none hnone]
    | succ index =>
      rw [List.take_succ_cons, List.all_cons, hnone, Option.isNone_none, Bool.true_and]
      exact ih hchanged index
  | case5 => cases h

theorem levels_assign {name : String} {value : Scalar} {before after : Env}
    (h : before.assign name value = .ok after) (level : Nat) :
    after.levels[level]? =
      if before.exposes level name then before.levels[level]?.map (Scope.update name value)
      else before.levels[level]? := by
  have hscopes := getElem?_assignIn (scopes_assign h)
  have hlength : after.scopes.length = before.scopes.length :=
    (forall₂_assignIn (scopes_assign h)).length_eq.symm
  by_cases hlevel : level < before.scopes.length
  · have habove : before.exposes level name =
        (before.scopes.take (before.scopes.length - 1 - level)).all
          fun scope ↦ (scope.lookup name).isNone := by
      rw [exposes, levels, List.drop_reverse, List.all_reverse, Nat.sub_sub, Nat.add_comm]
    rw [levels, levels, List.getElem?_reverse (hlength ▸ hlevel), List.getElem?_reverse hlevel,
      hlength, hscopes, habove]
  · have hbefore : before.levels[level]? = none := by
      rw [List.getElem?_eq_none_iff, length_levels, depth_eq_length]
      omega
    have hafter : after.levels[level]? = none := by
      rw [List.getElem?_eq_none_iff, length_levels, depth_eq_length, hlength]
      omega
    rw [hbefore, hafter, Option.map_none, ite_self]

theorem binding?_assign {name : String} {value : Scalar} {before after : Env}
    (h : before.assign name value = .ok after) (level : Nat) (other : String) :
    after.binding? level other =
      if other = name ∧ before.exposes level name = true then
        (before.binding? level other).map fun held ↦ { held with value := value }
      else before.binding? level other := by
  rw [binding?, levels_assign h, binding?]
  cases before.levels[level]? with
  | none => simp
  | some scope =>
    cases before.exposes level name with
    | false => simp
    | true => simp [Scope.lookup_update]

end Env

/-! ## Single operations -/

def Outcome.isDone {α : Type} : Outcome α → Bool
  | done _ _ => true
  | failed _ _ | outOfFuel => false

inductive Operation where
  | push
  | pop
  | declare (name : String) (value : Scalar) (isMutable : Bool)
  | assign (name : String) (value : Scalar)
  | declareFunction (name body : String)

namespace Operation

def run : Operation → Machine → Outcome Unit
  | push, machine => .done machine.pushScope ()
  | pop, machine => machine.popScope
  | declare name value isMutable, machine => machine.update (Env.declare name value isMutable)
  | assign name value, machine => machine.update (Env.assign name value)
  | declareFunction name body, machine => machine.update (Env.declareFunction name body)

/-- What the operation does to an environment. -/
def change : Operation → Env → Except Error Env
  | push, env => .ok env.push
  | pop, env => env.pop
  | declare name value isMutable, env => env.declare name value isMutable
  | assign name value, env => env.assign name value
  | declareFunction name body, env => env.declareFunction name body

end Operation

theorem Machine.update_cases (operation : Env → Except Error Env) (machine : Machine) :
    (∃ left, machine.update operation = .done left () ∧ operation machine.env = .ok left.env) ∨
    ∃ error, machine.update operation = .failed machine error ∧
      operation machine.env = .error error := by
  unfold update
  cases h : operation machine.env with
  | ok env => exact .inl ⟨_, rfl, rfl⟩
  | error error => exact .inr ⟨error, rfl, rfl⟩

/-- An operation makes its change, or fails and leaves the machine as it is. -/
theorem Operation.run_cases (operation : Operation) (machine : Machine) :
    (∃ left, operation.run machine = .done left () ∧
      operation.change machine.env = .ok left.env) ∨
    ∃ error, operation.run machine = .failed machine error ∧
      operation.change machine.env = .error error := by
  cases operation with
  | push => exact .inl ⟨_, rfl, rfl⟩
  | pop =>
    obtain ⟨left, hleft, hchange⟩ | ⟨error, herror, hchange⟩ := machine.update_cases Env.pop
    · refine .inl ⟨left.trace .environment
        ("pop scope (depth " ++ toString left.env.depth ++ ")"), ?_, hchange⟩
      rw [run, Machine.popScope, hleft]
      rfl
    · refine .inr ⟨error, ?_, hchange⟩
      rw [run, Machine.popScope, herror]
      rfl
  | declare | assign | declareFunction => exact machine.update_cases _

namespace Machine

/-- The machine that an operation leaves, whether it ends well or fails. -/
def perform (machine : Machine) (operation : Operation) : Machine :=
  (operation.run machine).machine?.getD machine

def performAll (machine : Machine) (operations : List Operation) : Machine :=
  operations.foldl perform machine

theorem perform_cases (machine : Machine) (operation : Operation) :
    (operation.change machine.env = .ok (machine.perform operation).env ∧
      (operation.run machine).isDone = true) ∨
    (machine.perform operation = machine ∧ (operation.run machine).isDone = false) := by
  unfold perform
  obtain ⟨left, hleft, hchange⟩ | ⟨error, herror, -⟩ := operation.run_cases machine
  · rw [hleft]
    exact .inl ⟨hchange, rfl⟩
  · rw [herror]
    exact .inr ⟨rfl, rfl⟩

end Machine

/-! ## Histories -/

/-- The variable with another value, if there is one. -/
def Variable.revalue (value? : Option Scalar) (held : Variable) : Variable :=
  { held with value := value?.getD held.value }

theorem Variable.revalue_none : Variable.revalue none = id := rfl

theorem Variable.revalue_comp (first second : Option Scalar) :
    revalue second ∘ revalue first = revalue (second.or first) := by
  funext held
  cases second <;> rfl

namespace Operation

/-- The value that the operation gives to a name while no scope above the level declares it. -/
def assigned? (level : Nat) (name : String) (machine : Machine) : Operation → Option Scalar
  | assign target value =>
    if target = name ∧ ((assign target value).run machine).isDone = true ∧
        machine.env.exposes level name = true then some value
    else none
  | _ => none

/-- All the values that operations give to a name while no scope above the level declares it. -/
def history (level : Nat) (name : String) : Machine → List Operation → List Scalar
  | _, [] => []
  | machine, operation :: rest =>
    (operation.assigned? level name machine).toList ++
      history level name (machine.perform operation) rest

theorem assigned?_eq_none {level : Nat} {name : String} {machine : Machine} {operation : Operation}
    (h : (operation.run machine).isDone = false) :
    operation.assigned? level name machine = none := by
  cases operation with
  | assign target value => simp [assigned?, h]
  | _ => rfl

end Operation

/-- Only an assignment changes a variable that is not in the innermost scope. -/
theorem Operation.binding?_change {operation : Operation} {before after : Env}
    (h : operation.change before = .ok after)
    (hassign : ∀ target value, operation ≠ .assign target value) {level : Nat}
    (hbefore : level + 1 < before.depth) (hafter : level < after.depth) (name : String) :
    after.binding? level name = before.binding? level name := by
  cases operation with
  | push =>
    cases h
    exact Env.binding?_push (Nat.lt_of_succ_lt hbefore) name
  | pop => exact Env.binding?_pop h hafter name
  | declare =>
    refine Env.binding?_congr (Env.levels_declare h) (Env.levels_eq _) ?_ name
    rw [List.length_reverse]
    exact Nat.lt_of_succ_lt_succ hbefore
  | assign target value => exact absurd rfl (hassign target value)
  | declareFunction =>
    rw [Env.binding?, Env.levels_declareFunction h]
    rfl

namespace Machine

/-- What one operation does to a variable that is not in the innermost scope. -/
theorem binding?_perform {machine : Machine} {operation : Operation} {level : Nat}
    (hbefore : level + 1 < machine.env.depth)
    (hafter : level < (machine.perform operation).env.depth) (name : String) :
    (machine.perform operation).env.binding? level name =
      (machine.env.binding? level name).map
        (Variable.revalue (operation.assigned? level name machine)) := by
  obtain ⟨hchange, hdone⟩ | ⟨hsame, hfailed⟩ := machine.perform_cases operation
  · cases operation with
    | assign target value =>
      rw [Env.binding?_assign hchange, Operation.assigned?]
      by_cases hreached : name = target ∧ machine.env.exposes level target = true
      · obtain ⟨rfl, hexposed⟩ := hreached
        rw [if_pos ⟨rfl, hexposed⟩, if_pos ⟨rfl, hdone, hexposed⟩]
        rfl
      · rw [if_neg hreached, if_neg, Variable.revalue_none, Option.map_id, id]
        rintro ⟨rfl, -, hexposed⟩
        exact hreached ⟨rfl, hexposed⟩
    | push | pop | declare | declareFunction =>
      rw [Operation.binding?_change hchange (by simp) hbefore hafter]
      exact (congrFun Option.map_id _).symm
  · rw [hsame, Operation.assigned?_eq_none hfailed, Variable.revalue_none, Option.map_id, id]

/-- What a whole sequence does to a variable below a depth that is never reached. -/
theorem binding?_performAll {depth level : Nat} (hlevel : level < depth) (name : String)
    {operations : List Operation} {machine : Machine}
    (h : ∀ done ∈ operations.inits, depth < (machine.performAll done).env.depth) :
    (machine.performAll operations).env.binding? level name =
      (machine.env.binding? level name).map
        (Variable.revalue (Operation.history level name machine operations).getLast?) := by
  induction operations generalizing machine with
  | nil => exact (congrFun Option.map_id _).symm
  | cons operation rest ih =>
    -- What begins the rest, run from the next machine, begins the whole.
    simp only [List.inits_cons, List.forall_mem_cons, List.forall_mem_map] at h
    have hbefore : depth < machine.env.depth := h.1
    have hafter : depth < (machine.perform operation).env.depth := h.2 [] (by simp)
    have hstep := binding?_perform (Nat.lt_of_le_of_lt hlevel hbefore) (hlevel.trans hafter) name
    have hlast : (operation.assigned? level name machine).toList.getLast? =
        operation.assigned? level name machine := by
      cases operation.assigned? level name machine <;> rfl
    calc
      _ = ((machine.perform operation).env.binding? level name).map (Variable.revalue _) := ih h.2
      _ = _ := by
        rw [hstep, Option.map_map, Variable.revalue_comp, Operation.history, List.getLast?_append,
          hlast]

/-- Leaving a scope undoes whatever happened since it was opened, except for the assignments that
reached a variable outside; and an operation that fails changes nothing. -/
theorem popScope_performAll {machine : Machine} {operations : List Operation}
    (hopen : ∀ done ∈ operations.inits,
      machine.env.depth + 1 ≤ (machine.pushScope.performAll done).env.depth)
    (hend : (machine.pushScope.performAll operations).env.depth = machine.env.depth + 1) :
    (∃ left, (machine.pushScope.performAll operations).popScope = .done left () ∧
      left.env.depth = machine.env.depth ∧
      ∀ level name, left.env.binding? level name =
        (machine.env.binding? level name).map (Variable.revalue
          (Operation.history level name machine.pushScope operations).getLast?)) ∧
    ∀ (operation : Operation) (start left : Machine) (error : Error),
      operation.run start = .failed left error → left = start := by
  refine ⟨?_, fun operation start left error h ↦ ?_⟩
  · have hpos : 0 < machine.env.depth := Nat.succ_pos _
    obtain ⟨rest, hrest⟩ := Env.exists_pop
      (show 1 < (machine.pushScope.performAll operations).env.depth by omega)
    obtain ⟨left, hleft, hchange⟩ | ⟨error, -, hchange⟩ :=
      Operation.pop.run_cases (machine.pushScope.performAll operations)
    · have hdepth : left.env.depth = machine.env.depth :=
        Nat.succ.inj ((Env.depth_pop hchange).symm.trans hend)
      refine ⟨left, hleft, hdepth, fun level name ↦ ?_⟩
      by_cases hlevel : level < machine.env.depth
      · rw [Env.binding?_pop hchange (hdepth.symm ▸ hlevel), binding?_performAll hlevel name hopen]
        exact congrArg _ (Env.binding?_push hlevel name)
      · have hnone := Nat.le_of_not_lt hlevel
        rw [Env.binding?_eq_none hnone, Env.binding?_eq_none (hdepth.symm ▸ hnone)]
        rfl
    · cases hrest.symm.trans hchange
  · obtain ⟨_, hdone, -⟩ | ⟨_, hfailed, -⟩ := operation.run_cases start
    · cases hdone.symm.trans h
    · cases hfailed.symm.trans h
      rfl

/-- A mutable `x` in the global scope, hidden by an immutable one in the scope above. -/
def hidden : Machine :=
  ⟨⟨[("x", ⟨.string "b", false⟩), ("y", ⟨.string "c", true⟩)], [[("x", ⟨.string "a", true⟩)]], []⟩,
    .unlimited, .empty .quiet⟩

/-- The second assignment to `y` reaches a scope that is left again, and that to `x` fails. -/
def shadowing : List Operation :=
  [.assign "y" (.string "d"), .push, .declare "y" (.string "e") true, .assign "y" (.string "f"),
    .pop, .assign "x" (.string "g")]

theorem popScope_performAll_shadowing :
    ∃ left, (hidden.pushScope.performAll shadowing).popScope = .done left () ∧
      left.env.depth = 2 ∧ left.env.binding? 0 "x" = some ⟨.string "a", true⟩ ∧
      left.env.binding? 1 "x" = some ⟨.string "b", false⟩ ∧
      left.env.binding? 1 "y" = some ⟨.string "d", true⟩ := by
  have hopen : ∀ done ∈ shadowing.inits,
      hidden.env.depth + 1 ≤ (hidden.pushScope.performAll done).env.depth := by
    decide
  obtain ⟨⟨left, hleft, hdepth, hbinding⟩, -⟩ := popScope_performAll hopen rfl
  exact ⟨left, hleft, hdepth, hbinding 0 "x", hbinding 1 "x", hbinding 1 "y"⟩

end Machine

end Scriptlet
