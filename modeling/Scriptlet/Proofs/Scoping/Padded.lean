import Scriptlet.Proofs.Mentions.Unmentioned
import Scriptlet.Proofs.Scoping.Empty

/-!
# An empty scope below others

With another scope on top of it, an empty scope stays empty, and nothing but the depth tells that
it is there: every program runs alike with and without it. So where bodies have scopes of their
own, a branch runs in a fresh scope as it does without one, for nothing is declared in that scope
itself.
-/

namespace Scriptlet

namespace Env

/-- The second list has one scope more than the first, an empty one on top of `height` others. -/
inductive Pad (height : Nat) : List Scope → List Scope → Prop
  | here {below : List Scope} (hheight : below.length = height) : Pad height below ([] :: below)
  | above (scope : Scope) {scopes others : List Scope} (hrest : Pad height scopes others) :
      Pad height (scope :: scopes) (scope :: others)

namespace Pad

variable {height : Nat} {scopes others : List Scope}

theorem length_eq (h : Pad height scopes others) : others.length = scopes.length + 1 := by
  induction h with
  | here hheight => rfl
  | above scope _ ih => exact congrArg Nat.succ ih

theorem height_le (h : Pad height scopes others) : height ≤ scopes.length := by
  induction h with
  | here hheight => exact Nat.le_of_eq hheight.symm
  | above scope _ ih => exact Nat.le_succ_of_le ih

/-- With nothing on top of it, the empty scope is the first one. -/
theorem eq_cons_nil (h : Pad height scopes others) (hheight : scopes.length = height) :
    others = [] :: scopes := by
  cases h with
  | here => rfl
  | above scope hrest =>
    have hle := hrest.height_le
    rw [List.length_cons] at hheight
    omega

theorem lookup_eq (h : Pad height scopes others) (name : String) :
    (others.findSome? fun scope ↦ scope.lookup name) =
      scopes.findSome? fun scope ↦ scope.lookup name := by
  induction h with
  | here hheight => rfl
  | above scope _ ih => rw [List.findSome?_cons, List.findSome?_cons, ih]

theorem assignIn (h : Pad height scopes others) (name : String) (value : Scalar) :
    Matched (Pad height) (assignIn name value scopes) (assignIn name value others) := by
  induction h with
  | @here below hheight =>
    rw [Env.assignIn.eq_2, List.lookup_nil]
    cases hchanged : Env.assignIn name value below with
    | ok changed =>
      have hlength := (forall₂_assignIn hchanged).length_eq
      exact .ok (.here (hlength.symm.trans hheight))
    | error error => exact .error error
  | @above scope scopes others hrest ih =>
    rw [Env.assignIn, Env.assignIn]
    split
    · split
      · exact .ok (.above _ hrest)
      · exact .error _
    · generalize Env.assignIn name value scopes = left at ih
      generalize Env.assignIn name value others = right at ih
      cases ih with
      | ok hchanged => exact .ok (.above scope hchanged)
      | error error => exact .error error

end Pad

/-- The second environment has one scope more, an empty one that is not the innermost. -/
structure Padded (height : Nat) (env other : Env) : Prop where
  innermost : other.innermost = env.innermost
  enclosing : Pad height env.enclosing other.enclosing
  functions : other.functions = env.functions

theorem eq_of_scopes {env other : Env} (hscopes : env.scopes = other.scopes)
    (hfunctions : env.functions = other.functions) : env = other := by
  obtain ⟨innermost, enclosing, functions⟩ := env
  obtain ⟨rfl, rfl⟩ := List.cons.inj hscopes
  cases hfunctions
  rfl

theorem scopes_truncate_succ {env : Env} {depth : Nat} (hdepth : env.depth = depth + 1)
    (hpos : 0 < depth) : (env.truncate depth).scopes = env.enclosing := by
  rw [scopes_truncate env hpos, hdepth, Nat.add_sub_cancel_left]
  rfl

namespace Padded

variable {height : Nat} {env other : Env}

theorem scopes (h : env.Padded height other) : Pad height env.scopes other.scopes := by
  rw [Env.scopes, Env.scopes, h.innermost]
  exact .above _ h.enclosing

theorem of_scopes (hscopes : Pad height env.scopes other.scopes) (hheight : height < env.depth)
    (hfunctions : other.functions = env.functions) : env.Padded height other := by
  obtain ⟨innermost, enclosing, functions⟩ := env
  obtain ⟨twin, surrounding, table⟩ := other
  cases hscopes with
  | here hlength => exact absurd hlength (Nat.ne_of_gt hheight)
  | above _ hrest => exact ⟨rfl, hrest, hfunctions⟩

theorem depth_eq (h : env.Padded height other) : other.depth = env.depth + 1 :=
  h.scopes.length_eq

theorem height_lt (h : env.Padded height other) : height < env.depth :=
  Nat.lt_succ_of_le h.enclosing.height_le

theorem lookup?_eq (h : env.Padded height other) (name : String) :
    other.lookup? name = env.lookup? name :=
  h.scopes.lookup_eq name

theorem push (h : env.Padded height other) : env.push.Padded height other.push :=
  ⟨rfl, h.scopes, h.functions⟩

/-- A scope that is empty lies below the fresh one. -/
theorem push_push (env : Env) : env.push.Padded env.depth env.push.push :=
  ⟨rfl, .here rfl, rfl⟩

theorem declare (h : env.Padded height other) (name : String) (value : Scalar)
    (isMutable : Bool) :
    Matched (Padded height) (env.declare name value isMutable)
      (other.declare name value isMutable) := by
  unfold Env.declare
  rw [h.innermost]
  split
  · exact .error _
  · exact .ok ⟨rfl, h.enclosing, h.functions⟩

theorem assign (h : env.Padded height other) (name : String) (value : Scalar) :
    Matched (Padded height) (env.assign name value) (other.assign name value) := by
  have hscopes := h.scopes.assignIn name value
  rw [← map_scopes_assign, ← map_scopes_assign] at hscopes
  cases hleft : env.assign name value with
  | error error =>
    cases hright : other.assign name value with
    | error reason =>
      rw [hleft, hright] at hscopes
      cases hscopes
      exact .error error
    | ok reached =>
      rw [hleft, hright] at hscopes
      cases hscopes
  | ok after =>
    cases hright : other.assign name value with
    | error reason =>
      rw [hleft, hright] at hscopes
      cases hscopes
    | ok reached =>
      rw [hleft, hright] at hscopes
      cases hscopes with
      | ok hpad =>
        apply Matched.ok
        apply of_scopes hpad
        · rw [(sealed_assign hleft).depth]
          exact h.height_lt
        · rw [functions_assign hright, functions_assign hleft, h.functions]

end Padded

end Env

theorem evalExpr_eq_of_lookup? {env other : Env}
    (h : ∀ name, other.lookup? name = env.lookup? name) :
    ∀ node : Node, evalExpr other node = evalExpr env node
  | .identifier name => by
    rw [evalExpr, evalExpr, Env.get, Env.get, h name]
  | .binary left op right => by
    rw [evalExpr, evalExpr, evalExpr_eq_of_lookup? h left, evalExpr_eq_of_lookup? h right]
  | .number _ | .string _ | .boolean _ | .comment _ => rfl
  | .branch .. | .loop .. | .declare .. | .assign .. | .write .. | .ret _ => rfl

namespace Machine

open Outcome

/-! ## Runs with and without the scope -/

/-- The second machine has one scope more, an empty one that is not the innermost. -/
structure Padded (height depth : Nat) (machine other : Machine) : Prop where
  env : machine.env.Padded height other.env
  depth : machine.env.depth = depth
  sink : other.sink = machine.sink

/-- With the empty scope and without it, the two runs agree and keep the depth. -/
def Disregards (height : Nat) : StepRelation := fun _ run twin ↦
  ∀ depth machine other, machine.Padded height depth other →
    Agree (Padded height depth) (run machine) (twin other)

variable {height depth : Nat}

theorem sharesSink_padded : SharesSink (Padded height depth) :=
  ⟨fun h ↦ h.sink, fun h _ ↦ ⟨h.env, h.depth, rfl⟩⟩

theorem disregards_eval (node : Node) : Disregards height Scalar (eval node) (eval node) := by
  intro depth machine other h
  unfold eval yield
  rw [evalExpr_eq_of_lookup? h.env.lookup?_eq]
  cases evalExpr machine.env node with
  | ok value => exact .done value h
  | error error => exact .failed error h

theorem disregards_update {operation : Env → Except Error Env}
    (hmatched : ∀ {env other : Env}, env.Padded height other →
      Matched (Env.Padded height) (operation env) (operation other))
    (hsafe : ∀ {before after : Env}, operation before = .ok after → before.Safe after) :
    Disregards height Unit (update operation) (update operation) := by
  intro depth machine other h
  have hresult := hmatched h.env
  unfold update
  cases hleft : operation machine.env with
  | ok after =>
    rw [hleft] at hresult
    generalize operation other.env = right at hresult
    cases hresult with
    | ok hpadded => exact .done () ⟨hpadded, (hsafe hleft).depth.trans h.depth, h.sink⟩
  | error error =>
    rw [hleft] at hresult
    generalize operation other.env = right at hresult
    cases hresult
    exact .failed error h

theorem disregards_assignValue (name : String) (node : Node) :
    Disregards height Unit (assignValue name node) (assignValue name node) := by
  intro depth machine other h
  unfold assignValue Env.has
  rw [h.env.lookup?_eq]
  split
  · apply (disregards_eval node depth machine other h).bind
    intro machine other value h
    apply disregards_update _ _ depth machine other h
    · exact fun h ↦ h.assign name value
    · exact fun h ↦ (Env.sealed_assign h).toSafe
  · exact .failed _ h

section Leaving

variable {machine other inner outer : Machine}

theorem Padded.depth_leaveScope (h : inner.Padded height (depth + 1) outer) (hpos : 0 < depth) :
    (inner.leaveScope depth).env.depth = depth := by
  have hscopes : (inner.leaveScope depth).env.scopes = inner.env.enclosing :=
    Env.scopes_truncate_succ h.depth hpos
  rw [Env.depth_eq_length, hscopes]
  exact Nat.succ.inj h.depth

/-- Leaving the innermost scope on both sides leaves the empty one. -/
theorem Padded.pad_leaveScope (h : inner.Padded height (depth + 1) outer) (hpos : 0 < depth) :
    Env.Pad height (inner.leaveScope depth).env.scopes
      (outer.leaveScope (depth + 1)).env.scopes := by
  have hleft : (inner.leaveScope depth).env.scopes = inner.env.enclosing :=
    Env.scopes_truncate_succ h.depth hpos
  have hright : (outer.leaveScope (depth + 1)).env.scopes = outer.env.enclosing := by
    apply Env.scopes_truncate_succ _ (Nat.succ_pos depth)
    rw [h.env.depth_eq, h.depth]
  rw [hleft, hright]
  exact h.env.enclosing

theorem Padded.functions_leaveScope (h : inner.Padded height (depth + 1) outer) :
    (outer.leaveScope (depth + 1)).env.functions = (inner.leaveScope depth).env.functions :=
  calc
    (outer.leaveScope (depth + 1)).env.functions = outer.env.functions :=
      Env.functions_truncate _ _
    _ = inner.env.functions := h.env.functions
    _ = (inner.leaveScope depth).env.functions := (Env.functions_truncate _ _).symm

theorem Padded.leaveScope (h : machine.Padded height depth other)
    (hinner : inner.Padded height (depth + 1) outer) :
    (inner.leaveScope machine.env.depth).Padded height depth
      (outer.leaveScope other.env.depth) := by
  have hpos : 0 < depth := h.depth ▸ Nat.succ_pos _
  have hheight : height < depth := h.depth ▸ h.env.height_lt
  rw [h.env.depth_eq, h.depth]
  refine ⟨?_, hinner.depth_leaveScope hpos, hinner.sink⟩
  apply Env.Padded.of_scopes (hinner.pad_leaveScope hpos) _ hinner.functions_leaveScope
  rwa [hinner.depth_leaveScope hpos]

/-- The empty scope is the innermost one once the last scope on top of it has been left. -/
theorem Padded.nested_leaveScope (h : inner.Padded depth (depth + 1) outer) (hpos : 0 < depth) :
    (inner.leaveScope depth).Nested 1 (outer.leaveScope (depth + 1)) := by
  refine ⟨?_, h.sink⟩
  apply Env.eq_of_scopes
  · exact (h.pad_leaveScope hpos).eq_cons_nil (h.depth_leaveScope hpos)
  · exact h.functions_leaveScope

end Leaving

theorem Disregards.withScope {α : Type} {run twin : Machine → Outcome α}
    (h : Disregards height α run twin) :
    Disregards height α (Machine.withScope run) (Machine.withScope twin) := by
  intro depth machine other hpadded
  apply agree_withScope
  · apply h (depth + 1)
    exact ⟨hpadded.env.push, congrArg Nat.succ hpadded.depth, hpadded.sink⟩
  · exact fun _ _ hinner ↦ hpadded.leaveScope hinner

/-- Every step of a run is one that the empty scope makes no difference to. -/
theorem disregards_respects (height : Nat) (blockScope : Bool) :
    (Disregards height).Respects blockScope fun _ ↦ True where
  outOfFuel _ _ _ _ := .outOfFuel
  done value _ _ _ h := .done value h
  misuse {_ error} _ _ _ _ h := .failed error h
  eval _ := disregards_eval _
  declare _ value isMutable :=
    disregards_update (fun h ↦ h.declare _ value isMutable) Env.safe_declare
  assign _ _ := disregards_assignValue _ _
  write text _ _ _ h := sharesSink_padded.write text h
  flush _ _ _ h := sharesSink_padded.flush h
  record add _ _ h depth machine other hpadded :=
    h depth { machine with log := add machine.log } { other with log := add other.log }
      ⟨hpadded.env, hpadded.depth, hpadded.sink⟩
  bind h hnext depth machine other hpadded :=
    (h depth machine other hpadded).bind fun machine other value hpadded ↦
      hnext value depth machine other hpadded
  withScope _ _ _ := .withScope

/-! ## Branches in a fresh scope -/

/-- A body that has a scope of its own runs alike inside of an empty scope and outside of it. -/
theorem matches_runBody_scoped (fuel : Nat) (body : List Node) :
    Matches 1 (runBody true (exec true fuel) body) (runBody true (exec true fuel) body) := by
  intro machine other h
  have hpadded : machine.pushScope.Padded machine.env.depth (machine.env.depth + 1)
      other.pushScope := by
    refine ⟨?_, rfl, h.sink⟩
    have hother : other.env.push = machine.env.push.push := congrArg Env.push h.env
    rw [pushScope, trace, pushScope, trace]
    dsimp only
    rw [hother]
    exact .push_push machine.env
  have hrespects := disregards_respects machine.env.depth true
  have hdepth : other.env.depth = machine.env.depth + 1 := congrArg Env.depth h.env
  apply agree_withScope
  · exact hrespects.runBlock (hrespects.exec fuel) (fun _ _ ↦ trivial) _ _ _ hpadded
  · intro inner outer hinner
    rw [hdepth]
    exact hinner.nested_leaveScope (Nat.succ_pos _)

theorem matches_runBranches_scoped (fuel : Nat) (otherwise : Option (List Node))
    (branches : List (Node × List Node)) :
    Matches 1 (runBranches true (exec true fuel) otherwise branches)
      (runBranches true (exec true fuel) otherwise branches) := by
  induction branches with
  | nil =>
    intro machine other h
    cases otherwise with
    | some body => exact matches_runBody_scoped fuel body machine other h
    | none => exact .done none h
  | cons branch rest ih =>
    intro machine other h
    apply (matches_eval branch.1 machine other h).bind
    intro machine other value h
    split
    · exact matches_runBody_scoped fuel branch.2 machine other h
    · exact ih machine other h

/-- A branch runs in a fresh scope as it does without one. -/
theorem matches_withScope_branch (fuel : Nat) (condition : Node) (body : List Node)
    (elseIfs : List (Node × List Node)) (otherwise : Option (List Node)) :
    Matches 0 (exec true fuel (.branch condition body elseIfs otherwise))
      (withScope (exec true fuel (.branch condition body elseIfs otherwise))) := by
  apply matches_withScope (safeStep_exec true fuel _)
  intro machine other h
  cases fuel with
  | zero => exact .outOfFuel
  | succ fuel => exact matches_runBranches_scoped fuel otherwise _ _ _ ⟨h.env, h.sink⟩

end Machine

end Scriptlet
