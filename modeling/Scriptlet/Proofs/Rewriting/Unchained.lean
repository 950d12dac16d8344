import Scriptlet.Proofs.Rewriting.Basic
import Scriptlet.Proofs.Scoping.Padded

/-!
# Further conditions as nested branches

A branch tries its further guarded bodies in order before its last resort. The same is done by a
branch without any of them, whose last resort is a branch on the first of them, and so on. With
block scopes, the nested branches run inside of scopes that the others do not have; these stay
empty. Each level of nesting takes one unit of fuel more.
-/

open Filter

namespace Scriptlet

namespace Node

/-- The last resort that tries guarded bodies in order before a given last resort, as branches that
are nested in each other. -/
def nested : List (Node × List Node) → Option (List Node) → Option (List Node)
  | [], otherwise => otherwise
  | (condition, body) :: rest, otherwise =>
    some [.branch condition body [] (nested rest otherwise)]

/-- A branch with its further guarded bodies nested in its last resort. -/
def unchain : Node → Node
  | .branch condition body elseIfs otherwise =>
    .branch condition body [] (nested elseIfs otherwise)
  | node => node

end Node

/-- Nests the further guarded bodies of every branch. -/
def unchaining : Rewriting where
  node := Node.unchain

namespace Machine

open Outcome

/-- From machines that are alike, each of the two does at least what the other does. -/
structure Twins {α : Type} (run other : Machine → Outcome α) : Prop where
  forth : Outruns run other
  back : Outruns other run

theorem Matches.twins {α : Type} {run other : Machine → Outcome α} (h : Matches 0 run other) :
    Twins run other where
  forth machine twin halike := by
    have hagree := h machine twin ⟨halike.env, halike.sink⟩
    exact (hagree.mono fun _ _ hnested ↦ ⟨hnested.env, hnested.sink⟩).follows
  back machine twin halike := by
    have hagree := h twin machine ⟨halike.env.symm, halike.sink.symm⟩
    exact (hagree.symm.mono fun _ _ hnested ↦ ⟨hnested.env.symm, hnested.sink.symm⟩).follows

theorem runBlock_singleton (run : Runner) (node : Node) : runBlock run [node] = run node := by
  funext machine
  rw [runBlock]
  cases run node machine with
  | done after returned => cases returned <;> rfl
  | failed after error => rfl
  | outOfFuel => rfl

section Branches

variable (blockScope : Bool)

theorem outruns_runBranches_of_le {fuel more : Nat} (hfuel : fuel ≤ more)
    (otherwise : Option (List Node)) (branches : List (Node × List Node)) :
    Outruns (runBranches blockScope (exec blockScope fuel) otherwise branches)
      (runBranches blockScope (exec blockScope more) otherwise branches) := by
  have hbody := outruns_runBlock (outruns_exec blockScope hfuel)
  apply outruns_runBranches
  · exact Node.rel_refl hbody otherwise
  · exact List.forall₂_same.2 fun clause _ ↦ ⟨.refl clause.1, hbody clause.2⟩

theorem outruns_runBranches_cons {run faster : Runner} {otherwise last : Option (List Node)}
    {branches clauses : List (Node × List Node)} (condition : Node) {body : List Node}
    (hbody : Outruns (runBlock run body) (runBlock faster body))
    (hrest : Outruns (runBranches blockScope run otherwise branches)
      (runBranches blockScope faster last clauses)) :
    Outruns (runBranches blockScope run otherwise ((condition, body) :: branches))
      (runBranches blockScope faster last ((condition, body) :: clauses)) := by
  intro machine other h
  apply (outruns_eval (.refl condition) machine other h).bind
  intro machine other value h
  split
  · exact outruns_runBody blockScope hbody machine other h
  · exact hrest machine other h

/-- Running a branch leaves a record, and else does what trying its bodies in order does. -/
theorem twins_exec_branch (fuel : Nat) (condition : Node) (body : List Node)
    (elseIfs : List (Node × List Node)) (otherwise : Option (List Node)) :
    Twins (runBranches blockScope (exec blockScope fuel) otherwise ((condition, body) :: elseIfs))
      (exec blockScope (fuel + 1) (.branch condition body elseIfs otherwise)) := by
  have hsame := outruns_runBranches_of_le blockScope (Nat.le_refl fuel) otherwise
    ((condition, body) :: elseIfs)
  constructor
  · exact fun _ _ h ↦ hsame _ _ ⟨h.env, h.sink⟩
  · exact fun _ _ h ↦ hsame _ _ ⟨h.env, h.sink⟩

/-- A body that is one branch does what the branch does. -/
theorem twins_runBody_branch (fuel : Nat) (condition : Node) (body : List Node)
    (elseIfs : List (Node × List Node)) (otherwise : Option (List Node)) :
    Twins (exec blockScope fuel (.branch condition body elseIfs otherwise))
      (runBody blockScope (exec blockScope fuel)
        [.branch condition body elseIfs otherwise]) := by
  have hsame := outruns_exec false (Nat.le_refl fuel) (.branch condition body elseIfs otherwise)
  unfold runBody
  rw [runBlock_singleton]
  cases blockScope with
  | true => exact (matches_withScope_branch fuel condition body elseIfs otherwise).twins
  | false => exact ⟨hsame, hsame⟩

/-! ## Nested branches -/

theorem outruns_nested (fuel : Nat) (otherwise : Option (List Node))
    (branches : List (Node × List Node)) :
    Outruns (runBranches blockScope (exec blockScope fuel) otherwise branches)
      (runBranches blockScope (exec blockScope (fuel + branches.length))
        (Node.nested branches otherwise) []) := by
  induction branches with
  | nil => exact outruns_runBranches_of_le blockScope (Nat.le_refl fuel) otherwise []
  | cons branch rest ih =>
    obtain ⟨condition, body⟩ := branch
    have hmore : fuel ≤ fuel + rest.length := Nat.le_add_right fuel rest.length
    have hfirst := outruns_runBranches_cons blockScope condition
      (outruns_runBlock (outruns_exec blockScope hmore) body) ih
    have hexec := twins_exec_branch blockScope (fuel + rest.length) condition body []
      (Node.nested rest otherwise)
    have hbody := twins_runBody_branch blockScope (fuel + rest.length + 1) condition body []
      (Node.nested rest otherwise)
    exact (hfirst.trans hexec.forth).trans hbody.forth

/-- The nested branches have less fuel left for their bodies than the branch that they stand for. -/
theorem nested_outruns (fuel : Nat) (otherwise : Option (List Node))
    (branches : List (Node × List Node)) :
    Outruns (runBranches blockScope (exec blockScope fuel) (Node.nested branches otherwise) [])
      (runBranches blockScope (exec blockScope fuel) otherwise branches) := by
  induction branches generalizing fuel with
  | nil => exact outruns_runBranches_of_le blockScope (Nat.le_refl fuel) otherwise []
  | cons branch rest ih =>
    obtain ⟨condition, body⟩ := branch
    cases fuel with
    | zero =>
      intro machine other _
      cases blockScope <;> trivial
    | succ fuel =>
      have hless : fuel ≤ fuel + 1 := Nat.le_succ fuel
      have hrest := (ih fuel).trans (outruns_runBranches_of_le blockScope hless otherwise rest)
      have hfirst := outruns_runBranches_cons blockScope condition
        (outruns_runBlock (outruns_exec blockScope hless) body) hrest
      have hexec := twins_exec_branch blockScope fuel condition body []
        (Node.nested rest otherwise)
      have hbody := twins_runBody_branch blockScope (fuel + 1) condition body []
        (Node.nested rest otherwise)
      exact (hbody.back.trans hexec.back).trans hfirst

theorem exists_outruns_unchain (fuel : Nat) (node : Node) :
    ∃ more, Outruns (exec blockScope fuel node) (exec blockScope more node.unchain) := by
  cases node with
  | branch condition body elseIfs otherwise =>
    cases fuel with
    | zero => exact ⟨0, fun _ _ _ ↦ trivial⟩
    | succ fuel =>
      have hmore : fuel ≤ fuel + elseIfs.length := Nat.le_add_right fuel elseIfs.length
      have hfirst := outruns_runBranches_cons blockScope condition
        (outruns_runBlock (outruns_exec blockScope hmore) body)
        (outruns_nested blockScope fuel otherwise elseIfs)
      have hchain := twins_exec_branch blockScope fuel condition body elseIfs otherwise
      have hexec := twins_exec_branch blockScope (fuel + elseIfs.length) condition body []
        (Node.nested elseIfs otherwise)
      exact ⟨_, (hchain.back.trans hfirst).trans hexec.forth⟩
  | _ => exact ⟨fuel, outruns_exec blockScope (Nat.le_refl fuel) _⟩

theorem unchain_outruns (fuel : Nat) (node : Node) :
    Outruns (exec blockScope fuel node.unchain) (exec blockScope fuel node) := by
  cases node with
  | branch condition body elseIfs otherwise =>
    cases fuel with
    | zero => exact fun _ _ _ ↦ trivial
    | succ fuel =>
      have hfirst := outruns_runBranches_cons blockScope condition
        (outruns_runBlock (outruns_exec blockScope (Nat.le_refl fuel)) body)
        (nested_outruns blockScope fuel otherwise elseIfs)
      have hchain := twins_exec_branch blockScope fuel condition body elseIfs otherwise
      have hexec := twins_exec_branch blockScope fuel condition body []
        (Node.nested elseIfs otherwise)
      exact (hexec.back.trans hfirst).trans hchain.forth
  | _ => exact outruns_exec blockScope (Nat.le_refl fuel) _

end Branches

end Machine

open Machine

theorem sound_unchaining (blockScope : Bool) : unchaining.Sound blockScope where
  sameValue node := by cases node <;> exact fun _ ↦ rfl
  node fuel node := by
    obtain ⟨least, hleast⟩ := exists_outruns_unchain blockScope fuel node
    filter_upwards [eventually_ge_atTop least] with more hmore
    exact hleast.trans (outruns_exec blockScope hmore node.unchain)
  body fuel body := by
    filter_upwards [eventually_ge_atTop fuel] with more hfuel
    exact outruns_runBlock (outruns_exec blockScope hfuel) body
  of_node fuel node := unchain_outruns blockScope fuel node
  of_body fuel body := outruns_runBlock (outruns_exec blockScope (Nat.le_refl fuel)) body

/-- A program in which the further guarded bodies of every branch are nested ends exactly when the
program does, and alike. -/
theorem unchaining_keeps_meaning (program : Program) (blockScope : Bool) (machine : Machine)
    (ending : Ending (Option Int)) :
    (∃ fuel, (machine.interpret blockScope fuel program).seen = some ending) ↔
      ∃ fuel, (machine.interpret blockScope fuel (unchaining.applyAll program)).seen =
        some ending :=
  (sound_unchaining blockScope).exists_seen_iff program machine ending

/-- A branch in the first clause of another: both are nested, each at its own depth. -/
example :
    unchaining.applyAll
      [.branch (.identifier "a") []
        [(.identifier "b", [.branch (.identifier "c") [] [(.identifier "d", [])] none]),
          (.identifier "e", [])] (some [.comment "last"])] =
      [.branch (.identifier "a") [] []
        (some [.branch (.identifier "b")
          [.branch (.identifier "c") [] [] (some [.branch (.identifier "d") [] [] none])] []
          (some [.branch (.identifier "e") [] [] (some [.comment "last"])])])] :=
  rfl

end Scriptlet
