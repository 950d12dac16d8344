import Mathlib.Order.Filter.AtTopBot.Basic
import Scriptlet.Proofs.Run.Fuel

/-!
# Rewritings of programs

A rewriting is given by what it makes of one node and of one list of statements once everything
inside them has been rewritten. If it changes no value, and if what it makes of a node or of a list
runs like what was there, then a program and its rewriting end alike, if one of them ends. The new
statements may need more fuel than the old ones, but never less.
-/

open Filter

namespace Scriptlet

/-- What becomes of a node, and of a list of statements, with everything inside rewritten. -/
structure Rewriting where
  node : Node → Node := id
  body : List Node → List Node := id

namespace Rewriting

mutual

/-- The node with everything inside it rewritten. -/
def inside (rule : Rewriting) : Node → Node
  | .binary left op right =>
    .binary (rule.node (rule.inside left)) op (rule.node (rule.inside right))
  | .branch condition body elseIfs otherwise =>
    .branch (rule.node (rule.inside condition)) (rule.body (rule.each body))
      (rule.clauses elseIfs) (rule.otherwise otherwise)
  | .loop init condition update body =>
    .loop (rule.node (rule.inside init)) (rule.node (rule.inside condition))
      (rule.node (rule.inside update)) (rule.body (rule.each body))
  | .declare name value isMutable => .declare name (rule.node (rule.inside value)) isMutable
  | .assign name value => .assign name (rule.node (rule.inside value))
  | .write newline text expression => .write newline text (rule.payload expression)
  | .ret value => .ret (rule.node (rule.inside value))
  | node => node

/-- The statements of a list, each of them rewritten. -/
def each (rule : Rewriting) : List Node → List Node
  | [] => []
  | node :: nodes => rule.node (rule.inside node) :: rule.each nodes

def clauses (rule : Rewriting) : List (Node × List Node) → List (Node × List Node)
  | [] => []
  | (condition, body) :: rest =>
    (rule.node (rule.inside condition), rule.body (rule.each body)) :: rule.clauses rest

def otherwise (rule : Rewriting) : Option (List Node) → Option (List Node)
  | some body => some (rule.body (rule.each body))
  | none => none

def payload (rule : Rewriting) : Option Node → Option Node
  | some node => some (rule.node (rule.inside node))
  | none => none

end

/-- The rewritten node. -/
def apply (rule : Rewriting) (node : Node) : Node := rule.node (rule.inside node)

/-- The rewritten list of statements, which may be a whole program. -/
def applyAll (rule : Rewriting) (body : List Node) : List Node := rule.body (rule.each body)

variable {rule : Rewriting}

/-! ## What rewriting leaves alone -/

section Similar

variable (hvalue : ∀ node : Node, node.SameValue (rule.node node))

include hvalue

theorem sameValue_inside : ∀ node : Node, node.SameValue (rule.inside node)
  | .binary left op right => by
    intro env
    rw [inside, evalExpr, evalExpr, ← hvalue (rule.inside left) env,
      ← hvalue (rule.inside right) env, ← sameValue_inside left env, ← sameValue_inside right env]
  | .number _ | .string _ | .boolean _ | .identifier _ | .comment _ => fun _ ↦ rfl
  | .branch .. | .loop .. | .declare .. | .assign .. | .ret _ => fun _ ↦ rfl
  | .write newline _ _ => by cases newline <;> exact fun _ ↦ rfl

theorem sameValue_apply (node : Node) : node.SameValue (rule.apply node) :=
  (sameValue_inside hvalue node).trans (hvalue (rule.inside node))

variable {N : Nat → Node → Node → Prop} {B : Nat → List Node → List Node → Prop}

theorem eventually_clauses (hB : ∀ body, ∀ᶠ more in atTop, B more body (rule.applyAll body))
    (clauses : List (Node × List Node)) :
    ∀ᶠ more in atTop, List.Forall₂
      (fun clause other ↦ clause.1.SameValue other.1 ∧ B more clause.2 other.2)
      clauses (rule.clauses clauses) := by
  induction clauses with
  | nil =>
    rw [Rewriting.clauses]
    exact .of_forall fun _ ↦ .nil
  | cons clause rest ih =>
    rw [Rewriting.clauses]
    filter_upwards [hB clause.2, ih] with more hbody hrest
    exact .cons ⟨sameValue_apply hvalue clause.1, hbody⟩ hrest

omit hvalue in
theorem eventually_otherwise (hB : ∀ body, ∀ᶠ more in atTop, B more body (rule.applyAll body))
    (last : Option (List Node)) :
    ∀ᶠ more in atTop, Option.Rel (B more) last (rule.otherwise last) := by
  cases last with
  | none =>
    rw [Rewriting.otherwise]
    exact .of_forall fun _ ↦ .none
  | some body =>
    rw [Rewriting.otherwise]
    filter_upwards [hB body] with more hbody
    exact .some hbody

/-- Rewriting what is inside a statement keeps its form. The relations between the inner statements
may hold only from some number on; a statement has finitely many inside it, so there is one number
for all of them. -/
theorem eventually_similar (hN : ∀ node, ∀ᶠ more in atTop, N more node (rule.apply node))
    (hB : ∀ body, ∀ᶠ more in atTop, B more body (rule.applyAll body)) (node : Node) :
    ∀ᶠ more in atTop, node.Similar (N more) (B more) (rule.inside node) := by
  have hsame := sameValue_apply hvalue
  cases node with
  | declare name value isMutable =>
    rw [inside]
    exact .of_forall fun _ ↦ .declare name isMutable (hsame value)
  | assign name value =>
    rw [inside]
    exact .of_forall fun _ ↦ .assign name (hsame value)
  | branch condition body elseIfs last =>
    rw [inside]
    filter_upwards [hB body, eventually_clauses hvalue hB elseIfs, eventually_otherwise hB last]
      with more hbody hclauses hlast
    exact .branch (hsame condition) hbody hclauses hlast
  | loop init condition update body =>
    rw [inside]
    filter_upwards [hN init, hN update, hB body] with more hinit hupdate hbody
    exact .loop hinit (hsame condition) hupdate hbody
  | write newline text expression =>
    rw [inside]
    refine .of_forall fun _ ↦ .write newline text ?_
    cases expression with
    | none =>
      rw [payload]
      exact .none
    | some value =>
      rw [payload]
      exact .some (hsame value)
  | ret value =>
    rw [inside]
    exact .of_forall fun _ ↦ .ret (hsame value)
  | comment text => exact .of_forall fun _ ↦ .comment text text
  | binary left op right =>
    have hbinary := sameValue_inside hvalue (.binary left op right)
    rw [inside] at hbinary ⊢
    exact .of_forall fun _ ↦ .expression rfl rfl hbinary
  | number | string | boolean | identifier =>
    exact .of_forall fun _ ↦ .expression rfl rfl (.refl _)

end Similar

/-! ## Runs of rewritten programs -/

open Machine

/-- What the rewriting makes of a node and of a list runs like what was there. It may take more
fuel to get there, but what it takes is enough for what was there. -/
structure Sound (rule : Rewriting) (blockScope : Bool) : Prop where
  sameValue : ∀ node : Node, node.SameValue (rule.node node)
  node : ∀ fuel node, ∀ᶠ more in atTop,
    Outruns (exec blockScope fuel node) (exec blockScope more (rule.node node))
  body : ∀ fuel body, ∀ᶠ more in atTop,
    Outruns (runBlock (exec blockScope fuel) body)
      (runBlock (exec blockScope more) (rule.body body))
  of_node : ∀ fuel node,
    Outruns (exec blockScope fuel (rule.node node)) (exec blockScope fuel node)
  of_body : ∀ fuel body,
    Outruns (runBlock (exec blockScope fuel) (rule.body body))
      (runBlock (exec blockScope fuel) body)

theorem outruns_exec_succ {blockScope : Bool} {fuel more : Nat} (hfuel : fuel ≤ more)
    {node same : Node}
    (hsimilar : node.Similar
      (fun inner other ↦ Outruns (exec blockScope fuel inner) (exec blockScope more other))
      (fun body other ↦ Outruns (runBlock (exec blockScope fuel) body)
        (runBlock (exec blockScope more) other)) same) :
    Outruns (exec blockScope (fuel + 1) node) (exec blockScope (more + 1) same) :=
  fun _ _ h ↦ outruns_execWith blockScope hfuel hsimilar _ _ ⟨h.env, h.sink⟩

namespace Sound

variable {blockScope : Bool}

theorem eventually_runBlock (hrule : rule.Sound blockScope) {fuel : Nat}
    (hnode : ∀ node, ∀ᶠ more in atTop,
      Outruns (exec blockScope fuel node) (exec blockScope more (rule.apply node)))
    (body : List Node) :
    ∀ᶠ more in atTop, Outruns (runBlock (exec blockScope fuel) body)
      (runBlock (exec blockScope more) (rule.applyAll body)) := by
  have heach : ∀ᶠ more in atTop, Outruns (runBlock (exec blockScope fuel) body)
      (runBlock (exec blockScope more) (rule.each body)) := by
    induction body with
    | nil =>
      rw [each]
      exact .of_forall fun _ ↦ outruns_runBlock_nil
    | cons node rest ih =>
      rw [each]
      filter_upwards [hnode node, ih] with more hfirst hrest
      exact outruns_runBlock_cons hfirst hrest
  obtain ⟨least, hleast⟩ := heach.exists
  exact (hrule.body least (rule.each body)).mono fun _ hbody ↦ hleast.trans hbody

/-- The induction is on the fuel of the program that is rewritten. -/
theorem eventually_exec (hrule : rule.Sound blockScope) (fuel : Nat) (node : Node) :
    ∀ᶠ more in atTop, Outruns (exec blockScope fuel node)
      (exec blockScope more (rule.apply node)) := by
  induction fuel generalizing node with
  | zero => exact .of_forall fun _ _ _ _ ↦ trivial
  | succ fuel ih =>
    have hinside : ∀ᶠ more in atTop, node.Similar
        (fun inner other ↦ Outruns (exec blockScope fuel inner) (exec blockScope more other))
        (fun body other ↦ Outruns (runBlock (exec blockScope fuel) body)
          (runBlock (exec blockScope more) other)) (rule.inside node) :=
      eventually_similar hrule.sameValue ih (hrule.eventually_runBlock ih) node
    obtain ⟨least, hsimilar, hfuel⟩ := (hinside.and (eventually_ge_atTop fuel)).exists
    have hform := outruns_exec_succ hfuel hsimilar
    exact (hrule.node (least + 1) (rule.inside node)).mono fun _ hnode ↦ hform.trans hnode

theorem runBlock_of_applyAll (hrule : rule.Sound blockScope) {fuel : Nat}
    (hnode : ∀ node, Outruns (exec blockScope fuel (rule.apply node)) (exec blockScope fuel node))
    (body : List Node) :
    Outruns (runBlock (exec blockScope fuel) (rule.applyAll body))
      (runBlock (exec blockScope fuel) body) := by
  have heach : Outruns (runBlock (exec blockScope fuel) (rule.each body))
      (runBlock (exec blockScope fuel) body) := by
    induction body with
    | nil =>
      rw [each]
      exact outruns_runBlock_nil
    | cons node rest ih =>
      rw [each]
      exact outruns_runBlock_cons (hnode node) ih
  exact (hrule.of_body fuel (rule.each body)).trans heach

theorem exec_of_apply (hrule : rule.Sound blockScope) (fuel : Nat) (node : Node) :
    Outruns (exec blockScope fuel (rule.apply node)) (exec blockScope fuel node) := by
  induction fuel generalizing node with
  | zero => exact fun _ _ _ ↦ trivial
  | succ fuel ih =>
    have hinside : ∀ᶠ _ in atTop, node.Similar
        (flip fun inner other ↦ Outruns (exec blockScope fuel inner) (exec blockScope fuel other))
        (flip fun body other ↦ Outruns (runBlock (exec blockScope fuel) body)
          (runBlock (exec blockScope fuel) other)) (rule.inside node) :=
      eventually_similar hrule.sameValue (fun node ↦ .of_forall fun _ ↦ ih node)
        (fun body ↦ .of_forall fun _ ↦ hrule.runBlock_of_applyAll ih body) node
    obtain ⟨_, hsimilar⟩ := hinside.exists
    exact (hrule.of_node (fuel + 1) (rule.inside node)).trans
      (outruns_exec_succ (Nat.le_refl fuel) hsimilar.symm)

/-- A program and its rewriting end alike, if one of them ends. -/
theorem exists_seen_iff (hrule : rule.Sound blockScope) (program : Program) (machine : Machine)
    (ending : Ending (Option Int)) :
    (∃ fuel, (machine.interpret blockScope fuel program).seen = some ending) ↔
      ∃ fuel, (machine.interpret blockScope fuel (rule.applyAll program)).seen = some ending := by
  constructor
  · rintro ⟨fuel, hending⟩
    obtain ⟨more, hmore⟩ :=
      (hrule.eventually_runBlock (hrule.eventually_exec fuel) program).exists
    exact ⟨more, (hmore.interpret machine machine (.refl machine)).seen_eq hending⟩
  · rintro ⟨fuel, hending⟩
    have hback := hrule.runBlock_of_applyAll (hrule.exec_of_apply fuel) program
    exact ⟨fuel, (hback.interpret machine machine (.refl machine)).seen_eq hending⟩

end Sound

end Rewriting

end Scriptlet
