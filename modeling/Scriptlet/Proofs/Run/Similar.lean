import Mathlib.Data.List.Forall2
import Scriptlet.Exec

/-!
# Statements of one form

A rewriting of programs mostly leaves the form of a statement alone and goes to work on the
statements inside it. What it keeps is said here as a relation between two statements, with the
relations between the inner ones left open. How such statements run is compared in the modules that
build on this one.
-/

namespace Scriptlet.Node

/-- In every environment the two have the same value, or lack one for the same reason. -/
def SameValue (node other : Node) : Prop := ∀ env, evalExpr env node = evalExpr env other

theorem SameValue.refl (node : Node) : node.SameValue node := fun _ ↦ rfl

theorem SameValue.symm {node other : Node} (h : node.SameValue other) : other.SameValue node :=
  fun env ↦ (h env).symm

theorem SameValue.trans {node other last : Node} (h : node.SameValue other)
    (hlast : other.SameValue last) : node.SameValue last :=
  fun env ↦ (h env).trans (hlast env)

/-- The two statements have one form, the same names and the same values. A statement inside them
may differ as `N` allows, and a body as `B` does. -/
inductive Similar (N : Node → Node → Prop) (B : List Node → List Node → Prop) :
    Node → Node → Prop
  | declare {value other : Node} (name : String) (isMutable : Bool)
      (hvalue : value.SameValue other) :
      Similar N B (.declare name value isMutable) (.declare name other isMutable)
  | assign {value other : Node} (name : String) (hvalue : value.SameValue other) :
      Similar N B (.assign name value) (.assign name other)
  | branch {condition guard : Node} {body inner : List Node}
      {elseIfs clauses : List (Node × List Node)} {otherwise last : Option (List Node)}
      (hcondition : condition.SameValue guard) (hbody : B body inner)
      (helseIfs : List.Forall₂ (fun clause other ↦ clause.1.SameValue other.1 ∧ B clause.2 other.2)
        elseIfs clauses)
      (hotherwise : Option.Rel B otherwise last) :
      Similar N B (.branch condition body elseIfs otherwise) (.branch guard inner clauses last)
  | loop {init first condition guard update next : Node} {body inner : List Node}
      (hinit : N init first) (hcondition : condition.SameValue guard) (hupdate : N update next)
      (hbody : B body inner) :
      Similar N B (.loop init condition update body) (.loop first guard next inner)
  | write {expression other : Option Node} (newline : Bool) (text : Option String)
      (hexpression : Option.Rel SameValue expression other) :
      Similar N B (.write newline text expression) (.write newline text other)
  | ret {value other : Node} (hvalue : value.SameValue other) :
      Similar N B (.ret value) (.ret other)
  | comment (text other : String) : Similar N B (.comment text) (.comment other)
  | expression {node other : Node} (hnode : node.isExpression = true)
      (hother : other.isExpression = true) (hvalue : node.SameValue other) : Similar N B node other

variable {N : Node → Node → Prop} {B : List Node → List Node → Prop}

theorem rel_refl {α : Type} {R : α → α → Prop} (h : ∀ a, R a a) (option : Option α) :
    Option.Rel R option option := by
  cases option with
  | some a => exact .some (h a)
  | none => exact .none

theorem rel_flip {α : Type} {R : α → α → Prop} {option other : Option α}
    (h : Option.Rel R option other) : Option.Rel (flip R) other option := by
  cases h with
  | some h => exact .some h
  | none => exact .none

theorem Similar.refl (hN : ∀ node, N node node) (hB : ∀ body, B body body) (node : Node) :
    Similar N B node node := by
  cases node with
  | declare name value isMutable => exact .declare name isMutable (.refl value)
  | assign name value => exact .assign name (.refl value)
  | branch condition body elseIfs otherwise =>
    refine .branch (.refl condition) (hB body) ?_ (rel_refl hB otherwise)
    exact List.forall₂_same.2 fun clause _ ↦ ⟨.refl clause.1, hB clause.2⟩
  | loop init condition update body =>
    exact .loop (hN init) (.refl condition) (hN update) (hB body)
  | write newline text expression => exact .write newline text (rel_refl .refl expression)
  | ret value => exact .ret (.refl value)
  | comment text => exact .comment text text
  | number | string | boolean | identifier | binary => exact .expression rfl rfl (.refl _)

theorem Similar.symm {node other : Node} (h : Similar N B node other) :
    Similar (flip N) (flip B) other node := by
  cases h with
  | declare name isMutable hvalue => exact .declare name isMutable hvalue.symm
  | assign name hvalue => exact .assign name hvalue.symm
  | branch hcondition hbody helseIfs hotherwise =>
    refine .branch hcondition.symm hbody ?_ (rel_flip hotherwise)
    exact (helseIfs.imp fun _ _ h ↦ ⟨h.1.symm, h.2⟩).flip
  | loop hinit hcondition hupdate hbody => exact .loop hinit hcondition.symm hupdate hbody
  | write newline text hexpression =>
    refine .write newline text ?_
    cases hexpression with
    | some h => exact .some h.symm
    | none => exact .none
  | ret hvalue => exact .ret hvalue.symm
  | comment text other => exact .comment other text
  | expression hnode hother hvalue => exact .expression hother hnode hvalue.symm

end Scriptlet.Node
