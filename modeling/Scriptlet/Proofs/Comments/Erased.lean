import Scriptlet.Proofs.Grammar.Program

/-!
# Programs without their comments

Erasing takes the comments out of every body of a tree, at every depth. The grammar is closed
under it: tokens without their comments derive the tree without its comments. A comment can stand
only where a statement could, so that dropping it joins nothing that was apart.
-/

namespace Scriptlet

namespace Node

def isComment : Node → Bool
  | comment _ => true
  | _ => false

mutual

/-- The tree without the comments in its bodies. -/
def erase : Node → Node
  | binary left op right => binary left.erase op right.erase
  | branch condition body elseIfs otherwise =>
    branch condition.erase (eraseBody body) (eraseClauses elseIfs) (eraseOtherwise otherwise)
  | loop init condition update body =>
    loop init.erase condition.erase update.erase (eraseBody body)
  | declare name value isMutable => declare name value.erase isMutable
  | assign name value => assign name value.erase
  | write newline text expression => write newline text (eraseOption expression)
  | ret value => ret value.erase
  | node => node

def eraseBody : List Node → List Node
  | [] => []
  | node :: nodes => if node.isComment then eraseBody nodes else node.erase :: eraseBody nodes

def eraseClauses : List (Node × List Node) → List (Node × List Node)
  | [] => []
  | (condition, body) :: clauses => (condition.erase, eraseBody body) :: eraseClauses clauses

def eraseOtherwise : Option (List Node) → Option (List Node)
  | some body => some (eraseBody body)
  | none => none

def eraseOption : Option Node → Option Node
  | some node => some node.erase
  | none => none

end

@[simp] theorem eraseBody_comment (text : String) (nodes : List Node) :
    eraseBody (.comment text :: nodes) = eraseBody nodes := by
  rw [eraseBody, isComment, if_pos rfl]

theorem eraseBody_cons {node : Node} (h : node.isComment = false) (nodes : List Node) :
    eraseBody (node :: nodes) = node.erase :: eraseBody nodes := by
  rw [eraseBody, if_neg (by simp [h])]

theorem exists_comment {node : Node} (h : node.isComment = true) : ∃ text, node = .comment text := by
  cases node with
  | comment text => exact ⟨text, rfl⟩
  | _ => cases h

end Node

def TokenKind.isComment : TokenKind → Bool
  | comment _ => true
  | _ => false

namespace Grammar

open Node

/-- The kinds without the comments among them. -/
def uncommented (kinds : List TokenKind) : List TokenKind := kinds.filter fun kind ↦ !kind.isComment

theorem uncommented_cons {kind : TokenKind} (h : kind.isComment = false) (kinds : List TokenKind) :
    uncommented (kind :: kinds) = kind :: uncommented kinds :=
  List.filter_cons_of_pos (by simp [h])

@[simp] theorem uncommented_append (first second : List TokenKind) :
    uncommented (first ++ second) = uncommented first ++ uncommented second :=
  List.filter_append first second

/-! ## Where no comment can stand -/

theorem isComment_operator (op : BinOp) : (TokenKind.operator op).isComment = false := by
  cases op <;> rfl

/-- There is no comment among the kinds or in the tree. -/
structure Plain (kinds : List TokenKind) (node : Node) : Prop where
  kinds : uncommented kinds = kinds
  node : node.erase = node

theorem hereditary_plain : Hereditary fun _ ↦ Plain where
  looser h := h
  binary op hleft hright := by
    refine ⟨?_, by rw [erase, hleft.node, hright.node]⟩
    rw [uncommented_append, uncommented_cons (isComment_operator op), hleft.kinds,
      hright.kinds]
  atom h := by
    cases h with
    | string h => cases h; exact ⟨rfl, rfl⟩
    | @identifier kind _ hname => cases kind <;> cases hname <;> exact ⟨rfl, rfl⟩
    | _ => exact ⟨rfl, rfl⟩
  parenthesised h := by
    refine ⟨?_, h.node⟩
    rw [uncommented_cons rfl, uncommented_append, h.kinds]
    rfl

theorem Comparison.plain {kinds : List TokenKind} {node : Node} (h : Comparison kinds node) :
    Plain kinds node :=
  h.hereditary hereditary_plain

theorem Value.plain {kinds : List TokenKind} {node : Node} (h : Value kinds node) :
    Plain kinds node := by
  cases h with
  | string h => cases h; exact ⟨rfl, rfl⟩
  | true | false => exact ⟨rfl, rfl⟩
  | expression h _ => exact h.plain

theorem isComment_of_identifier {kind : TokenKind} {name : String}
    (h : kind.identifier? = some name) : kind.isComment = false := by
  cases kind with
  | comment text => cases h
  | _ => rfl

theorem Bound.plain {build : String → Node → Node} {kinds : List TokenKind} {node : Node}
    (h : Bound build kinds node)
    (hbuild : ∀ name value, value.erase = value → (build name value).erase = build name value) :
    Plain kinds node := by
  cases h with
  | bound hname hvalue =>
    refine ⟨?_, hbuild _ _ hvalue.plain.node⟩
    rw [uncommented_cons (isComment_of_identifier hname), uncommented_cons rfl,
      uncommented_append, hvalue.plain.kinds]
    rfl

theorem Binding.plain {kinds : List TokenKind} {node : Node} (h : Binding kinds node) :
    Plain kinds node := by
  have hdeclare : ∀ (isMutable : Bool) (name : String) (value : Node), value.erase = value →
      (Node.declare name value isMutable).erase = .declare name value isMutable := by
    intro isMutable name value hvalue
    rw [erase, hvalue]
  have hprefixed : ∀ {kind kinds}, kind.isComment = false → Plain kinds node →
      Plain (kind :: kinds) node := fun hkind h ↦
    ⟨by rw [uncommented_cons hkind, h.kinds], h.node⟩
  cases h with
  | define h =>
    cases h with
    | immutable h => exact hprefixed rfl (h.plain (hdeclare false))
    | mutable h => exact hprefixed rfl (hprefixed rfl (h.plain (hdeclare true)))
  | mutable h => exact hprefixed rfl (h.plain (hdeclare true))
  | assign h => exact h.plain fun name value hvalue ↦ by rw [erase, hvalue]

theorem Update.plain {kinds : List TokenKind} {node : Node} (h : Update kinds node) :
    Plain kinds node := by
  cases h with
  | assign hname hvalue =>
    refine ⟨?_, by rw [erase, hvalue.plain.node]⟩
    rw [uncommented_cons (isComment_of_identifier hname), uncommented_cons rfl, hvalue.plain.kinds]
  | expression h => exact h.plain

theorem Written.plain {newline : Bool} {kinds : List TokenKind} {node : Node}
    (h : Written newline kinds node) : Plain kinds node := by
  cases h with
  | @written kinds _ h =>
    have hpayload : Plain kinds node := by
      cases h with
      | text h => cases h; exact ⟨rfl, rfl⟩
      | expression h _ => exact ⟨h.plain.kinds, by rw [erase, eraseOption, h.plain.node]⟩
    refine ⟨?_, hpayload.node⟩
    rw [uncommented_cons rfl, uncommented_append, hpayload.kinds]
    rfl

theorem Returned.plain {kinds : List TokenKind} {node : Node} (h : Returned kinds node) :
    Plain kinds node := by
  cases h with
  | returned h =>
    refine ⟨?_, by rw [erase, h.plain.node]⟩
    rw [uncommented_append, h.plain.kinds]
    rfl

/-! ## Statements and programs -/

theorem Bound.isComment {build : String → Node → Node} {kinds : List TokenKind} {node : Node}
    (h : Bound build kinds node) (hbuild : ∀ name value, (build name value).isComment = false) :
    node.isComment = false := by
  cases h with
  | bound => exact hbuild _ _

theorem Statement.isComment {kinds : List TokenKind} {node : Node} (h : Statement kinds node) :
    node.isComment = false := by
  cases h with
  | binding h =>
    cases h with
    | define h =>
      cases h with
      | immutable h | mutable h => exact h.isComment fun _ _ ↦ rfl
    | mutable h | assign h => exact h.isComment fun _ _ ↦ rfl
  | branch h | loop h | ret h => cases h; rfl
  | write h | writeln h =>
    cases h with
    | written h => cases h <;> rfl

mutual

theorem Statement.erase {kinds : List TokenKind} {node : Node} :
    Statement kinds node → Statement (uncommented kinds) node.erase
  | .binding h => by
    rw [h.plain.kinds, h.plain.node]
    exact .binding h
  | .branch h => .branch h.erase
  | .loop h => .loop h.erase
  | .ret h => by
    rw [uncommented_cons rfl, h.plain.kinds, h.plain.node]
    exact .ret h
  | .write h => by
    rw [uncommented_cons rfl, h.plain.kinds, h.plain.node]
    exact .write h
  | .writeln h => by
    rw [uncommented_cons rfl, h.plain.kinds, h.plain.node]
    exact .writeln h

theorem Branch.erase {kinds : List TokenKind} {node : Node} :
    Branch kinds node → Branch (uncommented kinds) node.erase
  | .branch hcondition hbody helseIfs hotherwise => by
    simp only [uncommented_append, Node.erase, hcondition.plain.kinds, hcondition.plain.node]
    exact .branch hcondition hbody.erase helseIfs.erase hotherwise.erase

theorem Loop.erase {kinds : List TokenKind} {node : Node} :
    Loop kinds node → Loop (uncommented kinds) node.erase
  | .loop hinit hcondition hupdate hbody => by
    rw [uncommented_cons rfl, uncommented_append, uncommented_append, uncommented_cons rfl,
      uncommented_append, uncommented_cons rfl, Node.erase, hinit.plain.kinds, hinit.plain.node,
      hcondition.plain.kinds, hcondition.plain.node, hupdate.plain.kinds, hupdate.plain.node]
    exact .loop hinit hcondition hupdate hbody.erase

theorem Block.erase {kinds : List TokenKind} {body : List Node} :
    Block kinds body → Block (uncommented kinds) (eraseBody body)
  | .braces h => by
    rw [uncommented_cons rfl, uncommented_append]
    exact .braces h.erase

theorem Items.erase {kinds : List TokenKind} {nodes : List Node} :
    Items kinds nodes → Items (uncommented kinds) (eraseBody nodes)
  | .nil => by
    rw [eraseBody]
    exact .nil
  | .cons (.comment text) hrest => by
    rw [eraseBody_comment]
    exact hrest.erase
  | .cons (.statement h) hrest => by
    rw [uncommented_append, eraseBody_cons h.isComment]
    exact .cons (.statement h.erase) hrest.erase

theorem ElseIfs.erase {kinds : List TokenKind} {clauses : List (Node × List Node)} :
    ElseIfs kinds clauses → ElseIfs (uncommented kinds) (eraseClauses clauses)
  | .nil => by
    rw [eraseClauses]
    exact .nil
  | .cons hcondition hbody hrest => by
    rw [uncommented_cons rfl, uncommented_append, uncommented_append, eraseClauses,
      hcondition.plain.kinds, hcondition.plain.node]
    exact .cons hcondition hbody.erase hrest.erase

theorem Otherwise.erase {kinds : List TokenKind} {otherwise : Option (List Node)} :
    Otherwise kinds otherwise → Otherwise (uncommented kinds) (eraseOtherwise otherwise)
  | .absent => by
    rw [eraseOtherwise]
    exact .absent
  | .present h => by
    rw [uncommented_cons rfl, eraseOtherwise]
    exact .present h.erase

end

theorem Script.erase {kinds : List TokenKind} {program : Program} (h : Script kinds program) :
    Script (uncommented kinds) (eraseBody program) := by
  induction h with
  | nil =>
    rw [eraseBody]
    exact .nil
  | comment text _ ih => exact ih
  | statement hfirst _ ih =>
    rw [uncommented_append, eraseBody_cons hfirst.isComment]
    exact .statement hfirst.erase ih

/-- Tokens without their comments are read as the program without its comments. -/
theorem parse_uncommented {tokens : List Token} {program : Program}
    (h : parse tokens = .ok program) :
    parse (tokens.filter fun token ↦ !token.kind.isComment) = .ok (eraseBody program) := by
  have hkinds : (tokens.filter fun token ↦ !token.kind.isComment).map Token.kind =
      uncommented (tokens.map Token.kind) := by
    rw [uncommented, List.filter_map]
    rfl
  apply Script.parse
  rw [hkinds]
  exact (Script.of_parse h).erase

end Grammar

end Scriptlet
