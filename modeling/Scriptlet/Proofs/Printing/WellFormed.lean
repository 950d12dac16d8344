import Scriptlet.Proofs.Grammar.Program

/-!
# Well-formed programs

Expressions and statements share one type of trees. A program is well-formed if each stands where
it belongs and all that a numeral has to denote can be denoted by one. Every program that has a
spelling is of this kind. Whether an expression may also stand as a statement is left open in the
definition, but none that has a spelling does.
-/

namespace Scriptlet

namespace Node

/-- An expression all the way down, whose numbers are denoted by numerals. -/
inductive Denotable : Node → Prop
  | number (digits : String) : Denotable (.number (Parser.numberOf digits))
  | string (value : String) : Denotable (.string value)
  | boolean (value : Bool) : Denotable (.boolean value)
  | identifier (name : String) : Denotable (.identifier name)
  | binary {left right : Node} (op : BinOp) (hleft : Denotable left) (hright : Denotable right) :
      Denotable (.binary left op right)

/-- What a loop may start with: a declaration or an assignment. -/
inductive Initial : Node → Prop
  | declare {value : Node} (name : String) (isMutable : Bool) (h : Denotable value) :
      Initial (.declare name value isMutable)
  | assign {value : Node} (name : String) (h : Denotable value) : Initial (.assign name value)

/-- What a loop may go on with: an assignment or an expression. -/
inductive Advancing : Node → Prop
  | assign {value : Node} (name : String) (h : Denotable value) : Advancing (.assign name value)
  | expression {node : Node} (h : Denotable node) : Advancing node

/-- A statement with expressions where values are wanted and exactly one thing to write. If `bare`,
an expression may stand as a statement too. -/
inductive Proper (bare : Bool) : Node → Prop
  | initial {node : Node} (h : Initial node) : Proper bare node
  | branch {condition : Node} {body : List Node} {elseIfs : List (Node × List Node)}
      {otherwise : Option (List Node)} (hcondition : Denotable condition)
      (hbody : ∀ node ∈ body, Proper bare node)
      (hguards : ∀ clause ∈ elseIfs, Denotable clause.1)
      (hbodies : ∀ clause ∈ elseIfs, ∀ node ∈ clause.2, Proper bare node)
      (hotherwise : ∀ body ∈ otherwise, ∀ node ∈ body, Proper bare node) :
      Proper bare (.branch condition body elseIfs otherwise)
  | loop {init condition update : Node} {body : List Node} (hinit : Initial init)
      (hcondition : Denotable condition) (hupdate : Advancing update)
      (hbody : ∀ node ∈ body, Proper bare node) : Proper bare (.loop init condition update body)
  | text (newline : Bool) (text : String) : Proper bare (.write newline (some text) none)
  | output {value : Node} (newline : Bool) (h : Denotable value) :
      Proper bare (.write newline none (some value))
  | ret {value : Node} (h : Denotable value) : Proper bare (.ret value)
  | comment (text : String) : Proper bare (.comment text)
  | expression {node : Node} (hbare : bare = true) (h : Denotable node) : Proper bare node

end Node

/-- The program is made of proper statements, and no comment stands outside of all blocks. -/
structure WellFormed (bare : Bool) (program : Program) : Prop where
  proper : ∀ node ∈ program, node.Proper bare
  uncommented : ∀ text, .comment text ∉ program

/-! ## Programs that have a spelling -/

namespace Grammar

theorem hereditary_denotable : Hereditary fun _ _ node ↦ node.Denotable where
  looser h := h
  binary op hleft hright := .binary op hleft hright
  atom h := by
    cases h with
    | number digits => exact .number digits
    | string _ => exact .string _
    | true | false => exact .boolean _
    | identifier _ => exact .identifier _
  parenthesised h := h

theorem Comparison.denotable {kinds : List TokenKind} {node : Node} (h : Comparison kinds node) :
    node.Denotable :=
  h.hereditary hereditary_denotable

theorem Value.denotable {kinds : List TokenKind} {node : Node} (h : Value kinds node) :
    node.Denotable := by
  cases h with
  | string _ => exact .string _
  | true | false => exact .boolean _
  | expression h _ => exact h.denotable

theorem Bound.initial {build : String → Node → Node} {kinds : List TokenKind} {node : Node}
    (h : Bound build kinds node)
    (hbuild : ∀ name value, value.Denotable → (build name value).Initial) : node.Initial := by
  cases h with
  | bound _ hvalue => exact hbuild _ _ hvalue.denotable

theorem Binding.initial {kinds : List TokenKind} {node : Node} (h : Binding kinds node) :
    node.Initial := by
  cases h with
  | define h =>
    cases h with
    | immutable h => exact h.initial fun name _ ↦ .declare name false
    | mutable h => exact h.initial fun name _ ↦ .declare name true
  | mutable h => exact h.initial fun name _ ↦ .declare name true
  | assign h => exact h.initial fun name _ ↦ .assign name

theorem Update.advancing {kinds : List TokenKind} {node : Node} (h : Update kinds node) :
    node.Advancing := by
  cases h with
  | assign _ hvalue => exact .assign _ hvalue.denotable
  | expression h => exact .expression h.denotable

theorem Written.proper {newline : Bool} {kinds : List TokenKind} {node : Node}
    (h : Written newline kinds node) : node.Proper false := by
  cases h with
  | written h =>
    cases h with
    | text _ => exact .text newline _
    | expression h _ => exact .output newline h.denotable

theorem ElseIfs.denotable {kinds : List TokenKind} {clauses : List (Node × List Node)}
    (h : ElseIfs kinds clauses) : ∀ clause ∈ clauses, clause.1.Denotable := by
  induction clauses generalizing kinds with
  | nil => exact nofun
  | cons clause others ih =>
    cases h with
    | cons hcondition _ hrest => exact List.forall_mem_cons.2 ⟨hcondition.denotable, ih hrest⟩

mutual

theorem Statement.proper {kinds : List TokenKind} {node : Node} :
    Statement kinds node → node.Proper false
  | .binding h => .initial h.initial
  | .branch h => h.proper
  | .loop h => h.proper
  | .ret (.returned h) => .ret h.denotable
  | .write h => h.proper
  | .writeln h => h.proper

theorem Branch.proper {kinds : List TokenKind} {node : Node} :
    Branch kinds node → node.Proper false
  | .branch hcondition hbody helseIfs hotherwise =>
    .branch hcondition.denotable hbody.proper helseIfs.denotable helseIfs.proper hotherwise.proper

theorem Loop.proper {kinds : List TokenKind} {node : Node} : Loop kinds node → node.Proper false
  | .loop hinit hcondition hupdate hbody =>
    .loop hinit.initial hcondition.denotable hupdate.advancing hbody.proper

theorem Block.proper {kinds : List TokenKind} {body : List Node} :
    Block kinds body → ∀ node ∈ body, node.Proper false
  | .braces h => h.proper

theorem Items.proper {kinds : List TokenKind} {nodes : List Node} :
    Items kinds nodes → ∀ node ∈ nodes, node.Proper false
  | .nil => nofun
  | .cons hitem hrest => List.forall_mem_cons.2 ⟨hitem.proper, hrest.proper⟩

theorem Item.proper {kinds : List TokenKind} {node : Node} :
    Item kinds node → node.Proper false
  | .comment text => .comment text
  | .statement h => h.proper

theorem ElseIfs.proper {kinds : List TokenKind} {clauses : List (Node × List Node)} :
    ElseIfs kinds clauses → ∀ clause ∈ clauses, ∀ node ∈ clause.2, node.Proper false
  | .nil => nofun
  | .cons _ hbody hrest => List.forall_mem_cons.2 ⟨hbody.proper, hrest.proper⟩

theorem Otherwise.proper {kinds : List TokenKind} {otherwise : Option (List Node)} :
    Otherwise kinds otherwise → ∀ body ∈ otherwise, ∀ node ∈ body, node.Proper false
  | .absent => nofun
  | .present h => fun _ hbody ↦ Option.some.inj hbody ▸ h.proper

end

theorem Statement.ne_comment {kinds : List TokenKind} {text : String} :
    ¬Statement kinds (.comment text) := by
  intro h
  cases h with
  | binding h => nomatch h.initial
  | branch h => cases h
  | loop h => cases h
  | ret h => cases h
  | write h | writeln h =>
    cases h with
    | written h => cases h

/-- A program that has a spelling is well-formed, and no expression in it is a statement. -/
theorem Script.wellFormed {kinds : List TokenKind} {program : Program} (h : Script kinds program) :
    WellFormed false program := by
  induction h with
  | nil => exact ⟨nofun, nofun⟩
  | comment _ _ ih => exact ih
  | @statement _ _ node program hfirst _ ih =>
    refine ⟨List.forall_mem_cons.2 ⟨hfirst.proper, ih.proper⟩, fun text hmem ↦ ?_⟩
    rcases List.mem_cons.1 hmem with rfl | hrest
    · exact hfirst.ne_comment
    · exact ih.uncommented text hrest

end Grammar

end Scriptlet
