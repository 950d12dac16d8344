import Mathlib.Data.List.Basic
import Scriptlet.Proofs.Grammar.Program

/-!
# Where statements end

Which places in a program lie between statements can be told from the kinds before them alone. A
brace, a comment and the semicolon of a statement end at a boundary; the semicolons in the header of
a loop do not, since a parenthesis is open there. Every statement, block and clause of the grammar
is in balance and ends at a boundary, and what stands before a block has none.

A cut splits the kinds of a derivation at a boundary that no clause of a conditional follows. It
lies in one of the derivation's parts or between two of them.
-/

namespace Scriptlet.Grammar

/-! ## Boundaries -/

/-- How many parentheses are open behind the kinds. -/
def opened (kinds : List TokenKind) : Int := kinds.count .leftParen - kinds.count .rightParen

@[simp] theorem opened_append (first second : List TokenKind) :
    opened (first ++ second) = opened first + opened second := by
  simp only [opened, List.count_append]
  omega

theorem opened_append_of_eq_zero {first : List TokenKind} (h : opened first = 0)
    (second : List TokenKind) : opened (first ++ second) = opened second := by
  rw [opened_append, h, Int.zero_add]

theorem opened_cons (kind : TokenKind) (kinds : List TokenKind) :
    opened (kind :: kinds) = opened [kind] + opened kinds :=
  opened_append [kind] kinds

/-- Whether a statement can start behind the kind, with so many parentheses open. Between
parentheses a semicolon is part of the header of a loop. -/
def bounds (count : Int) : TokenKind → Prop
  | .comment _ | .leftBrace | .rightBrace => True
  | .semicolon => count = 0
  | _ => False

/-- The kinds end where a statement can start. -/
def Boundary (kinds : List TokenKind) : Prop :=
  ∀ kind ∈ kinds.getLast?, bounds (opened kinds) kind

theorem boundary_nil : Boundary [] := by
  intro kind hkind
  cases hkind

theorem boundary_append {first second : List TokenKind} (hfirst : opened first = 0)
    (hsecond : second ≠ []) : Boundary (first ++ second) ↔ Boundary second := by
  rw [Boundary, List.getLast?_append_of_ne_nil first hsecond, opened_append_of_eq_zero hfirst]
  rfl

/-- The kinds are in balance, and a statement can start behind them. -/
structure Closed (kinds : List TokenKind) : Prop where
  opened : opened kinds = 0
  boundary : Boundary kinds

theorem Closed.nil : Closed [] := ⟨rfl, boundary_nil⟩

theorem Boundary.prepend {first second : List TokenKind} (hsecond : Boundary second)
    (hfirst : Closed first) : Boundary (first ++ second) := by
  by_cases hnil : second = []
  · rw [hnil, List.append_nil]
    exact hfirst.boundary
  · exact (boundary_append hfirst.opened hnil).2 hsecond

theorem Closed.append {first second : List TokenKind} (hfirst : Closed first)
    (hsecond : Closed second) : Closed (first ++ second) :=
  ⟨(opened_append_of_eq_zero hfirst.opened second).trans hsecond.opened,
    hsecond.boundary.prepend hfirst⟩

/-! ## Kinds without a boundary -/

/-- No boundary lies within or right behind the kinds, where `lead` stands before them. -/
def Unbroken (lead kinds : List TokenKind) : Prop :=
  ∀ before after, kinds = before ++ after → before ≠ [] → ¬Boundary (lead ++ before)

theorem Unbroken.append {lead first second : List TokenKind} (hfirst : Unbroken lead first)
    (hsecond : Unbroken (lead ++ first) second) : Unbroken lead (first ++ second) := by
  intro before after heq hbefore
  obtain ⟨inner, rfl, hinner⟩ | ⟨inner, hinner, -⟩ := List.append_eq_append_iff.1 heq
  · by_cases hnil : inner = []
    · rw [hnil, List.append_nil] at hbefore ⊢
      exact hfirst first [] (List.append_nil first).symm hbefore
    · rw [← List.append_assoc]
      exact hsecond inner after hinner hnil
  · exact hfirst before inner hinner hbefore

theorem unbroken_of_forall {kinds : List TokenKind}
    (h : ∀ kind ∈ kinds, ∀ count, ¬bounds count kind) (lead : List TokenKind) :
    Unbroken lead kinds := by
  rintro before after rfl hbefore hboundary
  obtain ⟨kind, hkind⟩ := Option.isSome_iff_exists.1 (List.getLast?_isSome.2 hbefore)
  have hlast : kind ∈ (lead ++ before).getLast? := by
    rw [List.getLast?_append_of_ne_nil lead hbefore, hkind]
    rfl
  exact h kind (List.mem_append_left after (List.mem_of_getLast? hkind)) _ (hboundary kind hlast)

theorem unbroken_semicolon {lead : List TokenKind} (h : opened lead ≠ 0) :
    Unbroken lead [.semicolon] := by
  intro before after heq hbefore hboundary
  obtain ⟨rfl, -⟩ : before = [.semicolon] ∧ after = [] := by
    simpa [hbefore, List.singleton_eq_append_iff] using heq
  have hcount : opened (lead ++ [.semicolon]) = 0 := hboundary .semicolon (by simp)
  rw [opened_append] at hcount
  exact h ((Int.add_zero _).symm.trans hcount)

/-- What can stand before a block: kinds in balance without a boundary. -/
structure Front (kinds : List TokenKind) : Prop where
  opened : opened kinds = 0
  unbroken : Unbroken [] kinds

/-- Kinds in balance of which none ends a statement. -/
structure Inline (kinds : List TokenKind) : Prop where
  opened : opened kinds = 0
  within : ∀ kind ∈ kinds, ∀ count, ¬bounds count kind

theorem Inline.front {kinds : List TokenKind} (h : Inline kinds) : Front kinds :=
  ⟨h.opened, unbroken_of_forall h.within []⟩

theorem Inline.append {first second : List TokenKind} (hfirst : Inline first)
    (hsecond : Inline second) : Inline (first ++ second) :=
  ⟨(opened_append_of_eq_zero hfirst.opened second).trans hsecond.opened,
    List.forall_mem_append.2 ⟨hfirst.within, hsecond.within⟩⟩

theorem Inline.cons {kind : TokenKind} {kinds : List TokenKind}
    (hopened : Grammar.opened [kind] = 0) (hkind : ∀ count, ¬bounds count kind)
    (h : Inline kinds) : Inline (kind :: kinds) :=
  ⟨(opened_append_of_eq_zero hopened kinds).trans h.opened,
    List.forall_mem_cons.2 ⟨hkind, h.within⟩⟩

theorem Inline.keyword (word : Keyword) {kinds : List TokenKind} (h : Inline kinds) :
    Inline (.keyword word :: kinds) :=
  h.cons rfl fun _ ↦ not_false

theorem Inline.assign {kinds : List TokenKind} (h : Inline kinds) : Inline (.assign :: kinds) :=
  h.cons rfl fun _ ↦ not_false

theorem Inline.parenthesised {kinds : List TokenKind} (h : Inline kinds) :
    Inline (.leftParen :: (kinds ++ [.rightParen])) := by
  constructor
  · rw [opened_cons, opened_append, h.opened]
    rfl
  · refine List.forall_mem_cons.2 ⟨fun _ ↦ not_false, List.forall_mem_append.2 ⟨h.within, ?_⟩⟩
    exact List.forall_mem_singleton.2 fun _ ↦ not_false

theorem Inline.identifier {kind : TokenKind} {name : String} (hname : kind.identifier? = some name)
    {kinds : List TokenKind} (h : Inline kinds) : Inline (kind :: kinds) := by
  cases kind <;> cases hname <;> exact h.cons rfl fun _ ↦ not_false

theorem Inline.operator (op : BinOp) {kinds : List TokenKind} (h : Inline kinds) :
    Inline (.operator op :: kinds) := by
  cases op <;> exact h.cons rfl fun _ ↦ not_false

theorem Inline.nil : Inline [] := ⟨rfl, by simp⟩

theorem Quoted.inline {kinds : List TokenKind} {text : String} (h : Quoted kinds text) :
    Inline kinds := by
  cases h
  exact ⟨rfl, by simp [bounds]⟩

theorem hereditary_inline : Hereditary fun _ kinds _ ↦ Inline kinds where
  looser h := h
  binary op hleft hright := hleft.append (.operator op hright)
  atom h := by
    cases h with
    | string h => exact h.inline
    | identifier hname => exact .identifier hname .nil
    | _ => exact ⟨rfl, by simp [bounds]⟩
  parenthesised h := h.parenthesised

theorem Comparison.inline {kinds : List TokenKind} {node : Node} (h : Comparison kinds node) :
    Inline kinds :=
  h.hereditary hereditary_inline

theorem Value.inline {kinds : List TokenKind} {node : Node} (h : Value kinds node) :
    Inline kinds := by
  cases h with
  | string h => exact h.inline
  | true | false => exact .keyword _ .nil
  | expression h _ => exact h.inline

theorem Update.inline {kinds : List TokenKind} {node : Node} (h : Update kinds node) :
    Inline kinds := by
  cases h with
  | assign hname hvalue => exact .identifier hname hvalue.inline.assign
  | expression h => exact h.inline

/-! ## Statements without a block -/

/-- The kinds of a statement that has no block: a semicolon ends them. -/
inductive Simple : List TokenKind → Prop
  | ended {front : List TokenKind} (h : Inline front) : Simple (front ++ [.semicolon])

theorem Simple.closed {kinds : List TokenKind} (h : Simple kinds) : Closed kinds := by
  cases h with
  | ended h =>
    have hopened : Grammar.opened [.semicolon] = 0 := rfl
    refine ⟨(opened_append_of_eq_zero h.opened _).trans hopened, ?_⟩
    rw [boundary_append h.opened (by simp)]
    intro kind hkind
    cases hkind
    exact hopened

theorem Simple.keyword (word : Keyword) {kinds : List TokenKind} (h : Simple kinds) :
    Simple (.keyword word :: kinds) := by
  cases h with
  | ended h => exact .ended (h.keyword word)

theorem Bound.simple {build : String → Node → Node} {kinds : List TokenKind} {node : Node}
    (h : Bound build kinds node) : Simple kinds := by
  cases h with
  | bound hname hvalue => exact .ended (.identifier hname hvalue.inline.assign)

theorem Binding.simple {kinds : List TokenKind} {node : Node} (h : Binding kinds node) :
    Simple kinds := by
  cases h with
  | define h =>
    cases h with
    | immutable h => exact h.simple.keyword _
    | mutable h => exact (h.simple.keyword _).keyword _
  | mutable h => exact h.simple.keyword _
  | assign h => exact h.simple

theorem Returned.simple {kinds : List TokenKind} {node : Node} (h : Returned kinds node) :
    Simple kinds := by
  cases h with
  | returned h => exact .ended h.inline

theorem Written.simple {newline : Bool} {kinds : List TokenKind} {node : Node}
    (h : Written newline kinds node) : Simple kinds := by
  cases h with
  | @written kinds _ h =>
    have hpayload : Inline kinds := by
      cases h with
      | text h => exact h.inline
      | expression h _ => exact h.inline
    simpa using Simple.ended hpayload.parenthesised

/-! ## The header of a loop -/

/-- What stands between `for` and the body of a loop. -/
def header (first second third : List TokenKind) : List TokenKind :=
  .leftParen :: (first ++ (second ++ .semicolon :: (third ++ [.rightParen])))

theorem header_append (first second third rest : List TokenKind) :
    header first second third ++ rest =
      .leftParen :: (first ++ (second ++ .semicolon :: (third ++ .rightParen :: rest))) := by
  simp [header]

theorem unbroken_header {first second third : List TokenKind} (hfirst : Simple first)
    (hsecond : Inline second) (hthird : Inline third) :
    Unbroken [] (header first second third) := by
  cases hfirst with
  | @ended front hfront =>
    have heq : header (front ++ [.semicolon]) second third =
        (.leftParen :: front) ++ ([.semicolon] ++ (second ++ ([.semicolon] ++
          (third ++ [.rightParen])))) := by
      simp [header]
    have hopened : opened (.leftParen :: front) = 1 := by
      rw [opened_cons, hfront.opened]
      rfl
    rw [heq]
    -- Both semicolons stand where one parenthesis is open.
    refine (unbroken_of_forall ?_ _).append ((unbroken_semicolon ?_).append
      ((unbroken_of_forall hsecond.within _).append ((unbroken_semicolon ?_).append
        (unbroken_of_forall ?_ _))))
    · exact List.forall_mem_cons.2 ⟨fun _ ↦ not_false, hfront.within⟩
    · rw [List.nil_append, hopened]
      decide
    · rw [List.nil_append, opened_append, opened_append, hopened, hsecond.opened]
      decide
    · exact List.forall_mem_append.2
        ⟨hthird.within, List.forall_mem_singleton.2 fun _ ↦ not_false⟩

theorem front_header {first second third : List TokenKind} {init condition update : Node}
    (hinit : Binding first init) (hcondition : Comparison second condition)
    (hupdate : Update third update) : Front (header first second third) := by
  refine ⟨?_, unbroken_header hinit.simple hcondition.inline hupdate.inline⟩
  rw [header, opened_cons, opened_append, opened_append, opened_cons .semicolon, opened_append,
    hinit.simple.closed.opened, hcondition.inline.opened, hupdate.inline.opened]
  rfl

/-! ## What ends at a boundary -/

theorem Closed.prepend {first second : List TokenKind} (hfirst : Grammar.opened first = 0)
    (hsecond : Closed second) (hne : second ≠ []) : Closed (first ++ second) :=
  ⟨(opened_append_of_eq_zero hfirst second).trans hsecond.opened,
    (boundary_append hfirst hne).2 hsecond.boundary⟩

theorem Closed.braces {kinds : List TokenKind} (h : Closed kinds) :
    Closed (.leftBrace :: (kinds ++ [.rightBrace])) := by
  constructor
  · rw [opened_cons, opened_append, h.opened]
    rfl
  · intro kind hkind
    rw [← List.cons_append, List.getLast?_concat] at hkind
    cases hkind
    trivial

theorem Block.ne_nil {kinds : List TokenKind} {body : List Node} (h : Block kinds body) :
    kinds ≠ [] := by
  cases h
  simp

mutual

theorem Statement.closed {kinds : List TokenKind} {node : Node} :
    Statement kinds node → Closed kinds
  | .binding h => h.simple.closed
  | .branch h => h.closed
  | .loop h => h.closed
  | .ret h => (h.simple.keyword _).closed
  | .write h => (h.simple.keyword _).closed
  | .writeln h => (h.simple.keyword _).closed

theorem Branch.closed {kinds : List TokenKind} {node : Node} :
    Branch kinds node → Closed (.keyword .ifWord :: kinds)
  | .branch hcondition hbody helseIfs hotherwise =>
    .prepend (hcondition.inline.keyword _).opened
      (hbody.closed.append (helseIfs.closed.append hotherwise.closed)) (by simp [hbody.ne_nil])

theorem Loop.closed {kinds : List TokenKind} {node : Node} :
    Loop kinds node → Closed (.keyword .forWord :: kinds)
  | .loop hinit hcondition hupdate hbody => by
    have hfront := front_header hinit hcondition hupdate
    have hclosed := Closed.prepend ((opened_append_of_eq_zero (Inline.nil.keyword .forWord).opened
      _).trans hfront.opened) hbody.closed hbody.ne_nil
    simpa only [List.cons_append, List.nil_append, header_append] using hclosed

theorem Block.closed {kinds : List TokenKind} {body : List Node} : Block kinds body → Closed kinds
  | .braces h => h.closed.braces

theorem Items.closed {kinds : List TokenKind} {nodes : List Node} : Items kinds nodes → Closed kinds
  | .nil => .nil
  | .cons hitem hrest => hitem.closed.append hrest.closed

theorem Item.closed {kinds : List TokenKind} {node : Node} : Item kinds node → Closed kinds
  | .comment text => ⟨rfl, by simp [Boundary, bounds]⟩
  | .statement h => h.closed

theorem ElseIfs.closed {kinds : List TokenKind} {clauses : List (Node × List Node)} :
    ElseIfs kinds clauses → Closed kinds
  | .nil => .nil
  | .cons hcondition hbody hrest =>
    .prepend (hcondition.inline.keyword _).opened (hbody.closed.append hrest.closed)
      (by simp [hbody.ne_nil])

theorem Otherwise.closed {kinds : List TokenKind} {otherwise : Option (List Node)} :
    Otherwise kinds otherwise → Closed kinds
  | .absent => .nil
  | .present h => .prepend (Inline.nil.keyword _).opened h.closed h.ne_nil

end

/-! ## Cuts -/

/-- A comment fits between the kinds: a statement can start there, and no clause does. -/
structure Gap (before after : List TokenKind) : Prop where
  boundary : Boundary before
  apart : ∀ kind ∈ after.head?, ¬extendsBranch kind

/-- A gap with kinds on both of its sides. -/
structure Cut (before after : List TokenKind) : Prop extends Gap before after where
  before_ne : before ≠ []
  after_ne : after ≠ []

theorem Boundary.of_append {first second : List TokenKind} (h : Boundary (first ++ second))
    (hfirst : opened first = 0) : Boundary second := by
  by_cases hnil : second = []
  · rw [hnil]
    exact boundary_nil
  · exact (boundary_append hfirst hnil).1 h

theorem Gap.of_append {before after rest : List TokenKind} (h : Gap before (after ++ rest)) :
    Gap before after := by
  refine ⟨h.boundary, fun kind hkind ↦ h.apart kind ?_⟩
  rw [List.head?_append, Option.mem_def.1 hkind]
  rfl

/-- A cut of two parts lies in the first, between them, or in the second. -/
theorem Cut.parts {first second before after : List TokenKind} (h : Cut before after)
    (heq : first ++ second = before ++ after) (hfirst : opened first = 0) :
    (∃ inner, first = before ++ inner ∧ after = inner ++ second ∧ Cut before inner) ∨
    (before = first ∧ after = second) ∨
    ∃ inner, before = first ++ inner ∧ second = inner ++ after ∧ Cut inner after := by
  obtain ⟨inner, rfl, rfl⟩ | ⟨inner, rfl, rfl⟩ := List.append_eq_append_iff.1 heq
  · by_cases hnil : inner = []
    · exact .inr (.inl (by simp [hnil]))
    · exact .inr (.inr ⟨inner, rfl, rfl, ⟨h.boundary.of_append hfirst, h.apart⟩, hnil, h.after_ne⟩)
  · by_cases hnil : inner = []
    · exact .inr (.inl (by simp [hnil]))
    · exact .inl ⟨inner, rfl, rfl, h.toGap.of_append, h.before_ne, hnil⟩

/-- A cut lies behind what has no boundary. -/
theorem Cut.behind {first second before after : List TokenKind} (h : Cut before after)
    (heq : first ++ second = before ++ after) (hfirst : Front first) :
    ∃ inner, before = first ++ inner ∧ second = inner ++ after ∧ Cut inner after := by
  obtain ⟨inner, hinner, -⟩ | ⟨rfl, -⟩ | hinner := h.parts heq hfirst.opened
  · exact absurd h.boundary (hfirst.unbroken before inner hinner h.before_ne)
  · exact absurd h.boundary (hfirst.unbroken before [] (List.append_nil before).symm h.before_ne)
  · exact hinner

/-- A statement without a block cannot be cut. -/
theorem Simple.not_cut {kinds before after : List TokenKind} (h : Simple kinds)
    (heq : kinds = before ++ after) : ¬Cut before after := by
  intro hcut
  cases h with
  | ended h =>
    obtain ⟨inner, -, hinner, hrest⟩ := hcut.behind heq h.front
    simp [List.singleton_eq_append_iff, hrest.before_ne, hrest.after_ne] at hinner

end Scriptlet.Grammar
