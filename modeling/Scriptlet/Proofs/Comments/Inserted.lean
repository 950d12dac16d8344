import Scriptlet.Proofs.Comments.Boundary
import Scriptlet.Proofs.Comments.Erased

/-!
# Programs with one more comment

Where a comment can be added to the tokens of a program: at each boundary, unless the clause of a
conditional follows. There the reader looks for `elif` and `else` directly behind the brace that
closes a block, and refuses the clause behind a comment. An added comment leaves the program's
erasure as it was.

A derivation that is cut can be put together again with a comment in the cut, and a comment in a
derivation lies in a cut.
-/

namespace Scriptlet.Grammar

open Scriptlet.Parser Node

/-! ## Putting a comment into a cut -/

/-- The clauses behind a block start with one of their words, if there are any. -/
theorem ElseIfs.append_eq_nil {third fourth : List TokenKind} {clauses : List (Node × List Node)}
    {otherwise : Option (List Node)} (helseIfs : ElseIfs third clauses)
    (hotherwise : Otherwise fourth otherwise)
    (h : ∀ kind ∈ (third ++ fourth).head?, ¬extendsBranch kind) : third ++ fourth = [] := by
  cases helseIfs with
  | nil =>
    cases hotherwise with
    | absent => rfl
    | present _ => exact absurd (.inr rfl) (h _ rfl)
  | cons _ _ _ => exact absurd (.inl rfl) (h _ rfl)

mutual

theorem Statement.insert (text : String) {kinds before after : List TokenKind} {node : Node} :
    Statement kinds node → kinds = before ++ after → Cut before after →
      ∃ longer, Statement (before ++ .comment text :: after) longer
  | .binding h, heq, hcut => absurd hcut (h.simple.not_cut heq)
  | .ret h, heq, hcut => absurd hcut ((h.simple.keyword _).not_cut heq)
  | .write h, heq, hcut => absurd hcut ((h.simple.keyword _).not_cut heq)
  | .writeln h, heq, hcut => absurd hcut ((h.simple.keyword _).not_cut heq)
  | .branch h, heq, hcut => by
    have hfront := (Inline.nil.keyword .ifWord).front
    obtain ⟨inner, rfl, hinside, hcut⟩ := hcut.behind heq hfront
    obtain ⟨longer, hlonger⟩ := h.insert text hinside hcut
    exact ⟨longer, .branch hlonger⟩
  | .loop h, heq, hcut => by
    have hfront := (Inline.nil.keyword .forWord).front
    obtain ⟨inner, rfl, hinside, hcut⟩ := hcut.behind heq hfront
    obtain ⟨longer, hlonger⟩ := h.insert text hinside hcut
    exact ⟨longer, .loop hlonger⟩

theorem Branch.insert (text : String) {kinds before after : List TokenKind} {node : Node} :
    Branch kinds node → kinds = before ++ after → Cut before after →
      ∃ longer, Branch (before ++ .comment text :: after) longer
  | .branch hcondition hbody helseIfs hotherwise, heq, hcut => by
    obtain ⟨inner, rfl, hinside, hcut⟩ := hcut.behind heq hcondition.inline.front
    obtain ⟨rest, hbefore, rfl, hpart⟩ | ⟨rfl, rfl⟩ | ⟨inner, rfl, hinside, hcut⟩ :=
      hcut.parts hinside hbody.closed.opened
    · obtain ⟨longer, hlonger⟩ := hbody.insert text hbefore hpart
      exact ⟨_, by simpa only [List.append_assoc, List.cons_append] using
        Branch.branch hcondition hlonger helseIfs hotherwise⟩
    · exact absurd (helseIfs.append_eq_nil hotherwise hcut.apart) hcut.after_ne
    obtain ⟨rest, hbefore, rfl, hpart⟩ | ⟨rfl, rfl⟩ | ⟨inner, rfl, hinside, hcut⟩ :=
      hcut.parts hinside helseIfs.closed.opened
    · obtain ⟨longer, hlonger⟩ := helseIfs.insert text hbefore hpart
      exact ⟨_, by simpa only [List.append_assoc, List.cons_append] using
        Branch.branch hcondition hbody hlonger hotherwise⟩
    · exact absurd (ElseIfs.nil.append_eq_nil hotherwise hcut.apart) hcut.after_ne
    · obtain ⟨longer, hlonger⟩ := hotherwise.insert text hinside hcut
      exact ⟨_, by simpa only [List.append_assoc, List.cons_append] using
        Branch.branch hcondition hbody helseIfs hlonger⟩

theorem Loop.insert (text : String) {kinds before after : List TokenKind} {node : Node} :
    Loop kinds node → kinds = before ++ after → Cut before after →
      ∃ longer, Loop (before ++ .comment text :: after) longer
  | .loop hinit hcondition hupdate hbody, heq, hcut => by
    obtain ⟨inner, rfl, hinside, hcut⟩ := hcut.behind ((header_append _ _ _ _).trans heq)
      (front_header hinit hcondition hupdate)
    obtain ⟨longer, hlonger⟩ := hbody.insert text hinside hcut
    rw [List.append_assoc, header_append]
    exact ⟨_, .loop hinit hcondition hupdate hlonger⟩

theorem Block.insert (text : String) {kinds before after : List TokenKind} {body : List Node} :
    Block kinds body → kinds = before ++ after → Cut before after →
      ∃ longer, Block (before ++ .comment text :: after) longer
  | .braces h, heq, hcut => by
    obtain ⟨inner, rfl, hinside⟩ : ∃ inner, before = .leftBrace :: inner ∧ _ = inner ++ after := by
      obtain ⟨rfl, -⟩ | hinner := List.cons_eq_append_iff.1 heq
      · exact absurd rfl hcut.before_ne
      · exact hinner
    have hboundary : Boundary inner :=
      (show Boundary ([.leftBrace] ++ inner) from hcut.boundary).of_append rfl
    -- Something follows the cut, so that the closing brace does.
    obtain ⟨rest, hinner, hrest⟩ | ⟨rest, hbefore, rfl⟩ := List.append_eq_append_iff.1 hinside
    · obtain ⟨rfl, rfl⟩ : rest = [] ∧ after = [.rightBrace] := by
        simpa [List.singleton_eq_append_iff, hcut.after_ne] using hrest
      rw [List.append_nil] at hinner
      obtain ⟨longer, hlonger⟩ := h.insert text (hinner.symm.trans (List.append_nil _).symm)
        ⟨hboundary, by simp⟩
      exact ⟨_, by simpa only [List.append_assoc, List.cons_append, List.nil_append] using
        Block.braces hlonger⟩
    · obtain ⟨longer, hlonger⟩ := h.insert text hbefore (Gap.of_append ⟨hboundary, hcut.apart⟩)
      exact ⟨_, by simpa only [List.append_assoc, List.cons_append] using Block.braces hlonger⟩

theorem Items.insert (text : String) {kinds before after : List TokenKind} {nodes : List Node} :
    Items kinds nodes → kinds = before ++ after → Gap before after →
      ∃ longer, Items (before ++ .comment text :: after) longer
  | .nil, heq, _ => by
    obtain ⟨rfl, rfl⟩ := List.append_eq_nil_iff.1 heq.symm
    exact ⟨_, show Items ([.comment text] ++ []) _ from .cons (.comment text) .nil⟩
  | .cons hitem hrest, heq, hgap => by
    obtain ⟨inner, rfl, hinside⟩ | ⟨inner, hbefore, rfl⟩ := List.append_eq_append_iff.1 heq
    · obtain ⟨longer, hlonger⟩ := hrest.insert text hinside
        ⟨hgap.boundary.of_append hitem.closed.opened, hgap.apart⟩
      exact ⟨_, by simpa only [List.append_assoc] using Items.cons hitem hlonger⟩
    -- Here the gap lies before the first item, right behind it, or inside of it.
    · by_cases hfirst : before = []
      · subst hfirst
        exact ⟨_, by simpa [hbefore] using Items.cons (.comment text) (.cons hitem hrest)⟩
      by_cases hinner : inner = []
      · subst hinner
        exact ⟨_, by simpa [hbefore] using Items.cons hitem (.cons (.comment text) hrest)⟩
      · obtain ⟨longer, hlonger⟩ := hitem.insert text hbefore ⟨hgap.of_append, hfirst, hinner⟩
        have hitems := Items.cons hlonger hrest
        exact ⟨_, by simpa only [List.append_assoc, List.cons_append] using hitems⟩

theorem Item.insert (text : String) {kinds before after : List TokenKind} {node : Node} :
    Item kinds node → kinds = before ++ after → Cut before after →
      ∃ longer, Item (before ++ .comment text :: after) longer
  | .comment _, heq, hcut => by
    simp [List.singleton_eq_append_iff, hcut.before_ne, hcut.after_ne] at heq
  | .statement h, heq, hcut => by
    obtain ⟨longer, hlonger⟩ := h.insert text heq hcut
    exact ⟨longer, .statement hlonger⟩

theorem ElseIfs.insert (text : String) {kinds before after : List TokenKind}
    {clauses : List (Node × List Node)} : ElseIfs kinds clauses → kinds = before ++ after →
      Cut before after → ∃ longer, ElseIfs (before ++ .comment text :: after) longer
  | .nil, heq, hcut => absurd (List.append_eq_nil_iff.1 heq.symm).1 hcut.before_ne
  | .cons hcondition hbody hrest, heq, hcut => by
    have hfront := (hcondition.inline.keyword .elif).front
    obtain ⟨inner, rfl, hinside, hcut⟩ := hcut.behind heq hfront
    obtain ⟨rest, hbefore, rfl, hpart⟩ | ⟨rfl, rfl⟩ | ⟨inner, rfl, hinside, hcut⟩ :=
      hcut.parts hinside hbody.closed.opened
    · obtain ⟨longer, hlonger⟩ := hbody.insert text hbefore hpart
      exact ⟨_, by simpa only [List.append_assoc, List.cons_append] using
        ElseIfs.cons hcondition hlonger hrest⟩
    · have hnil := hrest.append_eq_nil .absent (by simpa using hcut.apart)
      exact absurd (List.append_eq_nil_iff.1 hnil).1 hcut.after_ne
    · obtain ⟨longer, hlonger⟩ := hrest.insert text hinside hcut
      exact ⟨_, by simpa only [List.append_assoc, List.cons_append] using
        ElseIfs.cons hcondition hbody hlonger⟩

theorem Otherwise.insert (text : String) {kinds before after : List TokenKind}
    {otherwise : Option (List Node)} : Otherwise kinds otherwise → kinds = before ++ after →
      Cut before after → ∃ longer, Otherwise (before ++ .comment text :: after) longer
  | .absent, heq, hcut => absurd (List.append_eq_nil_iff.1 heq.symm).1 hcut.before_ne
  | .present h, heq, hcut => by
    have hfront := (Inline.nil.keyword .elseWord).front
    obtain ⟨inner, rfl, hinside, hcut⟩ := hcut.behind heq hfront
    obtain ⟨longer, hlonger⟩ := h.insert text hinside hcut
    exact ⟨_, .present hlonger⟩

end

/-! ## Where comments stand -/

theorem append_eq_append_cons {first second before after : List TokenKind} {kind : TokenKind}
    (h : first ++ second = before ++ kind :: after) :
    (∃ inner, first = before ++ kind :: inner ∧ after = inner ++ second) ∨
    ∃ inner, before = first ++ inner ∧ second = inner ++ kind :: after := by
  obtain hinner | ⟨inner, rfl, hinner⟩ := List.append_eq_append_iff.1 h
  · exact .inr hinner
  · cases inner with
    | nil => exact .inr ⟨[], by simp, hinner.symm⟩
    | cons _ inner =>
      cases hinner
      exact .inl ⟨inner, rfl, rfl⟩

theorem Unbroken.comment_notMem {lead kinds : List TokenKind} (h : Unbroken lead kinds)
    (text : String) : .comment text ∉ kinds := by
  intro hmem
  obtain ⟨before, after, rfl⟩ := List.append_of_mem hmem
  refine h (before ++ [.comment text]) after (by simp) (by simp) fun kind hkind ↦ ?_
  rw [← List.append_assoc, List.getLast?_concat] at hkind
  cases hkind
  trivial

theorem Simple.comment_notMem {kinds : List TokenKind} (h : Simple kinds) (text : String) :
    .comment text ∉ kinds := by
  cases h with
  | ended h => simp [h.front.unbroken.comment_notMem text]

/-- A comment lies behind what has no boundary. -/
theorem Front.behind {first second before after : List TokenKind} {text : String}
    (h : Front first) (heq : first ++ second = before ++ .comment text :: after) :
    ∃ inner, before = first ++ inner ∧ second = inner ++ .comment text :: after := by
  obtain ⟨inner, rfl, -⟩ | hinner := append_eq_append_cons heq
  · exact absurd (by simp) (h.unbroken.comment_notMem text)
  · exact hinner

theorem Cut.prepend {first before after : List TokenKind} (h : Cut before after)
    (hfirst : opened first = 0) : Cut (first ++ before) after where
  boundary := (boundary_append hfirst h.before_ne).2 h.boundary
  apart := h.apart
  before_ne := by simp [h.before_ne]
  after_ne := h.after_ne

theorem Cut.append {before after : List TokenKind} (h : Cut before after) (rest : List TokenKind) :
    Cut before (after ++ rest) where
  boundary := h.boundary
  apart := by
    rw [List.head?_append_of_ne_nil _ h.after_ne]
    exact h.apart
  before_ne := h.before_ne
  after_ne := by simp [h.after_ne]

theorem Items.apart {kinds : List TokenKind} {nodes : List Node} (h : Items kinds nodes) :
    ∀ kind ∈ kinds.head?, ¬extendsBranch kind := by
  intro kind hkind
  cases h with
  | nil => cases hkind
  | cons hitem _ =>
    cases hitem with
    | comment text =>
      cases hkind
      simp [extendsBranch]
    | statement h =>
      obtain ⟨first, rest, rfl, hfirst⟩ := h.exists_first
      cases hkind
      rintro (rfl | rfl) <;> exact hfirst

mutual

theorem Statement.cut {text : String} {kinds before after : List TokenKind} {node : Node} :
    Statement kinds node → kinds = before ++ .comment text :: after → Cut before after
  | .binding h, heq => absurd (by simp [heq]) (h.simple.comment_notMem text)
  | .ret h, heq => absurd (by simp [heq]) ((h.simple.keyword .ret).comment_notMem text)
  | .write h, heq => absurd (by simp [heq]) ((h.simple.keyword .write).comment_notMem text)
  | .writeln h, heq => absurd (by simp [heq]) ((h.simple.keyword .writeln).comment_notMem text)
  | .branch h, heq => by
    have hfront := (Inline.nil.keyword .ifWord).front
    obtain ⟨inner, rfl, hinside⟩ := hfront.behind heq
    exact (h.cut hinside).prepend hfront.opened
  | .loop h, heq => by
    have hfront := (Inline.nil.keyword .forWord).front
    obtain ⟨inner, rfl, hinside⟩ := hfront.behind heq
    exact (h.cut hinside).prepend hfront.opened

theorem Branch.cut {text : String} {kinds before after : List TokenKind} {node : Node} :
    Branch kinds node → kinds = before ++ .comment text :: after → Cut before after
  | .branch hcondition hbody helseIfs hotherwise, heq => by
    obtain ⟨inner, rfl, hinside⟩ := hcondition.inline.front.behind heq
    refine Cut.prepend ?_ hcondition.inline.opened
    obtain ⟨rest, hbefore, rfl⟩ | ⟨behind, rfl, hclauses⟩ := append_eq_append_cons hinside
    · exact (hbody.cut hbefore).append _
    refine Cut.prepend ?_ hbody.closed.opened
    obtain ⟨rest, hbefore, rfl⟩ | ⟨last, rfl, hlast⟩ := append_eq_append_cons hclauses
    · exact (helseIfs.cut hbefore).append _
    · exact (hotherwise.cut hlast).prepend helseIfs.closed.opened

theorem Loop.cut {text : String} {kinds before after : List TokenKind} {node : Node} :
    Loop kinds node → kinds = before ++ .comment text :: after → Cut before after
  | .loop hinit hcondition hupdate hbody, heq => by
    have hfront := front_header hinit hcondition hupdate
    obtain ⟨inner, rfl, hinside⟩ := hfront.behind ((header_append _ _ _ _).trans heq)
    exact (hbody.cut hinside).prepend hfront.opened

theorem Block.cut {text : String} {kinds before after : List TokenKind} {body : List Node} :
    Block kinds body → kinds = before ++ .comment text :: after → Cut before after
  | .braces h, heq => by
    obtain ⟨_, hfirst⟩ | ⟨inner, rfl, hinside⟩ := List.cons_eq_append_iff.1 heq
    · cases hfirst
    obtain ⟨rest, hbefore, rfl⟩ | ⟨_, _, hlast⟩ := append_eq_append_cons hinside
    · have hgap := h.gap hbefore
      have hopening : Closed [.leftBrace] := ⟨rfl, by simp [Boundary, bounds]⟩
      refine ⟨⟨hgap.boundary.prepend hopening, ?_⟩, by simp, by simp⟩
      cases rest with
      | nil => simp [extendsBranch]
      | cons kind rest => exact hgap.apart
    · simp [List.singleton_eq_append_iff] at hlast

theorem Items.gap {text : String} {kinds before after : List TokenKind} {nodes : List Node} :
    Items kinds nodes → kinds = before ++ .comment text :: after → Gap before after
  | .nil, heq => by simp at heq
  | .cons hitem hrest, heq => by
    obtain ⟨inner, hbefore, rfl⟩ | ⟨inner, rfl, hinside⟩ := append_eq_append_cons heq
    · obtain hcut | ⟨rfl, rfl⟩ := hitem.cut hbefore
      · exact (hcut.append _).toGap
      · exact ⟨boundary_nil, hrest.apart⟩
    · have hgap := hrest.gap hinside
      exact ⟨hgap.boundary.prepend hitem.closed, hgap.apart⟩

theorem Item.cut {text : String} {kinds before after : List TokenKind} {node : Node} :
    Item kinds node → kinds = before ++ .comment text :: after →
      Cut before after ∨ before = [] ∧ after = []
  | .comment _, heq => by
    obtain ⟨hbefore, -, hafter⟩ : before = [] ∧ text = _ ∧ after = [] := by
      simpa [List.singleton_eq_append_iff] using heq
    exact .inr ⟨hbefore, hafter⟩
  | .statement h, heq => .inl (h.cut heq)

theorem ElseIfs.cut {text : String} {kinds before after : List TokenKind}
    {clauses : List (Node × List Node)} :
    ElseIfs kinds clauses → kinds = before ++ .comment text :: after → Cut before after
  | .nil, heq => by simp at heq
  | .cons hcondition hbody hrest, heq => by
    have hfront := (hcondition.inline.keyword .elif).front
    obtain ⟨inner, rfl, hinside⟩ := hfront.behind heq
    refine Cut.prepend ?_ hfront.opened
    obtain ⟨rest, hbefore, rfl⟩ | ⟨behind, rfl, hclauses⟩ := append_eq_append_cons hinside
    · exact (hbody.cut hbefore).append _
    · exact (hrest.cut hclauses).prepend hbody.closed.opened

theorem Otherwise.cut {text : String} {kinds before after : List TokenKind}
    {otherwise : Option (List Node)} :
    Otherwise kinds otherwise → kinds = before ++ .comment text :: after → Cut before after
  | .absent, heq => by simp at heq
  | .present h, heq => by
    have hfront := (Inline.nil.keyword .elseWord).front
    obtain ⟨inner, rfl, hinside⟩ := hfront.behind heq
    exact (h.cut hinside).prepend hfront.opened

end

/-! ## Programs -/

theorem Script.exists_items {kinds : List TokenKind} {program : Program}
    (h : Script kinds program) : ∃ nodes, Items kinds nodes := by
  induction h with
  | nil => exact ⟨[], .nil⟩
  | comment text _ ih =>
    obtain ⟨nodes, hnodes⟩ := ih
    exact ⟨_, .cons (.comment text) hnodes⟩
  | statement hfirst _ ih =>
    obtain ⟨nodes, hnodes⟩ := ih
    exact ⟨_, .cons (.statement hfirst) hnodes⟩

theorem Items.exists_script {kinds : List TokenKind} {nodes : List Node} :
    Items kinds nodes → ∃ program, Script kinds program
  | .cons hitem hrest => by
    obtain ⟨program, hprogram⟩ := hrest.exists_script
    cases hitem with
    | comment text => exact ⟨program, .comment text hprogram⟩
    | statement h => exact ⟨_, .statement h hprogram⟩
  | .nil => ⟨[], .nil⟩

/-- The tokens of a program with one more comment are a program exactly if the comment stands in a
gap. -/
theorem exists_script_comment_iff {before after : List TokenKind} {program : Program}
    (h : Script (before ++ after) program) (text : String) :
    (∃ longer, Script (before ++ .comment text :: after) longer) ↔ Gap before after := by
  constructor
  · rintro ⟨longer, hlonger⟩
    obtain ⟨nodes, hnodes⟩ := hlonger.exists_items
    exact hnodes.gap rfl
  · intro hgap
    obtain ⟨nodes, hnodes⟩ := h.exists_items
    obtain ⟨longer, hlonger⟩ := hnodes.insert text rfl hgap
    exact hlonger.exists_script

/-- Adding a comment to the tokens of a program changes nothing but comments. -/
theorem eraseBody_eq_of_comment {before after : List Token} {program longer : Program}
    {comment : Token} (hcomment : comment.kind.isComment = true)
    (h : parse (before ++ after) = .ok program)
    (hlonger : parse (before ++ comment :: after) = .ok longer) :
    eraseBody longer = eraseBody program := by
  have herased := parse_uncommented hlonger
  rw [List.filter_append, List.filter_cons_of_neg (by simp [hcomment]), ← List.filter_append,
    parse_uncommented h] at herased
  exact (Except.ok.inj herased).symm

/-- A comment can be added to a program at each boundary that no clause follows, and nowhere else.
It changes nothing but comments. -/
theorem parse_comment_iff {before after : List Token} {program : Program}
    (h : parse (before ++ after) = .ok program) (text : String) (span : Span) :
    ((∃ longer, parse (before ++ ⟨.comment text, span⟩ :: after) = .ok longer) ↔
      Boundary (before.map Token.kind) ∧ Apart extendsBranch after) ∧
    ∀ longer, parse (before ++ ⟨.comment text, span⟩ :: after) = .ok longer →
      eraseBody longer = eraseBody program := by
  have hscript := Script.of_parse h
  rw [List.map_append] at hscript
  have hiff := exists_script_comment_iff hscript text
  refine ⟨⟨?_, ?_⟩, fun longer hlonger ↦ eraseBody_eq_of_comment rfl h hlonger⟩
  · rintro ⟨longer, hlonger⟩
    have hkinds := Script.of_parse hlonger
    rw [List.map_append, List.map_cons] at hkinds
    have hgap := hiff.1 ⟨longer, hkinds⟩
    exact ⟨hgap.boundary, apart_iff_kinds.2 hgap.apart⟩
  · rintro ⟨hboundary, hafter⟩
    obtain ⟨longer, hlonger⟩ := hiff.2 ⟨hboundary, apart_iff_kinds.1 hafter⟩
    refine ⟨longer, Script.parse ?_⟩
    rwa [List.map_append, List.map_cons]

/-- `if 1 { ret 1;` -/
def choice : List Token :=
  [.keyword .ifWord, .number "1", .leftBrace, .keyword .ret, .number "1", .semicolon].map
    (⟨·, default⟩)

/-- `else { ret 2; }` -/
def alternative : List Token :=
  [.keyword .elseWord, .leftBrace, .keyword .ret, .number "2", .semicolon, .rightBrace].map
    (⟨·, default⟩)

def closing : Token := ⟨.rightBrace, default⟩

/-- A comment between a block and `else` is refused. -/
theorem comment_before_else_refused :
    parse (choice ++ [closing] ++ alternative) =
      .ok [.branch (.number (numberOf "1")) [.ret (.number (numberOf "1"))] []
        (some [.ret (.number (numberOf "2"))])] ∧
    Boundary ((choice ++ [closing]).map Token.kind) ∧
    parse (choice ++ [closing] ++ ⟨.comment " c", default⟩ :: alternative) =
      .error (.unexpectedToken "'else'" default) :=
  ⟨rfl, by simp [choice, closing, Boundary, bounds], rfl⟩

theorem parse_comment_iff_choice :
    (∃ longer, parse (choice ++ ⟨.comment " c", default⟩ :: closing :: alternative) = .ok longer) ∧
    ¬∃ longer, parse (choice ++ [closing] ++ ⟨.comment " c", default⟩ :: alternative) =
      .ok longer := by
  constructor
  · have h : parse (choice ++ closing :: alternative) = .ok _ := rfl
    exact (parse_comment_iff h " c" default).1.2
      ⟨by simp [choice, Boundary, bounds, opened], apart_cons.2 (by simp [closing, extendsBranch])⟩
  · have h : parse (choice ++ [closing] ++ alternative) = .ok _ := rfl
    intro hlonger
    exact ((parse_comment_iff h " c" default).1.1 hlonger).2 _ rfl (.inr rfl)

end Scriptlet.Grammar
