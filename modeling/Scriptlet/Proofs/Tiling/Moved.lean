import Scriptlet.Proofs.Tiling.Lexed

/-!
# Texts that stand elsewhere

A text that stands behind another one has the tokens it has alone, with their spans moved. Offsets
grow by what is in front of the text, lines by the newlines in it, and columns only on the first
line, which the text shares with what is in front.
-/

namespace Scriptlet

/-- Where a position of a text lies if the text stands at `base`. On its first line the text has
something in front of it. -/
def Position.within (base position : Position) : Position :=
  ⟨base.offset + position.offset, base.line + (position.line - 1),
    if position.line = 1 then base.column + (position.column - 1) else position.column⟩

def Span.within (base : Position) (span : Span) : Span :=
  ⟨base.offset + span.start, base.offset + span.stop, base.line + (span.line - 1),
    if span.line = 1 then base.column + (span.column - 1) else span.column⟩

def Token.within (base : Position) (token : Token) : Token :=
  ⟨token.kind, token.span.within base⟩

theorem Span.within_upTo (base first last : Position) :
    (first.upTo last).within base = (base.within first).upTo (base.within last) := rfl

namespace Tiling

/-- Lines and columns count from one, so that a step is the same elsewhere. -/
theorem within_next {position : Position} (hline : 0 < position.line)
    (hcolumn : 0 < position.column) (base : Position) (c : Char) :
    base.within (position.next c) = (base.within position).next c := by
  have hnextLine : base.line + (position.line + 1 - 1) = base.line + (position.line - 1) + 1 := by
    omega
  by_cases hc : c = '\n'
  · have hlater : position.line + 1 ≠ 1 := by omega
    simp only [Position.within, Position.next, if_pos hc, if_neg hlater, hnextLine, Nat.add_assoc]
  · simp only [Position.within, Position.next, if_neg hc, Position.mk.injEq, Nat.add_assoc,
      true_and]
    split <;> omega

theorem within_origin_after (base : Position) (text : List Char) :
    base.within (Position.origin.after text) = base.after text := by
  induction text using List.reverseRecOn with
  | nil => rfl
  | append_singleton text c ih =>
    have hline : 0 < (Position.origin.after text).line := by
      rw [origin_after]
      exact Nat.add_pos_left Nat.one_pos _
    have hcolumn : 0 < (Position.origin.after text).column := by
      rw [origin_after]
      exact Nat.add_pos_left Nat.one_pos _
    rw [Position.after_append, Position.after_append, ← ih]
    exact within_next hline hcolumn base c

/-- Reading goes on elsewhere as it does here. -/
theorem within_after (base : Position) (before text : List Char) :
    base.within ((Position.origin.after before).after text) = (base.after before).after text := by
  rw [← Position.after_append, within_origin_after, Position.after_append]

theorem map_within_tokens (base : Position) (before : List Char) (body : StringBody) :
    (body.tokens (Position.origin.after before)).map (Token.within base) =
      body.tokens (base.after before) := by
  have hopening := within_origin_after base before
  have hinside := within_after base before ['"']
  have hclosing := within_after base before ('"' :: body.written)
  have hlast := within_after base before ('"' :: (body.written ++ ['"']))
  simp only [Position.after_cons, Position.after_append, Position.after_nil]
    at hinside hclosing hlast
  simp only [StringBody.tokens, List.map_cons, List.map_nil, Token.within, Span.within_upTo,
    hopening, hinside, hclosing, hlast]

/-- Elsewhere the same text has the same tokens, moved to where it stands. -/
theorem Lexed.moved {position : Position} {before text : List Char} {tokens : List Token}
    (h : Lexed position text tokens) (hposition : position = Position.origin.after before)
    (base : Position) : Lexed (base.after before) text (tokens.map (Token.within base)) := by
  induction h generalizing before with
  | nil => exact .nil _
  | @blank position c rest tokens hblank _ ih =>
    have hrest := ih (after_of_eq hposition [c])
    rw [Position.after_append] at hrest
    exact .blank hblank hrest
  | @literal position rest body tokens hbody _ ih =>
    have hclosing := (closing_eq_after position body.written).trans (after_of_eq hposition _)
    have hrest := ih hclosing
    rw [Position.after_append, ← closing_eq_after] at hrest
    rw [List.map_append, hposition, map_within_tokens]
    exact .literal hbody hrest
  | @lexeme position c rest lexeme tokens hblank hquote hlexeme _ ih =>
    have hrest := ih (after_of_eq hposition lexeme.taken)
    rw [Position.after_append] at hrest
    have hspan : Span.within base ((Position.origin.after before).upTo
        ((Position.origin.after before).after lexeme.taken)) =
        (base.after before).upTo ((base.after before).after lexeme.taken) := by
      rw [Span.within_upTo, within_origin_after, within_after]
    rw [List.map_cons, Token.within, hposition, hspan]
    exact .lexeme hblank hquote hlexeme hrest

theorem tokenize_of_lex {source : String} {tokens : List Token} (h : lex source = .ok tokens)
    (base : Position) : tokenize base source.toList = .ok (tokens.map (Token.within base)) := by
  have hposition : Position.origin = Position.origin.after [] := rfl
  exact ((Lexed.of_tokenize h).moved hposition base).tokenize

end Tiling

end Scriptlet
