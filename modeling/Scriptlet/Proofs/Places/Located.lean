import Scriptlet.Proofs.Consistency.Source
import Scriptlet.Proofs.Viable.Program

/-!
# Errors stand in one line

A string literal is the only thing that may run over several lines, and no error reports the
inside of one: an open literal is reported at its quote, and a whole one at a quote or not at all.
An error at the end of the input stands just past the last token, which is on the same line and not
empty. So a span that is reported lies in one line, and this line is not empty even if the span is.
-/

namespace Scriptlet

open Tiling

/-- A place of the text that lies in one line and has something at it or directly before it. -/
structure Located (source : List Char) (span : Span) : Prop where
  forward : span.start ≤ span.stop
  inside : span.stop ≤ source.length
  plain : '\n' ∉ span.slice source
  placed : Placed source span
  occupied : 1 < span.column ∨ span.start < span.stop

theorem newline_isBlank : Text.isBlank '\n' = true := by decide

/-! ## Tokens -/

/-- Only a content is written with a newline in it. -/
theorem Tiling.Spells.newline_notMem {slice : List Char} {kind : TokenKind} (h : Spells slice kind)
    (hkind : ∀ text, kind ≠ .content text) : '\n' ∉ slice := by
  intro hnewline
  cases h with
  | fixed hfixed =>
    have hblank := List.any_eq_false.1 (fixedText_shape hfixed).2.1 _ hnewline
    exact hblank newline_isBlank
  | alpha hword _ _ | alphaNum hword _ =>
    cases slice with
    | nil => cases hnewline
    | cons c rest =>
      rcases List.mem_cons.1 hnewline with rfl | hrest
      · exact absurd hword.1 (by decide)
      · exact absurd (hword.2 _ hrest) (by decide)
  | number _ hdigit => exact absurd (hdigit _ hnewline) (by decide)
  | comment hline =>
    rcases List.mem_cons.1 hnewline with hsign | hrest
    · exact absurd hsign (by decide)
    · exact hline hrest
  | content _ => exact absurd rfl (hkind _)

theorem Tiling.Fits.located {source : List Char} {token : Token} (h : Fits source token)
    (hkind : ∀ text, token.kind ≠ .content text) : Located source token.span where
  forward := h.forward
  inside := h.inside
  plain := h.spelled.newline_notMem hkind
  placed := h.placed
  occupied := by
    have hforward := h.forward
    have hoccupied : token.span.start ≠ token.span.stop := by
      intro hempty
      obtain ⟨text, hcontent⟩ := h.occupied hempty
      exact hkind text hcontent
    omega

/-- The characters of a span stand behind those in front of it. -/
theorem take_stop {source : List Char} {span : Span} (h : span.start ≤ span.stop) :
    source.take span.stop = source.take span.start ++ span.slice source := by
  rw [Span.slice, ← List.take_add, Span.length, Nat.add_sub_cancel' h]

/-- Just past a place is a place of the same line. -/
theorem Located.pastEnd {source : List Char} {span : Span} (h : Located source span) :
    Located source span.pastEnd where
  forward := Nat.le_refl _
  inside := h.inside
  plain := by simp [Span.slice, Span.length, Span.pastEnd]
  placed := by
    have hplain := List.count_eq_zero.2 h.plain
    constructor
    · rw [Span.pastEnd, take_stop h.forward, List.count_append, hplain]
      exact h.placed.line
    · have hslice : (span.slice source).length = span.length := by
        have hinside := h.inside
        rw [Span.slice, List.length_take_of_le]
        rw [List.length_drop, Span.length]
        omega
      have hrun : ∀ c ∈ (span.slice source).reverse, (c != '\n') = true := by
        intro c hc
        rw [bne_iff_ne]
        rintro rfl
        exact h.plain (List.mem_reverse.1 hc)
      rw [Span.pastEnd, take_stop h.forward, List.reverse_append,
        List.takeWhile_append_of_pos hrun, List.length_append, List.length_reverse, hslice,
        h.placed.column]
      dsimp only
      omega
  occupied := by
    have hcolumn := h.placed.column
    have hoccupied := h.occupied
    rw [Span.pastEnd, Span.length]
    dsimp only
    omega

/-! ## Errors of the two readers -/

theorem located_spanOf {before rest : List Char} {c : Char} (h : c ≠ '\n') :
    Located (before ++ c :: rest) (spanOf before [c]) where
  forward := by simp
  inside := by simp
  plain := by
    have hslice : (spanOf before [c]).slice (before ++ ([c] ++ rest)) = [c] := slice_spanOf _ _ _
    rw [List.singleton_append] at hslice
    simpa [hslice] using h.symm
  placed := (placed_iff (start_spanOf _ _)).2 ⟨rfl, rfl⟩
  occupied := by simp

/-- The induction follows the reader, which stands behind the text `before`. -/
theorem located_of_tokenize {position : Position} {before text : List Char} {error : Error}
    {span : Span} (hposition : position = Position.origin.after before)
    (h : tokenize position text = .error error) (hspan : error.span? = some span) :
    Located (before ++ text) span := by
  fun_induction tokenize position text generalizing before with
  | case1 => cases h
  | case2 position c rest _ ih =>
    have hlocated := ih (after_of_eq hposition [c]) h
    rwa [List.append_assoc] at hlocated
  | case3 position rest _ _ =>
    cases h
    cases hspan
    rw [upTo_next hposition]
    exact located_spanOf (by decide)
  | case4 => cases h
  | case5 position rest body hscan _ _ hothers _ =>
    rename_i ih
    cases h
    have hclosing := (closing_eq_after position body.written).trans (after_of_eq hposition _)
    have hlocated := ih hclosing hothers
    rw [← StringBody.written_append_rest hscan]
    simpa using hlocated
  | case6 position c rest hblank _ _ =>
    cases h
    cases hspan
    have hnewline : c ≠ '\n' := by
      rintro rfl
      exact hblank newline_isBlank
    rw [upTo_next hposition]
    exact located_spanOf hnewline
  | case7 => cases h
  | case8 position c rest _ _ lexeme hscan _ _ hothers =>
    rename_i ih
    cases h
    have hlocated := ih (after_of_eq hposition lexeme.taken) hothers
    rwa [List.append_assoc, Lexeme.taken_append_rest hscan] at hlocated

theorem Tiling.Grouped.getLast_ne_content {tokens : List Token} {last : Token}
    (h : Grouped tokens) (hlast : tokens.getLast? = some last) (text : String) :
    last.kind ≠ .content text := by
  induction h with
  | nil => cases hlast
  | @single token others hkind hrest ih =>
    cases others with
    | nil =>
      cases hlast
      exact fun hcontent ↦ hkind (.inr ⟨text, hcontent⟩)
    | cons next more =>
      rw [List.getLast?_cons_cons] at hlast
      exact ih hlast
  | @literal _ _ _ _ others _ _ hrest ih =>
    cases others with
    | nil =>
      cases hlast
      nofun
    | cons next more =>
      rw [List.getLast?_cons_cons, List.getLast?_cons_cons, List.getLast?_cons_cons] at hlast
      exact ih hlast

/-- What is wrong with a source: that it has no tokens, or that these are no program. -/
def Refused (source : String) (error : Error) : Prop :=
  lex source = .error error ∨ ∃ tokens, lex source = .ok tokens ∧ parse tokens = .error error

theorem located_of_parse {source : String} {tokens : List Token} {error : Error} {span : Span}
    (hlex : lex source = .ok tokens) (hparse : parse tokens = .error error)
    (hspan : error.span? = some span) : Located source.toList span := by
  have hgrouped := grouped_of_lex hlex
  have htiles := ((tokenize_eq_ok_iff [] source.toList tokens).1 hlex).2
  have hlegible := Parser.legible_of_parse hgrouped hparse
  obtain ⟨used, rest, rfl, hrefuses, -, -⟩ := Viable.exists_split_of_parse hparse
  cases rest with
  | nil =>
    rw [List.append_nil] at *
    obtain ⟨last, hlast⟩ := Viable.exists_last_of_parse hparse
    rw [Viable.endOf_eq hlast] at hrefuses
    have hlocated := (htiles.fits last (List.mem_of_getLast? hlast)).located
      (hgrouped.getLast_ne_content hlast)
    rcases hrefuses with ⟨_, rfl⟩ | ⟨_, rfl⟩
    · cases hspan
    · cases hspan
      exact hlocated.pastEnd
  | cons token others =>
    obtain ⟨kind, _⟩ := token
    have hkind : ∀ text, kind ≠ .content text := by
      rintro text rfl
      exact hlegible.token _ _ hrefuses
    have hlocated := (htiles.fits _ (List.mem_append_cons_self)).located hkind
    rcases hrefuses with rfl | ⟨_, rfl⟩
    · cases hspan
      exact hlocated
    · cases hspan
      exact hlocated

theorem Refused.located {source : String} {error : Error} {span : Span} (h : Refused source error)
    (hspan : error.span? = some span) : Located source.toList span := by
  rcases h with hlex | ⟨tokens, hlex, hparse⟩
  · have hposition : Position.origin = Position.origin.after [] := rfl
    exact located_of_tokenize hposition hlex hspan
  · exact located_of_parse hlex hparse hspan

end Scriptlet
