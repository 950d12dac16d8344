import Mathlib.Order.Interval.Finset.Basic
import Mathlib.Order.Interval.Finset.Nat
import Scriptlet.Proofs.Places.Lines
import Scriptlet.Proofs.Places.Located
import Scriptlet.Report.Basic
import Scriptlet.Report.Snippet

/-!
# Every refusal is shown at its place

For each source that is refused, the report names the line and the columns that the characters of
the source have, and the quotation for a terminal has the right line in it. It is always there,
because the line is not empty. The carets stand under the characters of the span that the line
shows; a carriage return before the newline is not shown, and under an empty span one caret stands.
-/

namespace Scriptlet

open Tiling

/-- A line between two gutters that are as wide as its number, with carets below it. -/
def excerpt (number : Nat) (line : List Char) (indent carets : Nat) : String :=
  let gutter := String.ofList (List.replicate (toString number).length ' ')
  gutter ++ " |\n" ++
    toString number ++ " | " ++ String.ofList line ++ "\n" ++
    gutter ++ " | " ++
    String.ofList (List.replicate indent ' ' ++ List.replicate carets '^') ++ "\n"

/-- The offsets of a span that lie on a line which starts at `first`. -/
def Span.onLine (span : Span) (first : Nat) (line : List Char) : Finset Nat :=
  Finset.Ico span.start span.stop ∩ Finset.Ico first (first + line.length)

theorem Span.card_onLine (span : Span) (first : Nat) (line : List Char) :
    (span.onLine first line).card =
      min span.stop (first + line.length) - max span.start first := by
  rw [onLine, Finset.Ico_inter_Ico, Nat.card_Ico]

theorem Span.snippet_eq_excerpt {span : Span} {first : Nat} (line : List Char)
    (hcolumn : span.start = first + (span.column - 1)) :
    span.snippet line = excerpt span.line line (min (span.column - 1) line.length)
      (max 1 (span.onLine first line).card) := by
  have hwidth : max 1 (min span.length (line.length - min (span.column - 1) line.length)) =
      max 1 (span.onLine first line).card := by
    rw [card_onLine, length]
    omega
  rw [← hwidth]
  rfl

theorem location_ofError {error : Error} {span : Span} (file : String)
    (h : error.span? = some span) :
    (Report.ofError file error).location = some ⟨file, span.line, span.column,
      if span.start = span.stop then none else some (span.column + (span.stop - span.start))⟩ := by
  simp [Report.ofError, h, Location.ofSpan, Span.isEmpty, Span.length]

theorem render_eq {error : Error} {span : Span} {source : String} {line : List Char}
    (file : String) (h : error.span? = some span)
    (hline : (Text.lines source.toList)[span.line - 1]? = some line) :
    error.render file source = "error[" ++ error.code ++ "]: " ++ error.message ++ "\n" ++
      (" --> " ++ file ++ ":" ++ span.place ++ "\n") ++ span.snippet line := by
  unfold Error.render
  rw [h]
  dsimp only
  rw [hline]

/-- The line of a place that is located is there. -/
theorem Located.exists_line {source : List Char} {span : Span} (h : Located source span) :
    ∃ front line back, source = front ++ (line ++ back) ∧ Text.Ended front ∧
      Text.FirstLine line back ∧ span.line = 1 + front.count '\n' ∧
      span.start = front.length + (span.column - 1) ∧
      (Text.lines source)[span.line - 1]? = some line := by
  obtain ⟨front, sofar, hsplit, hended, hcount, hlength⟩ :=
    Text.exists_lastLine (source.take span.start)
  have hsource : source = front ++ (sofar ++ source.drop span.start) := by
    rw [← List.append_assoc, ← hsplit, List.take_append_drop]
  have hcolumn : span.column = 1 + sofar.length := by rw [h.placed.column, hlength]
  have hforward := h.forward
  have hinside := h.inside
  have hrest : sofar ++ source.drop span.start ≠ [] := by
    intro hnil
    obtain ⟨hsofar, hdrop⟩ := List.append_eq_nil_iff.1 hnil
    rw [hsofar, List.length_nil] at hcolumn
    rw [List.drop_eq_nil_iff] at hdrop
    have hoccupied := h.occupied
    omega
  obtain ⟨line, back, hline, hfirst, hshown⟩ := Text.getElem?_lines hended hrest
  have hnumber : span.line = 1 + front.count '\n' := by rw [h.placed.line, hcount]
  refine ⟨front, line, back, by rw [← hline, ← hsource], hended, hfirst, hnumber, ?_, ?_⟩
  · have hstart := congrArg List.length hsplit
    rw [List.length_take_of_le (by omega), List.length_append] at hstart
    omega
  · rwa [hnumber, Nat.add_sub_cancel_left, hsource]

/-- Where a refused source is wrong is told exactly, and shown on a line that is always there. -/
theorem shown_of_refused (source file : String) (error : Error) (span : Span)
    (h : Refused source error) (hspan : error.span? = some span) :
    (span.start ≤ span.stop ∧ span.stop ≤ source.toList.length ∧
      '\n' ∉ span.slice source.toList ∧ Placed source.toList span) ∧
    (Report.ofError file error).location = some ⟨file, span.line, span.column,
      if span.start = span.stop then none else some (span.column + (span.stop - span.start))⟩ ∧
    ∃ front line back, source.toList = front ++ (line ++ back) ∧ Text.Ended front ∧
      Text.FirstLine line back ∧ span.line = 1 + front.count '\n' ∧
      (Text.lines source.toList)[span.line - 1]? = some line ∧
      error.render file source = "error[" ++ error.code ++ "]: " ++ error.message ++ "\n" ++
        (" --> " ++ file ++ ":" ++ span.place ++ "\n") ++
        excerpt span.line line (min (span.column - 1) line.length)
          (max 1 (span.onLine front.length line).card) := by
  have hlocated := h.located hspan
  obtain ⟨front, line, back, hsource, hended, hfirst, hnumber, hcolumn, hline⟩ :=
    hlocated.exists_line
  refine ⟨⟨hlocated.forward, hlocated.inside, hlocated.plain, hlocated.placed⟩,
    location_ofError file hspan, front, line, back, hsource, hended, hfirst, hnumber, hline, ?_⟩
  rw [render_eq file hspan hline, Span.snippet_eq_excerpt line hcolumn]

/-- A comment stands where a semicolon should, and goes on to the carriage return, which is not
shown: nine characters are reported and eight of them underlined. -/
def commentForSemicolon : String := "mut x = 1;\r\nwrite(x) @ no end\r\nret x;"

theorem shown_of_refused_commentForSemicolon :
    ∃ error, Refused commentForSemicolon error ∧ error.span? = some ⟨21, 30, 2, 10⟩ ∧
      ('\n' ∉ (Span.mk 21 30 2 10).slice commentForSemicolon.toList ∧
        Placed commentForSemicolon.toList ⟨21, 30, 2, 10⟩) ∧
      (Report.ofError "demo" error).location = some ⟨"demo", 2, 10, some 19⟩ ∧
      ∃ front line back, commentForSemicolon.toList = front ++ (line ++ back) ∧
        Text.Ended front ∧ Text.FirstLine line back ∧ 2 = 1 + front.count '\n' ∧
        (Text.lines commentForSemicolon.toList)[1]? = some line ∧
        error.render "demo" commentForSemicolon =
          "error[" ++ error.code ++ "]: " ++ error.message ++ "\n" ++
          (" --> " ++ "demo" ++ ":" ++ (Span.mk 21 30 2 10).place ++ "\n") ++
          excerpt 2 line (min 9 line.length)
            (max 1 ((Span.mk 21 30 2 10).onLine front.length line).card) := by
  have hlex : lex commentForSemicolon = .ok [⟨.keyword .mutable, ⟨0, 3, 1, 1⟩⟩,
      ⟨.alpha "x", ⟨4, 5, 1, 5⟩⟩, ⟨.assign, ⟨6, 7, 1, 7⟩⟩, ⟨.number "1", ⟨8, 9, 1, 9⟩⟩,
      ⟨.semicolon, ⟨9, 10, 1, 10⟩⟩, ⟨.keyword .write, ⟨12, 17, 2, 1⟩⟩,
      ⟨.leftParen, ⟨17, 18, 2, 6⟩⟩, ⟨.alpha "x", ⟨18, 19, 2, 7⟩⟩, ⟨.rightParen, ⟨19, 20, 2, 8⟩⟩,
      ⟨.comment " no end\r", ⟨21, 30, 2, 10⟩⟩, ⟨.keyword .ret, ⟨31, 34, 3, 1⟩⟩,
      ⟨.alpha "x", ⟨35, 36, 3, 5⟩⟩, ⟨.semicolon, ⟨36, 37, 3, 6⟩⟩] := by decide +kernel
  have hrefused : Refused commentForSemicolon
      (.expectedToken "';'" "comment" ⟨21, 30, 2, 10⟩) := .inr ⟨_, hlex, rfl⟩
  obtain ⟨⟨-, -, hplain, hplaced⟩, hlocation, hshown⟩ :=
    shown_of_refused commentForSemicolon "demo" _ _ hrefused rfl
  exact ⟨_, hrefused, rfl, ⟨hplain, hplaced⟩, hlocation, hshown⟩

end Scriptlet
