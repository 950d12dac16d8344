import Mathlib.Data.List.Basic
import Mathlib.Data.List.Induction
import Scriptlet.Text.Lines

/-!
# The line that holds a place

A text splits in front of each of its lines, and the lines of the two parts are those of the
whole. So the number of a line is the number of newlines in front of it, and a place belongs to the
line that starts behind the last of these newlines.
-/

namespace Scriptlet.Text

/-- A line starts behind this text: it is empty, or a newline is the last of it. -/
def Ended (front : List Char) : Prop := front = [] ∨ front.getLast? = some '\n'

/-- A line and what follows it. One carriage return directly before a newline is no part of the
line. -/
structure FirstLine (line back : List Char) : Prop where
  plain : '\n' ∉ line
  last : back = [] ∨ (∃ rest, back = '\n' :: rest ∧ line.getLast? ≠ some '\r') ∨
    ∃ rest, back = '\r' :: '\n' :: rest

theorem ended_singleton_iff {c : Char} : Ended [c] ↔ c = '\n' := by
  simp [Ended]

theorem Ended.tail {c : Char} {rest : List Char} (h : Ended (c :: rest)) : Ended rest := by
  cases rest with
  | nil => exact .inl rfl
  | cons d more => simpa [Ended, List.getLast?_cons_cons] using h

/-! ## Lines of a text that splits -/

/-- A character that ends no line is the first of the first line. -/
theorem lines_cons {c : Char} {rest line : List Char} {others : List (List Char)}
    (hnewline : c ≠ '\n') (hreturn : ∀ more, c = '\r' → rest ≠ '\n' :: more)
    (h : lines rest = line :: others) : lines (c :: rest) = (c :: line) :: others := by
  rw [lines, h]
  · exact hnewline
  · exact hreturn

theorem lines_eq_nil_iff {text : List Char} : lines text = [] ↔ text = [] := by
  fun_cases lines text <;> simp

theorem lines_append {front : List Char} (h : Ended front) (text : List Char) :
    lines (front ++ text) = lines front ++ lines text := by
  fun_induction lines front with
  | case1 => rfl
  | case2 rest ih => exact congrArg ([] :: ·) (ih h.tail)
  | case3 rest ih => exact congrArg ([] :: ·) (ih h.tail.tail)
  | case4 c rest hnewline hreturn hlines _ =>
    obtain rfl := lines_eq_nil_iff.1 hlines
    exact absurd (ended_singleton_iff.1 h) hnewline
  | case5 c rest hnewline hreturn line others hlines ih =>
    cases rest with
    | nil => cases hlines
    | cons d more =>
      refine lines_cons hnewline (fun tail hc hd ↦ ?_) ?_
      · cases hd
        exact hreturn more hc rfl
      · exact (ih h.tail).trans (congrArg (· ++ lines text) hlines)

theorem length_lines {front : List Char} (h : Ended front) :
    (lines front).length = front.count '\n' := by
  fun_induction lines front with
  | case1 => rfl
  | case2 rest ih =>
    rw [List.length_cons, ih h.tail, List.count_cons_self]
  | case3 rest ih =>
    rw [List.length_cons, ih h.tail.tail, List.count_cons_of_ne (by decide), List.count_cons_self]
  | case4 c rest hnewline hreturn hlines _ =>
    obtain rfl := lines_eq_nil_iff.1 hlines
    exact absurd (ended_singleton_iff.1 h) hnewline
  | case5 c rest hnewline hreturn line others hlines ih =>
    rw [hlines] at ih
    rw [List.count_cons_of_ne hnewline, ← ih h.tail]
    rfl

/-! ## The first line -/

theorem FirstLine.cons {c : Char} {line back : List Char} (h : FirstLine line back)
    (hnewline : c ≠ '\n') (hreturn : ∀ more, c = '\r' → line ++ back ≠ '\n' :: more) :
    FirstLine (c :: line) back := by
  refine ⟨?_, ?_⟩
  · rw [List.mem_cons, not_or]
    exact ⟨hnewline.symm, h.plain⟩
  rcases h.last with hback | ⟨rest, rfl, hlast⟩ | hback
  · exact .inl hback
  · refine .inr (.inl ⟨rest, rfl, ?_⟩)
    cases line with
    | nil =>
      intro hc
      exact hreturn rest (by simpa using hc) rfl
    | cons d more => rwa [List.getLast?_cons_cons]
  · exact .inr (.inr hback)

theorem exists_firstLine {text : List Char} (h : text ≠ []) :
    ∃ line back others, text = line ++ back ∧ FirstLine line back ∧
      lines text = line :: others := by
  fun_induction lines text with
  | case1 => exact absurd rfl h
  | case2 rest _ =>
    exact ⟨[], _, _, rfl, ⟨by simp, .inr (.inl ⟨rest, rfl, by simp⟩)⟩, rfl⟩
  | case3 rest _ => exact ⟨[], _, _, rfl, ⟨by simp, .inr (.inr ⟨rest, rfl⟩)⟩, rfl⟩
  | case4 c rest hnewline hreturn hlines _ =>
    obtain rfl := lines_eq_nil_iff.1 hlines
    exact ⟨[c], [], [], rfl, ⟨by simpa using Ne.symm hnewline, .inl rfl⟩, rfl⟩
  | case5 c rest hnewline hreturn line others hlines ih =>
    have hrest : rest ≠ [] := by
      rintro rfl
      cases hlines
    obtain ⟨first, back, more, rfl, hfirst, hsame⟩ := ih hrest
    cases hlines.symm.trans hsame
    exact ⟨c :: line, back, others, rfl, hfirst.cons hnewline hreturn, rfl⟩

/-! ## Lines by their number -/

/-- Where a line starts, the line with that number stands. -/
theorem getElem?_lines {front text : List Char} (h : Ended front) (htext : text ≠ []) :
    ∃ line back, text = line ++ back ∧ FirstLine line back ∧
      (lines (front ++ text))[front.count '\n']? = some line := by
  obtain ⟨line, back, others, hsplit, hfirst, hlines⟩ := exists_firstLine htext
  refine ⟨line, back, hsplit, hfirst, ?_⟩
  rw [lines_append h, hlines, ← length_lines h, List.getElem?_append_right (Nat.le_refl _),
    Nat.sub_self]
  rfl

/-- The last line of a text, as far as it goes, stands where a line starts. -/
theorem exists_lastLine (text : List Char) :
    ∃ front line, text = front ++ line ∧ Ended front ∧ front.count '\n' = text.count '\n' ∧
      line.length = (text.reverse.takeWhile (· != '\n')).length := by
  induction text using List.reverseRecOn with
  | nil => exact ⟨[], [], rfl, .inl rfl, rfl, rfl⟩
  | append_singleton text c ih =>
    by_cases hnewline : c = '\n'
    · subst hnewline
      exact ⟨text ++ ['\n'], [], by simp, .inr (by simp), rfl, by simp⟩
    · obtain ⟨front, line, rfl, hended, hcount, hlength⟩ := ih
      refine ⟨front, line ++ [c], by simp, hended, ?_, ?_⟩
      · rw [hcount]
        simp [hnewline]
      · rw [List.length_append, hlength]
        simp [hnewline]

end Scriptlet.Text
