import Mathlib.Data.List.DropRight
import Scriptlet.Proofs.Number.Numeral
import Scriptlet.Scalar

/-!
# The numbers that strings stand for

Without the blanks around it a string stands for zero if nothing is left, for the nearest double if
a numeral is left, and for infinity if one of its words is left, with or without a sign. Any other
string stands for what is not a number.
-/

namespace Scriptlet.Text

/-- What is left of a text without the blanks around it. -/
structure Trimmed (text inner : List Char) : Prop where
  around : ∃ before after, text = before ++ inner ++ after ∧
    (∀ c ∈ before, isBlank c = true) ∧ ∀ c ∈ after, isBlank c = true
  first : ∀ c ∈ inner.head?, isBlank c = false
  last : ∀ c ∈ inner.getLast?, isBlank c = false

theorem trim_eq (text : List Char) : trim text = (text.dropWhile isBlank).rdropWhile isBlank := rfl

theorem trimmed_trim (text : List Char) : Trimmed text (trim text) := by
  have hdropped : (trim text) ++ (text.dropWhile isBlank).rtakeWhile isBlank =
      text.dropWhile isBlank := List.rdropWhile_append_rtakeWhile ..
  constructor
  · refine ⟨text.takeWhile isBlank, (text.dropWhile isBlank).rtakeWhile isBlank, ?_, ?_, ?_⟩
    · rw [List.append_assoc, hdropped, List.takeWhile_append_dropWhile]
    · exact fun c hc ↦ List.mem_takeWhile_imp hc
    · exact fun c hc ↦ List.mem_rtakeWhile_imp hc
  · intro c hc
    have hhead : (text.dropWhile isBlank).head? = some c := by
      rw [← hdropped, List.head?_append, hc]
      rfl
    have hnot := List.head?_dropWhile_not isBlank text
    rw [hhead] at hnot
    exact hnot
  · intro c hc
    obtain ⟨hne, rfl⟩ := List.mem_getLast?_eq_getLast hc
    exact Bool.eq_false_iff.2 (List.rdropWhile_last_not isBlank _ hne)

theorem trim_eq_self {text : List Char} (h : ∀ c ∈ text, isBlank c = false) :
    trim text = text := by
  have hdropped : text.dropWhile isBlank = text := by
    cases text with
    | nil => rfl
    | cons c rest => exact List.dropWhile_cons_of_neg (Bool.eq_false_iff.1 (h c List.mem_cons_self))
  rw [trim_eq, hdropped, List.rdropWhile_eq_self_iff]
  exact fun hne ↦ Bool.eq_false_iff.1 (h _ (List.getLast_mem hne))

end Scriptlet.Text

namespace Scriptlet.Scalar

open Number

/-- The number that a text stands for when there are no blanks around it. -/
structure StandsFor (text : List Char) (x : Float) : Prop where
  empty : text = [] → x = 0
  numeral : ∀ numeral : Numeral, numeral.text = text →
    ∃ bits, Nearest numeral.size bits ∧ x = ofMagnitude numeral.isNegative bits
  infinity : ∀ (sign : SignMark) (word : List Char), IsInfinityWord word →
    sign.text ++ word = text → x = ofMagnitude sign.isNegative infinityBits
  other : text ≠ [] → (∀ numeral : Numeral, numeral.text ≠ text) →
    (∀ (sign : SignMark) (word : List Char), IsInfinityWord word → sign.text ++ word ≠ text) →
      x = nan

theorem toNumber_of_read? {s : String} {x : Float} (h : read? (Text.trim s.toList) = some x) :
    toNumber (.string s) = x := by
  have hne : (Text.trim s.toList).isEmpty = false := by
    rw [List.isEmpty_eq_false_iff]
    intro hnil
    rw [hnil] at h
    cases h
  simp only [toNumber, hne, h]
  rfl

/-- Every string stands for a number that the numerals and the words for infinity determine. -/
theorem standsFor_toNumber (s : String) :
    Text.Trimmed s.toList (Text.trim s.toList) ∧
      StandsFor (Text.trim s.toList) (toNumber (.string s)) := by
  refine ⟨Text.trimmed_trim _, ?_, ?_, ?_, ?_⟩
  · intro hempty
    simp only [toNumber, hempty]
    rfl
  · intro numeral htext
    obtain ⟨bits, hnearest, hread⟩ := read?_text numeral
    rw [htext] at hread
    exact ⟨bits, hnearest, toNumber_of_read? hread⟩
  · intro sign word hword htext
    apply toNumber_of_read?
    rw [← htext, read?_infinityWord sign hword]
  · intro hne hnumeral hinfinity
    cases hread : read? (Text.trim s.toList) with
    | none =>
      simp only [toNumber, List.isEmpty_eq_false_iff.2 hne, hread]
      rfl
    | some x =>
      rw [toNumber_of_read? hread]
      rcases read?_cases hread with ⟨numeral, htext⟩ | ⟨sign, word, htext, hword⟩ | hx
      · exact absurd htext (hnumeral numeral)
      · exact absurd htext (hinfinity sign word hword)
      · exact hx

/-- A string that is no numeral can stand for a number all the same. -/
theorem toNumber_inf :
    Text.trim "inf".toList = "inf".toList ∧ (∀ numeral : Numeral, numeral.text ≠ "inf".toList) ∧
      toNumber (.string "inf") = Number.infinity ∧ Number.infinity.isNaN = false := by
  refine ⟨by decide, ?_, by decide, by decide⟩
  intro numeral htext
  obtain ⟨c, hhead, hc⟩ := exists_unsigned_head numeral
  rw [Numeral.text] at htext
  cases hsign : numeral.sign with
  | plus | minus =>
    rw [hsign] at htext
    cases htext
  | absent =>
    rw [hsign] at htext
    have hunsigned : numeral.unsigned = "inf".toList := htext
    rw [hunsigned] at hhead
    cases hhead
    rcases hc with hdigit | hpoint
    · cases hdigit
    · exact absurd hpoint (by decide)

end Scriptlet.Scalar
