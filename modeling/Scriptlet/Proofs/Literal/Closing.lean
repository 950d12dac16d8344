import Mathlib.Algebra.Ring.Parity
import Mathlib.Order.Bounds.Basic
import Scriptlet.Token.Lexer

/-!
# Where a string literal closes

Backslashes escape each other in pairs, so a quote is escaped if the number of backslashes directly
before it is odd. The reader does not count them; it steps over each backslash together with the
character behind it. The two agree: the closing quote is the first one behind an even number of
backslashes, and a literal in which there is none stays open.
-/

namespace Scriptlet.Literal

/-- The number of backslashes that a text ends with. -/
def backslashes (text : List Char) : Nat :=
  (text.reverse.takeWhile (· == '\\')).length

/-- A quote stands at `index`, directly behind an even number of backslashes. -/
structure Closes (text : List Char) (index : Nat) : Prop where
  quote : text[index]? = some '"'
  even : Even (backslashes (text.take index))

/-! ## Counting backslashes -/

/-- A character in front matters only if nothing but backslashes follows it. -/
theorem backslashes_cons (c : Char) (text : List Char) :
    backslashes (c :: text) =
      if backslashes text = text.length then text.length + (if c = '\\' then 1 else 0)
      else backslashes text := by
  unfold backslashes
  rw [List.reverse_cons, List.takeWhile_append, List.length_reverse]
  split
  · by_cases hc : c = '\\'
    · simp [hc]
    · simp [hc]
  · rfl

theorem backslashes_plain {c : Char} (hc : c ≠ '\\') (text : List Char) :
    backslashes (c :: text) = backslashes text := by
  rw [backslashes_cons, if_neg hc]
  split
  · rename_i hall
    exact hall.symm
  · rfl

/-- A backslash and what it escapes leave the parity as it is. -/
theorem even_backslashes_escape (c : Char) (text : List Char) :
    Even (backslashes ('\\' :: c :: text)) ↔ Even (backslashes text) := by
  have hle : backslashes text ≤ text.length := by
    have hsame : text.reverse.length = text.length := List.length_reverse
    rw [backslashes, ← hsame]
    exact (List.takeWhile_prefix _).length_le
  by_cases hc : c = '\\'
  · subst hc
    rw [backslashes_cons, backslashes_cons '\\' text]
    by_cases hall : backslashes text = text.length
    · simp [hall, Nat.even_add_one]
    · have hless : backslashes text ≠ text.length + 1 := by omega
      simp [hall, hless]
  · rw [backslashes_cons, backslashes_plain hc, List.length_cons, if_neg (by omega)]

/-! ## Where a quote closes -/

theorem closes_quote (rest : List Char) : Closes ('"' :: rest) 0 :=
  ⟨rfl, Even.zero⟩

/-- The first `count` characters of a text close nothing and have no bearing on what follows. -/
structure Skips (count : Nat) (text rest : List Char) : Prop where
  front : ∀ index < count, ¬Closes text index
  behind : ∀ index, Closes text (index + count) ↔ Closes rest index

theorem skips_escape (c : Char) (rest : List Char) : Skips 2 ('\\' :: c :: rest) rest where
  front index hindex h := by
    obtain rfl | rfl : index = 0 ∨ index = 1 := by omega
    · have hquote : '\\' = '"' := Option.some.inj h.quote
      exact absurd hquote (by decide)
    · have heven : Even (backslashes ['\\']) := h.even
      exact absurd heven (by decide)
  behind index := by
    constructor
    · intro h
      exact ⟨h.quote, (even_backslashes_escape c _).1 h.even⟩
    · intro h
      exact ⟨h.quote, (even_backslashes_escape c _).2 h.even⟩

theorem skips_plain {c : Char} (hquote : c ≠ '"') (hslash : c ≠ '\\') (rest : List Char) :
    Skips 1 (c :: rest) rest where
  front index hindex h := by
    obtain rfl : index = 0 := by omega
    exact hquote (Option.some.inj h.quote)
  behind index := by
    have hcount : backslashes ((c :: rest).take (index + 1)) = backslashes (rest.take index) :=
      backslashes_plain hslash _
    constructor
    · intro h
      exact ⟨h.quote, hcount ▸ h.even⟩
    · intro h
      exact ⟨h.quote, hcount ▸ h.even⟩

namespace Skips

variable {count : Nat} {text rest : List Char}

theorem open_iff (h : Skips count text rest) :
    (∀ index, ¬Closes text index) ↔ ∀ index, ¬Closes rest index := by
  constructor
  · intro hopen index hcloses
    exact hopen (index + count) ((h.behind index).2 hcloses)
  · intro hopen index hcloses
    rcases Nat.lt_or_ge index count with hfront | hbehind
    · exact h.front index hfront hcloses
    · obtain ⟨further, rfl⟩ := Nat.exists_eq_add_of_le' hbehind
      exact hopen further ((h.behind further).1 hcloses)

theorem isLeast (h : Skips count text rest) {index : Nat}
    (hleast : IsLeast {index | Closes rest index} index) :
    IsLeast {index | Closes text index} (index + count) := by
  constructor
  · exact (h.behind index).2 hleast.1
  · intro other hcloses
    rcases Nat.lt_or_ge other count with hfront | hbehind
    · exact absurd hcloses (h.front other hfront)
    · obtain ⟨further, rfl⟩ := Nat.exists_eq_add_of_le' hbehind
      exact Nat.add_le_add_right (hleast.2 ((h.behind further).1 hcloses)) count

end Skips

/-! ## What the reader finds -/

/-- The reader finds no closing quote exactly if every quote is escaped. -/
theorem scan?_eq_none_iff (text : List Char) :
    StringBody.scan? text = none ↔ ∀ index, ¬Closes text index := by
  fun_induction StringBody.scan? text with
  | case1 =>
    apply iff_of_true rfl
    intro index h
    exact absurd h.quote (by simp)
  | case2 =>
    apply iff_of_true rfl
    intro index h
    have hquote := List.mem_of_getElem? h.quote
    exact absurd hquote (by decide)
  | case3 rest =>
    apply iff_of_false (by simp)
    exact fun hopen ↦ hopen 0 (closes_quote rest)
  | case4 c rest hscan ih =>
    exact iff_of_true rfl ((skips_escape c rest).open_iff.2 (ih.1 hscan))
  | case5 c rest body hscan ih =>
    apply iff_of_false (by simp)
    intro hopen
    rw [ih.2 ((skips_escape c rest).open_iff.1 hopen)] at hscan
    cases hscan
  | case6 c rest hdangling hquote hescape hscan ih =>
    have hslash := StringBody.ne_backslash hdangling hescape
    exact iff_of_true rfl ((skips_plain hquote hslash rest).open_iff.2 (ih.1 hscan))
  | case7 c rest hdangling hquote hescape body hscan ih =>
    have hslash := StringBody.ne_backslash hdangling hescape
    apply iff_of_false (by simp)
    intro hopen
    rw [ih.2 ((skips_plain hquote hslash rest).open_iff.1 hopen)] at hscan
    cases hscan

theorem scan?_eq_none_iff_odd (text : List Char) :
    StringBody.scan? text = none ↔
      ∀ index, text[index]? = some '"' → Odd (backslashes (text.take index)) := by
  rw [scan?_eq_none_iff]
  apply forall_congr'
  intro index
  constructor
  · intro hopen hquote
    apply Nat.not_even_iff_odd.1
    exact fun heven ↦ hopen ⟨hquote, heven⟩
  · intro hodd h
    exact Nat.not_even_iff_odd.2 (hodd h.quote) h.even

/-- The closing quote that the reader finds is the first one that is not escaped. -/
theorem isLeast_closes_of_scan? {text : List Char} {body : StringBody}
    (h : StringBody.scan? text = some body) :
    IsLeast {index | Closes text index} body.written.length := by
  fun_induction StringBody.scan? text generalizing body with
  | case1 | case2 | case4 | case6 => cases h
  | case3 rest =>
    cases h
    exact ⟨closes_quote rest, fun _ _ ↦ Nat.zero_le _⟩
  | case5 c rest inner hscan ih =>
    cases h
    exact (skips_escape c rest).isLeast (ih hscan)
  | case7 c rest hdangling hquote hescape inner hscan ih =>
    cases h
    exact (skips_plain hquote (StringBody.ne_backslash hdangling hescape) rest).isLeast (ih hscan)

/-! ## Literals inside a text -/

/-- Backslashes in front of a quote have no bearing on what follows it. -/
theorem backslashes_behind_quote (before text : List Char) :
    backslashes (before ++ '"' :: text) = backslashes text := by
  have hreverse : (before ++ '"' :: text).reverse = text.reverse ++ '"' :: before.reverse := by
    simp
  rw [backslashes, hreverse, List.takeWhile_append]
  split
  · rename_i hall
    simp [backslashes, hall]
  · rfl

theorem closes_behind_quote (before rest : List Char) (index : Nat) :
    Closes (before ++ '"' :: rest) (index + (before.length + 1)) ↔ Closes rest index := by
  have hquote : (before ++ '"' :: rest)[index + (before.length + 1)]? = rest[index]? := by
    rw [List.getElem?_append_right (by omega)]
    have hindex : index + (before.length + 1) - before.length = index + 1 := by omega
    rw [hindex, List.getElem?_cons_succ]
  have htake : (before ++ '"' :: rest).take (index + (before.length + 1)) =
      before ++ '"' :: rest.take index := by
    have hcount : index + (before.length + 1) = before.length + (index + 1) := by omega
    rw [hcount, List.take_length_add_append, List.take_succ_cons]
  constructor
  · rintro ⟨hfound, heven⟩
    rw [htake, backslashes_behind_quote] at heven
    exact ⟨hquote ▸ hfound, heven⟩
  · rintro ⟨hfound, heven⟩
    rw [← backslashes_behind_quote before, ← htake] at heven
    exact ⟨hquote.trans hfound, heven⟩

/-- In the text around it, too, a literal closes at the first quote that is not escaped. -/
theorem isLeast_closes_behind {rest : List Char} {body : StringBody} (before : List Char)
    (h : StringBody.scan? rest = some body) :
    IsLeast {index | before.length + 1 ≤ index ∧ Closes (before ++ '"' :: rest) index}
      (body.written.length + (before.length + 1)) := by
  have hleast := isLeast_closes_of_scan? h
  constructor
  · exact ⟨Nat.le_add_left _ _, (closes_behind_quote before rest _).2 hleast.1⟩
  · rintro index ⟨hbehind, hcloses⟩
    obtain ⟨further, rfl⟩ := Nat.exists_eq_add_of_le' hbehind
    apply Nat.add_le_add_right
    exact hleast.2 ((closes_behind_quote before rest further).1 hcloses)

end Scriptlet.Literal
