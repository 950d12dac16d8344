import Scriptlet.Json.Parser
import Scriptlet.Json.Printer
import Scriptlet.Proofs.Tiling.Lexer

/-!
# JSON strings and numbers

A string is read back as the text that was written, whatever its characters are, and a natural
number as its digits, if no character follows that could go on with it.
-/

namespace Scriptlet.Json

/-! ## Strings -/

theorem units?_control {code : Nat} (h : code < 0x20) (rest : List Char) :
    units? (['\\', 'u', '0', '0', hexDigit (code / 16), hexDigit (code % 16)] ++ rest) =
      (units? rest).map (Prod.map (code :: ·) id) := by
  have hunit : ∀ code < 0x20,
      hexUnit? '0' '0' (hexDigit (code / 16)) (hexDigit (code % 16)) = some code := by
    decide
  simp only [List.cons_append, List.nil_append]
  rw [units?, hunit code h]
  cases units? rest with
  | none => rfl
  | some found => rfl

theorem units?_named {mark c : Char} (h : unescape? mark = some c) (rest : List Char) :
    units? (['\\', mark] ++ rest) = (units? rest).map (Prod.map (c.toNat :: ·) id) := by
  have hmark : mark ≠ 'u' := by
    rintro rfl
    cases h
  simp only [List.cons_append, List.nil_append]
  rw [units?]
  · rw [h]
    cases units? rest with
    | none => rfl
    | some found => rfl
  · intro a b c d others hu _
    exact hmark hu

theorem units?_plain {c : Char} (hquote : c ≠ '"') (hslash : c ≠ '\\') (hcode : ¬c.toNat < 0x20)
    (rest : List Char) :
    units? ([c] ++ rest) = (units? rest).map (Prod.map (c.toNat :: ·) id) := by
  have hplain : (decide (c.toNat < 0x20) || c == '\\') = false := by
    simp [hcode, hslash]
  simp only [List.cons_append, List.nil_append]
  rw [units?]
  · rw [hplain]
    cases units? rest with
    | none => rfl
    | some found => rfl
  · exact hquote
  · intro _ _ _ _ _ hc _
    exact hslash hc
  · intro _ _ hc _
    exact hslash hc

/-- What is written for a character is read as its code. -/
theorem units?_escape (c : Char) (rest : List Char) :
    units? (escape c ++ rest) = (units? rest).map (Prod.map (c.toNat :: ·) id) := by
  unfold escape
  split
  case h_8 hquote hslash _ _ _ _ _ =>
    split
    · rename_i hcontrol
      exact units?_control hcontrol rest
    · rename_i hcode
      exact units?_plain (hquote ·) (hslash ·) hcode rest
  all_goals exact units?_named rfl rest

theorem units?_flatMap_escape (text rest : List Char) :
    units? (text.flatMap escape ++ '"' :: rest) = some (text.map Char.toNat, rest) := by
  induction text with
  | nil => rw [List.flatMap_nil, List.nil_append, units?, List.map_nil]
  | cons c text ih =>
    rw [List.flatMap_cons, List.append_assoc, units?_escape, ih]
    rfl

/-- No character is a surrogate. -/
theorem not_surrogate (c : Char) :
    isHighSurrogate c.toNat = false ∧ isLowSurrogate c.toNat = false := by
  have hvalid : c.toNat < 0xD800 ∨ 0xDFFF < c.toNat ∧ c.toNat < 0x110000 := c.valid
  simp only [isHighSurrogate, isLowSurrogate, Bool.and_eq_false_iff, decide_eq_false_iff_not]
  omega

theorem pair?_map_toNat (text : List Char) : pair? (text.map Char.toNat) = some text := by
  induction text with
  | nil => rfl
  | cons c rest ih =>
    obtain ⟨hhigh, hlow⟩ := not_surrogate c
    cases rest with
    | nil => simp [pair?, hhigh, hlow]
    | cons d rest =>
      simp only [List.map_cons] at ih ⊢
      rw [pair?, ih]
      simp [hhigh, hlow]

/-- A string is read as the text that it was written for. -/
theorem text?_escaped (text : String) (rest : List Char) :
    text? (text.toList.flatMap escape ++ '"' :: rest) = some (some text, rest) := by
  rw [text?, units?_flatMap_escape]
  simp [pair?_map_toNat]

/-! ## Numbers -/

/-- A character that cannot go on with a number. -/
structure EndsNumber (c : Char) : Prop where
  digit : c.isDigit = false
  point : c ≠ '.'
  power : (c == 'e' || c == 'E') = false

theorem digits?_run {digits rest : List Char} (hdigits : ∀ c ∈ digits, c.isDigit = true)
    (hne : digits ≠ []) (hrest : ∀ c ∈ rest.head?, c.isDigit = false) :
    digits? (digits ++ rest) = some (digits, rest) := by
  rw [digits?, Tiling.takeWhile_run hdigits hrest, Tiling.dropWhile_run hdigits hrest,
    List.isEmpty_eq_false_iff.2 hne]
  rfl

theorem exists_toDigits (n : Nat) :
    ∃ c more, Nat.toDigits 10 n = c :: more ∧ c.isDigit = true := by
  obtain ⟨c, more, hdigits⟩ := List.exists_cons_of_ne_nil (Nat.toDigits_ne_nil (n := n) (b := 10))
  refine ⟨c, more, hdigits, ?_⟩
  apply Nat.isDigit_of_mem_toDigits (b := 10) (n := n) (by decide) (by decide)
  rw [hdigits]
  exact List.mem_cons_self

/-- Only zero has a zero in front. -/
theorem head?_toDigits {n : Nat} (h : 0 < n) : (Nat.toDigits 10 n).head? ≠ some '0' := by
  induction n using Nat.strongRecOn with
  | ind n ih =>
    by_cases hsmall : n < 10
    · have hdigit : ∀ n < 10, 0 < n → (Nat.toDigits 10 n).head? ≠ some '0' := by decide
      exact hdigit n hsmall h
    · have hquotient : 0 < n / 10 := Nat.div_pos (Nat.not_lt.1 hsmall) (by decide)
      rw [Nat.toDigits_of_base_le (by decide) (Nat.not_lt.1 hsmall),
        List.head?_append_of_ne_nil _ Nat.toDigits_ne_nil]
      exact ih (n / 10) (Nat.div_lt_self h (by decide)) hquotient

theorem whole?_toDigits (n : Nat) {rest : List Char} (h : ∀ c ∈ rest.head?, c.isDigit = false) :
    whole? (Nat.toDigits 10 n ++ rest) = some (Nat.toDigits 10 n, rest) := by
  rcases Nat.eq_zero_or_pos n with rfl | hpos
  · change whole? ('0' :: rest) = some (['0'], rest)
    cases rest with
    | nil => rfl
    | cons c rest =>
      rw [whole?, h c rfl]
      rfl
  · have hdigits : ∀ c ∈ Nat.toDigits 10 n, c.isDigit = true :=
      fun c hc ↦ Nat.isDigit_of_mem_toDigits (by decide) (by decide) hc
    rw [whole?.eq_def]
    split
    · rename_i heq
      have hhead : (Nat.toDigits 10 n).head? = some '0' := by
        rw [← List.head?_append_of_ne_nil (Nat.toDigits 10 n) Nat.toDigits_ne_nil, heq]
        rfl
      exact absurd hhead (head?_toDigits hpos)
    · exact digits?_run hdigits Nat.toDigits_ne_nil h

theorem fraction?_none {rest : List Char} (h : ∀ c ∈ rest.head?, c ≠ '.') :
    fraction? rest = some ([], rest) := by
  unfold fraction?
  split
  · exact absurd rfl (h '.' rfl)
  · rfl

theorem power?_none {rest : List Char} (h : ∀ c ∈ rest.head?, (c == 'e' || c == 'E') = false) :
    power? rest = some ([], rest) := by
  cases rest with
  | nil => rfl
  | cons c rest =>
    rw [power?, h c rfl]
    rfl

/-- The digits of a natural number are read whole. -/
theorem number?_toDigits (n : Nat) {rest : List Char} (h : ∀ c ∈ rest.head?, EndsNumber c) :
    number? (Nat.toDigits 10 n ++ rest) = some (toString n, rest) := by
  have hwhole := whole?_toDigits n fun c hc ↦ (h c hc).digit
  have hfraction := fraction?_none fun c hc ↦ (h c hc).point
  have hpower := power?_none fun c hc ↦ (h c hc).power
  obtain ⟨c, more, hdigits, hdigit⟩ := exists_toDigits n
  unfold number?
  split
  rename_i minus input heq
  split at heq
  · rename_i hsign
    rw [hdigits] at hsign
    cases hsign
    cases hdigit
  · cases heq
    rw [Nat.toString_eq_ofList_toDigits]
    simp [hwhole, hfraction, hpower]

end Scriptlet.Json
