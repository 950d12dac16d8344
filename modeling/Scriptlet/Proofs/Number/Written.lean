import Mathlib.Data.List.DropRight
import Scriptlet.Number.Written
import Scriptlet.Proofs.Number.Numeral

/-!
# Written decimals are numerals

The text of a positive decimal is a numeral of the same value, wherever the point ends up and
whether or not there is an exponent. How large the decimal is decides between the two.
-/

namespace Scriptlet.Number

namespace Decimal

/-- The power of ten with which the digits are `0.d₁d₂…`. -/
def point (decimal : Decimal) : ℤ := decimal.exponent + decimal.digits.length

/-- The digits up to the last one that is not zero. -/
def significant (decimal : Decimal) : List Char := decimal.digits.rdropWhile (· == '0')

theorem isDigit_digits {decimal : Decimal} : ∀ c ∈ decimal.digits, c.isDigit = true :=
  fun _ hc ↦ Nat.isDigit_of_mem_toDigits (by decide) (by decide) hc

theorem isDigit_significant {decimal : Decimal} : ∀ c ∈ decimal.significant, c.isDigit = true :=
  fun c hc ↦ isDigit_digits c ((List.rdropWhile_prefix _ _).subset hc)

theorem exists_digits (decimal : Decimal) :
    ∃ count, decimal.digits = decimal.significant ++ List.replicate count '0' := by
  let zeros := decimal.digits.rtakeWhile (· == '0')
  have hzeros : zeros = List.replicate zeros.length '0' := by
    rw [List.eq_replicate_iff]
    refine ⟨rfl, fun c hc ↦ ?_⟩
    have hzero : (c == '0') = true := List.mem_rtakeWhile_imp (p := (· == '0')) hc
    exact beq_iff_eq.1 hzero
  refine ⟨zeros.length, ?_⟩
  rw [← hzeros]
  exact (List.rdropWhile_append_rtakeWhile ..).symm

/-- Zeros at the end of the digits are worth powers of ten. -/
theorem value_zeros (digits : List Char) (count : ℕ) (exponent : ℤ) :
    value ⟨Text.ofDigits (digits ++ List.replicate count '0'), exponent⟩ =
      value ⟨Text.ofDigits digits, exponent + count⟩ := by
  have hten : (10 : ℚ) ≠ 0 := by norm_num
  rw [value, value, Text.ofDigits_append, Text.ofDigits_replicate_zero, List.length_replicate,
    zpow_add₀ hten, zpow_natCast]
  push_cast
  ring

theorem value_significant (decimal : Decimal) :
    value ⟨Text.ofDigits decimal.significant, decimal.point - decimal.significant.length⟩ =
      decimal.value := by
  obtain ⟨count, hdigits⟩ := exists_digits decimal
  have hlength : decimal.digits.length = decimal.significant.length + count := by
    rw [hdigits, List.length_append, List.length_replicate]
  have hpoint : decimal.point - decimal.significant.length = decimal.exponent + count := by
    rw [point, hlength]
    push_cast
    ring
  have hsignificand : Text.ofDigits decimal.digits = decimal.significand :=
    Text.ofDigits_toDigits decimal.significand
  rw [hpoint, ← value_zeros, ← hdigits, hsignificand]

theorem significant_ne_nil {decimal : Decimal} (h : 0 < decimal.significand) :
    decimal.significant ≠ [] := by
  intro hnil
  obtain ⟨count, hdigits⟩ := exists_digits decimal
  have hzero : decimal.significand = 0 := by
    rw [← Text.ofDigits_toDigits decimal.significand]
    change Text.ofDigits decimal.digits = 0
    rw [hdigits, hnil, List.nil_append, Text.ofDigits_replicate_zero]
  exact h.ne' hzero

/-- The point tells between which powers of ten a decimal is. -/
theorem point_le_iff {decimal : Decimal} (h : 0 < decimal.significand) (place : ℤ) :
    decimal.point ≤ place ↔ decimal.value < 10 ^ place := by
  have hlength : 0 < decimal.digits.length := List.length_pos_iff.2 Nat.toDigits_ne_nil
  have hvalue : decimal.value < 10 ^ place ↔
      (decimal.significand : ℚ) < 10 ^ (place - decimal.exponent) := by
    rw [value, zpow_sub₀ (by norm_num), lt_div_iff₀ (by positivity)]
  rw [hvalue, point]
  rcases Int.lt_or_le 0 (place - decimal.exponent) with hpositive | hnegative
  · obtain ⟨places, hplaces⟩ := Int.eq_ofNat_of_zero_le hpositive.le
    have hiff : decimal.digits.length ≤ places ↔ decimal.significand < 10 ^ places :=
      Nat.length_toDigits_le_iff (by decide) (by omega)
    have hcast : (decimal.significand : ℚ) < 10 ^ (places : ℤ) ↔
        decimal.significand < 10 ^ places := by
      rw [zpow_natCast]
      exact_mod_cast Iff.rfl
    rw [hplaces, hcast, ← hiff]
    omega
  · have hone : (1 : ℚ) ≤ decimal.significand := by exact_mod_cast h
    have hpower : (10 : ℚ) ^ (place - decimal.exponent) ≤ 1 :=
      zpow_le_one_of_nonpos₀ (by norm_num) hnegative
    constructor
    · omega
    · intro hless
      exact absurd (hless.trans_le hpower) (not_lt.2 hone)

end Decimal

theorem Numeral.size_eq (numeral : Numeral) :
    numeral.size =
      Decimal.value ⟨Text.ofDigits (numeral.whole ++ numeral.fraction.getD []),
        numeral.power - (numeral.fraction.getD []).length⟩ :=
  (value_of_point ..).symm

/-- An exponent as numbers are written with it. -/
def ExponentPart.ofInt (exponent : ℤ) : ExponentPart where
  mark := 'e'
  sign := if exponent < 0 then .minus else .absent
  digits := Nat.toDigits 10 exponent.natAbs
  mark_eq := Or.inl rfl
  digits_ne_nil := Nat.toDigits_ne_nil
  isDigit := fun _ hc ↦ Nat.isDigit_of_mem_toDigits (by decide) (by decide) hc

theorem ExponentPart.value_ofInt (exponent : ℤ) : (ofInt exponent).value = exponent := by
  have hdigits : Text.ofDigits (ofInt exponent).digits = exponent.natAbs :=
    Text.ofDigits_toDigits exponent.natAbs
  rw [value, hdigits]
  rcases Int.lt_or_le exponent 0 with hnegative | hnonneg
  · have hsign : (ofInt exponent).sign = .minus := if_pos hnegative
    rw [hsign]
    change -(exponent.natAbs : ℤ) = exponent
    omega
  · have hsign : (ofInt exponent).sign = .absent := if_neg (Int.not_lt.2 hnonneg)
    rw [hsign]
    change (exponent.natAbs : ℤ) = exponent
    omega

theorem ExponentPart.text_ofInt (exponent : ℤ) :
    (ofInt exponent).text =
      'e' :: ((if exponent < 0 then "-" else "").toList ++ (toString exponent.natAbs).toList) := by
  rw [ofInt, text, Nat.toString_eq_ofList_toDigits, String.toList_ofList]
  congr 2
  split
  · rfl
  · rfl

theorem isDigit_zeros (count : ℕ) : ∀ c ∈ List.replicate count '0', c.isDigit = true := by
  intro c hc
  rw [List.eq_of_mem_replicate hc]
  rfl

theorem isDigit_append {first second : List Char} (hfirst : ∀ c ∈ first, c.isDigit = true)
    (hsecond : ∀ c ∈ second, c.isDigit = true) : ∀ c ∈ first ++ second, c.isDigit = true :=
  List.forall_mem_append.2 ⟨hfirst, hsecond⟩

/-- A numeral with the given sign, text and value. -/
structure Spells (numeral : Numeral) (sign : SignMark) (text : String) (value : ℚ) : Prop where
  sign_eq : numeral.sign = sign
  unsigned_eq : numeral.unsigned = text.toList
  size_eq : numeral.size = value

theorem Spells.text_eq {numeral : Numeral} {sign : SignMark} {text : String} {value : ℚ}
    (h : Spells numeral sign text value) : numeral.text = sign.text ++ text.toList := by
  rw [Numeral.text, h.sign_eq, h.unsigned_eq]

section

variable (sign : SignMark) {digits : List Char} (hdigits : ∀ c ∈ digits, c.isDigit = true)
  (hne : digits ≠ []) (point : ℤ)

include hdigits hne

theorem exists_positional :
    ∃ numeral : Numeral, numeral.exponent = none ∧
      Spells numeral sign (displayFormat.positional digits point)
        (Decimal.value ⟨Text.ofDigits digits, point - digits.length⟩) := by
  unfold Format.positional
  split
  · -- The point stands before all digits, behind a zero.
    rename_i hpoint
    obtain ⟨count, hcount⟩ := Int.eq_ofNat_of_zero_le (Int.neg_nonneg.2 hpoint)
    let fraction := List.replicate count '0' ++ digits
    let numeral : Numeral :=
      { sign, whole := ['0'], fraction, exponent := none, isDigit_whole := isDigit_zeros 1,
        isDigit_fraction := isDigit_append (isDigit_zeros count) hdigits,
        digits_ne_nil := List.cons_ne_nil _ _ }
    refine ⟨numeral, rfl, rfl, ?_, ?_⟩
    · simp [numeral, fraction, Numeral.unsigned, Numeral.pointed, Numeral.tail, hcount]
    · have hsignificand : Text.ofDigits (['0'] ++ fraction) = Text.ofDigits digits := by
        rw [← List.append_assoc, ← List.replicate_one, ← List.replicate_add, Text.ofDigits_append,
          Text.ofDigits_replicate_zero]
        omega
      have hexponent : (0 : ℤ) - fraction.length = point - digits.length := by
        simp only [fraction, List.length_append, List.length_replicate]
        omega
      rw [Numeral.size_eq, ← hsignificand, ← hexponent]
      rfl
  split
  · -- The number is integral.
    rename_i hpoint hlength
    let count := point.toNat - digits.length
    let numeral : Numeral :=
      { sign, whole := digits ++ List.replicate count '0', fraction := none, exponent := none,
        isDigit_whole := isDigit_append hdigits (isDigit_zeros count),
        isDigit_fraction := List.forall_mem_nil _,
        digits_ne_nil := by simp [hne] }
    refine ⟨numeral, rfl, rfl, ?_, ?_⟩
    · simp [numeral, count, Numeral.unsigned, Numeral.pointed, Numeral.tail, displayFormat]
    · have hexponent : point - digits.length = 0 + count := by omega
      rw [Numeral.size_eq, hexponent, ← Decimal.value_zeros]
      simp [numeral, Numeral.power]
  · -- The point stands between two digits.
    rename_i hpoint hlength
    let numeral : Numeral :=
      { sign, whole := digits.take point.toNat, fraction := some (digits.drop point.toNat),
        exponent := none,
        isDigit_whole := fun c hc ↦ hdigits c (List.mem_of_mem_take hc),
        isDigit_fraction := fun c hc ↦ hdigits c (List.mem_of_mem_drop hc),
        digits_ne_nil := by simpa using hne }
    refine ⟨numeral, rfl, rfl, ?_, ?_⟩
    · simp [numeral, Numeral.unsigned, Numeral.pointed, Numeral.tail]
    · have hexponent : (0 : ℤ) - (digits.drop point.toNat).length = point - digits.length := by
        rw [List.length_drop]
        omega
      rw [Numeral.size_eq, ← hexponent]
      simp [numeral, Numeral.power]

theorem exists_scientific :
    ∃ numeral : Numeral, numeral.exponent = some (.ofInt (point - 1)) ∧
      Spells numeral sign (displayFormat.scientific digits point)
        (Decimal.value ⟨Text.ofDigits digits, point - digits.length⟩) := by
  obtain ⟨first, rest, rfl⟩ := List.exists_cons_of_ne_nil hne
  let fraction := if rest.length = 0 then none else some rest
  have hfraction : fraction.getD [] = rest := by
    cases rest with
    | nil => rfl
    | cons second rest => rfl
  let numeral : Numeral :=
    { sign, whole := [first], fraction, exponent := some (.ofInt (point - 1)),
      isDigit_whole := fun c hc ↦ hdigits c (List.mem_singleton.1 hc ▸ List.mem_cons_self),
      isDigit_fraction := fun c hc ↦ hdigits c (List.mem_cons_of_mem first (hfraction ▸ hc)),
      digits_ne_nil := List.cons_ne_nil _ _ }
  refine ⟨numeral, rfl, rfl, ?_, ?_⟩
  · have hpointed : numeral.pointed =
        (if (first :: rest).length ≤ 1 then "" else "." ++ String.ofList rest).toList := by
      cases rest with
      | nil => rfl
      | cons second rest => simp [numeral, fraction, Numeral.pointed]
    rw [Numeral.unsigned, hpointed, Numeral.tail]
    simp [numeral, Format.scientific, ExponentPart.text_ofInt, displayFormat]
  · have hexponent : point - 1 - rest.length = point - (first :: rest).length := by
      rw [List.length_cons]
      push_cast
      ring
    have hpower : numeral.power = point - 1 := ExponentPart.value_ofInt _
    rw [Numeral.size_eq, hpower, ← hexponent]
    change Decimal.value ⟨Text.ofDigits ([first] ++ fraction.getD []),
      point - 1 - (fraction.getD []).length⟩ = _
    rw [hfraction]
    rfl

end

/-- The text of a positive decimal is a numeral of its value, with an exponent from `10 ^ 21` on
and for what is smaller than all doubles. -/
theorem exists_write (sign : SignMark) {decimal : Decimal} (h : 0 < decimal.significand) :
    ∃ numeral : Numeral, Spells numeral sign (displayFormat.write decimal) decimal.value ∧
      (numeral.exponent = none ↔ 10 ^ (-400 : ℤ) ≤ decimal.value ∧ decimal.value < 10 ^ 21) := by
  have hwrite : displayFormat.write decimal =
      if -400 ≤ decimal.point - 1 && decide (decimal.point - 1 ≤ 20) then
        displayFormat.positional decimal.significant decimal.point
      else displayFormat.scientific decimal.significant decimal.point := rfl
  have hrange : (-400 ≤ decimal.point - 1 && decide (decimal.point - 1 ≤ 20)) = true ↔
      10 ^ (-400 : ℤ) ≤ decimal.value ∧ decimal.value < 10 ^ 21 := by
    have hlow := Decimal.point_le_iff h (-400)
    have hhigh : decimal.point ≤ 21 ↔ decimal.value < 10 ^ 21 := Decimal.point_le_iff h 21
    rw [Bool.and_eq_true, decide_eq_true_eq, decide_eq_true_eq, ← hhigh,
      ← not_lt (a := decimal.value), ← hlow]
    omega
  rw [hwrite, ← hrange, ← Decimal.value_significant]
  have hne := Decimal.significant_ne_nil h
  split
  · rename_i hpositional
    obtain ⟨numeral, hexponent, hspells⟩ :=
      exists_positional sign Decimal.isDigit_significant hne decimal.point
    exact ⟨numeral, hspells, iff_of_true hexponent hpositional⟩
  · rename_i hscientific
    obtain ⟨numeral, hexponent, hspells⟩ :=
      exists_scientific sign Decimal.isDigit_significant hne decimal.point
    refine ⟨numeral, hspells, iff_of_false ?_ hscientific⟩
    rw [hexponent]
    exact Option.some_ne_none _

end Scriptlet.Number
