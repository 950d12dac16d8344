import Scriptlet.Number.Decimal
import Scriptlet.Proofs.Number.Nearest
import Scriptlet.Text.Digits

/-!
# The value of a decimal

A decimal stands for a rational number, and its bits are those nearest to that number, also where
they are found without computing a power of ten. So decimals of the same value have the same bits.
The decimal that is equal to a double has the bits of the double, and so has every shorter decimal
that is taken in its place.
-/

namespace Scriptlet.Text

/-! ## Runs of digits -/

theorem ofDigits_eq (digits : List Char) : ofDigits digits = Nat.ofDigitChars 10 digits 0 :=
  Nat.ofDigitChars_eq_foldl.symm

theorem ofDigits_append (first second : List Char) :
    ofDigits (first ++ second) = 10 ^ second.length * ofDigits first + ofDigits second := by
  rw [ofDigits_eq, ofDigits_eq, ofDigits_eq, Nat.ofDigitChars_append,
    Nat.ofDigitChars_eq_ofDigitChars_zero]

theorem ofDigits_replicate_zero (count : ℕ) : ofDigits (List.replicate count '0') = 0 := by
  rw [ofDigits_eq, Nat.ofDigitChars_replicate_zero, Nat.mul_zero]

theorem ofDigits_toDigits (n : ℕ) : ofDigits (Nat.toDigits 10 n) = n := by
  rw [ofDigits_eq, Nat.ofDigitChars_ten_toDigits]

end Scriptlet.Text

namespace Scriptlet.Number

theorem magnitude_infinityBits : magnitude infinityBits = 2 ^ 1024 := by
  have hbits : infinityBits = 2046 * hiddenBit + hiddenBit := rfl
  have hhidden : (hiddenBit : ℚ) = 2 ^ 52 := by norm_num [hiddenBit]
  rw [hbits, magnitude_units (Nat.le_mul_of_pos_left _ Nat.two_pos) (.inr le_rfl), hhidden]
  exact (pow_add (2 : ℚ) 52 972).symm

theorem magnitude_one : magnitude 1 = 2 ^ (-1074 : ℤ) := by
  norm_num [magnitude, hiddenBit]

/-- From `10 ^ 310` on there is no finite double. -/
theorem magnitude_infinityBits_le : magnitude infinityBits ≤ 10 ^ (310 : ℤ) := by
  have hpowers : 2 ^ 1024 ≤ 10 ^ 310 := by decide +kernel
  rw [magnitude_infinityBits]
  exact_mod_cast hpowers

/-- Below `10 ^ (-330)` no double but zero is the nearest one. -/
theorem le_magnitude_one : 2 * 10 ^ (-330 : ℤ) ≤ magnitude 1 := by
  have hpowers : 2 * 2 ^ 1074 ≤ 10 ^ 330 := by decide +kernel
  have hcast : (2 * 2 ^ (1074 : ℤ) : ℚ) ≤ 10 ^ (330 : ℤ) := by exact_mod_cast hpowers
  have hten : (0 : ℚ) < 10 ^ (330 : ℤ) := by positivity
  have htwo : (0 : ℚ) < 2 ^ (1074 : ℤ) := by positivity
  rw [magnitude_one, zpow_neg, zpow_neg, ← div_eq_mul_inv, div_le_iff₀ hten, ← div_eq_inv_mul,
    le_div_iff₀ htwo]
  exact hcast

/-- A power of ten is a quotient of two natural ones, of which one is `1`. -/
theorem powTen_eq (exponent : ℤ) :
    (powTen exponent : ℚ) = 10 ^ exponent * powTen (-exponent) := by
  have hten : (10 : ℚ) ≠ 0 := by norm_num
  simp only [powTen, Nat.pow_eq, Nat.cast_pow, Nat.cast_ofNat]
  rw [← zpow_natCast, ← zpow_natCast, ← zpow_add₀ hten]
  congr 1
  omega

theorem powTen_pos (exponent : ℤ) : 0 < powTen exponent := Nat.pow_pos (by decide)

namespace Decimal

def value (decimal : Decimal) : ℚ := decimal.significand * 10 ^ decimal.exponent

/-- Less than half of the least magnitude is nearest to zero. -/
theorem nearest_zero {value : ℚ} (h : 2 * value ≤ magnitude 1) : Nearest value 0 := by
  have hrounds : Rounds value 0 :=
    { above := by rwa [magnitude_zero, zero_add]
      even_above := fun _ ↦ Even.zero
      below := fun lower hlower ↦ absurd hlower (Nat.succ_ne_zero lower)
      even_below := fun lower hlower ↦ absurd hlower (Nat.succ_ne_zero lower) }
  exact hrounds.nearest

theorem le_value_of_le_exponent {decimal : Decimal} (hsignificand : decimal.significand ≠ 0)
    (hexponent : 310 ≤ decimal.exponent) : magnitude infinityBits ≤ decimal.value := by
  have hone : (1 : ℚ) ≤ decimal.significand := by
    exact_mod_cast Nat.one_le_iff_ne_zero.2 hsignificand
  calc
    magnitude infinityBits ≤ 10 ^ (310 : ℤ) := magnitude_infinityBits_le
    _ ≤ 10 ^ decimal.exponent := zpow_le_zpow_right₀ (by norm_num) hexponent
    _ ≤ decimal.value := le_mul_of_one_le_left (by positivity) hone

theorem value_le_of_exponent_le {decimal : Decimal}
    (h : decimal.exponent + (decimal.significand.log2 + 1) ≤ -330) :
    2 * decimal.value ≤ magnitude 1 := by
  have hsignificand : (decimal.significand : ℚ) ≤ 10 ^ ((decimal.significand.log2 : ℤ) + 1) := by
    have htwo : decimal.significand < 2 ^ (decimal.significand.log2 + 1) := Nat.lt_log2_self
    have hten : 2 ^ (decimal.significand.log2 + 1) ≤ 10 ^ (decimal.significand.log2 + 1) :=
      Nat.pow_le_pow_left (by decide) _
    exact_mod_cast (htwo.trans_le hten).le
  have hvalue : decimal.value ≤ 10 ^ (-330 : ℤ) := by
    calc
      decimal.value ≤ 10 ^ ((decimal.significand.log2 : ℤ) + 1) * 10 ^ decimal.exponent := by
        unfold value
        gcongr
      _ = 10 ^ (decimal.exponent + (decimal.significand.log2 + 1)) := by
        rw [← zpow_add₀ (by norm_num), add_comm]
      _ ≤ 10 ^ (-330 : ℤ) := zpow_le_zpow_right₀ (by norm_num) h
  calc
    2 * decimal.value ≤ 2 * 10 ^ (-330 : ℤ) := by gcongr
    _ ≤ magnitude 1 := le_magnitude_one

/-- The bits of a decimal are the nearest ones. -/
theorem nearest_bits (decimal : Decimal) : Nearest decimal.value decimal.bits := by
  unfold bits
  split
  · rename_i hzero
    rw [value, hzero, Nat.cast_zero, zero_mul, ← magnitude_zero]
    exact nearest_magnitude (Nat.zero_le _)
  rename_i hsignificand
  split
  · rename_i hlarge
    exact nearest_infinityBits (le_value_of_le_exponent hsignificand hlarge)
  split
  · rename_i hsmall
    exact nearest_zero (value_le_of_exponent_le hsmall)
  · have hvalue : decimal.value =
        ↑(decimal.significand * powTen decimal.exponent) / ↑(powTen (-decimal.exponent)) := by
      have hpos : (powTen (-decimal.exponent) : ℚ) ≠ 0 := by exact_mod_cast (powTen_pos _).ne'
      rw [Nat.cast_mul, powTen_eq decimal.exponent, ← mul_assoc, mul_div_cancel_right₀ _ hpos,
        value]
    rw [hvalue]
    exact nearest_nearestBits _ (powTen_pos _)

theorem value_ofBinary (mantissa : ℕ) (exponent : ℤ) :
    (ofBinary mantissa exponent).value = mantissa * 2 ^ exponent := by
  unfold ofBinary value
  split
  · rename_i hnonneg
    obtain ⟨places, rfl⟩ := Int.eq_ofNat_of_zero_le hnonneg
    simp
  · rename_i hnegative
    obtain ⟨places, hplaces⟩ := Int.eq_ofNat_of_zero_le (Int.neg_nonneg.2 (not_le.1 hnegative).le)
    obtain rfl : exponent = -places := by omega
    have hten : (10 : ℚ) ^ (-(places : ℤ)) = 5 ^ (-(places : ℤ)) * 2 ^ (-(places : ℤ)) := by
      rw [← mul_zpow]
      norm_num
    have hfive : (5 : ℚ) ^ places * 5 ^ (-(places : ℤ)) = 1 := by
      rw [zpow_neg, zpow_natCast]
      exact mul_inv_cancel₀ (by positivity)
    simp only [neg_neg, Int.toNat_natCast, Nat.pow_eq, Nat.cast_mul, Nat.cast_pow, Nat.cast_ofNat]
    rw [hten, mul_assoc, ← mul_assoc (5 ^ places), hfive, one_mul]

/-! ## Shorter decimals -/

theorem bits_of_shortened? {tie : Tie} {target count : ℕ} {value decimal : Decimal}
    (h : value.shortened? tie target count = some decimal) : decimal.bits = target := by
  unfold shortened? at h
  dsimp only at h
  split at h
  · rename_i hbelow habove
    rw [Option.some.injEq] at h
    subst h
    rw [apply_ite bits, beq_iff_eq.1 hbelow, beq_iff_eq.1 habove, ite_self]
  · rename_i hbelow _
    cases h
    exact beq_iff_eq.1 hbelow
  · rename_i _ habove
    cases h
    exact beq_iff_eq.1 habove
  · cases h

/-- The shortest decimal for some bits has these bits. -/
theorem bits_shortest {target : ℕ} {value : Decimal} (tie : Tie) (h : value.bits = target) :
    (value.shortest tie target).bits = target := by
  unfold shortest
  dsimp only
  cases hfound : (List.range 17).findSome? fun i ↦
      value.shortened? tie target (value.digits.length - (i + 1)) with
  | none => exact h
  | some decimal =>
    obtain ⟨index, -, hshortened⟩ := List.exists_of_findSome?_eq_some hfound
    exact bits_of_shortened? hshortened

end Decimal

end Scriptlet.Number
