import Mathlib.Algebra.Order.Floor.Semifield
import Mathlib.Data.Rat.Floor
import Scriptlet.Proofs.Number.Display

/-!
# Whole numbers as doubles

Every natural number up to `2 ^ 53` is the magnitude of a double, so that rounding does not change
it, and it is printed with its own digits. Larger ones are rounded to magnitudes that are still too
large for an exit code.
-/

namespace Scriptlet.Number

/-- The natural numbers up to `2 ^ 53` are magnitudes. -/
theorem exists_magnitude_eq {n : ℕ} (h : n ≤ 2 ^ 53) :
    ∃ bits < infinityBits, magnitude bits = n := by
  rcases Nat.eq_zero_or_pos n with rfl | hpos
  · exact ⟨0, by decide, by simp⟩
  -- The units are `n` moved to the left as far as 53 bits allow.
  let shift := 52 - n.log2
  have hshift : shift ≤ 52 := Nat.sub_le ..
  have hlow : hiddenBit ≤ n * 2 ^ shift := by
    calc
      hiddenBit = 2 ^ 52 := by decide
      _ ≤ 2 ^ (n.log2 + shift) := Nat.pow_le_pow_right Nat.two_pos (by omega)
      _ = 2 ^ n.log2 * 2 ^ shift := Nat.pow_add ..
      _ ≤ n * 2 ^ shift := Nat.mul_le_mul_right _ (Nat.log2_self_le hpos.ne')
  have hhigh : n * 2 ^ shift ≤ 2 * hiddenBit := by
    rcases Nat.lt_or_ge 52 n.log2 with hlarge | hsmall
    · have hnone : shift = 0 := by omega
      rw [hnone, Nat.pow_zero, Nat.mul_one]
      exact h
    · calc
        n * 2 ^ shift ≤ 2 ^ (n.log2 + 1) * 2 ^ shift :=
          Nat.mul_le_mul_right _ Nat.lt_log2_self.le
        _ = 2 ^ (n.log2 + 1 + shift) := (Nat.pow_add ..).symm
        _ = 2 ^ 53 := by
          congr 1
          omega
        _ = 2 * hiddenBit := by decide
  refine ⟨(1074 - shift) * hiddenBit + n * 2 ^ shift, ?_, ?_⟩
  · calc
      (1074 - shift) * hiddenBit + n * 2 ^ shift ≤ 1074 * hiddenBit + 2 * hiddenBit :=
        Nat.add_le_add (Nat.mul_le_mul_right _ (Nat.sub_le ..)) hhigh
      _ < infinityBits := by decide
  · rw [magnitude_units hhigh (Or.inr hlow)]
    have hexponent : ((1074 - shift : ℕ) : ℤ) - 1074 = -(shift : ℤ) := by omega
    rw [hexponent, zpow_neg, zpow_natCast]
    push_cast
    rw [mul_assoc, mul_inv_cancel₀ (by positivity), mul_one]

/-- A natural number up to `2 ^ 53` stays as it is. -/
theorem magnitude_of_nearest {n bits : ℕ} (h : Nearest n bits) (hn : n ≤ 2 ^ 53) :
    bits < infinityBits ∧ magnitude bits = n := by
  obtain ⟨found, hfinite, hfound⟩ := exists_magnitude_eq hn
  have hnearest := nearest_magnitude hfinite.le
  rw [hfound] at hnearest
  rw [h.unique hnearest]
  exact ⟨hfinite, hfound⟩

/-- A larger natural number does not fall below `2 ^ 53`. -/
theorem le_magnitude_of_nearest {n bits : ℕ} (h : Nearest n bits) (hn : 2 ^ 53 ≤ n) :
    ((2 ^ 53 : ℕ) : ℚ) ≤ magnitude bits := by
  obtain ⟨least, hfinite, hleast⟩ := exists_magnitude_eq (le_refl (2 ^ 53))
  have hle : magnitude least ≤ n := by
    rw [hleast]
    exact_mod_cast hn
  calc
    ((2 ^ 53 : ℕ) : ℚ) = magnitude least := hleast.symm
    _ ≤ magnitude bits := magnitude_strictMono.monotone (h.le_of_magnitude_le hfinite.le hle)

theorem nearest_eq_zero_iff {n bits : ℕ} (h : Nearest n bits) : bits = 0 ↔ n = 0 := by
  rcases Nat.le_total n (2 ^ 53) with hle | hge
  · obtain ⟨-, hmagnitude⟩ := magnitude_of_nearest h hle
    rw [← magnitude_strictMono.injective.eq_iff, hmagnitude, magnitude_zero]
    exact_mod_cast Iff.rfl
  · refine iff_of_false ?_ (Nat.pos_of_ne_zero ?_ |>.trans_le hge).ne'
    · rintro rfl
      have hle := le_magnitude_of_nearest h hge
      rw [magnitude_zero] at hle
      exact absurd hle (by norm_num)
    · norm_num

/-! ## Exit codes -/

theorem truncate?_ofMagnitude (negative : Bool) {bits : ℕ} (h : bits < infinityBits) :
    truncate? (ofMagnitude negative bits) =
      some (if negative then -(⌊magnitude bits⌋₊ : ℤ) else ⌊magnitude bits⌋₊) := by
  obtain ⟨mantissa, exponent, hparts, hmagnitude⟩ := exists_partsOf negative h
  have hquotient : magnitude bits =
      ((mantissa * powTwo exponent : ℕ) : ℚ) / (powTwo (-exponent) : ℕ) := by
    have hpos : (powTwo (-exponent) : ℚ) ≠ 0 := by exact_mod_cast (powTwo_pos _).ne'
    rw [Nat.cast_mul, powTwo_eq exponent, ← mul_assoc, mul_div_cancel_right₀ _ hpos, hmagnitude]
  have hfloor : ⌊magnitude bits⌋₊ = mantissa * powTwo exponent / powTwo (-exponent) := by
    rw [hquotient, Nat.floor_div_eq_div]
  rw [truncate?, parts_ofMagnitude negative h.le, hparts, hfloor]

end Scriptlet.Number

namespace Scriptlet.Scalar

open Number

theorem exitCode_number (negative : Bool) {bits : ℕ} (h : bits < infinityBits) :
    exitCode (.number (ofMagnitude negative bits)) =
      clamp (if negative then -(⌊magnitude bits⌋₊ : ℤ) else ⌊magnitude bits⌋₊) := by
  obtain ⟨mantissa, exponent, hparts, -⟩ := exists_partsOf negative h
  rw [exitCode, toNumber, parts_ofMagnitude negative h.le, hparts]
  dsimp only
  rw [truncate?_ofMagnitude negative h, Option.getD_some]

theorem exitCode_infinite (negative : Bool) :
    exitCode (.number (ofMagnitude negative infinityBits)) =
      if negative then leastCode else greatestCode := by
  rw [exitCode, toNumber, parts_ofMagnitude negative le_rfl, partsOf_infinityBits]

theorem clamp_of_le {n : ℤ} (h : greatestCode ≤ n) : clamp n = greatestCode := by
  rw [clamp, min_eq_right h]
  decide

theorem clamp_of_ge {n : ℤ} (h : n ≤ leastCode) : clamp n = leastCode := by
  have hle : n ≤ greatestCode := h.trans (by decide)
  rw [clamp, min_eq_left hle, max_eq_left h]

/-- Rounding a natural number does not change its exit code. -/
theorem exitCode_nearest (negative : Bool) {n bits : ℕ} (h : Nearest n bits) :
    exitCode (.number (ofMagnitude negative bits)) = clamp (if negative then -(n : ℤ) else n) := by
  rcases Nat.le_total n (2 ^ 53) with hle | hge
  · obtain ⟨hfinite, hmagnitude⟩ := magnitude_of_nearest h hle
    rw [exitCode_number negative hfinite, hmagnitude, Nat.floor_natCast]
  -- Both the number and what it is rounded to are out of range.
  have hextreme : ∀ size : ℕ, 2 ^ 53 ≤ size →
      clamp (if negative then -(size : ℤ) else size) =
        if negative then leastCode else greatestCode := by
    intro size hsize
    cases negative with
    | false =>
      apply clamp_of_le
      change greatestCode ≤ (size : ℤ)
      rw [greatestCode]
      omega
    | true =>
      apply clamp_of_ge
      change -(size : ℤ) ≤ leastCode
      rw [leastCode]
      omega
  rw [hextreme n hge]
  rcases Nat.eq_or_lt_of_le h.bounded with rfl | hfinite
  · exact exitCode_infinite negative
  · rw [exitCode_number negative hfinite]
    exact hextreme _ (Nat.le_floor (le_magnitude_of_nearest h hge))

/-! ## Printed whole numbers -/

/-- A natural number up to `2 ^ 53` is printed with its own digits. -/
theorem display_nearest (negative : Bool) {n bits : ℕ} (h : Nearest n bits) (hn : n ≤ 2 ^ 53) :
    display (.number (ofMagnitude negative bits)) =
      if n = 0 then "0" else (if negative then "-" else "") ++ toString n := by
  obtain ⟨hfinite, hmagnitude⟩ := magnitude_of_nearest h hn
  have hbits : magnitudeBits (ofMagnitude negative bits) = bits :=
    magnitudeBits_ofMagnitude negative h.bounded
  have hzero := nearest_eq_zero_iff h
  split
  · rename_i hn0
    apply display_zero
    rw [hbits, hzero.2 hn0]
  · rename_i hn0
    have hpos : 0 < bits := Nat.pos_of_ne_zero fun h0 ↦ hn0 (hzero.1 h0)
    obtain ⟨numeral, hprints, htext⟩ := exists_display (hbits.symm ▸ hfinite) (hbits.symm ▸ hpos)
    have hless : n < 10 ^ 21 := hn.trans_lt (by decide +kernel)
    have hvalue : magnitude (magnitudeBits (ofMagnitude negative bits)) = n := by
      rw [hbits, hmagnitude]
    obtain ⟨hwhole, hfraction⟩ := hprints.integral n hless hvalue
    have hexponent : numeral.exponent = none := by
      rw [hprints.exponent_iff, hvalue]
      exact_mod_cast hless
    have hsign : numeral.sign = signMark negative := by
      rw [hprints.sign_eq, isNegative_ofMagnitude negative h.bounded]
    have hsignText : (if negative then "-" else "").toList = (signMark negative).text := by
      cases negative with
      | false => rfl
      | true => rfl
    apply String.toList_injective
    calc
      (display (.number (ofMagnitude negative bits))).toList = numeral.text := htext
      _ = (signMark negative).text ++ Nat.toDigits 10 n := by
        rw [Numeral.text, Numeral.unsigned, Numeral.pointed, Numeral.tail, hsign, hwhole, hfraction,
          hexponent]
        simp
      _ = ((if negative then "-" else "") ++ toString n).toList := by
        rw [String.toList_append, hsignText, Nat.toString_eq_ofList_toDigits, String.toList_ofList]

/-! ## A whole number and its negative -/

section

variable {n bits : ℕ} (h : Nearest n bits)

include h

theorem exitCode_whole :
    exitCode (.number (ofMagnitude false bits)) = min (n : ℤ) (2 ^ 31 - 1) := by
  rw [exitCode_nearest false h]
  change max leastCode (min (n : ℤ) greatestCode) = _
  rw [leastCode, greatestCode]
  omega

/-- Zero has no negative of its own. -/
theorem exitCode_negative :
    exitCode (.number (ofMagnitude (decide (0 < bits)) bits)) = max (-(n : ℤ)) (-2 ^ 31) := by
  have hsize : (if decide (0 < bits) then -(n : ℤ) else n) = -n := by
    rcases Nat.eq_zero_or_pos bits with hzero | hpos
    · rw [(nearest_eq_zero_iff h).1 hzero, Nat.cast_zero, neg_zero, ite_self]
    · rw [decide_eq_true hpos, if_pos rfl]
  rw [exitCode_nearest _ h, hsize, clamp, leastCode, greatestCode]
  omega

theorem display_whole (hn : n ≤ 2 ^ 53) :
    display (.number (ofMagnitude false bits)) = toString n := by
  rw [display_nearest false h hn]
  split
  · rename_i hzero
    rw [hzero]
    rfl
  · exact String.empty_append

theorem display_negative (hn : n ≤ 2 ^ 53) :
    display (.number (ofMagnitude (decide (0 < bits)) bits)) =
      if n = 0 then "0" else "-" ++ toString n := by
  rw [display_nearest _ h hn]
  split
  · rfl
  · rename_i hzero
    have hpos : 0 < bits := Nat.pos_of_ne_zero fun h0 ↦ hzero ((nearest_eq_zero_iff h).1 h0)
    rw [decide_eq_true hpos, if_pos rfl]

end

end Scriptlet.Scalar
