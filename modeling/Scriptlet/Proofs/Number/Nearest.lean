import Mathlib.Algebra.Order.Field.Basic
import Mathlib.Algebra.Order.Field.Power
import Mathlib.Algebra.Ring.Parity
import Mathlib.Data.Rat.Cast.Order
import Mathlib.Tactic.Linarith
import Mathlib.Tactic.Ring
import Scriptlet.Number.Binary

/-!
# The nearest double

The magnitude bits of doubles enumerate their magnitudes in ascending order. Those of infinity stand
for `2 ^ 1024`, where the finite doubles would go on. The nearest double to a number is the one at
the least distance, and of two at the same distance the one with even bits; a number for which that
is infinity is too large for a finite double. The nearest bits are unique, they grow with the
number, a magnitude is nearest to itself, and `nearestBits` computes them for every quotient.
-/

namespace Scriptlet.Number

/-- The magnitude that bits stand for, those of infinity included. -/
def magnitude (bits : ℕ) : ℚ :=
  if bits < hiddenBit then bits * 2 ^ (-1074 : ℤ)
  else (hiddenBit + bits % hiddenBit : ℕ) * 2 ^ ((bits / hiddenBit : ℕ) - 1075 : ℤ)

/-- No magnitude is closer to the value than the one with these bits, and if another one is just as
close then they are even. -/
structure Nearest (value : ℚ) (bits : ℕ) : Prop where
  bounded : bits ≤ infinityBits
  closest : ∀ other ≤ infinityBits, |value - magnitude bits| ≤ |value - magnitude other|
  even : ∀ other ≤ infinityBits, other ≠ bits →
    |value - magnitude bits| = |value - magnitude other| → Even bits

/-! ## Magnitudes in order -/

/-- The distance from a magnitude to the next one. -/
def spacing (bits : ℕ) : ℚ := 2 ^ ((bits / hiddenBit - 1 : ℕ) - 1074 : ℤ)

theorem spacing_pos (bits : ℕ) : 0 < spacing bits := by
  unfold spacing
  positivity

/-- Units of one size cover two binades, or the subnormal numbers and one binade. -/
theorem magnitude_units {steps units : ℕ} (hunits : units ≤ 2 * hiddenBit)
    (hnormal : steps = 0 ∨ hiddenBit ≤ units) :
    magnitude (steps * hiddenBit + units) = units * 2 ^ ((steps : ℤ) - 1074) := by
  have hpos : 0 < hiddenBit := by decide
  unfold magnitude
  by_cases hsmall : units < hiddenBit
  · obtain rfl : steps = 0 := hnormal.resolve_right (by omega)
    rw [if_pos (by omega)]
    simp
  rw [if_neg (by rcases hnormal with rfl | hnormal <;> omega)]
  obtain ⟨extra, rfl⟩ := Nat.exists_eq_add_of_le (Nat.not_lt.1 hsmall)
  have hbits : steps * hiddenBit + (hiddenBit + extra) = (steps + 1) * hiddenBit + extra := by
    ring
  rw [hbits]
  rcases Nat.lt_or_ge extra hiddenBit with hextra | hextra
  · rw [Nat.mul_add_mod_self_right, Nat.mod_eq_of_lt hextra, Nat.mul_comm,
      Nat.mul_add_div hpos, Nat.div_eq_of_lt hextra]
    congr 2
    push_cast
    ring
  · obtain rfl : extra = hiddenBit := by omega
    have hcarry : (steps + 1) * hiddenBit + hiddenBit = (steps + 2) * hiddenBit := by ring
    rw [hcarry, Nat.mul_mod_left, Nat.mul_div_cancel _ hpos]
    have hexponent : ((steps + 2 : ℕ) : ℤ) - 1075 = ((steps : ℤ) - 1074) + 1 := by
      push_cast
      ring
    rw [hexponent, zpow_add_one₀ two_ne_zero]
    push_cast
    ring

theorem exists_units (bits : ℕ) :
    ∃ steps units, bits = steps * hiddenBit + units ∧ units < 2 * hiddenBit ∧
      (steps = 0 ∨ hiddenBit ≤ units) ∧ steps = bits / hiddenBit - 1 := by
  have hpos : 0 < hiddenBit := by decide
  have hmod := Nat.mod_lt bits hpos
  have hdiv := Nat.div_add_mod' bits hiddenBit
  rcases Nat.eq_zero_or_pos (bits / hiddenBit) with hzero | hquotient
  · rw [hzero] at hdiv ⊢
    exact ⟨0, bits, by omega, by omega, .inl rfl, rfl⟩
  · obtain ⟨steps, hsteps⟩ := Nat.exists_eq_add_of_lt hquotient
    rw [Nat.zero_add] at hsteps
    rw [hsteps] at hdiv ⊢
    refine ⟨steps, hiddenBit + bits % hiddenBit, ?_, by omega, .inr (by omega), rfl⟩
    rw [← Nat.add_assoc, ← Nat.succ_mul]
    exact hdiv.symm

theorem magnitude_succ (bits : ℕ) : magnitude (bits + 1) = magnitude bits + spacing bits := by
  obtain ⟨steps, units, hbits, hunits, hnormal, hsteps⟩ := exists_units bits
  have hnext : magnitude (bits + 1) = (units + 1 : ℕ) * 2 ^ ((steps : ℤ) - 1074) := by
    rw [hbits, Nat.add_assoc]
    exact magnitude_units (by omega) (by omega)
  have hthis : magnitude bits = units * 2 ^ ((steps : ℤ) - 1074) := by
    rw [hbits]
    exact magnitude_units hunits.le hnormal
  rw [hnext, hthis, spacing, ← hsteps]
  push_cast
  ring

theorem magnitude_strictMono : StrictMono magnitude := by
  apply strictMono_nat_of_lt_succ
  intro bits
  rw [magnitude_succ]
  exact lt_add_of_pos_right _ (spacing_pos bits)

@[simp] theorem magnitude_zero : magnitude 0 = 0 := by
  have hpos : 0 < hiddenBit := by decide
  rw [magnitude, if_pos hpos, Nat.cast_zero, zero_mul]

/-! ## The nearest magnitude -/

/-- The smaller of two numbers is the closer one up to their midpoint. -/
theorem abs_sub_le_iff_of_lt {value lower upper : ℚ} (h : lower < upper) :
    |value - lower| ≤ |value - upper| ↔ 2 * value ≤ lower + upper := by
  rcases abs_cases (value - lower) with ⟨hlower, _⟩ | ⟨hlower, _⟩ <;>
    rcases abs_cases (value - upper) with ⟨hupper, _⟩ | ⟨hupper, _⟩ <;>
    rw [hlower, hupper] <;> constructor <;> intro _ <;> linarith

theorem abs_sub_ge_iff_of_lt {value lower upper : ℚ} (h : lower < upper) :
    |value - upper| ≤ |value - lower| ↔ lower + upper ≤ 2 * value := by
  rcases abs_cases (value - lower) with ⟨hlower, _⟩ | ⟨hlower, _⟩ <;>
    rcases abs_cases (value - upper) with ⟨hupper, _⟩ | ⟨hupper, _⟩ <;>
    rw [hlower, hupper] <;> constructor <;> intro _ <;> linarith

namespace Nearest

variable {value : ℚ} {bits other : ℕ}

/-- A magnitude that the value reaches is not above the nearest one. -/
theorem le_of_magnitude_le (h : Nearest value bits) (hother : other ≤ infinityBits)
    (hle : magnitude other ≤ value) : other ≤ bits := by
  by_contra hless
  have hlt := magnitude_strictMono (Nat.lt_of_not_le hless)
  have hmiddle := (abs_sub_le_iff_of_lt hlt).1 (h.closest other hother)
  linarith

theorem le_of_le_magnitude (h : Nearest value bits) (hother : other ≤ infinityBits)
    (hle : value ≤ magnitude other) : bits ≤ other := by
  by_contra hless
  have hlt := magnitude_strictMono (Nat.lt_of_not_le hless)
  have hmiddle := (abs_sub_ge_iff_of_lt hlt).1 (h.closest other hother)
  linarith

/-- Of two nearest magnitudes the upper one would be next to the lower one, and both would be
even. -/
theorem not_lt (h : Nearest value bits) (hother : Nearest value other) : ¬bits < other := by
  intro hlt
  have hsame : |value - magnitude bits| = |value - magnitude other| :=
    le_antisymm (h.closest other hother.bounded) (hother.closest bits h.bounded)
  have hmiddle : magnitude bits + magnitude other = 2 * value := by
    apply le_antisymm
    · exact (abs_sub_ge_iff_of_lt (magnitude_strictMono hlt)).1 hsame.ge
    · exact (abs_sub_le_iff_of_lt (magnitude_strictMono hlt)).1 hsame.le
  obtain ⟨half, hhalf⟩ := h.even other hother.bounded hlt.ne' hsame
  obtain ⟨otherHalf, hotherHalf⟩ := hother.even bits h.bounded hlt.ne hsame.symm
  have hbetween : bits + 1 < other := by omega
  have hupper := magnitude_strictMono hbetween
  have hcloser := h.closest (bits + 1) (hbetween.le.trans hother.bounded)
  rw [abs_sub_le_iff_of_lt (magnitude_strictMono (Nat.lt_succ_self bits))] at hcloser
  linarith

theorem unique (h : Nearest value bits) (hother : Nearest value other) : bits = other :=
  le_antisymm (Nat.not_lt.1 (hother.not_lt h)) (Nat.not_lt.1 (h.not_lt hother))

end Nearest

theorem nearest_magnitude {bits : ℕ} (h : bits ≤ infinityBits) :
    Nearest (magnitude bits) bits where
  bounded := h
  closest other _ := by simp
  even other _ hne hsame := by
    rw [sub_self, abs_zero, eq_comm, abs_eq_zero, sub_eq_zero] at hsame
    exact absurd (magnitude_strictMono.injective hsame).symm hne

theorem nearest_infinityBits {value : ℚ} (h : magnitude infinityBits ≤ value) :
    Nearest value infinityBits where
  bounded := le_rfl
  closest other hother := by
    have hle := magnitude_strictMono.monotone hother
    rw [abs_of_nonneg (sub_nonneg.2 h), abs_of_nonneg (sub_nonneg.2 (hle.trans h))]
    linarith
  even _ _ _ _ := by decide

/-- The value is no further from the magnitude than halfway to its two neighbours, and that far only
if the bits are even. -/
structure Rounds (value : ℚ) (bits : ℕ) : Prop where
  above : 2 * value ≤ magnitude bits + magnitude (bits + 1)
  even_above : 2 * value = magnitude bits + magnitude (bits + 1) → Even bits
  below : ∀ lower, lower + 1 = bits → magnitude lower + magnitude bits ≤ 2 * value
  even_below : ∀ lower, lower + 1 = bits → magnitude lower + magnitude bits = 2 * value → Even bits

namespace Rounds

variable {value : ℚ} {bits : ℕ}

/-- The neighbours decide, since all other magnitudes lie behind them. -/
theorem nearest_of_le (h : Rounds value bits) (hle : bits ≤ infinityBits) :
    Nearest value bits where
  bounded := hle
  closest other _ := by
    rcases Nat.lt_trichotomy bits other with hlt | rfl | hlt
    · have hnext := magnitude_strictMono.monotone (Nat.succ_le_of_lt hlt)
      rw [abs_sub_le_iff_of_lt (magnitude_strictMono hlt)]
      exact h.above.trans (add_le_add_right hnext _)
    · exact le_rfl
    · have hprevious := magnitude_strictMono.monotone (Nat.le_sub_one_of_lt hlt)
      rw [abs_sub_ge_iff_of_lt (magnitude_strictMono hlt)]
      have hbelow := h.below _ (Nat.sub_add_cancel (Nat.one_le_of_lt hlt))
      exact (add_le_add_left hprevious _).trans hbelow
  even other _ hne hsame := by
    rcases Nat.lt_or_gt_of_ne hne with hlt | hlt
    · have hprevious := magnitude_strictMono.monotone (Nat.le_sub_one_of_lt hlt)
      have hpred : bits - 1 + 1 = bits := Nat.sub_add_cancel (Nat.one_le_of_lt hlt)
      have hmiddle := (abs_sub_le_iff_of_lt (magnitude_strictMono hlt)).1 hsame.ge
      apply h.even_below _ hpred
      exact le_antisymm (h.below _ hpred) (hmiddle.trans (add_le_add_left hprevious _))
    · have hnext := magnitude_strictMono.monotone (Nat.succ_le_of_lt hlt)
      have hmiddle := (abs_sub_ge_iff_of_lt (magnitude_strictMono hlt)).1 hsame.ge
      apply h.even_above
      exact le_antisymm h.above ((add_le_add_right hnext _).trans hmiddle)

theorem nearest (h : Rounds value bits) : Nearest value (min infinityBits bits) := by
  rcases Nat.le_total bits infinityBits with hle | hge
  · rw [min_eq_right hle]
    exact h.nearest_of_le hle
  rw [min_eq_left hge]
  rcases Nat.eq_or_lt_of_le hge with rfl | hlt
  · exact h.nearest_of_le le_rfl
  · have hpred : bits - 1 + 1 = bits := Nat.sub_add_cancel (Nat.one_le_of_lt hlt)
    have hprevious := magnitude_strictMono.monotone (Nat.le_sub_one_of_lt hlt)
    have hbits := magnitude_strictMono.monotone hge
    have hbelow := h.below _ hpred
    exact nearest_infinityBits (by linarith)

end Rounds

/-! ## Rounding a quotient -/

@[simp] theorem cast_powTwo (exponent : ℤ) : (powTwo exponent : ℚ) = 2 ^ exponent.toNat := by
  simp [powTwo]

/-- A power of two is a quotient of two natural ones, of which one is `1`. -/
theorem powTwo_eq (exponent : ℤ) :
    (powTwo exponent : ℚ) = 2 ^ exponent * powTwo (-exponent) := by
  rw [cast_powTwo, cast_powTwo, ← zpow_natCast, ← zpow_natCast, ← zpow_add₀ two_ne_zero]
  congr 1
  omega

theorem powTwo_pos (exponent : ℤ) : 0 < powTwo exponent := Nat.pow_pos Nat.two_pos

theorem floorLog_spec {numerator denominator : ℕ} (hnumerator : 0 < numerator)
    (hdenominator : 0 < denominator) :
    (2 : ℚ) ^ floorLog numerator denominator ≤ numerator / denominator ∧
      (numerator / denominator : ℚ) < 2 ^ (floorLog numerator denominator + 1) := by
  let guess : ℤ := (numerator.log2 : ℤ) - denominator.log2
  have hpositive : (0 : ℚ) < denominator := by exact_mod_cast hdenominator
  have hscale : (0 : ℚ) < powTwo (-guess) := by exact_mod_cast powTwo_pos _
  have hlower : (2 : ℚ) ^ (numerator.log2 : ℤ) ≤ numerator := by
    exact_mod_cast Nat.log2_self_le hnumerator.ne'
  have hupper : (numerator : ℚ) < 2 ^ ((numerator.log2 : ℤ) + 1) := by
    exact_mod_cast Nat.lt_log2_self
  have hlowerDenominator : (2 : ℚ) ^ (denominator.log2 : ℤ) ≤ denominator := by
    exact_mod_cast Nat.log2_self_le hdenominator.ne'
  have hupperDenominator : (denominator : ℚ) < 2 ^ ((denominator.log2 : ℤ) + 1) := by
    exact_mod_cast Nat.lt_log2_self
  have hguess : denominator * powTwo guess ≤ numerator * powTwo (-guess) ↔
      (2 : ℚ) ^ guess ≤ numerator / denominator := by
    rw [le_div_iff₀ hpositive, ← Nat.cast_le (α := ℚ), Nat.cast_mul, Nat.cast_mul, powTwo_eq,
      ← mul_assoc, mul_le_mul_iff_left₀ hscale, mul_comm]
  unfold floorLog
  change 2 ^ (if denominator * powTwo guess ≤ numerator * powTwo (-guess) then guess
    else guess - 1) ≤ _ ∧ _ < 2 ^ ((if denominator * powTwo guess ≤ numerator * powTwo (-guess)
      then guess else guess - 1) + 1)
  split
  · rename_i htest
    refine ⟨hguess.1 htest, ?_⟩
    rw [div_lt_iff₀ hpositive]
    calc
      (numerator : ℚ) < 2 ^ ((numerator.log2 : ℤ) + 1) := hupper
      _ = 2 ^ (guess + 1) * 2 ^ (denominator.log2 : ℤ) := by
        rw [← zpow_add₀ two_ne_zero]
        congr 1
        omega
      _ ≤ 2 ^ (guess + 1) * denominator := by gcongr
  · rename_i htest
    rw [sub_add_cancel]
    refine ⟨?_, not_le.1 fun hle ↦ htest (hguess.2 hle)⟩
    rw [le_div_iff₀ hpositive]
    calc
      2 ^ (guess - 1) * (denominator : ℚ) ≤ 2 ^ (guess - 1) * 2 ^ ((denominator.log2 : ℤ) + 1) := by
        gcongr
      _ = 2 ^ (numerator.log2 : ℤ) := by
        rw [← zpow_add₀ two_ne_zero]
        congr 1
        omega
      _ ≤ numerator := hlower

/-- Twice the quotient lies within one of twice the rounded one, and a half goes to an even
neighbour. -/
theorem roundQuotient_spec (numerator : ℕ) {denominator : ℕ} (h : 0 < denominator) :
    (2 * (numerator / denominator : ℚ) ≤ 2 * roundQuotient numerator denominator + 1 ∧
      (2 * roundQuotient numerator denominator : ℚ) ≤ 2 * (numerator / denominator) + 1) ∧
    (2 * (numerator / denominator : ℚ) = 2 * roundQuotient numerator denominator + 1 ∨
      (2 * roundQuotient numerator denominator : ℚ) = 2 * (numerator / denominator) + 1 →
        Even (roundQuotient numerator denominator)) := by
  let whole := numerator / denominator
  let rest := numerator % denominator
  have hpositive : (0 : ℚ) < denominator := by exact_mod_cast h
  have hquotient : (numerator / denominator : ℚ) = whole + rest / denominator := by
    rw [div_eq_iff hpositive.ne', add_mul, div_mul_cancel₀ _ hpositive.ne']
    exact_mod_cast (Nat.div_add_mod' numerator denominator).symm
  have hnonneg : (0 : ℚ) ≤ rest / denominator := by positivity
  have hless : (rest / denominator : ℚ) < 1 := by
    rw [div_lt_one hpositive]
    exact_mod_cast Nat.mod_lt numerator h
  have hrounded : roundQuotient numerator denominator =
      if denominator < 2 * rest ∨ 2 * rest = denominator ∧ whole % 2 = 1 then whole + 1
      else whole := by
    simp [roundQuotient, whole, rest]
  rw [hquotient, hrounded]
  split
  · rename_i hup
    have hhalf : (1 : ℚ) ≤ 2 * (rest / denominator) := by
      rw [← mul_div_assoc, one_le_div hpositive]
      have hle : denominator ≤ 2 * rest := by omega
      exact_mod_cast hle
    push_cast
    refine ⟨⟨by linarith, by linarith⟩, ?_⟩
    rintro (htie | htie)
    · linarith
    · have hexact : (2 * rest : ℚ) = denominator := by
        have hone : 2 * (rest / denominator : ℚ) = 1 := by linarith
        rwa [← mul_div_assoc, div_eq_one_iff_eq hpositive.ne'] at hone
      have hexact : 2 * rest = denominator := by exact_mod_cast hexact
      exact Nat.even_add_one.2 (Nat.not_even_iff.2 (by omega))
  · rename_i hdown
    rw [not_or, not_and_or] at hdown
    have hhalf : 2 * (rest / denominator : ℚ) ≤ 1 := by
      rw [← mul_div_assoc, div_le_one hpositive]
      exact_mod_cast Nat.not_lt.1 hdown.1
    refine ⟨⟨by linarith, by linarith⟩, ?_⟩
    rintro (htie | htie)
    · have hexact : (2 * rest : ℚ) = denominator := by
        have hone : 2 * (rest / denominator : ℚ) = 1 := by linarith
        rwa [← mul_div_assoc, div_eq_one_iff_eq hpositive.ne'] at hone
      have hexact : 2 * rest = denominator := by exact_mod_cast hexact
      exact Nat.even_iff.2 (by omega)
    · linarith

theorem spacing_of_units {steps lower : ℕ} (hupper : lower < (steps + 2) * hiddenBit)
    (hlower : steps = 0 ∨ (steps + 1) * hiddenBit ≤ lower) :
    spacing lower = 2 ^ ((steps : ℤ) - 1074) := by
  have hpos : 0 < hiddenBit := by decide
  have hless := (Nat.div_lt_iff_lt_mul hpos).2 hupper
  have hle : steps = 0 ∨ steps + 1 ≤ lower / hiddenBit :=
    hlower.imp_right (Nat.le_div_iff_mul_le hpos).2
  have hsteps : lower / hiddenBit - 1 = steps := by omega
  rw [spacing, hsteps]

/-- Beyond the units of one size the distances are no smaller. -/
theorem le_spacing {steps bits : ℕ} (h : steps = 0 ∨ (steps + 1) * hiddenBit ≤ bits) :
    2 ^ ((steps : ℤ) - 1074) ≤ spacing bits := by
  have hpos : 0 < hiddenBit := by decide
  have hle : steps = 0 ∨ steps + 1 ≤ bits / hiddenBit :=
    h.imp_right (Nat.le_div_iff_mul_le hpos).2
  apply zpow_le_zpow_right₀ one_le_two
  omega

/-- Bits that count units of one size round a value, if the count rounds the value in units. -/
theorem rounds_units {value : ℚ} {steps units : ℕ} (hunits : units ≤ 2 * hiddenBit)
    (hnormal : steps = 0 ∨ hiddenBit ≤ units ∧ (hiddenBit : ℚ) ≤ value)
    (habove : 2 * value ≤ 2 * units + 1) (hbelow : 2 * units ≤ 2 * value + 1)
    (htie : 2 * value = 2 * units + 1 ∨ 2 * units = 2 * value + 1 → Even units) :
    Rounds (value * 2 ^ ((steps : ℤ) - 1074)) (steps * hiddenBit + units) := by
  let size : ℚ := 2 ^ ((steps : ℤ) - 1074)
  have hsize : 0 < size := by positivity
  have hbits : magnitude (steps * hiddenBit + units) = units * size :=
    magnitude_units hunits (hnormal.imp_right And.left)
  have heven (h : Even units) : Even (steps * hiddenBit + units) := by
    have hhidden : Even hiddenBit := by decide
    exact (hhidden.mul_left steps).add h
  have hnext : size ≤ spacing (steps * hiddenBit + units) := by
    apply le_spacing
    rw [Nat.succ_mul]
    omega
  have hscaled := mul_le_mul_of_nonneg_right habove hsize.le
  have hscaledBelow := mul_le_mul_of_nonneg_right hbelow hsize.le
  -- Below the first of the full units the distance is only half of theirs, but then the value is
  -- not below that unit.
  have hlower : ∀ lower, lower + 1 = steps * hiddenBit + units →
      magnitude lower + units * size ≤ 2 * (value * size) ∧
        (magnitude lower + units * size = 2 * (value * size) → 2 * units = 2 * value + 1) := by
    intro lower hlower
    have hprevious : magnitude lower + spacing lower = units * size := by
      rw [← magnitude_succ, hlower, hbits]
    by_cases hfull : steps = 0 ∨ hiddenBit < units
    · have hspacing : spacing lower = size := by
        apply spacing_of_units
        · rw [Nat.add_mul]
          omega
        · rw [Nat.succ_mul]
          omega
      rw [hspacing] at hprevious
      refine ⟨by linarith, fun hsame ↦ ?_⟩
      apply mul_right_cancel₀ hsize.ne'
      linarith
    · rw [not_or] at hfull
      obtain ⟨hle, hvalue⟩ := hnormal.resolve_left hfull.1
      obtain rfl : units = hiddenBit := by omega
      have hfirst := mul_le_mul_of_nonneg_right hvalue hsize.le
      have hspacing := spacing_pos lower
      exact ⟨by linarith, fun hsame ↦ by linarith⟩
  refine ⟨?_, ?_, ?_, ?_⟩
  · rw [magnitude_succ, hbits]
    linarith
  · rw [magnitude_succ, hbits]
    intro hsame
    apply heven (htie (.inl _))
    apply mul_right_cancel₀ hsize.ne'
    linarith
  · rw [hbits]
    exact fun lower h ↦ (hlower lower h).1
  · rw [hbits]
    exact fun lower h hsame ↦ heven (htie (.inr ((hlower lower h).2 hsame)))

/-- `nearestBits` rounds every quotient correctly. -/
theorem nearest_nearestBits (numerator : ℕ) {denominator : ℕ} (h : 0 < denominator) :
    Nearest (numerator / denominator) (nearestBits numerator denominator) := by
  rw [nearestBits]
  split
  · rename_i hzero
    rw [hzero, Nat.cast_zero, zero_div, ← magnitude_zero]
    exact nearest_magnitude (Nat.zero_le _)
  rename_i hnumerator
  let exponent := max (floorLog numerator denominator - 52) leastExponent
  let units := roundQuotient (numerator * powTwo (-exponent)) (denominator * powTwo exponent)
  change Nearest _ (min infinityBits ((exponent - leastExponent).toNat * hiddenBit + units))
  have hpower : (0 : ℚ) < 2 ^ exponent := by positivity
  have hleast : leastExponent ≤ exponent := le_max_right _ _
  obtain ⟨steps, hsteps⟩ := Int.eq_ofNat_of_zero_le (sub_nonneg.2 hleast)
  have hexponent : exponent = steps - 1074 := by
    rw [leastExponent] at hsteps
    omega
  let quotient : ℚ := numerator / denominator / 2 ^ exponent
  have hquotient : (↑(numerator * powTwo (-exponent)) / ↑(denominator * powTwo exponent) : ℚ) =
      quotient := by
    have hscale : (powTwo (-exponent) : ℚ) ≠ 0 := by exact_mod_cast (powTwo_pos _).ne'
    rw [Nat.cast_mul, Nat.cast_mul, powTwo_eq exponent, ← mul_assoc,
      mul_div_mul_right _ _ hscale, ← div_div]
  -- The exponent is such that the quotient has 53 bits, unless it is the least one.
  obtain ⟨hlog, hlogSucc⟩ := floorLog_spec (Nat.pos_of_ne_zero hnumerator) h
  have hless : quotient < 2 * hiddenBit := by
    rw [div_lt_iff₀ hpower]
    apply hlogSucc.trans_le
    calc
      (2 : ℚ) ^ (floorLog numerator denominator + 1) ≤ 2 ^ (53 + exponent) := by
        apply zpow_le_zpow_right₀ one_le_two
        have hmax : floorLog numerator denominator - 52 ≤ exponent := le_max_left _ _
        omega
      _ = 2 * hiddenBit * 2 ^ exponent := by
        rw [zpow_add₀ two_ne_zero]
        norm_num [hiddenBit]
  have hfull : steps = 0 ∨ (hiddenBit : ℚ) ≤ quotient := by
    by_cases hzero : exponent = leastExponent
    · exact .inl (by omega)
    right
    rw [le_div_iff₀ hpower]
    refine le_trans ?_ hlog
    have hmax : exponent = floorLog numerator denominator - 52 :=
      (max_choice _ _).resolve_right hzero
    calc
      (hiddenBit : ℚ) * 2 ^ exponent = 2 ^ (52 + exponent) := by
        rw [zpow_add₀ two_ne_zero]
        norm_num [hiddenBit]
      _ ≤ 2 ^ floorLog numerator denominator := by
        rw [hmax, add_sub_cancel]
  obtain ⟨⟨habove, hbelow⟩, htie⟩ := roundQuotient_spec (numerator * powTwo (-exponent))
    (Nat.mul_pos h (powTwo_pos exponent))
  rw [hquotient] at habove hbelow htie
  have hunits : units ≤ 2 * hiddenBit := by
    have hcast : (2 * units : ℚ) < 2 * (2 * hiddenBit) + 1 := by linarith
    have hnat : 2 * units < 2 * (2 * hiddenBit) + 1 := by exact_mod_cast hcast
    omega
  have hnormal : steps = 0 ∨ hiddenBit ≤ units ∧ (hiddenBit : ℚ) ≤ quotient := by
    refine hfull.imp_right fun hle ↦ ⟨?_, hle⟩
    have hcast : (2 * hiddenBit : ℚ) ≤ 2 * units + 1 := by linarith
    have hnat : 2 * hiddenBit ≤ 2 * units + 1 := by exact_mod_cast hcast
    omega
  have hrounds := rounds_units hunits hnormal habove hbelow htie
  rw [← hexponent, div_mul_cancel₀ _ hpower.ne'] at hrounds
  rw [hsteps]
  exact hrounds.nearest

end Scriptlet.Number
