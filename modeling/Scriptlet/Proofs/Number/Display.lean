import Scriptlet.Proofs.Number.Coercion
import Scriptlet.Proofs.Number.Written

/-!
# Printed numbers

A finite number other than zero is printed as a numeral that rounds to it: with all its digits if
it is integral and below `10 ^ 21`, with an exponent from there on, and with a point otherwise. So
every printed number, taken as a string, stands for the same number again, up to the sign of zero,
and two numbers are printed alike exactly if they compare as equal.
-/

namespace Scriptlet.Number

/-! ## The bound for exponents -/

/-- The magnitude bits of `10 ^ 21`. -/
def exponentBits : ℕ := 0x444B1AE4D6E2EF50

theorem magnitude_exponentBits : magnitude exponentBits = 10 ^ 21 := by
  have hnormal : ¬exponentBits < hiddenBit := by decide
  have hmantissa : hiddenBit + exponentBits % hiddenBit = 7629394531250000 := by decide
  have hexponent : exponentBits / hiddenBit = 1092 := by decide
  rw [magnitude, if_neg hnormal, hmantissa, hexponent]
  norm_num

/-- The shortest decimal for `10 ^ 21` is that number itself. -/
theorem shortest_exponentBits (tie : Tie) :
    Decimal.shortest tie exponentBits (.ofBinary 7629394531250000 17) = ⟨1, 21⟩ := by
  cases tie with
  | away => decide +kernel
  | toEven => decide +kernel

/-! ## Numerals of numbers -/

/-- The sign of a printed number; that it is positive is not marked. -/
def signMark (negative : Bool) : SignMark := if negative then .minus else .absent

/-- The numeral of a number that is finite and not zero: it rounds to the number, has an exponent
from `10 ^ 21` on, and below that all the digits of a whole number. -/
structure Prints (numeral : Numeral) (x : Float) : Prop where
  sign_eq : numeral.sign = signMark (isNegative x)
  nearest : Nearest numeral.size (magnitudeBits x)
  exponent_iff : numeral.exponent = none ↔ magnitude (magnitudeBits x) < 10 ^ 21
  integral : ∀ n : ℕ, n < 10 ^ 21 → magnitude (magnitudeBits x) = n →
    numeral.whole = Nat.toDigits 10 n ∧ numeral.fraction = none

theorem isNegative_signMark (negative : Bool) : (signMark negative).isNegative = negative := by
  cases negative with
  | false => rfl
  | true => rfl

theorem value_mul_unit (mantissa : ℕ) (exponent : ℤ) :
    (Decimal.ofBinary mantissa exponent).value *
        powTen (-(Decimal.ofBinary mantissa exponent).exponent) =
      (Decimal.ofBinary mantissa exponent).significand := by
  have hexponent : (Decimal.ofBinary mantissa exponent).exponent ≤ 0 := by
    unfold Decimal.ofBinary
    split
    · exact le_rfl
    · rename_i hnegative
      exact (not_le.1 hnegative).le
  have hone : powTen (Decimal.ofBinary mantissa exponent).exponent = 1 := by
    rw [powTen, Int.toNat_of_nonpos hexponent]
  rw [Decimal.value, mul_assoc, ← powTen_eq, hone, Nat.cast_one, mul_one]

/-- A quotient is a natural number if there is no remainder. -/
theorem eq_natCast_iff {value : ℚ} {significand unit : ℕ} (hunit : 0 < unit)
    (h : value * unit = significand) (n : ℕ) :
    value = n ↔ significand % unit = 0 ∧ significand / unit = n := by
  have hcast : (unit : ℚ) ≠ 0 := by exact_mod_cast hunit.ne'
  have hproduct : value = n ↔ significand = n * unit := by
    rw [← mul_left_inj' hcast, h]
    exact_mod_cast Iff.rfl
  rw [hproduct]
  constructor
  · rintro rfl
    exact ⟨Nat.mul_mod_left n unit, Nat.mul_div_cancel n hunit⟩
  · rintro ⟨hremainder, rfl⟩
    exact (Nat.div_mul_cancel (Nat.dvd_of_mod_eq_zero hremainder)).symm

theorem toList_display {x : Float} {negative : Bool} {mantissa : ℕ} {exponent : ℤ}
    (hparts : parts x = .finite negative mantissa exponent) (hmantissa : mantissa ≠ 0) :
    let value := Decimal.ofBinary mantissa exponent
    let unit := powTen (-value.exponent)
    let whole := value.significand / unit
    (display x).toList = (signMark negative).text ++
      (if value.significand % unit = 0 && whole < powTen 21 then toString whole
        else displayFormat.write (value.shortest .away (magnitudeBits x))).toList := by
  intro value unit whole
  rw [display, hparts]
  dsimp only
  rw [if_neg hmantissa, String.toList_append]
  congr 1
  cases negative with
  | false => rfl
  | true => rfl

theorem le_of_nearest {value : ℚ} {bits : ℕ} (h : Nearest value bits) (hpos : 0 < bits) :
    10 ^ (-400 : ℤ) ≤ value := by
  by_contra hless
  have htiny : 2 * value ≤ magnitude 1 := by
    calc
      2 * value ≤ 2 * 10 ^ (-400 : ℤ) := by linarith [not_le.1 hless]
      _ ≤ 2 * 10 ^ (-330 : ℤ) := by
        gcongr
        · norm_num
        · norm_num
      _ ≤ magnitude 1 := le_magnitude_one
  exact hpos.ne (Nearest.unique (Decimal.nearest_zero htiny) h)

theorem Decimal.significand_pos {decimal : Decimal} (h : 10 ^ (-400 : ℤ) ≤ decimal.value) :
    0 < decimal.significand := by
  rw [Nat.pos_iff_ne_zero]
  intro hzero
  rw [Decimal.value, hzero, Nat.cast_zero, zero_mul] at h
  exact absurd h (not_le.2 (by positivity))

theorem lt_iff_of_nearest {value : ℚ} {bits : ℕ} (h : Nearest value bits)
    (hne : bits ≠ exponentBits) : value < 10 ^ 21 ↔ magnitude bits < 10 ^ 21 := by
  have hbounded : exponentBits ≤ infinityBits := by decide
  rw [← magnitude_exponentBits]
  constructor
  · intro hless
    have hle : bits ≤ exponentBits := h.le_of_le_magnitude hbounded hless.le
    exact magnitude_strictMono (lt_of_le_of_ne hle hne)
  · intro hless
    by_contra hle
    have hge : exponentBits ≤ bits := h.le_of_magnitude_le hbounded (not_lt.1 hle)
    exact absurd (magnitude_strictMono.monotone hge) (not_le.2 hless)

section

variable {negative : Bool} {bits mantissa : ℕ} {exponent : ℤ}
  (hparts : partsOf negative bits = .finite negative mantissa exponent)
  (hmagnitude : mantissa * 2 ^ exponent = magnitude bits)

include hmagnitude

theorem nearest_shortest (hfinite : bits ≤ infinityBits) (tie : Tie) :
    Nearest ((Decimal.ofBinary mantissa exponent).shortest tie bits).value bits := by
  have hvalue : Nearest (Decimal.ofBinary mantissa exponent).value bits := by
    rw [Decimal.value_ofBinary, hmagnitude]
    exact nearest_magnitude hfinite
  have hbits : (Decimal.ofBinary mantissa exponent).bits = bits :=
    (Decimal.nearest_bits _).unique hvalue
  have hshortest := Decimal.nearest_bits ((Decimal.ofBinary mantissa exponent).shortest tie bits)
  rwa [Decimal.bits_shortest tie hbits] at hshortest

include hparts

theorem shortest_lt_iff (hfinite : bits ≤ infinityBits) (tie : Tie) :
    ((Decimal.ofBinary mantissa exponent).shortest tie bits).value < 10 ^ 21 ↔
      magnitude bits < 10 ^ 21 := by
  by_cases hbits : bits = exponentBits
  · subst hbits
    have hparts' : partsOf negative exponentBits = .finite negative 7629394531250000 17 := rfl
    rw [hparts'] at hparts
    cases hparts
    rw [shortest_exponentBits, magnitude_exponentBits, Decimal.value]
    norm_num
  · exact lt_iff_of_nearest (nearest_shortest hmagnitude hfinite tie) hbits

end

theorem exists_whole (sign : SignMark) (n : ℕ) :
    ∃ numeral : Numeral, Spells numeral sign (toString n) n ∧ numeral.exponent = none ∧
      numeral.whole = Nat.toDigits 10 n ∧ numeral.fraction = none := by
  let numeral : Numeral :=
    { sign, whole := Nat.toDigits 10 n, fraction := none, exponent := none,
      isDigit_whole := fun _ hc ↦ Nat.isDigit_of_mem_toDigits (by decide) (by decide) hc,
      isDigit_fraction := nofun,
      digits_ne_nil := by simp [Nat.toDigits_ne_nil] }
  refine ⟨numeral, ⟨rfl, ?_, ?_⟩, rfl, rfl, rfl⟩
  · rw [Nat.toString_eq_ofList_toDigits, String.toList_ofList]
    simp [numeral, Numeral.unsigned, Numeral.pointed, Numeral.tail]
  · simp [numeral, Numeral.size, Numeral.power, Text.ofDigits_toDigits]

section

variable {x : Float} (hfinite : magnitudeBits x < infinityBits)

include hfinite

/-- A whole number below `10 ^ 21` has all its digits. -/
theorem exists_prints_whole {n : ℕ} (hn : magnitude (magnitudeBits x) = n) (hless : n < 10 ^ 21) :
    ∃ numeral : Numeral, Prints numeral x ∧
      numeral.text = (signMark (isNegative x)).text ++ (toString n).toList := by
  obtain ⟨numeral, hspells, hexponent, hdigits, hfraction⟩ :=
    exists_whole (signMark (isNegative x)) n
  have hprints : Prints numeral x :=
    { sign_eq := hspells.sign_eq
      nearest := by
        rw [hspells.size_eq, ← hn]
        exact nearest_magnitude hfinite.le
      exponent_iff := by
        rw [hn]
        exact iff_of_true hexponent (by exact_mod_cast hless)
      integral := by
        intro other _ hother
        have hsame : n = other := by exact_mod_cast hn.symm.trans hother
        exact ⟨hsame ▸ hdigits, hfraction⟩ }
  exact ⟨numeral, hprints, hspells.text_eq⟩

variable (hpos : 0 < magnitudeBits x)

include hpos

/-- All other numbers have the fewest digits that are enough. -/
theorem exists_prints_shortest {mantissa : ℕ} {exponent : ℤ}
    (hparts : partsOf (isNegative x) (magnitudeBits x) = .finite (isNegative x) mantissa exponent)
    (hmagnitude : mantissa * 2 ^ exponent = magnitude (magnitudeBits x))
    (hwhole : ∀ n : ℕ, n < 10 ^ 21 → magnitude (magnitudeBits x) ≠ n) :
    ∃ numeral : Numeral, Prints numeral x ∧
      numeral.text = (signMark (isNegative x)).text ++ (displayFormat.write
        ((Decimal.ofBinary mantissa exponent).shortest .away (magnitudeBits x))).toList := by
  have hnearest := nearest_shortest hmagnitude hfinite.le .away
  have hvalue := le_of_nearest hnearest hpos
  obtain ⟨numeral, hspells, hexponent⟩ :=
    exists_write (signMark (isNegative x)) (Decimal.significand_pos hvalue)
  have hprints : Prints numeral x :=
    { sign_eq := hspells.sign_eq
      nearest := by
        rw [hspells.size_eq]
        exact hnearest
      exponent_iff := by
        rw [hexponent, ← shortest_lt_iff hparts hmagnitude hfinite.le .away]
        exact and_iff_right hvalue
      integral := fun n hless hn ↦ absurd hn (hwhole n hless) }
  exact ⟨numeral, hprints, hspells.text_eq⟩

theorem exists_display :
    ∃ numeral : Numeral, Prints numeral x ∧ (display x).toList = numeral.text := by
  obtain ⟨mantissa, exponent, hparts, hmagnitude⟩ := exists_partsOf (isNegative x) hfinite
  have hmantissa : mantissa ≠ 0 := by
    have hpositive : magnitude 0 < magnitude (magnitudeBits x) := magnitude_strictMono hpos
    intro hzero
    rw [← hmagnitude, hzero, Nat.cast_zero, zero_mul, magnitude_zero] at hpositive
    exact lt_irrefl 0 hpositive
  -- The text depends on whether the number is whole, and that on the remainder of the decimal.
  have hquotient := value_mul_unit mantissa exponent
  rw [Decimal.value_ofBinary, hmagnitude] at hquotient
  have hwhole := eq_natCast_iff (powTen_pos _) hquotient
  have hdisplay := toList_display ((parts_eq_partsOf x).trans hparts) hmantissa
  dsimp only at hdisplay
  split at hdisplay
  · rename_i hintegral
    rw [Bool.and_eq_true, decide_eq_true_eq, decide_eq_true_eq] at hintegral
    obtain ⟨hremainder, hless⟩ := hintegral
    obtain ⟨numeral, hprints, htext⟩ :=
      exists_prints_whole hfinite ((hwhole _).2 ⟨hremainder, rfl⟩) hless
    exact ⟨numeral, hprints, hdisplay.trans htext.symm⟩
  · rename_i hintegral
    rw [Bool.and_eq_true, decide_eq_true_eq, decide_eq_true_eq] at hintegral
    have hnone : ∀ n : ℕ, n < 10 ^ 21 → magnitude (magnitudeBits x) ≠ n := by
      intro n hless hn
      obtain ⟨hremainder, hsame⟩ := (hwhole n).1 hn
      exact hintegral ⟨hremainder, hsame ▸ hless⟩
    obtain ⟨numeral, hprints, htext⟩ :=
      exists_prints_shortest hfinite hpos hparts hmagnitude hnone
    exact ⟨numeral, hprints, hdisplay.trans htext.symm⟩

end

/-! ## Reading printed numbers -/

theorem isBlank_sign (sign : SignMark) : ∀ c ∈ sign.text, Text.isBlank c = false := by
  cases sign with
  | absent => exact List.forall_mem_nil _
  | plus => exact List.forall_mem_singleton.2 (by decide)
  | minus => exact List.forall_mem_singleton.2 (by decide)

theorem isBlank_text (numeral : Numeral) : ∀ c ∈ numeral.text, Text.isBlank c = false := by
  have hdigits {digits : List Char} (h : ∀ c ∈ digits, c.isDigit = true) :
      ∀ c ∈ digits, Text.isBlank c = false := fun c hc ↦ Tiling.isBlank_of_isDigit (h c hc)
  have hpointed : ∀ c ∈ numeral.pointed, Text.isBlank c = false := by
    have hfraction := hdigits numeral.isDigit_fraction
    rw [Numeral.pointed]
    generalize numeral.fraction = fraction at hfraction ⊢
    cases fraction with
    | none => exact List.forall_mem_nil _
    | some digits => exact List.forall_mem_cons.2 ⟨by decide, hfraction⟩
  have htail : ∀ c ∈ numeral.tail, Text.isBlank c = false := by
    rw [Numeral.tail]
    cases numeral.exponent with
    | none => exact List.forall_mem_nil _
    | some part =>
      refine List.forall_mem_cons.2 ⟨?_, List.forall_mem_append.2
        ⟨isBlank_sign _, hdigits part.isDigit⟩⟩
      rcases part.mark_eq with hmark | hmark
      · rw [hmark]
        decide
      · rw [hmark]
        decide
  exact List.forall_mem_append.2 ⟨isBlank_sign _, List.forall_mem_append.2
    ⟨hdigits numeral.isDigit_whole, List.forall_mem_append.2 ⟨hpointed, htail⟩⟩⟩

theorem display_nan {x : Float} (h : x.isNaN = true) : display x = "NaN" := by
  rw [display, (isNaN_iff x).1 h]

theorem display_zero {x : Float} (h : magnitudeBits x = 0) : display x = "0" := by
  rw [display, parts_eq_partsOf, h]
  rfl

theorem display_infinite {x : Float} (h : magnitudeBits x = infinityBits) :
    (display x).toList = (signMark (isNegative x)).text ++ "Infinity".toList := by
  rw [display, parts_eq_partsOf, h, partsOf_infinityBits]
  cases isNegative x with
  | false => rfl
  | true => rfl

end Scriptlet.Number

namespace Scriptlet.Scalar

open Number

theorem toNumber_of_read?_toList {s : String} {x : Float}
    (hblank : ∀ c ∈ s.toList, Text.isBlank c = false) (h : read? s.toList = some x) :
    toNumber (.string s) = x := by
  apply toNumber_of_read?
  rw [Text.trim_eq_self hblank, h]

/-- A printed number stands for itself, only that zero has lost its sign. -/
theorem toNumber_display {x : Float} (h : x.isNaN = false) :
    toNumber (.string (Number.display x)) = if magnitudeBits x = 0 then 0 else x := by
  have hx := ofMagnitude_magnitudeBits h
  split
  · rename_i hzero
    rw [display_zero hzero]
    rfl
  rename_i hzero
  rcases Nat.eq_or_lt_of_le (magnitudeBits_le h) with hinfinite | hfinite
  · have htext := display_infinite hinfinite
    apply toNumber_of_read?_toList
    · have hword : "Infinity".toList.any Text.isBlank = false := by decide
      rw [htext]
      exact List.forall_mem_append.2 ⟨isBlank_sign _,
        fun c hc ↦ Bool.eq_false_iff.2 (List.any_eq_false.1 hword c hc)⟩
    · rw [htext, read?_infinityWord _ (Or.inr (by decide)), isNegative_signMark, ← hinfinite, hx]
  · obtain ⟨numeral, hprints, htext⟩ := exists_display hfinite (Nat.pos_of_ne_zero hzero)
    obtain ⟨bits, hnearest, hread⟩ := read?_text numeral
    apply toNumber_of_read?_toList
    · rw [htext]
      exact isBlank_text numeral
    · rw [htext, hread, hnearest.unique hprints.nearest, Numeral.isNegative, hprints.sign_eq,
        isNegative_signMark, hx]

theorem toNumber_display_beq {x : Float} (h : x.isNaN = false) :
    (toNumber (.string (Number.display x)) == x) = true := by
  rw [toNumber_display h]
  split
  · rename_i hzero
    rw [beq_iff (by decide) h]
    exact Or.inr ⟨by decide, hzero⟩
  · rw [beq_iff h h]
    exact Or.inl rfl

theorem display_eq_iff {x y : Float} (hx : x.isNaN = false) (hy : y.isNaN = false) :
    Number.display x = Number.display y ↔ (x == y) = true := by
  rw [beq_iff hx hy]
  constructor
  · intro hdisplay
    have hback := congrArg (toNumber ∘ string) hdisplay
    simp only [Function.comp_apply, toNumber_display hx, toNumber_display hy] at hback
    have hnotZero {z : Float} (hz : ¬magnitudeBits z = 0) : 0 ≠ z := fun h ↦ hz (h ▸ by decide)
    split at hback
    · rename_i hzero
      split at hback
      · rename_i hzero'
        exact Or.inr ⟨hzero, hzero'⟩
      · rename_i hzero'
        exact absurd hback (hnotZero hzero')
    · rename_i hzero
      split at hback
      · exact absurd hback.symm (hnotZero hzero)
      · exact Or.inl hback
  · rintro (rfl | ⟨hzero, hzero'⟩)
    · rfl
    · rw [display_zero hzero, display_zero hzero']

/-- Printing a number loses nothing: what is printed stands for the same number, and only numbers
that compare as equal are printed alike. -/
theorem display_lossless (x : Float) :
    (x.isNaN = true → (toNumber (.string (display (.number x)))).isNaN = true) ∧
    (x.isNaN = false → (toNumber (.string (display (.number x))) == x) = true) ∧
    (magnitudeBits x = 0 → display (.number x) = "0") ∧
    (magnitudeBits x < infinityBits → 0 < magnitudeBits x →
      ∃ numeral : Numeral, Prints numeral x ∧ (display (.number x)).toList = numeral.text) ∧
    ∀ y : Float, x.isNaN = false → y.isNaN = false →
      (display (.number x) = display (.number y) ↔ (x == y) = true) := by
  refine ⟨?_, toNumber_display_beq, display_zero, exists_display, fun y ↦ display_eq_iff⟩
  intro hnan
  rw [display, display_nan hnan]
  decide

/-- A tenth has no finite binary expansion and comes back all the same. -/
theorem display_lossless_tenth :
    (ofMagnitude false 0x3FB999999999999A).isNaN = false ∧
      (toNumber (.string (display (.number (ofMagnitude false 0x3FB999999999999A)))) ==
        ofMagnitude false 0x3FB999999999999A) = true :=
  ⟨by decide, (display_lossless _).2.1 (by decide)⟩

end Scriptlet.Scalar
