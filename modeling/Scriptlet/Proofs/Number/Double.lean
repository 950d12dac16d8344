import Mathlib
import Scriptlet.Number.Arithmetic
import Scriptlet.Proofs.Number.Nearest

/-!
# Doubles by sign and magnitude

A double that is a number has a sign and magnitude bits, and is the double with that sign and those
bits. Two of them compare equal if they are the same or both zero, and subtraction from zero turns
the sign of all but zero. All of this is read off the words that doubles are packed into.
-/

namespace Scriptlet.Number

open Float.Model (UnpackedFloat)
open Float.Model.UnpackedFloat (Sign packComponents unpackSign unpackExponent unpackMantissa)

/-! ## Words -/

/-- The bits of a double. -/
abbrev Word := BitVec Float.Model.Format.binary64.numBits

/-- The word with the given sign and magnitude bits. -/
def wordOf (negative : Bool) (bits : ℕ) : Word :=
  BitVec.ofNat _ (if negative then signBit + bits else bits)

/-- A double with the given sign and magnitude bits, taken apart. -/
def partsOf (negative : Bool) (bits : ℕ) : Parts :=
  if bits / hiddenBit = 2047 then
    if bits % hiddenBit = 0 then .infinite negative else .nan
  else if bits / hiddenBit = 0 then .finite negative (bits % hiddenBit) leastExponent
  else .finite negative (hiddenBit + bits % hiddenBit) ((bits / hiddenBit : ℕ) - 1075)

theorem parts_eq_partsOf (x : Float) : parts x = partsOf (isNegative x) (magnitudeBits x) := rfl

def signOf (negative : Bool) : Sign := if negative then .negative else .positive

/-- The parts of a double in the form that arithmetic works on. -/
def Parts.unpacked : Parts → UnpackedFloat
  | nan => .notANumber
  | infinite negative => .infinity (signOf negative)
  | finite negative mantissa exponent =>
    if h : mantissa = 0 then .zero (signOf negative)
    else .finite (signOf negative) mantissa exponent (Nat.pos_of_ne_zero h)

theorem toNat_unpackMantissa (word : Word) :
    (unpackMantissa word).toNat = word.toNat % signBit % hiddenBit := by
  have hword : word.toNat < 2 ^ 64 := word.isLt
  simp only [unpackMantissa, BitVec.toNat_cast, BitVec.extractLsb_toNat, Nat.shiftRight_zero,
    signBit, hiddenBit]
  omega

theorem toNat_unpackExponent (word : Word) :
    (unpackExponent word).toNat = word.toNat % signBit / hiddenBit := by
  have hword : word.toNat < 2 ^ 64 := word.isLt
  simp only [unpackExponent, BitVec.toNat_cast, BitVec.extractLsb_toNat,
    Nat.shiftRight_eq_div_pow, signBit, hiddenBit]
  omega

theorem toNat_unpackSign (word : Word) : (unpackSign word).toNat = word.toNat / signBit := by
  have hword : word.toNat < 2 ^ 64 := word.isLt
  simp only [unpackSign, BitVec.toNat_cast, BitVec.extractLsb_toNat,
    Nat.shiftRight_eq_div_pow, signBit]
  omega

theorem toNat_packComponents (sign : Sign) (exponent : BitVec 11) (mantissa : BitVec 52) :
    (packComponents .binary64 sign exponent mantissa).toNat =
      sign.toBitVec.toNat * signBit + exponent.toNat * hiddenBit + mantissa.toNat := by
  simp only [packComponents, signBit, hiddenBit]
  rw [BitVec.toNat_append, BitVec.toNat_append, ← Nat.shiftLeft_add_eq_or_of_lt mantissa.isLt,
    ← Nat.shiftLeft_add_eq_or_of_lt exponent.isLt, Nat.shiftLeft_eq, Nat.shiftLeft_eq]
  omega

theorem toNat_hidden (mantissa : BitVec 52) :
    (1#1 ++ mantissa).toNat = hiddenBit + mantissa.toNat := by
  rw [BitVec.toNat_append, ← Nat.shiftLeft_add_eq_or_of_lt mantissa.isLt]
  rfl

theorem ofBitVec_unpackSign (word : Word) :
    Sign.ofBitVec (unpackSign word) = signOf (decide (signBit ≤ word.toNat)) := by
  have hpos : signBit ≠ 0 := by decide
  have hzero : unpackSign word = 0#1 ↔ word.toNat < signBit := by
    rw [← BitVec.toNat_inj, toNat_unpackSign, BitVec.toNat_zero, Nat.div_eq_zero_iff]
    exact or_iff_right hpos
  rw [Sign.ofBitVec, signOf]
  by_cases hnegative : signBit ≤ word.toNat
  · rw [if_neg (by rw [hzero]; omega), if_pos (by simpa using hnegative)]
  · rw [if_pos (by rw [hzero]; omega), if_neg (by simpa using hnegative)]

theorem unpack_eq (word : Word) :
    UnpackedFloat.unpack .binary64 word =
      (partsOf (decide (signBit ≤ word.toNat)) (word.toNat % signBit)).unpacked := by
  have hones : unpackExponent word = -1#11 ↔ word.toNat % signBit / hiddenBit = 2047 := by
    rw [← BitVec.toNat_inj, toNat_unpackExponent]
    rfl
  have hnone : unpackExponent word = 0#11 ↔ word.toNat % signBit / hiddenBit = 0 := by
    rw [← BitVec.toNat_inj, toNat_unpackExponent]
    rfl
  have hzero : unpackMantissa word = 0#52 ↔ word.toNat % signBit % hiddenBit = 0 := by
    rw [← BitVec.toNat_inj, toNat_unpackMantissa]
    rfl
  have hbias : ((Float.Model.Format.binary64.exponentBias : ℕ) : ℤ) = 1023 := rfl
  unfold UnpackedFloat.unpack partsOf
  simp only [ofBitVec_unpackSign, hones, hnone, hzero, toNat_hidden, toNat_unpackMantissa,
    toNat_unpackExponent, hbias]
  split
  · split <;> rfl
  rw [apply_ite Parts.unpacked]
  split
  · rename_i hfield
    rw [Parts.unpacked, hfield]
    rfl
  · have hnormal : hiddenBit + word.toNat % signBit % hiddenBit ≠ 0 := by
      simp only [hiddenBit]
      omega
    rw [Parts.unpacked, dif_neg hnormal]
    rfl

theorem toNat_wordOf (negative : Bool) {bits : ℕ} (h : bits < signBit) :
    (wordOf negative bits).toNat = if negative then signBit + bits else bits := by
  rw [wordOf, BitVec.toNat_ofNat]
  apply Nat.mod_eq_of_lt
  change _ < 2 * signBit
  split <;> omega

theorem unpack_wordOf (negative : Bool) {bits : ℕ} (h : bits < signBit) :
    UnpackedFloat.unpack .binary64 (wordOf negative bits) = (partsOf negative bits).unpacked := by
  rw [unpack_eq, toNat_wordOf negative h]
  cases negative with
  | false => simp [h.not_ge, Nat.mod_eq_of_lt h]
  | true => simp [Nat.mod_eq_of_lt h]

theorem packComponents_eq (negative : Bool) {bits : ℕ} (h : bits < signBit) :
    packComponents .binary64 (signOf negative) (BitVec.ofNat 11 (bits / hiddenBit))
      (BitVec.ofNat 52 (bits % hiddenBit)) = wordOf negative bits := by
  have hsign : (signOf negative).toBitVec.toNat = if negative then 1 else 0 := by
    cases negative <;> rfl
  apply BitVec.eq_of_toNat_eq
  rw [toNat_packComponents, toNat_wordOf _ h, BitVec.toNat_ofNat, BitVec.toNat_ofNat, hsign]
  simp only [signBit, hiddenBit] at h ⊢
  split <;> omega

/-- Infinity and all below it are packed into their words. -/
theorem pack_partsOf (negative : Bool) {bits : ℕ} (h : bits ≤ infinityBits) :
    UnpackedFloat.pack .binary64 (partsOf negative bits).unpacked = wordOf negative bits := by
  have hpos : 0 < hiddenBit := by decide
  have hmod := Nat.mod_lt bits hpos
  have hbias : ((Float.Model.Format.binary64.exponentBias : ℕ) : ℤ) = 1023 := rfl
  have hbiased (field : ℕ) : ((field : ℤ) - 1075 + 1023 + 52).toNat = field := by omega
  rw [← packComponents_eq negative (h.trans_lt (by decide))]
  unfold partsOf
  split
  · rename_i hfield
    have hzero : bits % hiddenBit = 0 := by
      simp only [hiddenBit, infinityBits] at h hfield ⊢
      omega
    rw [if_pos hzero, hfield, hzero]
    rfl
  split
  · rename_i hfield
    rw [Parts.unpacked, hfield]
    split
    · rename_i hzero
      rw [hzero]
      rfl
    · rename_i hnonzero
      have hlog : (bits % hiddenBit).log2 < 52 := (Nat.log2_lt hnonzero).2 hmod
      have hsubnormal : (bits % hiddenBit).log2 + 1 ≠ 53 := by omega
      rw [UnpackedFloat.pack]
      exact (if_neg (by decide)).trans (if_neg hsubnormal)
  · rename_i hones _
    have hlog : (hiddenBit + bits % hiddenBit).log2 = 52 := by
      apply (Nat.log2_eq_iff (by omega)).2
      simp only [hiddenBit] at hmod ⊢
      omega
    have hnormal : (hiddenBit + bits % hiddenBit).log2 + 1 = 53 := by rw [hlog]
    have hfinite : ¬2 ^ 11 ≤ bits / hiddenBit + 1 := by
      simp only [hiddenBit, infinityBits] at h hones ⊢
      omega
    have hmantissa : BitVec.ofNat 52 (hiddenBit + bits % hiddenBit) =
        BitVec.ofNat 52 (bits % hiddenBit) := by
      apply BitVec.eq_of_toNat_eq
      rw [BitVec.toNat_ofNat, BitVec.toNat_ofNat]
      exact Nat.add_mod_left _ _
    rw [Parts.unpacked, dif_neg (by omega), UnpackedFloat.pack, ← hmantissa]
    simp only [hbias, Nat.cast_ofNat, hbiased]
    exact (if_neg hfinite).trans (if_pos hnormal)

/-! ## Doubles -/

/-- A double is what its word says. -/
theorem toModel_unpack (x : Float) : x.toModel.unpack = (parts x).unpacked := by
  rw [Float.Model.unpack, unpack_eq]
  rfl

theorem eq_of_toBitVec_eq {x y : Float} (h : x.toBits.toBitVec = y.toBits.toBitVec) : x = y := by
  obtain ⟨⟨⟨word⟩, hword⟩⟩ := x
  obtain ⟨⟨⟨other⟩, hother⟩⟩ := y
  cases h
  rfl

section OfMagnitude

variable (negative : Bool) {bits : ℕ} (h : bits ≤ infinityBits)
include h

theorem toBitVec_ofMagnitude :
    (ofMagnitude negative bits).toBits.toBitVec = wordOf negative bits := by
  calc
    (ofMagnitude negative bits).toBits.toBitVec =
        UnpackedFloat.pack .binary64 (UnpackedFloat.unpack .binary64 (wordOf negative bits)) := rfl
    _ = wordOf negative bits := by
      rw [unpack_wordOf negative (h.trans_lt (by decide)), pack_partsOf negative h]

theorem toNat_ofMagnitude :
    (ofMagnitude negative bits).toBits.toNat = if negative then signBit + bits else bits := by
  rw [← toNat_wordOf negative (h.trans_lt (by decide)), ← toBitVec_ofMagnitude negative h]
  rfl

@[simp] theorem magnitudeBits_ofMagnitude : magnitudeBits (ofMagnitude negative bits) = bits := by
  have hless : bits < signBit := h.trans_lt (by decide)
  rw [magnitudeBits, toNat_ofMagnitude negative h]
  cases negative with
  | false => exact Nat.mod_eq_of_lt hless
  | true => exact (Nat.add_mod_left _ _).trans (Nat.mod_eq_of_lt hless)

@[simp] theorem isNegative_ofMagnitude : isNegative (ofMagnitude negative bits) = negative := by
  have hless : bits < signBit := h.trans_lt (by decide)
  rw [isNegative, toNat_ofMagnitude negative h]
  cases negative with
  | false => exact decide_eq_false hless.not_ge
  | true => exact decide_eq_true (Nat.le_add_right _ _)

theorem parts_ofMagnitude : parts (ofMagnitude negative bits) = partsOf negative bits := by
  rw [parts_eq_partsOf, magnitudeBits_ofMagnitude negative h, isNegative_ofMagnitude negative h]

end OfMagnitude

theorem partsOf_infinityBits (negative : Bool) :
    partsOf negative infinityBits = .infinite negative := rfl

/-- Below infinity the parts give the magnitude. -/
theorem exists_partsOf (negative : Bool) {bits : ℕ} (h : bits < infinityBits) :
    ∃ mantissa exponent, partsOf negative bits = .finite negative mantissa exponent ∧
      mantissa * 2 ^ exponent = magnitude bits := by
  have hpos : 0 < hiddenBit := by decide
  have hfield : bits / hiddenBit < 2047 := (Nat.div_lt_iff_lt_mul hpos).2 h
  rw [partsOf, if_neg hfield.ne]
  split
  · rename_i hzero
    have hsmall : bits < hiddenBit := (Nat.div_eq_zero_iff_lt hpos).1 hzero
    refine ⟨_, _, rfl, ?_⟩
    rw [magnitude, if_pos hsmall, Nat.mod_eq_of_lt hsmall]
    rfl
  · rename_i hnonzero
    have hlarge : ¬bits < hiddenBit := fun hsmall ↦ hnonzero (Nat.div_eq_of_lt hsmall)
    refine ⟨_, _, rfl, ?_⟩
    rw [magnitude, if_neg hlarge]

theorem partsOf_of_infinityBits_lt (negative : Bool) {bits : ℕ} (h : infinityBits < bits)
    (hbits : bits < signBit) : partsOf negative bits = .nan := by
  simp only [infinityBits, hiddenBit, signBit] at h hbits
  rw [partsOf, hiddenBit, if_pos (by omega), if_neg (by omega)]

theorem partsOf_eq_nan_iff (negative : Bool) {bits : ℕ} (h : bits < signBit) :
    partsOf negative bits = .nan ↔ infinityBits < bits := by
  constructor
  · intro hnan
    by_contra hle
    rcases Nat.eq_or_lt_of_le (Nat.le_of_not_lt hle) with rfl | hless
    · cases hnan
    · obtain ⟨mantissa, exponent, hfinite, -⟩ := exists_partsOf negative hless
      rw [hfinite] at hnan
      cases hnan
  · exact fun hless ↦ partsOf_of_infinityBits_lt negative hless h

theorem isNaN_iff (x : Float) : x.isNaN = true ↔ parts x = .nan := by
  have hunpack : x.isNaN = (parts x).unpacked.isNaN :=
    congrArg UnpackedFloat.isNaN (toModel_unpack x)
  rw [hunpack]
  cases parts x with
  | nan => exact iff_of_true rfl rfl
  | infinite negative => exact iff_of_false Bool.false_ne_true nofun
  | finite negative mantissa exponent =>
    rw [Parts.unpacked]
    split
    · exact iff_of_false Bool.false_ne_true nofun
    · exact iff_of_false Bool.false_ne_true nofun

theorem magnitudeBits_lt (x : Float) : magnitudeBits x < signBit := Nat.mod_lt _ (by decide)

theorem isNaN_iff_lt (x : Float) : x.isNaN = true ↔ infinityBits < magnitudeBits x := by
  rw [isNaN_iff, parts_eq_partsOf, partsOf_eq_nan_iff _ (magnitudeBits_lt x)]

theorem magnitudeBits_le {x : Float} (h : x.isNaN = false) : magnitudeBits x ≤ infinityBits := by
  rw [← Nat.not_lt, ← isNaN_iff_lt, h]
  decide

/-- A number is given by its sign and magnitude. -/
theorem ofMagnitude_magnitudeBits {x : Float} (h : x.isNaN = false) :
    ofMagnitude (isNegative x) (magnitudeBits x) = x := by
  let word := x.toBits.toBitVec.toNat
  have hword : word < 2 * signBit := x.toBits.toBitVec.isLt
  have hfields : (if decide (signBit ≤ word) then signBit + word % signBit else word % signBit) =
      word := by
    by_cases hnegative : signBit ≤ word
    · rw [if_pos (decide_eq_true hnegative), Nat.mod_eq_sub_mod hnegative,
        Nat.mod_eq_of_lt (by omega)]
      omega
    · rw [if_neg (by simpa using hnegative), Nat.mod_eq_of_lt (by omega)]
  apply eq_of_toBitVec_eq
  apply BitVec.eq_of_toNat_eq
  rw [toBitVec_ofMagnitude _ (magnitudeBits_le h), toNat_wordOf _ (magnitudeBits_lt x)]
  exact hfields

/-! ## Comparison and subtraction -/

/-- Unpacked numbers compare equal if they are the same or both zero. -/
theorem compare_eq_some_eq_iff (first second : UnpackedFloat) :
    first.compare second = some .eq ↔
      (first = second ∧ first ≠ .notANumber) ∨
        ∃ sign other, first = .zero sign ∧ second = .zero other := by
  cases first with
  | notANumber => cases second <;> simp [UnpackedFloat.compare]
  | zero sign =>
    cases second with
    | finite other => cases other <;> simp [UnpackedFloat.compare]
    | infinity other => cases other <;> simp [UnpackedFloat.compare]
    | _ => simp [UnpackedFloat.compare]
  | infinity sign =>
    cases second with
    | infinity other => cases sign <;> cases other <;> simp [UnpackedFloat.compare] <;> decide
    | _ => cases sign <;> simp [UnpackedFloat.compare]
  | finite sign mantissa exponent =>
    cases second with
    | finite other =>
      cases sign <;> cases other <;>
        simp [UnpackedFloat.compare, Ordering.swap_eq_eq, Ordering.then_eq_eq, and_comm]
    | infinity other => cases sign <;> cases other <;> simp [UnpackedFloat.compare]
    | _ => cases sign <;> simp [UnpackedFloat.compare]

theorem exists_zero_iff (negative : Bool) (bits : ℕ) :
    (∃ sign, (partsOf negative bits).unpacked = .zero sign) ↔ bits = 0 := by
  constructor
  · rintro ⟨sign, hzero⟩
    unfold partsOf at hzero
    split at hzero
    · split at hzero <;> cases hzero
    split at hzero
    · rename_i hfield
      rw [Parts.unpacked] at hzero
      split at hzero
      · rename_i hfraction
        rw [← Nat.div_add_mod bits hiddenBit, hfield, hfraction]
        rfl
      · cases hzero
    · rw [Parts.unpacked, dif_neg (by simp [hiddenBit])] at hzero
      cases hzero
  · rintro rfl
    exact ⟨signOf negative, rfl⟩

theorem eq_of_unpacked_eq {x y : Float} (hx : x.isNaN = false) (hy : y.isNaN = false)
    (h : (parts x).unpacked = (parts y).unpacked) : x = y := by
  rw [parts_eq_partsOf, parts_eq_partsOf] at h
  have hpacked := congrArg (UnpackedFloat.pack .binary64) h
  rw [pack_partsOf _ (magnitudeBits_le hx), pack_partsOf _ (magnitudeBits_le hy),
    ← toBitVec_ofMagnitude _ (magnitudeBits_le hx), ← toBitVec_ofMagnitude _ (magnitudeBits_le hy),
    ofMagnitude_magnitudeBits hx, ofMagnitude_magnitudeBits hy] at hpacked
  exact eq_of_toBitVec_eq hpacked

/-- Numbers compare equal if they are the same or both zero. -/
theorem beq_iff {x y : Float} (hx : x.isNaN = false) (hy : y.isNaN = false) :
    (x == y) = true ↔ x = y ∨ magnitudeBits x = 0 ∧ magnitudeBits y = 0 := by
  have hnumber : (parts x).unpacked ≠ .notANumber := by
    intro hnan
    rw [← toModel_unpack] at hnan
    have htrue : x.isNaN = true := congrArg UnpackedFloat.isNaN hnan
    rw [hx] at htrue
    cases htrue
  have hcompare : (x == y) = ((parts x).unpacked.compare (parts y).unpacked == some .eq) := by
    rw [← toModel_unpack, ← toModel_unpack]
    rfl
  rw [hcompare, beq_iff_eq, compare_eq_some_eq_iff, and_iff_left hnumber,
    ← exists_zero_iff (isNegative x), ← exists_zero_iff (isNegative y), ← parts_eq_partsOf,
    ← parts_eq_partsOf, exists_and_exists_comm]
  refine or_congr_left ⟨eq_of_unpacked_eq hx hy, ?_⟩
  rintro rfl
  rfl

/-- Subtraction from zero turns the sign, save that of zero. -/
theorem zero_sub_ofMagnitude {bits : ℕ} (h : bits ≤ infinityBits) :
    ofMagnitude false 0 - ofMagnitude false bits = ofMagnitude (decide (0 < bits)) bits := by
  have hturned : UnpackedFloat.sub .binary64 (.zero .positive) (partsOf false bits).unpacked =
      (partsOf (decide (0 < bits)) bits).unpacked := by
    rcases Nat.eq_zero_or_pos bits with rfl | hpos
    · rfl
    have hturn (mantissa : ℕ) (exponent : ℤ) (hmantissa : mantissa ≠ 0) :
        UnpackedFloat.sub .binary64 (.zero .positive)
            (Parts.finite false mantissa exponent).unpacked =
          (Parts.finite true mantissa exponent).unpacked := by
      rw [Parts.unpacked, Parts.unpacked, dif_neg hmantissa, dif_neg hmantissa]
      rfl
    rw [decide_eq_true hpos]
    unfold partsOf
    split
    · split <;> rfl
    split
    · rename_i hfield
      have hdiv := Nat.div_add_mod bits hiddenBit
      rw [hfield] at hdiv
      exact hturn _ _ (by omega)
    · exact hturn _ _ (by simp [hiddenBit])
  apply eq_of_toBitVec_eq
  calc
    (ofMagnitude false 0 - ofMagnitude false bits).toBits.toBitVec =
        UnpackedFloat.pack .binary64 (UnpackedFloat.sub .binary64
          (ofMagnitude false 0).toModel.unpack (ofMagnitude false bits).toModel.unpack) := rfl
    _ = UnpackedFloat.pack .binary64 (partsOf (decide (0 < bits)) bits).unpacked := by
      rw [toModel_unpack, toModel_unpack, parts_ofMagnitude false (Nat.zero_le _),
        parts_ofMagnitude false h, ← hturned]
      rfl
    _ = (ofMagnitude (decide (0 < bits)) bits).toBits.toBitVec := by
      rw [pack_partsOf _ h, toBitVec_ofMagnitude _ h]

end Scriptlet.Number
