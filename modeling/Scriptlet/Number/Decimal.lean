import Scriptlet.Number.Binary

/-!
# Decimals and doubles

The double nearest to a decimal, and back: the decimal with the fewest digits that is nearest to
a double, and of those the closest one.
-/

namespace Scriptlet.Number

/-- The power of ten, and one for a negative exponent. -/
def powTen (exponent : Int) : Nat := Nat.pow 10 exponent.toNat

/-- The number `significand · 10 ^ exponent`. -/
structure Decimal where
  significand : Nat
  exponent : Int
deriving DecidableEq, Repr

/-- Which of two equally close decimals is taken. -/
inductive Tie where
  | away
  | toEven
deriving DecidableEq, Repr

namespace Decimal

/-- The magnitude bits of the double nearest to the decimal. From `10 ^ 310` on that is infinity
and below `10 ^ (-330)` zero, so that no huge power of ten is ever computed. -/
def bits (decimal : Decimal) : Nat :=
  if decimal.significand = 0 then 0
  else if 310 ≤ decimal.exponent then infinityBits
  else if decimal.exponent + (decimal.significand.log2 + 1) ≤ -330 then 0
  else
    nearestBits (decimal.significand * powTen decimal.exponent) (powTen (-decimal.exponent))

/-- The decimal equal to `mantissa · 2 ^ exponent`. -/
def ofBinary (mantissa : Nat) (exponent : Int) : Decimal :=
  if 0 ≤ exponent then ⟨mantissa * powTwo exponent, 0⟩
  else ⟨mantissa * Nat.pow 5 (-exponent).toNat, exponent⟩

/-- The digits of the significand. -/
def digits (decimal : Decimal) : List Char := Nat.toDigits 10 decimal.significand

/-- Of the two neighbours of `value` that drop its last `count` digits, the closest one whose
nearest double has magnitude bits `target`. -/
def shortened? (tie : Tie) (target : Nat) (value : Decimal) (count : Nat) : Option Decimal :=
  let unit := powTen count
  let quotient := value.significand / unit
  let remainder := value.significand % unit
  let below : Decimal := ⟨quotient, value.exponent + count⟩
  let above : Decimal := ⟨quotient + 1, value.exponent + count⟩
  let keepsBelow :=
    match compare (2 * remainder) unit, tie with
    | .lt, _ => true
    | .gt, _ => false
    | .eq, .away => false
    | .eq, .toEven => quotient % 2 == 0
  match below.bits == target, above.bits == target with
  | true, true => some (if keepsBelow then below else above)
  | true, false => some below
  | false, true => some above
  | false, false => none

/-- The closest decimal with the fewest digits whose nearest double has magnitude bits `target`,
where `value` is exactly that double. Seventeen digits always suffice. -/
def shortest (tie : Tie) (target : Nat) (value : Decimal) : Decimal :=
  let places := value.digits.length
  ((List.range 17).findSome? fun i ↦ value.shortened? tie target (places - (i + 1))).getD value

end Decimal

end Scriptlet.Number
