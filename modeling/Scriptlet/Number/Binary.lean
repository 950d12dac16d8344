/-!
# Doubles and their bits

A finite double is `± mantissa · 2 ^ exponent`. The bits of its magnitude, read as a natural
number, grow with the magnitude, and those of infinity come directly after the largest finite
ones. Rounding a quotient therefore is a computation on natural numbers.
-/

namespace Scriptlet.Number

/-- A double taken apart. -/
inductive Parts where
  | nan
  | infinite (negative : Bool)
  | finite (negative : Bool) (mantissa : Nat) (exponent : Int)
deriving DecidableEq, Repr

/-- The power of two, and one for a negative exponent. -/
def powTwo (exponent : Int) : Nat := Nat.pow 2 exponent.toNat

/-- The bit above the fraction, `2 ^ 52`. -/
def hiddenBit : Nat := 0x10000000000000

/-- The sign bit, `2 ^ 63`. -/
def signBit : Nat := 0x8000000000000000

/-- The bits of a magnitude that is too large for a finite double. -/
def infinityBits : Nat := 2047 * hiddenBit

/-- The exponent of the smallest positive double. -/
def leastExponent : Int := -1074

/-- The bits of `x` without its sign. -/
def magnitudeBits (x : Float) : Nat := x.toBits.toNat % signBit

def isNegative (x : Float) : Bool := decide (signBit ≤ x.toBits.toNat)

def parts (x : Float) : Parts :=
  let field : Nat := magnitudeBits x / hiddenBit
  let fraction : Nat := magnitudeBits x % hiddenBit
  if field = 2047 then
    if fraction = 0 then .infinite (isNegative x) else .nan
  else if field = 0 then .finite (isNegative x) fraction leastExponent
  else .finite (isNegative x) (hiddenBit + fraction) ((field : Int) - 1075)

/-- The double with the given sign and magnitude bits. -/
def ofMagnitude (negative : Bool) (bits : Nat) : Float :=
  Float.ofBits (UInt64.ofNat (if negative then signBit + bits else bits))

def infinity : Float := ofMagnitude false infinityBits

def nan : Float := Float.ofBits 0x7FF8000000000000

/-- The quotient rounded to the nearest natural number, a half going to the even neighbour. -/
def roundQuotient (numerator denominator : Nat) : Nat :=
  let quotient := numerator / denominator
  let remainder := numerator % denominator
  if denominator < 2 * remainder || (2 * remainder == denominator && quotient % 2 == 1) then
    quotient + 1
  else quotient

/-- The greatest `k` with `2 ^ k ≤ numerator / denominator`, for positive arguments. -/
def floorLog (numerator denominator : Nat) : Int :=
  let guess : Int := (numerator.log2 : Int) - denominator.log2
  if denominator * powTwo guess ≤ numerator * powTwo (-guess) then guess else guess - 1

/-- The magnitude bits of the double nearest to `numerator / denominator`, a half going to the
even neighbour. With `q` units of `2 ^ e` the bits are `(e + 1074) · 2 ^ 52 + q`, also for
subnormal values and when rounding carries into the next power of two. -/
def nearestBits (numerator denominator : Nat) : Nat :=
  if numerator = 0 then 0
  else
    let exponent := max (floorLog numerator denominator - 52) leastExponent
    let units := roundQuotient (numerator * powTwo (-exponent)) (denominator * powTwo exponent)
    min infinityBits ((exponent - leastExponent).toNat * hiddenBit + units)

/-- The number without its fraction, and `none` unless it is finite. -/
def truncate? (x : Float) : Option Int :=
  match parts x with
  | .finite negative mantissa exponent =>
    let size := mantissa * powTwo exponent / powTwo (-exponent)
    some (if negative then -(size : Int) else size)
  | _ => none

end Scriptlet.Number
