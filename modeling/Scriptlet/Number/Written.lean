import Scriptlet.Number.Decimal

/-!
# Written numbers

The text of a number as programs print it and as it stands in JSON. Both use the fewest digits
that read back as the number; they differ in where exponents begin, in how they are spelled and
in which of two equally close decimals they take. Programs print an integral number below `10 ^ 21`
with all its digits.
-/

namespace Scriptlet.Number

/-- The decisions of a number format. Exponents from `low` to `high` are written positionally. -/
structure Format where
  tie : Tie
  low : Int
  high : Int
  /-- What follows the digits of an integral number. -/
  integralEnd : String
  /-- What stands before an exponent that is not negative. -/
  exponentSign : String

namespace Format

/-- The digits `0.d₁d₂… · 10 ^ point` without an exponent. -/
def positional (format : Format) (digits : List Char) (point : Int) : String :=
  if point ≤ 0 then
    "0." ++ String.ofList (List.replicate (-point).toNat '0' ++ digits)
  else if digits.length ≤ point.toNat then
    String.ofList (digits ++ List.replicate (point.toNat - digits.length) '0') ++
      format.integralEnd
  else
    String.ofList (digits.take point.toNat) ++ "." ++ String.ofList (digits.drop point.toNat)

/-- The digits `0.d₁d₂… · 10 ^ point` with one of them before the point and an exponent. -/
def scientific (format : Format) (digits : List Char) (point : Int) : String :=
  let exponent := point - 1
  let fraction := if digits.length ≤ 1 then "" else "." ++ String.ofList (digits.drop 1)
  String.ofList (digits.take 1) ++ fraction ++ "e" ++
    (if exponent < 0 then "-" else format.exponentSign) ++ toString exponent.natAbs

/-- The text of a positive decimal. -/
def write (format : Format) (decimal : Decimal) : String :=
  let written := decimal.digits
  let point : Int := decimal.exponent + written.length
  let digits := (written.reverse.dropWhile (· == '0')).reverse
  if format.low ≤ point - 1 && decide (point - 1 ≤ format.high) then
    format.positional digits point
  else format.scientific digits point

end Format

/-- What programs print: an exponent from `10 ^ 21` on, and none for small numbers. -/
def displayFormat : Format := ⟨.away, -400, 20, "", ""⟩

/-- JSON numbers: positional from `10 ^ (-5)` to below `10 ^ 16`, marked as fractional. -/
def jsonFormat : Format := ⟨.toEven, -5, 15, ".0", "+"⟩

private def signText (negative : Bool) : String := if negative then "-" else ""

/-- The number as programs print it. -/
def display (x : Float) : String :=
  match parts x with
  | .nan => "NaN"
  | .infinite negative => signText negative ++ "Infinity"
  | .finite negative mantissa exponent =>
    if mantissa = 0 then "0"
    else
      let value := Decimal.ofBinary mantissa exponent
      let unit := powTen (-value.exponent)
      let whole := value.significand / unit
      signText negative ++
        (if value.significand % unit = 0 && whole < powTen 21 then toString whole
        else displayFormat.write (value.shortest displayFormat.tie (magnitudeBits x)))

/-- The number in JSON, where only finite numbers have a text. -/
def json? (x : Float) : Option String :=
  match parts x with
  | .finite negative mantissa exponent =>
    some (signText negative ++
      (if mantissa = 0 then "0.0"
      else
        let value := Decimal.ofBinary mantissa exponent
        jsonFormat.write (value.shortest jsonFormat.tie (magnitudeBits x))))
  | _ => none

end Scriptlet.Number
