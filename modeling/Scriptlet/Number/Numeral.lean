import Scriptlet.Number.Decimal
import Scriptlet.Text.Digits

/-!
# Reading numerals

A numeral is an optional sign, digits with an optional point and at least one digit, and an
optional exponent. The words `inf`, `infinity` and `nan`, in any letter case, are numerals too.
Numerals are rounded to the nearest double and hold no blanks.
-/

namespace Scriptlet.Number

/-- The sign at the head of a text and what follows it. -/
def splitSign : List Char → Bool × List Char
  | '+' :: rest => (false, rest)
  | '-' :: rest => (true, rest)
  | text => (false, text)

/-- An exponent mark with an integer, or nothing at all. -/
def exponent? : List Char → Option Int
  | [] => some 0
  | mark :: rest =>
    let (negative, digits) := splitSign rest
    if (mark == 'e' || mark == 'E') && !digits.isEmpty && digits.all Char.isDigit then
      some (if negative then -(Text.ofDigits digits : Int) else Text.ofDigits digits)
    else none

/-- The decimal that an unsigned numeral spells. -/
def Decimal.ofText? (text : List Char) : Option Decimal :=
  let whole := text.takeWhile Char.isDigit
  let (fraction, rest) :=
    match text.dropWhile Char.isDigit with
    | '.' :: tail => (tail.takeWhile Char.isDigit, tail.dropWhile Char.isDigit)
    | tail => ([], tail)
  if whole.isEmpty && fraction.isEmpty then none
  else
    (exponent? rest).map fun exponent ↦
      ⟨Text.ofDigits (whole ++ fraction), exponent - fraction.length⟩

/-- The magnitude bits that an unsigned numeral or number word spells. -/
def magnitude? (text : List Char) : Option Nat :=
  match Decimal.ofText? text with
  | some decimal => some decimal.bits
  | none =>
    match String.ofList (text.map Char.toLower) with
    | "inf" | "infinity" => some infinityBits
    | "nan" => some (magnitudeBits nan)
    | _ => none

/-- The number that a numeral spells. -/
def read? (text : List Char) : Option Float :=
  let (negative, unsigned) := splitSign text
  (magnitude? unsigned).map (ofMagnitude negative)

end Scriptlet.Number
