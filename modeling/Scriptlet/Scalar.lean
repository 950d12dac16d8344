import Scriptlet.Json.Basic
import Scriptlet.Node.Json
import Scriptlet.Number.Numeral
import Scriptlet.Number.Written
import Scriptlet.Text.Blank

/-!
# Values

A variable holds a number, a string or a truth value. Arithmetic works on the number that a value
stands for; a string stands for the numeral it spells, and for zero if it is blank.
-/

namespace Scriptlet

inductive Scalar where
  | number (value : Float)
  | string (value : String)
  | boolean (value : Bool)
deriving DecidableEq, Inhabited

namespace Scalar

def toNumber : Scalar → Float
  | number value => value
  | boolean value => if value then 1 else 0
  | string value =>
    let text := Text.trim value.toList
    if text.isEmpty then 0 else (Number.read? text).getD Number.nan

/-- Zero, the empty string and `false` are false. -/
def isTruthy : Scalar → Bool
  | number value => value != 0
  | string value => value != ""
  | boolean value => value

/-- The value as programs print it. -/
def display : Scalar → String
  | number value => Number.display value
  | string value => value
  | boolean value => if value then "true" else "false"

def typeName : Scalar → String
  | number _ => "number"
  | string _ => "string"
  | boolean _ => "boolean"

/-- The least exit code, `-2 ^ 31`. -/
def leastCode : Int := -2147483648

/-- The greatest exit code, `2 ^ 31 - 1`. -/
def greatestCode : Int := 2147483647

/-- The exit code nearest to `n`. -/
def clamp (n : Int) : Int := max leastCode (min n greatestCode)

/-- The exit code of a program that returns the value: its number without the fraction, within
the range of a 32-bit word, and zero for what is not a number. -/
def exitCode (value : Scalar) : Int :=
  match Number.parts value.toNumber with
  | .nan => 0
  | .infinite negative => if negative then leastCode else greatestCode
  | .finite .. => clamp ((Number.truncate? value.toNumber).getD 0)

def toJson : Scalar → Json
  | number value => Number.toJson value
  | string value => .string value
  | boolean value => .bool value

end Scalar

end Scriptlet
