import Scriptlet.Number.Binary
import Scriptlet.Operator

/-!
# Arithmetic

The operators on doubles. Comparisons give one or zero, a comparison with a number that is not
a number fails except for `!=`, and a remainder is exact with the sign of the dividend.
-/

namespace Scriptlet.Number

/-- The remainder of the division that truncates its quotient. -/
def remainder (x y : Float) : Float :=
  match parts x, parts y with
  | .finite negative mantissa exponent, .finite _ divisor divisorExponent =>
    if divisor = 0 then nan
    else
      let least := min exponent divisorExponent
      let left := mantissa * powTwo (exponent - least)
      let right := divisor * powTwo (divisorExponent - least)
      ofMagnitude negative (nearestBits (left % right * powTwo least) (powTwo (-least)))
  | .finite .., .infinite _ => x
  | _, _ => nan

def flag (holds : Bool) : Float := if holds then 1 else 0

end Scriptlet.Number

namespace Scriptlet.BinOp

def apply : BinOp → Float → Float → Float
  | add, x, y => x + y
  | sub, x, y => x - y
  | mul, x, y => x * y
  | div, x, y => x / y
  | mod, x, y => Number.remainder x y
  | pow, x, y => x.pow y
  | gt, x, y => Number.flag (decide (y < x))
  | lt, x, y => Number.flag (decide (x < y))
  | ge, x, y => Number.flag (decide (y ≤ x))
  | le, x, y => Number.flag (decide (x ≤ y))
  | eq, x, y => Number.flag (x == y)
  | ne, x, y => Number.flag (x != y)

end Scriptlet.BinOp
