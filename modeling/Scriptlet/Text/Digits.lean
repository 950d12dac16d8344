/-!
# Decimal digits

The value of a run of ASCII digits.
-/

namespace Scriptlet.Text

/-- The value of a run of digits, the most significant one first. -/
def ofDigits (digits : List Char) : Nat :=
  digits.foldl (fun value c ↦ 10 * value + (c.toNat - '0'.toNat)) 0

@[simp] theorem ofDigits_nil : ofDigits [] = 0 := rfl

theorem ofDigits_concat (digits : List Char) (c : Char) :
    ofDigits (digits ++ [c]) = 10 * ofDigits digits + (c.toNat - '0'.toNat) := by
  simp [ofDigits, List.foldl_append]

end Scriptlet.Text
