import Scriptlet.Json.Parser
import Scriptlet.Report.Basic
import Scriptlet.Text.Digits

/-!
# Reading error reports

A report is an object with its fields in any order, or an array of them in the order in which they
are written. Fields of other names are ignored, a field given twice is refused, and optional ones
may be missing or `null`. Places are natural numbers below `2 ^ 64`, written without sign,
fraction or exponent.
-/

namespace Scriptlet

namespace Json

def asText? : Json → Option String
  | string text => some text
  | _ => none

/-- The first number that is no place, `2 ^ 64`. -/
def placeBound : Nat := 0x10000000000000000

/-- A place: a natural number of 64 bits. -/
def nat? : Json → Option Nat
  | number written =>
    let digits := written.toList
    if digits.all Char.isDigit && Text.ofDigits digits < placeBound then
      some (Text.ofDigits digits)
    else none
  | _ => none

/-- An optional value, where `null` stands for none. -/
def option? {α : Type} (decode : Json → Option α) : Json → Option (Option α)
  | null => some none
  | json => (decode json).map some

/-- The value of a field that is given once. -/
def field? (name : String) (fields : List (String × Json)) : Option Json :=
  match fields.filter fun field ↦ field.1 == name with
  | [(_, value)] => some value
  | _ => none

/-- The value of a field that is given once or not at all; a missing one is `null`. -/
def optionalField? (name : String) (fields : List (String × Json)) : Option Json :=
  match fields.filter fun field ↦ field.1 == name with
  | [] => some null
  | [(_, value)] => some value
  | _ => none

/-- Reports have one severity, spelled as a string or as an object without content. -/
def isSeverity : Json → Bool
  | string text => text == "error"
  | object [(key, null)] => key == "error"
  | _ => false

end Json

namespace Location

private def decode (file line column endColumn : Json) : Option Location := do
  return ⟨← file.asText?, ← line.nat?, ← column.nat?, ← Json.option? Json.nat? endColumn⟩

def ofJson? : Json → Option Location
  | .object fields => do
    decode (← Json.field? "file" fields) (← Json.field? "line" fields)
      (← Json.field? "column" fields) (← Json.optionalField? "end_column" fields)
  | .array [file, line, column, endColumn] => decode file line column endColumn
  | _ => none

end Location

namespace Report

private def decodeReport (code severity message location : Json) : Option Report := do
  let code ← code.asText?
  let message ← message.asText?
  let location ← Json.option? Location.ofJson? location
  if severity.isSeverity then some ⟨code, message, location⟩ else none

def ofJson? : Json → Option Report
  | .object fields => do
    decodeReport (← Json.field? "code" fields) (← Json.field? "severity" fields)
      (← Json.field? "message" fields) (← Json.optionalField? "location" fields)
  | .array [code, severity, message, location] => decodeReport code severity message location
  | _ => none

/-- The report that a text spells. -/
def read? (text : String) : Option Report := (Json.parse? text).bind ofJson?

end Report

end Scriptlet
