/-!
# JSON values

Numbers are kept as written, since no arithmetic is done on them, and the fields of an object in
their order. A string may spell half of a surrogate pair; it is well formed and denotes no text.
-/

namespace Scriptlet

inductive Json where
  | null
  | bool (value : Bool)
  | number (written : String)
  | string (text : String)
  /-- A string, or an object with a key, that denotes no text. -/
  | unpaired
  | array (items : List Json)
  | object (fields : List (String × Json))
deriving Inhabited

namespace Json

def ofNat (n : Nat) : Json := number (toString n)

def ofOption {α : Type} (encode : α → Json) : Option α → Json
  | some value => encode value
  | none => null

end Json

end Scriptlet
