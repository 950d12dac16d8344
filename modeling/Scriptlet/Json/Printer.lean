import Scriptlet.Json.Basic

/-!
# Writing JSON

Two layouts share one printer: the compact one has no blanks, the wide one puts every item and
field on a line of its own, two spaces deeper for each level. Empty arrays and objects stay on one
line in both.
-/

namespace Scriptlet.Json

/-- The hexadecimal digit of `n < 16`. -/
def hexDigit (n : Nat) : Char :=
  if n < 10 then Char.ofNat ('0'.toNat + n) else Char.ofNat ('a'.toNat + (n - 10))

/-- A character inside a string. Quotes, backslashes and control characters are escaped. -/
def escape (c : Char) : List Char :=
  match c with
  | '"' => ['\\', '"']
  | '\\' => ['\\', '\\']
  | '\n' => ['\\', 'n']
  | '\r' => ['\\', 'r']
  | '\t' => ['\\', 't']
  | '\x08' => ['\\', 'b']
  | '\x0c' => ['\\', 'f']
  | _ =>
    if c.toNat < 0x20 then ['\\', 'u', '0', '0', hexDigit (c.toNat / 16), hexDigit (c.toNat % 16)]
    else [c]

def quoted (text : String) : List Char :=
  '"' :: text.toList.flatMap escape ++ ['"']

/-- How a value is spread over lines. -/
structure Layout where
  /-- What separates items at a depth of nesting from what stands before them. -/
  lineBreak : Nat → List Char
  /-- What stands between a key and its value. -/
  colon : List Char

def compactLayout : Layout := ⟨fun _ ↦ [], [':']⟩

def wideLayout : Layout := ⟨fun depth ↦ '\n' :: List.replicate (2 * depth) ' ', [':', ' ']⟩

mutual

/-- The text of a value that stands at a depth of nesting. -/
def renderAt (layout : Layout) (depth : Nat) : Json → List Char
  | null => "null".toList
  | bool true => "true".toList
  | bool false => "false".toList
  | number written => written.toList
  | string text => quoted text
  | unpaired => "\"\\ud800\"".toList
  | array [] => ['[', ']']
  | array (item :: items) =>
    '[' :: layout.lineBreak (depth + 1) ++ renderAt layout (depth + 1) item ++
      renderItems layout (depth + 1) items ++ layout.lineBreak depth ++ [']']
  | object [] => ['\x7b', '\x7d']
  | object ((key, value) :: fields) =>
    '\x7b' :: layout.lineBreak (depth + 1) ++ quoted key ++ layout.colon ++
      renderAt layout (depth + 1) value ++ renderFields layout (depth + 1) fields ++
      layout.lineBreak depth ++ ['\x7d']

/-- Each item after a comma. -/
def renderItems (layout : Layout) (depth : Nat) : List Json → List Char
  | [] => []
  | item :: items =>
    ',' :: layout.lineBreak depth ++ renderAt layout depth item ++ renderItems layout depth items

/-- Each field after a comma. -/
def renderFields (layout : Layout) (depth : Nat) : List (String × Json) → List Char
  | [] => []
  | (key, value) :: fields =>
    ',' :: layout.lineBreak depth ++ quoted key ++ layout.colon ++ renderAt layout depth value ++
      renderFields layout depth fields

end

def compact (json : Json) : String := String.ofList (renderAt compactLayout 0 json)

def wide (json : Json) : String := String.ofList (renderAt wideLayout 0 json)

end Scriptlet.Json
