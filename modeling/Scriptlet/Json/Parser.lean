import Scriptlet.Json.Basic

/-!
# Reading JSON

A text is one value with blanks around it. The budget of a reader is at least the number of
characters in front of it, so it only runs out at the end of the text.
-/

namespace Scriptlet.Json

/-- Takes something from the head of a text and hands on what follows it. -/
abbrev Scan (α : Type) := List Char → Option (α × List Char)

/-- The blanks of JSON. -/
def isSpace (c : Char) : Bool := c == ' ' || c == '\t' || c == '\n' || c == '\r'

def skipSpaces (text : List Char) : List Char := text.dropWhile isSpace

/-! ## Strings -/

def hexValue? (c : Char) : Option Nat :=
  let code := c.toNat
  if '0'.toNat ≤ code && code ≤ '9'.toNat then some (code - '0'.toNat)
  else if 'a'.toNat ≤ code && code ≤ 'f'.toNat then some (code - 'a'.toNat + 10)
  else if 'A'.toNat ≤ code && code ≤ 'F'.toNat then some (code - 'A'.toNat + 10)
  else none

/-- The number that four hexadecimal digits spell. -/
def hexUnit? (a b c d : Char) : Option Nat := do
  let a ← hexValue? a
  let b ← hexValue? b
  let c ← hexValue? c
  let d ← hexValue? d
  return ((a * 16 + b) * 16 + c) * 16 + d

/-- What a backslash before `c` denotes, `u` apart. -/
def unescape? : Char → Option Char
  | '"' => some '"'
  | '\\' => some '\\'
  | '/' => some '/'
  | 'b' => some '\x08'
  | 'f' => some '\x0c'
  | 'n' => some '\n'
  | 'r' => some '\r'
  | 't' => some '\t'
  | _ => none

/-- The code points and surrogates of a string, up to its closing quote, and what follows. -/
def units? : Scan (List Nat)
  | [] => none
  | '"' :: rest => some ([], rest)
  | '\\' :: 'u' :: a :: b :: c :: d :: rest => do
    let unit ← hexUnit? a b c d
    let (units, rest) ← units? rest
    return (unit :: units, rest)
  | '\\' :: c :: rest => do
    let char ← unescape? c
    let (units, rest) ← units? rest
    return (char.toNat :: units, rest)
  | c :: rest =>
    if c.toNat < 0x20 || c == '\\' then none
    else do
      let (units, rest) ← units? rest
      return (c.toNat :: units, rest)

def isHighSurrogate (unit : Nat) : Bool := 0xD800 ≤ unit && unit < 0xDC00

def isLowSurrogate (unit : Nat) : Bool := 0xDC00 ≤ unit && unit < 0xE000

/-- The text in which every surrogate has its partner. -/
def pair? : List Nat → Option (List Char)
  | [] => some []
  | high :: low :: rest =>
    if isHighSurrogate high then
      if isLowSurrogate low then
        (pair? rest).map (Char.ofNat (0x10000 + (high - 0xD800) * 0x400 + (low - 0xDC00)) :: ·)
      else none
    else if isLowSurrogate high then none
    else (pair? (low :: rest)).map (Char.ofNat high :: ·)
  | [unit] =>
    if isHighSurrogate unit || isLowSurrogate unit then none else some [Char.ofNat unit]

/-- A string after its opening quote; the inner option is empty when it denotes no text. -/
def text? : Scan (Option String) := fun input ↦ do
  let (units, rest) ← units? input
  return ((pair? units).map String.ofList, rest)

/-! ## Numbers -/

/-- A non-empty run of digits and what follows. -/
def digits? : Scan (List Char) := fun input ↦
  let digits := input.takeWhile Char.isDigit
  if digits.isEmpty then none else some (digits, input.dropWhile Char.isDigit)

/-- The digits before the point: no zero stands before others. -/
def whole? : Scan (List Char)
  | '0' :: rest =>
    match rest with
    | c :: _ => if c.isDigit then none else some (['0'], rest)
    | [] => some (['0'], [])
  | input => digits? input

def fraction? : Scan (List Char)
  | '.' :: rest => do
    let (digits, rest) ← digits? rest
    return ('.' :: digits, rest)
  | input => some ([], input)

def sign : List Char → List Char × List Char
  | '+' :: rest => (['+'], rest)
  | '-' :: rest => (['-'], rest)
  | input => ([], input)

def power? : Scan (List Char)
  | [] => some ([], [])
  | mark :: rest =>
    if mark == 'e' || mark == 'E' then do
      let (sign, rest) := sign rest
      let (digits, rest) ← digits? rest
      return (mark :: sign ++ digits, rest)
    else some ([], mark :: rest)

/-- A number as written, and what follows. -/
def number? : Scan String := fun input ↦ do
  let (minus, input) := match input with
    | '-' :: rest => (['-'], rest)
    | _ => ([], input)
  let (whole, input) ← whole? input
  let (fraction, input) ← fraction? input
  let (power, input) ← power? input
  return (String.ofList (minus ++ whole ++ fraction ++ power), input)

/-! ## Values -/

/-- The items after an array's first one, up to its closing bracket. -/
def itemsWith (value : Scan Json) : Nat → Scan (List Json)
  | 0, _ => none
  | budget + 1, input =>
    match skipSpaces input with
    | ']' :: rest => some ([], rest)
    | ',' :: rest => do
      let (item, rest) ← value (skipSpaces rest)
      let (items, rest) ← itemsWith value budget rest
      return (item :: items, rest)
    | _ => none

/-- An array after its opening bracket. -/
def arrayWith (value : Scan Json) (budget : Nat) : Scan Json := fun input ↦
  match skipSpaces input with
  | ']' :: rest => some (array [], rest)
  | input => do
    let (item, rest) ← value input
    let (items, rest) ← itemsWith value budget rest
    return (array (item :: items), rest)

/-- A key with its value; the key may denote no text. -/
def fieldWith (value : Scan Json) : Scan (Option String × Json) := fun input ↦
  match skipSpaces input with
  | '"' :: rest => do
    let (key, rest) ← text? rest
    match skipSpaces rest with
    | ':' :: rest =>
      let (item, rest) ← value (skipSpaces rest)
      return ((key, item), rest)
    | _ => none
  | _ => none

/-- The fields after an object's first one, up to its closing brace. -/
def fieldsWith (value : Scan Json) : Nat → Scan (List (Option String × Json))
  | 0, _ => none
  | budget + 1, input =>
    match skipSpaces input with
    | '\x7d' :: rest => some ([], rest)
    | ',' :: rest => do
      let (field, rest) ← fieldWith value rest
      let (fields, rest) ← fieldsWith value budget rest
      return (field :: fields, rest)
    | _ => none

/-- The object with the given fields, if every key denotes a text. -/
def ofFields (fields : List (Option String × Json)) : Json :=
  match fields.mapM fun (key, value) ↦ key.map (·, value) with
  | some fields => object fields
  | none => unpaired

/-- An object after its opening brace. -/
def objectWith (value : Scan Json) (budget : Nat) : Scan Json := fun input ↦
  match skipSpaces input with
  | '\x7d' :: rest => some (object [], rest)
  | input => do
    let (field, rest) ← fieldWith value input
    let (fields, rest) ← fieldsWith value budget rest
    return (ofFields (field :: fields), rest)

/-- The value at the head of a text, and what follows. -/
def value? : Nat → Scan Json
  | 0, _ => none
  | budget + 1, input =>
    match input with
    | 'n' :: 'u' :: 'l' :: 'l' :: rest => some (null, rest)
    | 't' :: 'r' :: 'u' :: 'e' :: rest => some (bool true, rest)
    | 'f' :: 'a' :: 'l' :: 's' :: 'e' :: rest => some (bool false, rest)
    | '"' :: rest => do
      let (text, rest) ← text? rest
      return (text.elim unpaired string, rest)
    | '[' :: rest => arrayWith (value? budget) budget rest
    | '\x7b' :: rest => objectWith (value? budget) budget rest
    | _ => do
      let (written, rest) ← number? input
      return (number written, rest)

/-- The value that a text spells. -/
def parse? (text : String) : Option Json := do
  let input := skipSpaces text.toList
  let (json, rest) ← value? input.length input
  if (skipSpaces rest).isEmpty then some json else none

end Scriptlet.Json
