import Scriptlet.Error
import Scriptlet.Text.Blank
import Scriptlet.Token.Basic

/-!
# Reading tokens from a text

Blanks separate tokens and are dropped. Everywhere else the longest possible token is taken: an
identifier runs as far as letters, digits and underscores go, a number as far as digits go, a
comment to the end of its line, and a two-character comparison wins over its first character.
A string literal may run over several lines and gives three touching tokens.
-/

namespace Scriptlet

/-- Characters that start an identifier. Letters are the ASCII ones. -/
def isWordStart (c : Char) : Bool := c.isAlpha || c == '_'

/-- Characters that continue an identifier. -/
def isWordPart (c : Char) : Bool := c.isAlphanum || c == '_'

/-- The token that an identifier-shaped word stands for. -/
def TokenKind.ofWord (word : List Char) : TokenKind :=
  match Keyword.ofWord? (String.ofList word) with
  | some reserved => .keyword reserved
  | none =>
    if word.any Char.isDigit then .alphaNum (String.ofList word) else .alpha (String.ofList word)

/-- A token kind at the head of a text, the characters it takes and those that follow it. -/
structure Lexeme where
  kind : TokenKind
  taken : List Char
  rest : List Char

namespace Lexeme

def word (c : Char) (rest : List Char) : Lexeme :=
  let taken := c :: rest.takeWhile isWordPart
  ⟨TokenKind.ofWord taken, taken, rest.dropWhile isWordPart⟩

def number (c : Char) (rest : List Char) : Lexeme :=
  let taken := c :: rest.takeWhile Char.isDigit
  ⟨.number (String.ofList taken), taken, rest.dropWhile Char.isDigit⟩

/-- A comment, whose first character `c` is not part of its text. -/
def comment (c : Char) (rest : List Char) : Lexeme :=
  let text := rest.takeWhile (· != '\n')
  ⟨.comment (String.ofList text), c :: text, rest.dropWhile (· != '\n')⟩

/-- The operator or punctuation mark that starts with `c`. -/
def symbol? (c : Char) (rest : List Char) : Option Lexeme :=
  match c, rest with
  | '<', '=' :: rest => some ⟨.le, ['<', '='], rest⟩
  | '>', '=' :: rest => some ⟨.ge, ['>', '='], rest⟩
  | '=', '=' :: rest => some ⟨.eqEq, ['=', '='], rest⟩
  | '!', '=' :: rest => some ⟨.ne, ['!', '='], rest⟩
  | '+', rest => some ⟨.plus, [c], rest⟩
  | '-', rest => some ⟨.minus, [c], rest⟩
  | '*', rest => some ⟨.star, [c], rest⟩
  | '/', rest => some ⟨.slash, [c], rest⟩
  | '%', rest => some ⟨.percent, [c], rest⟩
  | '^', rest => some ⟨.caret, [c], rest⟩
  | '=', rest => some ⟨.assign, [c], rest⟩
  | '<', rest => some ⟨.lt, [c], rest⟩
  | '>', rest => some ⟨.gt, [c], rest⟩
  | '(', rest => some ⟨.leftParen, [c], rest⟩
  | ')', rest => some ⟨.rightParen, [c], rest⟩
  | '\x7b', rest => some ⟨.leftBrace, [c], rest⟩
  | '\x7d', rest => some ⟨.rightBrace, [c], rest⟩
  | ';', rest => some ⟨.semicolon, [c], rest⟩
  | _, _ => none

/-- The lexeme that starts with `c`, where `c` neither is blank nor opens a string literal. -/
def scan? (c : Char) (rest : List Char) : Option Lexeme :=
  if isWordStart c then some (word c rest)
  else if c.isDigit then some (number c rest)
  else if c = '@' then some (comment c rest)
  else symbol? c rest

/-- A lexeme is the head of its text. -/
theorem taken_append_rest {c : Char} {rest : List Char} {lexeme : Lexeme}
    (h : scan? c rest = some lexeme) : lexeme.taken ++ lexeme.rest = c :: rest := by
  unfold scan? at h
  split at h
  · cases h
    simp [word, List.takeWhile_append_dropWhile]
  split at h
  · cases h
    simp [number, List.takeWhile_append_dropWhile]
  split at h
  · cases h
    simp [comment, List.takeWhile_append_dropWhile]
  · unfold symbol? at h
    split at h <;> cases h <;> rfl

theorem taken_ne_nil {c : Char} {rest : List Char} {lexeme : Lexeme}
    (h : scan? c rest = some lexeme) : lexeme.taken ≠ [] := by
  unfold scan? at h
  split at h
  · cases h
    simp [word]
  split at h
  · cases h
    simp [number]
  split at h
  · cases h
    simp [comment]
  · unfold symbol? at h
    split at h <;> cases h <;> simp

theorem length_rest_le {c : Char} {rest : List Char} {lexeme : Lexeme}
    (h : scan? c rest = some lexeme) : lexeme.rest.length ≤ rest.length := by
  have hlength := congrArg List.length (taken_append_rest h)
  have hpos := List.length_pos_iff.2 (taken_ne_nil h)
  simp only [List.length_append, List.length_cons] at hlength
  omega

end Lexeme

/-- The inside of a string literal: what it denotes, how it is written, and what follows the
closing quote. -/
structure StringBody where
  text : List Char
  written : List Char
  rest : List Char

namespace StringBody

/-- What a backslash before `c` denotes; an unknown escape stands for itself. -/
def unescape : Char → List Char
  | '"' => ['"']
  | '\\' => ['\\']
  | 'n' => ['\n']
  | 't' => ['\t']
  | c => ['\\', c]

/-- Reads up to the first quote that no backslash escapes; there is none in an open literal. -/
def scan? : List Char → Option StringBody
  | [] => none
  | ['\\'] => none
  | '"' :: rest => some ⟨[], [], rest⟩
  | '\\' :: c :: rest =>
    match scan? rest with
    | none => none
    | some body => some ⟨unescape c ++ body.text, '\\' :: c :: body.written, body.rest⟩
  | c :: rest =>
    match scan? rest with
    | none => none
    | some body => some ⟨c :: body.text, c :: body.written, body.rest⟩

/-- A backslash is either the last character or escapes the next one. -/
theorem ne_backslash {c : Char} {rest : List Char} (hdangling : c = '\\' → rest = [] → False)
    (hescape : ∀ d others, c = '\\' → rest = d :: others → False) : c ≠ '\\' := by
  intro hc
  cases rest with
  | nil => exact hdangling hc rfl
  | cons d others => exact hescape d others hc rfl

theorem written_append_rest {text : List Char} {body : StringBody} (h : scan? text = some body) :
    body.written ++ '"' :: body.rest = text := by
  fun_induction scan? text generalizing body with
  | case1 => cases h
  | case2 => cases h
  | case3 => cases h; rfl
  | case4 => cases h
  | case5 c rest inner hinner ih =>
    cases h
    simp [ih hinner]
  | case6 => cases h
  | case7 c rest _ _ _ inner hinner ih =>
    cases h
    simp [ih hinner]

theorem length_rest_lt {text : List Char} {body : StringBody} (h : scan? text = some body) :
    body.rest.length < text.length := by
  have hlength := congrArg List.length (written_append_rest h)
  simp only [List.length_append, List.length_cons] at hlength
  omega

/-- The three tokens of a literal whose opening quote stands at `position`. -/
def tokens (body : StringBody) (position : Position) : List Token :=
  let inside := position.next '"'
  let closing := inside.after body.written
  [⟨.quote, position.upTo inside⟩, ⟨.content (String.ofList body.text), inside.upTo closing⟩,
    ⟨.quote, closing.upTo (closing.next '"')⟩]

end StringBody

/-- The tokens of `text`, which stands at `position`. -/
def tokenize (position : Position) (text : List Char) : Except Error (List Token) :=
  match text with
  | [] => .ok []
  | c :: rest =>
    if Text.isBlank c then
      tokenize (position.next c) rest
    else if c = '"' then
      match _found : StringBody.scan? rest with
      | none => .error (.unterminatedString (position.upTo (position.next c)))
      | some body =>
        let closing := (position.next '"').after body.written
        match tokenize (closing.next '"') body.rest with
        | .ok others => .ok (body.tokens position ++ others)
        | .error e => .error e
    else
      match _found : Lexeme.scan? c rest with
      | none => .error (.unexpectedCharacter c (position.upTo (position.next c)))
      | some lexeme =>
        let stop := position.after lexeme.taken
        match tokenize stop lexeme.rest with
        | .ok others => .ok (⟨lexeme.kind, position.upTo stop⟩ :: others)
        | .error e => .error e
termination_by text.length
decreasing_by
  · simp
  · have := StringBody.length_rest_lt _found
    simp only [List.length_cons]
    omega
  · have := Lexeme.length_rest_le _found
    simp only [List.length_cons]
    omega

/-! ## What the first character decides -/

@[simp] theorem tokenize_nil (position : Position) : tokenize position [] = .ok [] := by
  rw [tokenize]

theorem tokenize_blank (position : Position) {c : Char} (rest : List Char)
    (h : Text.isBlank c = true) :
    tokenize position (c :: rest) = tokenize (position.next c) rest := by
  rw [tokenize, if_pos h]

theorem tokenize_quote (position : Position) (rest : List Char) :
    tokenize position ('"' :: rest) =
      match StringBody.scan? rest with
      | none => .error (.unterminatedString (position.upTo (position.next '"')))
      | some body =>
        (tokenize (((position.next '"').after body.written).next '"') body.rest).map
          (body.tokens position ++ ·) := by
  rw [tokenize, if_neg (by decide), if_pos rfl]
  split
  · rename_i h
    rw [h]
  · rename_i body h
    rw [h]
    dsimp only
    cases tokenize (((position.next '"').after body.written).next '"') body.rest <;> rfl

theorem tokenize_lexeme (position : Position) {c : Char} (rest : List Char)
    (hblank : Text.isBlank c = false) (hquote : c ≠ '"') :
    tokenize position (c :: rest) =
      match Lexeme.scan? c rest with
      | none => .error (.unexpectedCharacter c (position.upTo (position.next c)))
      | some lexeme =>
        (tokenize (position.after lexeme.taken) lexeme.rest).map
          (⟨lexeme.kind, position.upTo (position.after lexeme.taken)⟩ :: ·) := by
  rw [tokenize, if_neg (by simp [hblank]), if_neg hquote]
  split
  · rename_i h
    rw [h]
  · rename_i lexeme h
    rw [h]
    dsimp only
    cases tokenize (position.after lexeme.taken) lexeme.rest <;> rfl

/-- The tokens of a source text. -/
def lex (source : String) : Except Error (List Token) :=
  tokenize .origin source.toList

end Scriptlet
