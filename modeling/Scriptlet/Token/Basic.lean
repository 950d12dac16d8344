import Scriptlet.Operator
import Scriptlet.Span

/-!
# Tokens

The words of a script. A string literal is three tokens, its content between two quotes; a
comment is a token too, so that blocks can keep it.
-/

namespace Scriptlet

/-- The reserved words. -/
inductive Keyword where
  | define | mutable | ret | write | writeln | ifWord | elif | elseWord | forWord
  | trueWord | falseWord
deriving DecidableEq, Repr, Inhabited

namespace Keyword

def word : Keyword → String
  | define => "def"
  | mutable => "mut"
  | ret => "ret"
  | write => "write"
  | writeln => "writeln"
  | ifWord => "if"
  | elif => "elif"
  | elseWord => "else"
  | forWord => "for"
  | trueWord => "true"
  | falseWord => "false"

def all : List Keyword :=
  [define, mutable, ret, write, writeln, ifWord, elif, elseWord, forWord, trueWord, falseWord]

/-- The keyword that `text` spells. -/
def ofWord? (text : String) : Option Keyword :=
  all.find? fun keyword ↦ keyword.word == text

theorem ofWord?_word (keyword : Keyword) : ofWord? keyword.word = some keyword := by
  cases keyword <;> rfl

theorem ofWord?_eq_some_iff {text : String} {keyword : Keyword} :
    ofWord? text = some keyword ↔ text = keyword.word := by
  constructor
  · intro h
    have hword := List.find?_some h
    exact (eq_of_beq hword).symm
  · rintro rfl
    exact ofWord?_word keyword

/-- The keyword's name in a written token. -/
def name : Keyword → String
  | define => "Def"
  | mutable => "Mut"
  | ret => "Ret"
  | write => "Write"
  | writeln => "Writeln"
  | ifWord => "If"
  | elif => "Elif"
  | elseWord => "Else"
  | forWord => "For"
  | trueWord => "True"
  | falseWord => "False"

end Keyword

inductive TokenKind where
  | keyword (word : Keyword)
  /-- An identifier without a digit. -/
  | alpha (name : String)
  /-- An identifier with a digit. -/
  | alphaNum (name : String)
  /-- A run of digits, kept as written. -/
  | number (digits : String)
  /-- A quote that opens or closes a string literal. -/
  | quote
  /-- What a string literal denotes. -/
  | content (text : String)
  /-- A comment without the sign that starts it. -/
  | comment (text : String)
  | plus
  | minus
  | star
  | slash
  | percent
  | caret
  | assign
  | eqEq
  | ne
  | lt
  | le
  | gt
  | ge
  | leftParen
  | rightParen
  | leftBrace
  | rightBrace
  | semicolon
deriving DecidableEq, Repr, Inhabited

namespace TokenKind

/-- How messages refer to the token. -/
def describe : TokenKind → String
  | keyword word => "'" ++ word.word ++ "'"
  | alpha name | alphaNum name => "identifier '" ++ name ++ "'"
  | number digits => "number " ++ digits
  | quote => "'\"'"
  | content text => "string content \"" ++ text ++ "\""
  | comment _ => "comment"
  | plus => "'+'"
  | minus => "'-'"
  | star => "'*'"
  | slash => "'/'"
  | percent => "'%'"
  | caret => "'^'"
  | assign => "'='"
  | eqEq => "'=='"
  | ne => "'!='"
  | lt => "'<'"
  | le => "'<='"
  | gt => "'>'"
  | ge => "'>='"
  | leftParen => "'('"
  | rightParen => "')'"
  | leftBrace => "'\x7b'"
  | rightBrace => "'\x7d'"
  | semicolon => "';'"

/-- The text that the token carries. -/
def text? : TokenKind → Option String
  | alpha text | alphaNum text | number text | content text | comment text => some text
  | _ => none

def isKeyword : TokenKind → Bool
  | keyword _ => true
  | _ => false

/-- The name that the token can give to a variable. -/
def identifier? : TokenKind → Option String
  | alpha name | alphaNum name => some name
  | _ => none

def isIdentifier (kind : TokenKind) : Bool := kind.identifier?.isSome

/-- How tightly the token binds its operands, if it stands between two. -/
def precedence? : TokenKind → Option Nat
  | caret => some 4
  | star | slash | percent => some 3
  | plus | minus => some 2
  | gt | lt | ge | le | eqEq | ne => some 1
  | _ => none

/-- The kind of the token that writes the operator. -/
def operator : BinOp → TokenKind
  | .add => plus
  | .sub => minus
  | .mul => star
  | .div => slash
  | .mod => percent
  | .pow => caret
  | .gt => gt
  | .lt => lt
  | .ge => ge
  | .le => le
  | .eq => eqEq
  | .ne => ne

theorem precedence?_operator (op : BinOp) : (operator op).precedence? = some op.precedence := by
  cases op <;> rfl

theorem ne_operator {kind : TokenKind} (h : kind.precedence? = none) (op : BinOp) :
    kind ≠ operator op := by
  rintro rfl
  rw [precedence?_operator] at h
  cases h

/-- The tokens that bind operands are those that write an operator. -/
theorem exists_operator_of_precedence? {kind : TokenKind} {precedence : Nat}
    (h : kind.precedence? = some precedence) :
    ∃ op, kind = operator op ∧ op.precedence = precedence := by
  have hwrites : ∃ op, kind = operator op := by
    cases kind with
    | plus => exact ⟨.add, rfl⟩
    | minus => exact ⟨.sub, rfl⟩
    | star => exact ⟨.mul, rfl⟩
    | slash => exact ⟨.div, rfl⟩
    | percent => exact ⟨.mod, rfl⟩
    | caret => exact ⟨.pow, rfl⟩
    | eqEq => exact ⟨.eq, rfl⟩
    | ne => exact ⟨.ne, rfl⟩
    | lt => exact ⟨.lt, rfl⟩
    | le => exact ⟨.le, rfl⟩
    | gt => exact ⟨.gt, rfl⟩
    | ge => exact ⟨.ge, rfl⟩
    | _ => cases h
  obtain ⟨op, rfl⟩ := hwrites
  rw [precedence?_operator] at h
  exact ⟨op, rfl, Option.some.inj h⟩

/-- The kind's name in a written token. -/
def name : TokenKind → String
  | keyword word => word.name
  | alpha _ => "Alpha"
  | alphaNum _ => "AlphaNum"
  | number _ => "Number"
  | quote => "StrDelim"
  | content _ => "Str"
  | comment _ => "Comment"
  | plus => "Plus"
  | minus => "Minus"
  | star => "Star"
  | slash => "Slash"
  | percent => "Percent"
  | caret => "Caret"
  | eqEq => "EqEq"
  | ne => "Ne"
  | lt => "Lt"
  | le => "Le"
  | gt => "Gt"
  | ge => "Ge"
  | assign => "Assign"
  | leftParen => "LParen"
  | rightParen => "RParen"
  | leftBrace => "LBrace"
  | rightBrace => "RBrace"
  | semicolon => "Semicolon"

/-- The kinds that carry no text. -/
def fixed : List TokenKind :=
  Keyword.all.map keyword ++ BinOp.all.map operator ++
    [quote, assign, leftParen, rightParen, leftBrace, rightBrace, semicolon]

/-- The kind called `kindName`, carrying `text` if such kinds carry one. -/
def ofName? (kindName text : String) : Option TokenKind :=
  match kindName with
  | "Alpha" => some (alpha text)
  | "AlphaNum" => some (alphaNum text)
  | "Number" => some (number text)
  | "Str" => some (content text)
  | "Comment" => some (comment text)
  | _ => fixed.find? fun kind ↦ kind.name == kindName

end TokenKind

structure Token where
  kind : TokenKind
  span : Span
deriving DecidableEq, Repr, Inhabited

end Scriptlet
