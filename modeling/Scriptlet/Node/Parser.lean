import Scriptlet.Error
import Scriptlet.Node.Basic
import Scriptlet.Number.Numeral
import Scriptlet.Token.Basic

/-!
# Reading programs from tokens

A reader takes the tokens in front of it and hands on those it leaves. Expressions are read by
climbing precedences: an operand, then as many operators as bind at least as tightly as asked.
Every loop is bounded by a budget that is at least the number of tokens left; each round takes a
token, so the budget never runs out before the tokens do, and a budget of zero is met only at the
end of the input.

The reader never looks past the first token that cannot go on, and refuses that one.
-/

namespace Scriptlet

abbrev Reader (α : Type) := List Token → Except Error (α × List Token)

namespace Parser

/-- The refusal of the token in front, or of the end of the input, where `expected` should be. -/
def mismatch (ending : Span) (expected : String) : List Token → Error
  | token :: _ => .expectedToken expected token.kind.describe token.span
  | [] => .expectedToken expected "end of input" ending

variable (ending : Span)

/-- Takes one token of a kind that carries no text. -/
def expect (kind : TokenKind) (tokens : List Token) : Except Error (List Token) :=
  match tokens with
  | token :: rest =>
    if token.kind = kind then .ok rest else .error (mismatch ending kind.describe tokens)
  | [] => .error (mismatch ending kind.describe tokens)

theorem expect_eq_ok_iff {ending : Span} {kind : TokenKind} {tokens rest : List Token} :
    expect ending kind tokens = .ok rest ↔ ∃ span, tokens = ⟨kind, span⟩ :: rest := by
  constructor
  · intro h
    unfold expect at h
    split at h
    · split at h
      · rename_i token _ hkind
        cases h
        exact ⟨token.span, by rw [← hkind]⟩
      · cases h
    · cases h
  · rintro ⟨span, rfl⟩
    simp [expect]

def identifier : Reader String := fun tokens ↦
  match tokens with
  | ⟨.alpha name, _⟩ :: rest | ⟨.alphaNum name, _⟩ :: rest => .ok (name, rest)
  | _ => .error (mismatch ending "identifier" tokens)

/-- A string literal: its content between two quotes. -/
def stringLiteral : Reader String := fun tokens ↦ do
  let tokens ← expect ending .quote tokens
  match tokens with
  | ⟨.content text, _⟩ :: rest =>
    let rest ← expect ending .quote rest
    return (text, rest)
  | _ => .error (mismatch ending "string content" tokens)

/-! ## Expressions -/

/-- The number that a numeral token stands for; one that is no numeral stands for infinity. -/
def numberOf (digits : String) : Float :=
  (Number.read? digits.toList).getD Number.infinity

/-- An operand: a literal, a variable or an expression in parentheses. -/
def primary (expression : Reader Node) : Reader Node := fun tokens ↦
  match tokens with
  | [] => .error (.unexpectedEndOfInput "expression")
  | token :: rest =>
    match token.kind with
    | .number digits => .ok (.number (numberOf digits), rest)
    | .quote => do
      let (text, rest) ← stringLiteral ending tokens
      return (.string text, rest)
    | .keyword .trueWord => .ok (.boolean true, rest)
    | .keyword .falseWord => .ok (.boolean false, rest)
    | .alpha name | .alphaNum name => .ok (.identifier name, rest)
    | .leftParen => do
      let (inner, rest) ← expression rest
      let rest ← expect ending .rightParen rest
      return (inner, rest)
    | found => .error (.unexpectedToken found.describe token.span)

/-- The operator that a token of the kind writes. -/
def binOp : TokenKind → Except Error BinOp
  | .plus => .ok .add
  | .minus => .ok .sub
  | .star => .ok .mul
  | .slash => .ok .div
  | .percent => .ok .mod
  | .caret => .ok .pow
  | .gt => .ok .gt
  | .lt => .ok .lt
  | .ge => .ok .ge
  | .le => .ok .le
  | .eqEq => .ok .eq
  | .ne => .ok .ne
  | other => .error (.unknownOperator other.describe)

theorem binOp_operator (op : BinOp) : binOp (.operator op) = .ok op := by
  cases op <;> rfl

theorem operator_injective : Function.Injective TokenKind.operator := by
  intro op other h
  have hsame := congrArg binOp h
  rwa [binOp_operator, binOp_operator, Except.ok.injEq] at hsame

/-- No operator is unknown that binds operands. -/
theorem exists_binOp_of_precedence? {kind : TokenKind} {precedence : Nat}
    (h : kind.precedence? = some precedence) : ∃ op, binOp kind = .ok op := by
  obtain ⟨op, rfl, -⟩ := TokenKind.exists_operator_of_precedence? h
  exact ⟨op, binOp_operator op⟩

/-- Extends `left` by the operators that bind at least as tightly as `least`. The reader
`operand p` takes an expression whose operators bind at least as tightly as `p`. -/
def climb (operand : Nat → Reader Node) (least : Nat) : Nat → Node → Reader Node
  | 0, left, tokens => .ok (left, tokens)
  | budget + 1, left, tokens =>
    match tokens with
    | [] => .ok (left, [])
    | token :: rest =>
      match token.kind.precedence? with
      | none => .ok (left, tokens)
      | some precedence =>
        if precedence < least then .ok (left, tokens)
        else do
          let op ← binOp token.kind
          let (right, rest) ←
            operand (if op.isRightAssociative then precedence else precedence + 1) rest
          climb operand least budget (.binary left op right) rest

/-- An expression whose operators outside parentheses bind at least as tightly as `least`. -/
def expressionFrom : Nat → Nat → Reader Node
  | 0, _, _ => .error (.unexpectedEndOfInput "expression")
  | budget + 1, least, tokens => do
    let (left, rest) ← primary ending (expressionFrom budget 0) tokens
    climb (expressionFrom budget) least budget left rest

def expression (budget : Nat) : Reader Node := expressionFrom ending budget 0

/-! ## Statements -/

/-- The right-hand side of a binding; a string or boolean literal there stands alone. -/
def bindingValue (budget : Nat) : Reader Node := fun tokens ↦
  match tokens with
  | ⟨.quote, _⟩ :: _ => do
    let (text, rest) ← stringLiteral ending tokens
    return (.string text, rest)
  | ⟨.keyword .trueWord, _⟩ :: rest => .ok (.boolean true, rest)
  | ⟨.keyword .falseWord, _⟩ :: rest => .ok (.boolean false, rest)
  | _ => expression ending budget tokens

/-- A binding, `name = value;`. -/
def binding (build : String → Node → Node) (budget : Nat) : Reader Node := fun tokens ↦ do
  let (name, tokens) ← identifier ending tokens
  let tokens ← expect ending .assign tokens
  let (value, tokens) ← bindingValue ending budget tokens
  let tokens ← expect ending .semicolon tokens
  return (build name value, tokens)

/-- A binding, after `mut` for a variable that can change. -/
def declaration (budget : Nat) : Reader Node := fun tokens ↦
  match tokens with
  | ⟨.keyword .mutable, _⟩ :: rest =>
    binding ending (fun name value ↦ .declare name value true) budget rest
  | _ => binding ending (fun name value ↦ .declare name value false) budget tokens

def assignment (budget : Nat) : Reader Node := binding ending .assign budget

/-- Statements up to a closing brace or the end of the input. -/
def statementsWith (statement : Reader Node) : Nat → Reader (List Node)
  | 0, tokens => .ok ([], tokens)
  | budget + 1, tokens =>
    match tokens with
    | [] => .ok ([], [])
    | ⟨.rightBrace, _⟩ :: _ => .ok ([], tokens)
    | _ => do
      let (first, rest) ← statement tokens
      let (others, rest) ← statementsWith statement budget rest
      return (first :: others, rest)

def blockWith (statement : Reader Node) (budget : Nat) : Reader (List Node) := fun tokens ↦ do
  let tokens ← expect ending .leftBrace tokens
  let (body, tokens) ← statementsWith statement budget tokens
  let tokens ← expect ending .rightBrace tokens
  return (body, tokens)

/-- As many `elif` clauses as there are. -/
def elseIfsWith (expression : Reader Node) (block : Reader (List Node)) :
    Nat → Reader (List (Node × List Node))
  | 0, tokens => .ok ([], tokens)
  | budget + 1, tokens =>
    match tokens with
    | ⟨.keyword .elif, _⟩ :: rest => do
      let (condition, rest) ← expression rest
      let (body, rest) ← block rest
      let (others, rest) ← elseIfsWith expression block budget rest
      return ((condition, body) :: others, rest)
    | _ => .ok ([], tokens)

def otherwiseWith (block : Reader (List Node)) : Reader (Option (List Node)) := fun tokens ↦
  match tokens with
  | ⟨.keyword .elseWord, _⟩ :: rest => do
    let (body, rest) ← block rest
    return (some body, rest)
  | _ => .ok (none, tokens)

/-- What follows the word `if`. -/
def branchWith (block : Reader (List Node)) (budget : Nat) : Reader Node := fun tokens ↦ do
  let (condition, tokens) ← expression ending budget tokens
  let (body, tokens) ← block tokens
  let (elseIfs, tokens) ← elseIfsWith (expression ending budget) block budget tokens
  let (otherwise, tokens) ← otherwiseWith block tokens
  return (.branch condition body elseIfs otherwise, tokens)

/-- The first part of a loop header with its semicolon. -/
def loopInit (budget : Nat) : Reader Node := fun tokens ↦
  match tokens with
  | ⟨.keyword .define, _⟩ :: rest => declaration ending budget rest
  | ⟨.keyword .mutable, _⟩ :: _ => declaration ending budget tokens
  | _ => assignment ending budget tokens

/-- The last part of a loop header: an assignment if a name and `=` stand there, else an
expression. -/
def loopUpdate (budget : Nat) : Reader Node := fun tokens ↦
  match tokens with
  | ⟨.alpha name, _⟩ :: ⟨.assign, _⟩ :: rest | ⟨.alphaNum name, _⟩ :: ⟨.assign, _⟩ :: rest => do
    let (value, rest) ← expression ending budget rest
    return (.assign name value, rest)
  | _ => expression ending budget tokens

/-- What follows the word `for`. -/
def loopWith (block : Reader (List Node)) (budget : Nat) : Reader Node := fun tokens ↦ do
  let tokens ← expect ending .leftParen tokens
  let (init, tokens) ← loopInit ending budget tokens
  let (condition, tokens) ← expression ending budget tokens
  let tokens ← expect ending .semicolon tokens
  let (update, tokens) ← loopUpdate ending budget tokens
  let tokens ← expect ending .rightParen tokens
  let (body, tokens) ← block tokens
  return (.loop init condition update body, tokens)

/-- What follows the word `ret`. -/
def ret (budget : Nat) : Reader Node := fun tokens ↦ do
  let (value, tokens) ← expression ending budget tokens
  let tokens ← expect ending .semicolon tokens
  return (.ret value, tokens)

/-- What is written: a string literal stands alone, anything else is an expression. -/
def payload (newline : Bool) (budget : Nat) : Reader Node := fun tokens ↦
  match tokens with
  | ⟨.quote, _⟩ :: _ => do
    let (text, rest) ← stringLiteral ending tokens
    return (.write newline (some text) none, rest)
  | _ => do
    let (value, rest) ← expression ending budget tokens
    return (.write newline none (some value), rest)

/-- What follows the word `write` or `writeln`. -/
def write (newline : Bool) (budget : Nat) : Reader Node := fun tokens ↦ do
  let tokens ← expect ending .leftParen tokens
  let (node, tokens) ← payload ending newline budget tokens
  let tokens ← expect ending .rightParen tokens
  let tokens ← expect ending .semicolon tokens
  return (node, tokens)

def statement : Nat → Reader Node
  | 0, _ => .error (.unexpectedEndOfInput "statement")
  | budget + 1, tokens =>
    match tokens with
    | [] => .error (.unexpectedEndOfInput "statement")
    | token :: rest =>
      match token.kind with
      | .comment text => .ok (.comment text, rest)
      | .keyword .define => declaration ending budget rest
      | .keyword .mutable => declaration ending budget tokens
      | .alpha _ | .alphaNum _ => assignment ending budget tokens
      | .keyword .ifWord =>
        branchWith ending (blockWith ending (statement budget) budget) budget rest
      | .keyword .forWord =>
        loopWith ending (blockWith ending (statement budget) budget) budget rest
      | .keyword .ret => ret ending budget rest
      | .keyword .write => write ending false budget rest
      | .keyword .writeln => write ending true budget rest
      | found => .error (.unexpectedToken found.describe token.span)

/-- Statements between braces. -/
def block (budget : Nat) : Reader (List Node) :=
  blockWith ending (statement ending budget) budget

/-- Statements up to the end of the input; comments between them are dropped. -/
def program : Nat → List Token → Except Error Program
  | 0, _ => .ok []
  | budget + 1, tokens =>
    match tokens with
    | [] => .ok []
    | ⟨.comment _, _⟩ :: rest => program budget rest
    | _ => do
      let (first, rest) ← statement ending (budget + 1) tokens
      let others ← program budget rest
      return first :: others

/-- The empty span where the tokens end. -/
def endOf (tokens : List Token) : Span :=
  match tokens.getLast? with
  | some token => token.span.pastEnd
  | none => ⟨0, 0, 1, 1⟩

end Parser

/-- The program that the tokens spell. -/
def parse (tokens : List Token) : Except Error Program :=
  Parser.program (Parser.endOf tokens) tokens.length tokens

end Scriptlet
