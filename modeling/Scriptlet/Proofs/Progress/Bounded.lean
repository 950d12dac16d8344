import Scriptlet.Node.Parser

/-!
# Readers that own up to their bound

A reader whose budget runs out stops as if the tokens had ended, so that its results alone do not
tell that it was done. Here are the same readers with a bound instead: on the depth to which they
call each other and on the rounds of each loop. A reader that reaches its bound has no result. If
it has one, then the reading ends by itself, whatever budget there is.
-/

namespace Scriptlet

/-- What reading within a bound comes to, `none` if it reaches the bound. -/
abbrev Attempt (α : Type) := ExceptT Error Option α

abbrev BoundedReader (α : Type) := List Token → Attempt (α × List Token)

namespace Attempt

variable {α β : Type}

def finished (result : Except Error α) : Attempt α := ExceptT.mk (some result)

def unfinished : Attempt α := ExceptT.mk none

theorem finished_bind {attempt : Attempt α} {result : Except Error α} {follow : α → Attempt β}
    {next : α → Except Error β} (h : attempt = finished result)
    (hnext : ∀ value, result = .ok value → follow value = finished (next value)) :
    (attempt >>= follow) = finished (result >>= next) := by
  subst h
  cases result with
  | ok value => exact hnext value rfl
  | error error => rfl

end Attempt

namespace Parser.Bounded

open Attempt

variable (ending : Span)

/-! ## Expressions -/

def primary (expression : BoundedReader Node) : BoundedReader Node := fun tokens ↦
  match tokens with
  | [] => throw (.unexpectedEndOfInput "expression")
  | token :: rest =>
    match token.kind with
    | .number digits => return (.number (numberOf digits), rest)
    | .quote => do
      let (text, rest) ← stringLiteral ending tokens
      return (.string text, rest)
    | .keyword .trueWord => return (.boolean true, rest)
    | .keyword .falseWord => return (.boolean false, rest)
    | .alpha name | .alphaNum name => return (.identifier name, rest)
    | .leftParen => do
      let (inner, rest) ← expression rest
      let rest ← expect ending .rightParen rest
      return (inner, rest)
    | found => throw (.unexpectedToken found.describe token.span)

/-- Extends `left` for as long as operators follow that bind at least as tightly as `least`. -/
def climb (operand : Nat → BoundedReader Node) (least : Nat) : Nat → Node → BoundedReader Node
  | 0, _, _ => unfinished
  | bound + 1, left, tokens =>
    match tokens with
    | [] => return (left, [])
    | token :: rest =>
      match token.kind.precedence? with
      | none => return (left, tokens)
      | some precedence =>
        if precedence < least then return (left, tokens)
        else do
          let op ← binOp token.kind
          let (right, rest) ←
            operand (if op.isRightAssociative then precedence else precedence + 1) rest
          climb operand least bound (.binary left op right) rest

def expressionFrom : Nat → Nat → BoundedReader Node
  | 0, _, _ => unfinished
  | bound + 1, least, tokens => do
    let (left, rest) ← primary ending (expressionFrom bound 0) tokens
    climb (expressionFrom bound) least bound left rest

def expression (bound : Nat) : BoundedReader Node := expressionFrom ending bound 0

/-! ## Statements -/

def bindingValue (bound : Nat) : BoundedReader Node := fun tokens ↦
  match tokens with
  | ⟨.quote, _⟩ :: _ => do
    let (text, rest) ← stringLiteral ending tokens
    return (.string text, rest)
  | ⟨.keyword .trueWord, _⟩ :: rest => return (.boolean true, rest)
  | ⟨.keyword .falseWord, _⟩ :: rest => return (.boolean false, rest)
  | _ => expression ending bound tokens

def binding (build : String → Node → Node) (bound : Nat) : BoundedReader Node := fun tokens ↦ do
  let (name, tokens) ← identifier ending tokens
  let tokens ← expect ending .assign tokens
  let (value, tokens) ← bindingValue ending bound tokens
  let tokens ← expect ending .semicolon tokens
  return (build name value, tokens)

def declaration (bound : Nat) : BoundedReader Node := fun tokens ↦
  match tokens with
  | ⟨.keyword .mutable, _⟩ :: rest =>
    binding ending (fun name value ↦ .declare name value true) bound rest
  | _ => binding ending (fun name value ↦ .declare name value false) bound tokens

def assignment (bound : Nat) : BoundedReader Node := binding ending .assign bound

/-- Statements up to a closing brace or the end of the input, however many they are. -/
def statementsWith (statement : BoundedReader Node) : Nat → BoundedReader (List Node)
  | 0, _ => unfinished
  | bound + 1, tokens =>
    match tokens with
    | [] => return ([], [])
    | ⟨.rightBrace, _⟩ :: _ => return ([], tokens)
    | _ => do
      let (first, rest) ← statement tokens
      let (others, rest) ← statementsWith statement bound rest
      return (first :: others, rest)

theorem statementsWith_cons {statement : BoundedReader Node} {bound : Nat} {token : Token}
    {rest : List Token} (h : token.kind ≠ .rightBrace) :
    statementsWith statement (bound + 1) (token :: rest) =
      statement (token :: rest) >>= fun (first, rest) ↦
        statementsWith statement bound rest >>= fun (others, rest) ↦
          pure (first :: others, rest) := by
  obtain ⟨kind, span⟩ := token
  cases kind with
  | rightBrace => exact absurd rfl h
  | _ => rfl

def blockWith (statement : BoundedReader Node) (bound : Nat) : BoundedReader (List Node) :=
  fun tokens ↦ do
    let tokens ← expect ending .leftBrace tokens
    let (body, tokens) ← statementsWith statement bound tokens
    let tokens ← expect ending .rightBrace tokens
    return (body, tokens)

/-- The `elif` clauses, however many they are. -/
def elseIfsWith (expression : BoundedReader Node) (block : BoundedReader (List Node)) :
    Nat → BoundedReader (List (Node × List Node))
  | 0, _ => unfinished
  | bound + 1, tokens =>
    match tokens with
    | ⟨.keyword .elif, _⟩ :: rest => do
      let (condition, rest) ← expression rest
      let (body, rest) ← block rest
      let (others, rest) ← elseIfsWith expression block bound rest
      return ((condition, body) :: others, rest)
    | _ => return ([], tokens)

def otherwiseWith (block : BoundedReader (List Node)) : BoundedReader (Option (List Node)) :=
  fun tokens ↦
    match tokens with
    | ⟨.keyword .elseWord, _⟩ :: rest => do
      let (body, rest) ← block rest
      return (some body, rest)
    | _ => return (none, tokens)

/-- What follows the word `if`. -/
def branchWith (block : BoundedReader (List Node)) (bound : Nat) : BoundedReader Node :=
  fun tokens ↦ do
    let (condition, tokens) ← expression ending bound tokens
    let (body, tokens) ← block tokens
    let (elseIfs, tokens) ← elseIfsWith (expression ending bound) block bound tokens
    let (otherwise, tokens) ← otherwiseWith block tokens
    return (.branch condition body elseIfs otherwise, tokens)

def loopInit (bound : Nat) : BoundedReader Node := fun tokens ↦
  match tokens with
  | ⟨.keyword .define, _⟩ :: rest => declaration ending bound rest
  | ⟨.keyword .mutable, _⟩ :: _ => declaration ending bound tokens
  | _ => assignment ending bound tokens

def loopUpdate (bound : Nat) : BoundedReader Node := fun tokens ↦
  match tokens with
  | ⟨.alpha name, _⟩ :: ⟨.assign, _⟩ :: rest | ⟨.alphaNum name, _⟩ :: ⟨.assign, _⟩ :: rest => do
    let (value, rest) ← expression ending bound rest
    return (.assign name value, rest)
  | _ => expression ending bound tokens

/-- What follows the word `for`. -/
def loopWith (block : BoundedReader (List Node)) (bound : Nat) : BoundedReader Node :=
  fun tokens ↦ do
    let tokens ← expect ending .leftParen tokens
    let (init, tokens) ← loopInit ending bound tokens
    let (condition, tokens) ← expression ending bound tokens
    let tokens ← expect ending .semicolon tokens
    let (update, tokens) ← loopUpdate ending bound tokens
    let tokens ← expect ending .rightParen tokens
    let (body, tokens) ← block tokens
    return (.loop init condition update body, tokens)

def ret (bound : Nat) : BoundedReader Node := fun tokens ↦ do
  let (value, tokens) ← expression ending bound tokens
  let tokens ← expect ending .semicolon tokens
  return (.ret value, tokens)

def payload (newline : Bool) (bound : Nat) : BoundedReader Node := fun tokens ↦
  match tokens with
  | ⟨.quote, _⟩ :: _ => do
    let (text, rest) ← stringLiteral ending tokens
    return (.write newline (some text) none, rest)
  | _ => do
    let (value, rest) ← expression ending bound tokens
    return (.write newline none (some value), rest)

def write (newline : Bool) (bound : Nat) : BoundedReader Node := fun tokens ↦ do
  let tokens ← expect ending .leftParen tokens
  let (node, tokens) ← payload ending newline bound tokens
  let tokens ← expect ending .rightParen tokens
  let tokens ← expect ending .semicolon tokens
  return (node, tokens)

def statement : Nat → BoundedReader Node
  | 0, _ => unfinished
  | bound + 1, tokens =>
    match tokens with
    | [] => throw (.unexpectedEndOfInput "statement")
    | token :: rest =>
      match token.kind with
      | .comment text => return (.comment text, rest)
      | .keyword .define => declaration ending bound rest
      | .keyword .mutable => declaration ending bound tokens
      | .alpha _ | .alphaNum _ => assignment ending bound tokens
      | .keyword .ifWord => branchWith ending (blockWith ending (statement bound) bound) bound rest
      | .keyword .forWord => loopWith ending (blockWith ending (statement bound) bound) bound rest
      | .keyword .ret => ret ending bound rest
      | .keyword .write => write ending false bound rest
      | .keyword .writeln => write ending true bound rest
      | found => throw (.unexpectedToken found.describe token.span)

def block (bound : Nat) : BoundedReader (List Node) :=
  blockWith ending (statement ending bound) bound

/-- Statements up to the end of the input, however many they are. -/
def program : Nat → List Token → Attempt Program
  | 0, _ => unfinished
  | bound + 1, tokens =>
    match tokens with
    | [] => return []
    | ⟨.comment _, _⟩ :: rest => program bound rest
    | _ => do
      let (first, rest) ← statement ending (bound + 1) tokens
      let others ← program bound rest
      return first :: others

theorem program_cons {bound : Nat} {token : Token} (rest : List Token)
    (h : ∀ text, token.kind ≠ .comment text) :
    program ending (bound + 1) (token :: rest) =
      statement ending (bound + 1) (token :: rest) >>= fun (first, rest) ↦
        program ending bound rest >>= fun others ↦ pure (first :: others) := by
  obtain ⟨kind, span⟩ := token
  cases kind with
  | comment text => exact absurd rfl (h text)
  | _ => rfl

end Parser.Bounded

end Scriptlet
