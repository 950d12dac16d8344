import Scriptlet.Span

/-!
# Errors

Why a script is refused or stops: each cause with its message, its stable code and, for causes
that concern the text, its place.
-/

namespace Scriptlet

inductive Error where
  | unexpectedCharacter (c : Char) (span : Span)
  | unterminatedString (span : Span)
  | unexpectedToken (found : String) (span : Span)
  | expectedToken (expected found : String) (span : Span)
  | unexpectedEndOfInput (expected : String)
  | undefinedVariable (name : String)
  | duplicateDeclaration (name : String)
  | immutableAssignment (name : String)
  | undeclaredAssignment (name : String)
  | illegalIdentifier (name : String)
  | invalidWritePayload
  | unknownOperator (op : String)
  | unknownNode (kind : String)
  | popGlobalScope
  | duplicateFunction (name : String)
  | undefinedFunction (name : String)
  | io (reason : String)
deriving DecidableEq, Repr, Inhabited

namespace Error

def message : Error → String
  | unexpectedCharacter c span =>
    "Unexpected character '" ++ c.toString ++ "' at " ++ span.place
  | unterminatedString span => "Unterminated string literal starting at " ++ span.place
  | unexpectedToken found span => "Unexpected token " ++ found ++ " at " ++ span.place
  | expectedToken expected found span =>
    "Expected " ++ expected ++ ", got " ++ found ++ " at " ++ span.place
  | unexpectedEndOfInput expected => "Unexpected end of input, expected " ++ expected
  | undefinedVariable name => "Undefined variable: " ++ name
  | duplicateDeclaration name => "Variable already declared in this scope: " ++ name
  | immutableAssignment name => "Cannot assign to immutable variable: " ++ name
  | undeclaredAssignment name => "Cannot assign to undeclared variable: " ++ name
  | illegalIdentifier name => "Identifier cannot be a keyword: " ++ name
  | invalidWritePayload =>
    "Invalid write payload: exactly one of text or expression must be set"
  | unknownOperator op => "Unknown operator: " ++ op
  | unknownNode kind => "Unknown node: " ++ kind
  | popGlobalScope => "Cannot pop the global scope"
  | duplicateFunction name => "Function already declared: " ++ name
  | undefinedFunction name => "Unknown function: " ++ name
  | io reason => "IO error: " ++ reason

/-- The code of the cause: `L` for characters, `P` for tokens, `R` for runs. -/
def code : Error → String
  | unexpectedCharacter .. => "L001"
  | unterminatedString .. => "L002"
  | unexpectedToken .. => "P001"
  | expectedToken .. => "P002"
  | unexpectedEndOfInput .. => "P003"
  | undefinedVariable .. => "R001"
  | duplicateDeclaration .. => "R002"
  | immutableAssignment .. => "R003"
  | undeclaredAssignment .. => "R004"
  | illegalIdentifier .. => "R005"
  | invalidWritePayload => "R006"
  | unknownOperator .. => "R007"
  | unknownNode .. => "R008"
  | popGlobalScope => "R009"
  | duplicateFunction .. => "R010"
  | undefinedFunction .. => "R011"
  | io .. => "R012"

def span? : Error → Option Span
  | unexpectedCharacter _ span | unterminatedString span | unexpectedToken _ span
  | expectedToken _ _ span => some span
  | _ => none

end Error

end Scriptlet
