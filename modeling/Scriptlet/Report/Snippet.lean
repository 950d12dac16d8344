import Scriptlet.Error
import Scriptlet.Text.Lines

/-!
# Errors for a terminal

The code and the message, the place, and the line of the source text with carets under what is
wrong. Errors without a place have the first line only, and a place on a line that the source
text does not have is not quoted.
-/

namespace Scriptlet

/-- The quoted line between two gutters, with the span underlined. At least one caret stands
there, and none reaches past the line. -/
def Span.snippet (span : Span) (line : List Char) : String :=
  let number := toString span.line
  let gutter := String.ofList (List.replicate number.length ' ')
  let indent := min (span.column - 1) line.length
  let width := max 1 (min span.length (line.length - indent))
  gutter ++ " |\n" ++
    number ++ " | " ++ String.ofList line ++ "\n" ++
    gutter ++ " | " ++ String.ofList (List.replicate indent ' ' ++ List.replicate width '^') ++ "\n"

/-- The error as it is shown for a source text that stands in `file`. -/
def Error.render (error : Error) (file source : String) : String :=
  let headline := "error[" ++ error.code ++ "]: " ++ error.message ++ "\n"
  match error.span? with
  | none => headline
  | some span =>
    let place := " --> " ++ file ++ ":" ++ span.place ++ "\n"
    match (Text.lines source.toList)[span.line - 1]? with
    | none => headline ++ place
    | some line => headline ++ place ++ span.snippet line

end Scriptlet
