import Scriptlet.Json.Basic
import Scriptlet.Token.Basic

/-!
# Tokens as JSON

The kind, the text if the kind carries one, and the span.
-/

namespace Scriptlet

def Span.toJson (span : Span) : Json :=
  .object [("start", .ofNat span.start), ("end", .ofNat span.stop), ("line", .ofNat span.line),
    ("column", .ofNat span.column)]

def Token.toJson (token : Token) : Json :=
  .object (("kind", .string token.kind.name) ::
    (token.kind.text?.toList.map fun text ↦ ("text", Json.string text)) ++
    [("span", token.span.toJson)])

/-- A list of tokens as one array. -/
def tokensToJson (tokens : List Token) : Json := .array (tokens.map Token.toJson)

end Scriptlet
