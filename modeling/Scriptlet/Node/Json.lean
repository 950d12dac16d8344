import Scriptlet.Json.Basic
import Scriptlet.Node.Basic
import Scriptlet.Number.Written

/-!
# Program trees as JSON

Each node is an object that names its form first. A number that is not finite is written `null`.
-/

namespace Scriptlet

/-- A number as a JSON value. -/
def Number.toJson (x : Float) : Json := Json.ofOption Json.number (Number.json? x)

namespace Node

/-- The field that names the node's form. -/
def kindField (node : Node) : String × Json := ("node", .string node.kind)

mutual

def toJson : Node → Json
  | node@(number value) => .object [node.kindField, ("value", Number.toJson value)]
  | node@(string value) => .object [node.kindField, ("value", .string value)]
  | node@(boolean value) => .object [node.kindField, ("value", .bool value)]
  | node@(identifier name) => .object [node.kindField, ("name", .string name)]
  | node@(binary left op right) =>
    .object [node.kindField, ("left", left.toJson), ("op", .string op.name),
      ("right", right.toJson)]
  | node@(branch condition body elseIfs otherwise) =>
    .object [node.kindField, ("condition", condition.toJson),
      ("then_branch", .array (bodyToJson body)), ("else_ifs", .array (clausesToJson elseIfs)),
      ("else_branch", otherwiseToJson otherwise)]
  | node@(loop init condition update body) =>
    .object [node.kindField, ("init", init.toJson), ("condition", condition.toJson),
      ("update", update.toJson), ("body", .array (bodyToJson body))]
  | node@(declare name value isMutable) =>
    .object [node.kindField, ("identifier", .string name), ("value", value.toJson),
      ("mutable", .bool isMutable)]
  | node@(assign name value) =>
    .object [node.kindField, ("identifier", .string name), ("value", value.toJson)]
  | node@(write _ text expression) =>
    .object [node.kindField, ("text", Json.ofOption Json.string text),
      ("expr", optionToJson expression)]
  | node@(ret value) => .object [node.kindField, ("value", value.toJson)]
  | node@(comment text) => .object [node.kindField, ("text", .string text)]

def bodyToJson : List Node → List Json
  | [] => []
  | node :: nodes => node.toJson :: bodyToJson nodes

def clausesToJson : List (Node × List Node) → List Json
  | [] => []
  | (condition, body) :: clauses =>
    .object [("condition", condition.toJson), ("body", .array (bodyToJson body))] ::
      clausesToJson clauses

def otherwiseToJson : Option (List Node) → Json
  | some body => .array (bodyToJson body)
  | none => .null

def optionToJson : Option Node → Json
  | some node => node.toJson
  | none => .null

end

end Node

/-- A program as one array. -/
def programToJson (program : Program) : Json := .array (Node.bodyToJson program)

end Scriptlet
