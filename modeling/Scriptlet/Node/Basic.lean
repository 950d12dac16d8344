import Scriptlet.Operator

/-!
# Program trees

A program is a list of nodes. Expressions and statements share one type, because a tree may be
made by hand and put a statement where an expression belongs; running it then fails there.
-/

namespace Scriptlet

inductive Node where
  | number (value : Float)
  | string (value : String)
  | boolean (value : Bool)
  | identifier (name : String)
  | binary (left : Node) (op : BinOp) (right : Node)
  /-- A conditional with its further guarded bodies, tried in order, and its last resort. -/
  | branch (condition : Node) (body : List Node) (elseIfs : List (Node × List Node))
      (otherwise : Option (List Node))
  | loop (init condition update : Node) (body : List Node)
  | declare (name : String) (value : Node) (isMutable : Bool)
  | assign (name : String) (value : Node)
  /-- Output of a text or of an expression's value; a tree can only be run if it has exactly one
  of the two. -/
  | write (newline : Bool) (text : Option String) (expression : Option Node)
  | ret (value : Node)
  | comment (text : String)
deriving Inhabited

abbrev Program := List Node

namespace Node

/-- The name of the node's form. -/
def kind : Node → String
  | number _ => "NumberLiteral"
  | string _ => "StringLiteral"
  | boolean _ => "BooleanLiteral"
  | identifier _ => "Identifier"
  | binary .. => "BinaryExpression"
  | branch .. => "IfStatement"
  | loop .. => "ForStatement"
  | declare .. => "DeclarationStatement"
  | assign .. => "AssignmentStatement"
  | write false _ _ => "WriteStatement"
  | write true _ _ => "WriteLineStatement"
  | ret _ => "ReturnStatement"
  | comment _ => "CommentStatement"

def isExpression : Node → Bool
  | number _ | string _ | boolean _ | identifier _ | binary .. => true
  | _ => false

end Node

end Scriptlet
