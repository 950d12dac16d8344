/-!
# Binary operators

The twelve operators with their written symbols and how tightly they bind. Comparisons bind
weakest and `^` tightest; only `^` groups to the right.
-/

namespace Scriptlet

inductive BinOp where
  | add | sub | mul | div | mod | pow
  | gt | lt | ge | le | eq | ne
deriving DecidableEq, Repr, Inhabited

namespace BinOp

def symbol : BinOp → String
  | add => "+"
  | sub => "-"
  | mul => "*"
  | div => "/"
  | mod => "%"
  | pow => "^"
  | gt => ">"
  | lt => "<"
  | ge => ">="
  | le => "<="
  | eq => "=="
  | ne => "!="

/-- The operator's name in a written tree. -/
def name : BinOp → String
  | add => "Add"
  | sub => "Sub"
  | mul => "Mul"
  | div => "Div"
  | mod => "Mod"
  | pow => "Pow"
  | gt => "Gt"
  | lt => "Lt"
  | ge => "Ge"
  | le => "Le"
  | eq => "Eq"
  | ne => "Ne"

def all : List BinOp := [add, sub, mul, div, mod, pow, gt, lt, ge, le, eq, ne]

def ofSymbol? (text : String) : Option BinOp :=
  all.find? fun op ↦ op.symbol == text

theorem ofSymbol?_symbol (op : BinOp) : ofSymbol? op.symbol = some op := by
  cases op <;> rfl

/-- How tightly the operator binds: the larger, the tighter. -/
def precedence : BinOp → Nat
  | pow => 4
  | mul | div | mod => 3
  | add | sub => 2
  | gt | lt | ge | le | eq | ne => 1

def isRightAssociative : BinOp → Bool
  | pow => true
  | _ => false

/-- The least precedence of an operator that may stand unparenthesised in the right operand. -/
def rightPrecedence (op : BinOp) : Nat :=
  if op.isRightAssociative then op.precedence else op.precedence + 1

end BinOp

end Scriptlet
