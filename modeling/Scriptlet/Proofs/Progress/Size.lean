import Scriptlet.Node.Basic

/-!
# The size of a tree

How many nodes a tree has and how deep they are nested. The two are one recursion, which joins what
the nodes inside come to: added up they are counted, and the largest of them is the height.
-/

namespace Scriptlet.Node

mutual

/-- One more than what the nodes inside come to when they are joined. -/
def measure (join : Nat → Nat → Nat) : Node → Nat
  | number _ | string _ | boolean _ | identifier _ | comment _ => 1
  | binary left _ right => join (left.measure join) (right.measure join) + 1
  | branch condition body elseIfs otherwise =>
    join (join (condition.measure join) (measureBody join body))
      (join (measureClauses join elseIfs) (measureOtherwise join otherwise)) + 1
  | loop init condition update body =>
    join (join (init.measure join) (condition.measure join))
      (join (update.measure join) (measureBody join body)) + 1
  | declare _ value _ => value.measure join + 1
  | assign _ value => value.measure join + 1
  | write _ _ expression => measureOption join expression + 1
  | ret value => value.measure join + 1

def measureBody (join : Nat → Nat → Nat) : List Node → Nat
  | [] => 0
  | node :: nodes => join (node.measure join) (measureBody join nodes)

def measureClauses (join : Nat → Nat → Nat) : List (Node × List Node) → Nat
  | [] => 0
  | (condition, body) :: clauses =>
    join (join (condition.measure join) (measureBody join body)) (measureClauses join clauses)

def measureOtherwise (join : Nat → Nat → Nat) : Option (List Node) → Nat
  | some body => measureBody join body
  | none => 0

def measureOption (join : Nat → Nat → Nat) : Option Node → Nat
  | some node => node.measure join
  | none => 0

end

/-- The number of nodes of the tree. -/
def size (node : Node) : Nat := node.measure (· + ·)

def sizeBody (body : List Node) : Nat := measureBody (· + ·) body

/-- The number of nodes on the longest way down one of the trees. -/
def heightBody (body : List Node) : Nat := measureBody max body

def sizeClauses (clauses : List (Node × List Node)) : Nat := measureClauses (· + ·) clauses

def sizeOtherwise (otherwise : Option (List Node)) : Nat := measureOtherwise (· + ·) otherwise

theorem size_binary (left right : Node) (op : BinOp) :
    (binary left op right).size = left.size + right.size + 1 := rfl

theorem size_branch (condition : Node) (body : List Node) (elseIfs : List (Node × List Node))
    (otherwise : Option (List Node)) :
    (branch condition body elseIfs otherwise).size =
      condition.size + sizeBody body + (sizeClauses elseIfs + sizeOtherwise otherwise) + 1 := rfl

theorem size_loop (init condition update : Node) (body : List Node) :
    (loop init condition update body).size =
      init.size + condition.size + (update.size + sizeBody body) + 1 := rfl

theorem sizeBody_cons (node : Node) (nodes : List Node) :
    sizeBody (node :: nodes) = node.size + sizeBody nodes := rfl

theorem sizeClauses_cons (condition : Node) (body : List Node)
    (clauses : List (Node × List Node)) :
    sizeClauses ((condition, body) :: clauses) =
      condition.size + sizeBody body + sizeClauses clauses := rfl

theorem size_pos (node : Node) : 0 < node.size := by
  cases node <;> exact Nat.succ_pos _

/-- Joined by `wide`, no less comes of larger numbers than is joined by `narrow`. -/
def Below (narrow wide : Nat → Nat → Nat) : Prop :=
  ∀ {a b c d : Nat}, a ≤ c → b ≤ d → narrow a b ≤ wide c d

theorem below_max_add : Below max (· + ·) := by
  intro a b c d hac hbd
  exact Nat.max_le.2 ⟨Nat.le_add_right_of_le hac, Nat.le_add_left_of_le hbd⟩

variable {narrow wide : Nat → Nat → Nat}

mutual

theorem measure_le (h : Below narrow wide) : ∀ node : Node,
    node.measure narrow ≤ node.measure wide
  | number _ | string _ | boolean _ | identifier _ | comment _ => Nat.le_refl 1
  | binary left _ right => Nat.succ_le_succ (h (measure_le h left) (measure_le h right))
  | branch condition body elseIfs otherwise =>
    Nat.succ_le_succ (h (h (measure_le h condition) (measureBody_le h body))
      (h (measureClauses_le h elseIfs) (measureOtherwise_le h otherwise)))
  | loop init condition update body =>
    Nat.succ_le_succ (h (h (measure_le h init) (measure_le h condition))
      (h (measure_le h update) (measureBody_le h body)))
  | declare _ value _ => Nat.succ_le_succ (measure_le h value)
  | assign _ value => Nat.succ_le_succ (measure_le h value)
  | write _ _ expression => Nat.succ_le_succ (measureOption_le h expression)
  | ret value => Nat.succ_le_succ (measure_le h value)

theorem measureBody_le (h : Below narrow wide) : ∀ body : List Node,
    measureBody narrow body ≤ measureBody wide body
  | [] => Nat.le_refl 0
  | node :: nodes => h (measure_le h node) (measureBody_le h nodes)

theorem measureClauses_le (h : Below narrow wide) : ∀ clauses : List (Node × List Node),
    measureClauses narrow clauses ≤ measureClauses wide clauses
  | [] => Nat.le_refl 0
  | (condition, body) :: clauses =>
    h (h (measure_le h condition) (measureBody_le h body)) (measureClauses_le h clauses)

theorem measureOtherwise_le (h : Below narrow wide) : ∀ otherwise : Option (List Node),
    measureOtherwise narrow otherwise ≤ measureOtherwise wide otherwise
  | some body => measureBody_le h body
  | none => Nat.le_refl 0

theorem measureOption_le (h : Below narrow wide) : ∀ expression : Option Node,
    measureOption narrow expression ≤ measureOption wide expression
  | some node => measure_le h node
  | none => Nat.le_refl 0

end

/-- Trees are at most as high as they have nodes. -/
theorem heightBody_le_sizeBody (body : List Node) : heightBody body ≤ sizeBody body :=
  measureBody_le below_max_add body

end Scriptlet.Node
