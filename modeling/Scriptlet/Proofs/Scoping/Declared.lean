import Scriptlet.Node.Basic

/-!
# Where programs declare

The names that the statements of a program declare, one for each declaration, so that a list
without duplicates means that no two declarations share a name. Expressions are not searched: a
declaration that stands in one is never run.
-/

namespace Scriptlet.Node

mutual

/-- The names that a statement declares, at any depth. -/
def declared : Node → List String
  | declare name _ _ => [name]
  | branch _ body elseIfs otherwise =>
    declaredBody body ++ declaredClauses elseIfs ++ declaredOtherwise otherwise
  | loop init _ update body => init.declared ++ update.declared ++ declaredBody body
  | _ => []

def declaredBody : List Node → List String
  | [] => []
  | node :: nodes => node.declared ++ declaredBody nodes

def declaredClauses : List (Node × List Node) → List String
  | [] => []
  | (_, body) :: clauses => declaredBody body ++ declaredClauses clauses

def declaredOtherwise : Option (List Node) → List String
  | some body => declaredBody body
  | none => []

end

/-- All bodies of a branch but the last resort are searched alike. -/
theorem declared_branch (condition : Node) (body : List Node)
    (elseIfs : List (Node × List Node)) (otherwise : Option (List Node)) :
    (branch condition body elseIfs otherwise).declared =
      declaredClauses ((condition, body) :: elseIfs) ++ declaredOtherwise otherwise := by
  rw [declared, declaredClauses]

/-- The names that are declared inside a branch or a loop. -/
def declaredInside : Node → List String
  | declare .. => []
  | node => node.declared

theorem declaredInside_eq_nil {node : Node} (h : node.declaredInside = []) :
    (∃ name value isMutable, node = .declare name value isMutable) ∨ node.declared = [] := by
  cases node with
  | declare name value isMutable => exact .inl ⟨name, value, isMutable, rfl⟩
  | _ => exact .inr h

theorem declared_eq_nil_of_mem {body : List Node} (h : declaredBody body = []) {node : Node}
    (hnode : node ∈ body) : node.declared = [] := by
  induction body with
  | nil => cases hnode
  | cons first rest ih =>
    rw [declaredBody, List.append_eq_nil_iff] at h
    obtain rfl | hrest := List.mem_cons.1 hnode
    · exact h.1
    · exact ih h.2 hrest

mutual

/-- The names that are declared in the update or in the body of a loop. -/
def declaredInRounds : Node → List String
  | branch _ body elseIfs otherwise =>
    declaredInRoundsBody body ++ declaredInRoundsClauses elseIfs ++
      declaredInRoundsOtherwise otherwise
  | loop init _ update body => init.declaredInRounds ++ update.declared ++ declaredBody body
  | _ => []

def declaredInRoundsBody : List Node → List String
  | [] => []
  | node :: nodes => node.declaredInRounds ++ declaredInRoundsBody nodes

def declaredInRoundsClauses : List (Node × List Node) → List String
  | [] => []
  | (_, body) :: clauses => declaredInRoundsBody body ++ declaredInRoundsClauses clauses

def declaredInRoundsOtherwise : Option (List Node) → List String
  | some body => declaredInRoundsBody body
  | none => []

end

theorem declaredInRounds_branch (condition : Node) (body : List Node)
    (elseIfs : List (Node × List Node)) (otherwise : Option (List Node)) :
    (branch condition body elseIfs otherwise).declaredInRounds =
      declaredInRoundsClauses ((condition, body) :: elseIfs) ++
        declaredInRoundsOtherwise otherwise := by
  rw [declaredInRounds, declaredInRoundsClauses]

mutual

theorem declaredInRounds_sublist : ∀ node : Node, node.declaredInRounds.Sublist node.declared
  | .branch _ body elseIfs otherwise => by
    rw [declaredInRounds, declared]
    exact ((declaredInRoundsBody_sublist body).append
      (declaredInRoundsClauses_sublist elseIfs)).append
      (declaredInRoundsOtherwise_sublist otherwise)
  | .loop init _ update body => by
    rw [declaredInRounds, declared]
    exact ((declaredInRounds_sublist init).append_right _).append_right _
  | .number _ | .string _ | .boolean _ | .identifier _ | .binary .. => List.nil_sublist _
  | .declare .. | .assign .. | .write .. | .ret _ | .comment _ => List.nil_sublist _

theorem declaredInRoundsBody_sublist :
    ∀ body : List Node, (declaredInRoundsBody body).Sublist (declaredBody body)
  | [] => .refl _
  | node :: nodes => by
    rw [declaredInRoundsBody, declaredBody]
    exact (declaredInRounds_sublist node).append (declaredInRoundsBody_sublist nodes)

theorem declaredInRoundsClauses_sublist : ∀ clauses : List (Node × List Node),
    (declaredInRoundsClauses clauses).Sublist (declaredClauses clauses)
  | [] => .refl _
  | (_, body) :: clauses => by
    rw [declaredInRoundsClauses, declaredClauses]
    exact (declaredInRoundsBody_sublist body).append (declaredInRoundsClauses_sublist clauses)

theorem declaredInRoundsOtherwise_sublist : ∀ otherwise : Option (List Node),
    (declaredInRoundsOtherwise otherwise).Sublist (declaredOtherwise otherwise)
  | some body => declaredInRoundsBody_sublist body
  | none => .refl _

end

/-- What declares nothing declares nothing in rounds. -/
theorem declaredInRoundsBody_eq_nil {body : List Node} (h : declaredBody body = []) :
    declaredInRoundsBody body = [] :=
  List.eq_nil_of_sublist_nil (h ▸ declaredInRoundsBody_sublist body)

theorem declaredInRounds_eq_nil {node : Node} (h : node.declared = []) :
    node.declaredInRounds = [] :=
  List.eq_nil_of_sublist_nil (h ▸ declaredInRounds_sublist node)

end Scriptlet.Node
