import Scriptlet.Node.Basic

/-!
# The names in a program

Every name that stands in a tree is read there, assigned to or declared. All of the tree is
searched, the trees in the place of expressions included.
-/

namespace Scriptlet

/-- What is done with a name where it stands. -/
inductive Role where
  | read | assigned | declared
deriving DecidableEq, Repr

abbrev Mention := Role × String

namespace Node

mutual

/-- The names in a tree, one for each place where one stands. -/
def mentions : Node → List Mention
  | number _ | string _ | boolean _ | comment _ => []
  | identifier name => [(.read, name)]
  | binary left _ right => left.mentions ++ right.mentions
  | branch condition body elseIfs otherwise =>
    condition.mentions ++ mentionsBody body ++ mentionsClauses elseIfs ++
      mentionsOtherwise otherwise
  | loop init condition update body =>
    init.mentions ++ condition.mentions ++ update.mentions ++ mentionsBody body
  | declare name value _ => (.declared, name) :: value.mentions
  | assign name value => (.assigned, name) :: value.mentions
  | write _ _ expression => mentionsOption expression
  | ret value => value.mentions

def mentionsBody : List Node → List Mention
  | [] => []
  | node :: nodes => node.mentions ++ mentionsBody nodes

def mentionsClauses : List (Node × List Node) → List Mention
  | [] => []
  | (condition, body) :: clauses =>
    condition.mentions ++ mentionsBody body ++ mentionsClauses clauses

def mentionsOtherwise : Option (List Node) → List Mention
  | some body => mentionsBody body
  | none => []

def mentionsOption : Option Node → List Mention
  | some node => node.mentions
  | none => []

end

/-- The names that a program reads, assigns to or declares. -/
def names (program : Program) : List String := (mentionsBody program).map Prod.snd

end Node

end Scriptlet
