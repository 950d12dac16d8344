import Scriptlet.Proofs.Comments.Erased
import Scriptlet.Proofs.Run.Fuel

/-!
# Comments change no run

A program and what erasing leaves of it end alike, if one of them ends. A comment costs a run
nothing but a record in its log, and the fuel to see that there is nothing to do: the erased
program ends with the same fuel, and the program with one unit more than the erased one.
-/

namespace Scriptlet

namespace Node

/-- Erasing leaves every expression its value, and every other node its form. -/
theorem evalExpr_erase (env : Env) : ∀ node : Node, evalExpr env node.erase = evalExpr env node
  | .binary left op right => by
    rw [erase, evalExpr, evalExpr, evalExpr_erase env left, evalExpr_erase env right]
  | .number _ | .string _ | .boolean _ | .identifier _ | .comment _ => rfl
  | .branch .. | .loop .. | .declare .. | .assign .. | .ret _ => rfl
  | .write newline _ _ => by cases newline <;> rfl

theorem sameValue_erase (node : Node) : node.SameValue node.erase :=
  fun env ↦ (evalExpr_erase env node).symm

section Similar

variable {N : Node → Node → Prop} {B : List Node → List Node → Prop}

theorem forall₂_eraseClauses (hB : ∀ body, B body (eraseBody body))
    (clauses : List (Node × List Node)) :
    List.Forall₂ (fun clause other ↦ clause.1.SameValue other.1 ∧ B clause.2 other.2)
      clauses (eraseClauses clauses) := by
  induction clauses with
  | nil =>
    rw [eraseClauses]
    exact .nil
  | cons clause rest ih =>
    rw [eraseClauses]
    exact .cons ⟨sameValue_erase clause.1, hB clause.2⟩ ih

theorem similar_erase (hN : ∀ node, N node node.erase) (hB : ∀ body, B body (eraseBody body))
    (node : Node) : node.Similar N B node.erase := by
  cases node with
  | declare name value isMutable =>
    rw [erase]
    exact .declare name isMutable (sameValue_erase value)
  | assign name value =>
    rw [erase]
    exact .assign name (sameValue_erase value)
  | branch condition body elseIfs otherwise =>
    rw [erase]
    refine .branch (sameValue_erase condition) (hB body) (forall₂_eraseClauses hB elseIfs) ?_
    cases otherwise with
    | some body =>
      rw [eraseOtherwise]
      exact .some (hB body)
    | none =>
      rw [eraseOtherwise]
      exact .none
  | loop init condition update body =>
    rw [erase]
    exact .loop (hN init) (sameValue_erase condition) (hN update) (hB body)
  | write newline text expression =>
    rw [erase]
    refine .write newline text ?_
    cases expression with
    | some value =>
      rw [eraseOption]
      exact .some (sameValue_erase value)
    | none =>
      rw [eraseOption]
      exact .none
  | ret value =>
    rw [erase]
    exact .ret (sameValue_erase value)
  | comment text => exact .comment text text
  | binary left op right =>
    have hvalue := sameValue_erase (.binary left op right)
    rw [erase] at hvalue ⊢
    exact .expression rfl rfl hvalue
  | number | string | boolean | identifier => exact .expression rfl rfl (.refl _)

end Similar

end Node

namespace Machine

open Node Outcome

variable {run faster : Runner}

/-- A comment at most runs out of fuel. -/
theorem outruns_runBlock_erase
    (hcomment : ∀ text, Outruns (run (.comment text)) fun machine ↦ .done machine none)
    (hrun : ∀ node, Outruns (run node) (faster node.erase)) (body : List Node) :
    Outruns (runBlock run body) (runBlock faster (eraseBody body)) := by
  induction body with
  | nil =>
    rw [eraseBody]
    exact fun machine other h ↦ follows_done h
  | cons node rest ih =>
    intro machine other h
    cases hnode : node.isComment with
    | true =>
      obtain ⟨text, rfl⟩ := exists_comment hnode
      have hskip := hcomment text machine other h
      rw [eraseBody_comment, runBlock]
      cases hleft : run (.comment text) machine with
      | done left returned =>
        rw [hleft] at hskip
        obtain ⟨_, ⟨⟩, halike⟩ := hskip
        exact ih left other halike
      | failed left error =>
        rw [hleft] at hskip
        obtain ⟨_, ⟨⟩, _⟩ := hskip
      | outOfFuel => trivial
    | false =>
      rw [eraseBody_cons hnode]
      refine (hrun node machine other h).bind fun machine other returned h ↦ ?_
      cases returned with
      | some value => exact follows_done h
      | none => exact ih machine other h

theorem outruns_runBlock_of_erase
    (hcomment : ∀ text, Outruns (fun machine ↦ .done machine none) (faster (.comment text)))
    (hrun : ∀ node, Outruns (run node.erase) (faster node)) (body : List Node) :
    Outruns (runBlock run (eraseBody body)) (runBlock faster body) := by
  induction body with
  | nil =>
    rw [eraseBody]
    exact fun machine other h ↦ follows_done h
  | cons node rest ih =>
    intro machine other h
    cases hnode : node.isComment with
    | true =>
      obtain ⟨text, rfl⟩ := exists_comment hnode
      obtain ⟨right, hright, halike⟩ := hcomment text machine other h
      rw [eraseBody_comment, runBlock, hright]
      exact ih machine right halike
    | false =>
      rw [eraseBody_cons hnode]
      refine (hrun node machine other h).bind fun machine other returned h ↦ ?_
      cases returned with
      | some value => exact follows_done h
      | none => exact ih machine other h

/-! ## Whole runs -/

theorem outruns_exec_comment (blockScope : Bool) (fuel : Nat) (text : String) :
    Outruns (exec blockScope fuel (.comment text)) fun machine ↦ .done machine none := by
  intro machine other h
  cases fuel with
  | zero => trivial
  | succ fuel => exact follows_done ⟨h.env, h.sink⟩

theorem outruns_exec_erase (blockScope : Bool) (fuel : Nat) (node : Node) :
    Outruns (exec blockScope fuel node) (exec blockScope fuel node.erase) := by
  induction fuel generalizing node with
  | zero => exact fun machine other _ ↦ trivial
  | succ fuel ih =>
    intro machine other h
    have hbody := outruns_runBlock_erase (outruns_exec_comment blockScope fuel) ih
    exact outruns_execWith blockScope (Nat.le_refl fuel) (similar_erase ih hbody node) _ _
      ⟨h.env, h.sink⟩

/-- A body of nothing but comments takes one unit more than the empty body it is erased to. -/
theorem outruns_exec_of_erase (blockScope : Bool) (fuel : Nat) (node : Node) :
    Outruns (exec blockScope fuel node.erase) (exec blockScope (fuel + 1) node) := by
  induction fuel generalizing node with
  | zero => exact fun machine other _ ↦ trivial
  | succ fuel ih =>
    intro machine other h
    have hcomment : ∀ text, Outruns (fun machine ↦ .done machine none)
        (exec blockScope (fuel + 1) (.comment text)) :=
      fun text machine other h ↦ follows_done ⟨h.env, h.sink⟩
    have hsimilar : node.Similar
        (flip fun erased node ↦ Outruns (exec blockScope fuel erased)
          (exec blockScope (fuel + 1) node))
        (flip fun erased body ↦ Outruns (runBlock (exec blockScope fuel) erased)
          (runBlock (exec blockScope (fuel + 1)) body)) node.erase :=
      similar_erase ih (outruns_runBlock_of_erase hcomment ih) node
    exact outruns_execWith blockScope (Nat.le_succ fuel) hsimilar.symm _ _ ⟨h.env, h.sink⟩

end Machine

/-- Tokens without their comments are read as the program without its comments, and any program,
read from tokens or not, ends exactly when what erasing leaves of it does, and alike. -/
theorem erase_keeps_meaning :
    (∀ (tokens : List Token) (program : Program), parse tokens = .ok program →
      parse (tokens.filter fun token ↦ !token.kind.isComment) = .ok (Node.eraseBody program)) ∧
    ∀ (program : Program) (blockScope : Bool) (machine : Machine) (ending : Ending (Option Int)),
      (∃ fuel, (machine.interpret blockScope fuel program).seen = some ending) ↔
        ∃ fuel, (machine.interpret blockScope fuel (Node.eraseBody program)).seen =
          some ending := by
  refine ⟨fun _ _ ↦ Grammar.parse_uncommented, fun program blockScope machine ending ↦ ?_⟩
  constructor
  · rintro ⟨fuel, hending⟩
    have herased := Machine.outruns_runBlock_erase (Machine.outruns_exec_comment blockScope fuel)
      (Machine.outruns_exec_erase blockScope fuel) program
    exact ⟨fuel, (herased.interpret machine machine (.refl machine)).seen_eq hending⟩
  · rintro ⟨fuel, hending⟩
    have hprogram := Machine.outruns_runBlock_of_erase
      (fun text machine other h ↦ Outcome.follows_done ⟨h.env, h.sink⟩)
      (Machine.outruns_exec_of_erase blockScope fuel) program
    exact ⟨fuel + 1, (hprogram.interpret machine machine (.refl machine)).seen_eq hending⟩

/-- A comment in a body, one behind it, and a run that returns from the body. -/
def commentedTokens : List Token :=
  [.keyword .ifWord, .keyword .trueWord, .leftBrace, .comment "c", .keyword .ret,
    .keyword .trueWord, .semicolon, .rightBrace, .comment "d", .keyword .ret, .alpha "y",
    .semicolon].map fun kind ↦ ⟨kind, default⟩

def commentedProgram : Program :=
  [.branch (.boolean true) [.comment "c", .ret (.boolean true)] [] none, .ret (.identifier "y")]

theorem erase_keeps_meaning_in_branch :
    parse commentedTokens = .ok commentedProgram ∧
    parse (commentedTokens.filter fun token ↦ !token.kind.isComment) =
      .ok (Node.eraseBody commentedProgram) ∧
    ∃ fuel, ((Machine.start .unlimited .quiet).interpret true fuel
      (Node.eraseBody commentedProgram)).seen = some (.empty, .unlimited, .ok (some 1)) := by
  have hparse : parse commentedTokens = .ok commentedProgram := rfl
  refine ⟨hparse, erase_keeps_meaning.1 _ _ hparse, ?_⟩
  exact (erase_keeps_meaning.2 commentedProgram true _ _).1 ⟨3, rfl⟩

end Scriptlet
