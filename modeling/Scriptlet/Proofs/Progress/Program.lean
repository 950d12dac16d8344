import Scriptlet.Proofs.Progress.Advance

/-!
# Reading a program comes to an end

The tokens and a position among them are all that a reader starts from. From every position it ends,
and if it succeeds then it has moved on, by as many tokens at least as there are nodes in what it
has made. So the loops that read the statements of a program or of a block end, and a program has
no more nodes than there are tokens and is not nested any deeper.
-/

namespace Scriptlet.Parser

open Attempt Grammar Node

variable {ending : Span} {tokens : List Token} {budget bound : Nat}

theorem ends_program (hbudget : tokens.length ≤ budget) (hbound : tokens.length < bound) :
    Bounded.program ending bound tokens = finished (program ending budget tokens) := by
  induction bound generalizing budget tokens with
  | zero => omega
  | succ bound ih =>
    obtain _ | ⟨token, rest⟩ := tokens
    · cases budget <;> rfl
    obtain _ | budget := budget
    · rw [List.length_cons] at hbudget
      omega
    by_cases hcomment : ∃ text, token.kind = .comment text
    · obtain ⟨_, span⟩ := token
      obtain ⟨text, rfl⟩ := hcomment
      rw [List.length_cons] at hbudget hbound
      exact ih (by omega) (by omega)
    · rw [not_exists] at hcomment
      rw [program_cons ending budget rest hcomment, Bounded.program_cons ending rest hcomment]
      have hstatement : Advances 0 size (token :: rest)
          (statement ending (budget + 1) (token :: rest))
          (Bounded.statement ending (bound + 1) (token :: rest)) :=
        advances_statement hbudget hbound
      apply finished_bind hstatement.ends
      rintro ⟨first, others⟩ hread
      have hcost := (hstatement.pays hread).2
      have hpos := first.size_pos
      exact finished_bind (ih (by omega) (by omega)) fun _ _ ↦ rfl

theorem sizeBody_le_of_program {result : Program} (hbudget : tokens.length ≤ budget)
    (h : program ending budget tokens = .ok result) : sizeBody result ≤ tokens.length := by
  induction budget generalizing tokens result with
  | zero =>
    cases h
    exact Nat.zero_le _
  | succ budget ih =>
    obtain _ | ⟨token, rest⟩ := tokens
    · cases h
      exact Nat.zero_le _
    by_cases hcomment : ∃ text, token.kind = .comment text
    · obtain ⟨_, span⟩ := token
      obtain ⟨text, rfl⟩ := hcomment
      rw [List.length_cons] at hbudget ⊢
      exact Nat.le_succ_of_le (ih (by omega) h)
    · rw [not_exists] at hcomment
      rw [program_cons ending budget rest hcomment] at h
      obtain ⟨⟨first, others⟩, hfirst, hothers⟩ := bind_eq_ok_iff.1 h
      obtain ⟨nodes, hnodes, hend⟩ := bind_eq_ok_iff.1 hothers
      cases hend
      have hcost := ((advances_statement hbudget (Nat.lt_succ_self _)).pays hfirst).2
      have hpos := first.size_pos
      have hsize := ih (by omega) hnodes
      rw [sizeBody_cons]
      omega

/-- From every position reading ends, and if it succeeds then it stops behind that position, not
before it has taken a token for each node. -/
structure Progresses {α : Type} (tokens : List Token) (size : α → Nat) (reader : Reader α)
    (bounded : Nat → BoundedReader α) : Prop where
  ends {start bound : Nat} (h : (tokens.drop start).length < bound) :
    bounded bound (tokens.drop start) = finished (reader (tokens.drop start))
  moves {start : Nat} {value : α} {rest : List Token}
    (h : reader (tokens.drop start) = .ok (value, rest)) :
    ∃ stop, start < stop ∧ stop ≤ tokens.length ∧ rest = tokens.drop stop ∧
      size value ≤ stop - start

theorem progresses_of_advances {α : Type} {size cost : α → Nat} {reader : Reader α}
    {bounded : Nat → BoundedReader α} (hpos : ∀ value, 0 < cost value)
    (hsize : ∀ value, size value ≤ cost value)
    (h : ∀ {others bound}, others.length ≤ tokens.length → others.length < bound →
      Advances 0 cost others (reader others) (bounded bound others)) :
    Progresses tokens size reader bounded where
  ends hbound := (h (List.drop_sublist _ tokens).length_le hbound).ends
  moves {start value rest} hread := by
    have hadvances := h (List.drop_sublist start tokens).length_le (Nat.lt_succ_self _)
    obtain ⟨hsuffix, hcost⟩ := hadvances.pays hread
    rw [List.length_drop] at hcost
    have hrest := List.suffix_iff_eq_drop.1 (hsuffix.trans (List.drop_suffix start tokens))
    have hvalue := hpos value
    have hnodes := hsize value
    exact ⟨tokens.length - rest.length, by omega, by omega, hrest, by omega⟩

/-- Statements, blocks, expressions of every least precedence and operands are read in steps
forward from wherever the reader stands. Reading a program ends as well, and its tokens are at least
as many as its nodes and as it is deep. -/
theorem progress_of_length_le (ending : Span) (tokens : List Token) {budget : Nat}
    (hbudget : tokens.length ≤ budget) :
    Progresses tokens size (statement ending budget) (Bounded.statement ending) ∧
    Progresses tokens sizeBody (block ending budget) (Bounded.block ending) ∧
    (∀ least, Progresses tokens size (expressionFrom ending budget least)
      fun bound ↦ Bounded.expressionFrom ending bound least) ∧
    Progresses tokens size (primary ending (expressionFrom ending budget 0))
      (fun bound ↦ Bounded.primary ending (Bounded.expressionFrom ending bound 0)) ∧
    (∀ bound, tokens.length < bound →
      Bounded.program (endOf tokens) bound tokens = finished (parse tokens)) ∧
    ∀ program, parse tokens = .ok program →
      sizeBody program ≤ tokens.length ∧ heightBody program ≤ tokens.length := by
  refine ⟨?statements, ?blocks, ?expressions, ?operands, ?ends, ?bounded⟩
  case statements =>
    exact progresses_of_advances size_pos (fun _ ↦ Nat.le_refl _) fun hlength hbound ↦
      advances_statement (Nat.le_trans hlength hbudget) hbound
  case blocks =>
    exact progresses_of_advances (fun _ ↦ Nat.succ_pos _) (fun body ↦ Nat.le_add_right _ 2)
      fun hlength hbound ↦ advances_block (Nat.le_trans hlength hbudget) hbound
  case expressions =>
    intro least
    exact progresses_of_advances size_pos (fun _ ↦ Nat.le_refl _) fun hlength hbound ↦
      advances_expressionFrom least (Nat.le_trans hlength hbudget) hbound
  case operands =>
    refine progresses_of_advances size_pos (fun _ ↦ Nat.le_refl _) fun hlength hbound ↦ ?_
    exact advances_primary fun rest hrest ↦ advances_expressionFrom 0 (by omega) (by omega)
  case ends => exact fun bound hbound ↦ ends_program (Nat.le_refl _) hbound
  case bounded =>
    intro program h
    have hsize := sizeBody_le_of_program (Nat.le_refl _) h
    exact ⟨hsize, Nat.le_trans (heightBody_le_sizeBody program) hsize⟩

/-- A branch on `x` with a comment and the assignment of `x` to `y` inside. -/
def guardedTokens : List Token :=
  [.keyword .ifWord, .alpha "x", .leftBrace, .comment "", .alpha "y", .assign, .alpha "x",
    .semicolon, .rightBrace].map (⟨·, default⟩)

theorem progress_of_length_le_guarded :
    guardedTokens.length ≤ 9 ∧
    Progresses guardedTokens size (statement default 9) (Bounded.statement default) ∧
    ∃ program, parse guardedTokens = .ok program ∧ sizeBody program = 5 ∧
      heightBody program = 3 ∧ sizeBody program ≤ guardedTokens.length := by
  have hlength : guardedTokens.length ≤ 9 := by decide
  obtain ⟨hstatements, -, -, -, -, hbounded⟩ := progress_of_length_le default guardedTokens hlength
  exact ⟨hlength, hstatements, _, rfl, rfl, rfl, (hbounded _ rfl).1⟩

end Scriptlet.Parser
