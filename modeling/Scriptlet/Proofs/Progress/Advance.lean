import Scriptlet.Proofs.Grammar.Program
import Scriptlet.Proofs.Progress.Bounded
import Scriptlet.Proofs.Progress.Size

/-!
# Every token pays for a node

Reading ends because each reader takes tokens. How many it takes is known from what it makes of
them: each token that is taken pays for at most one node, so that a reader that makes a node has
moved on. The account goes along with the steps of a reader, as the credit of what is already
read, and shows at the same time that the bounded readers never reach their bounds.
-/

namespace Scriptlet.Parser

open Attempt Grammar Node

/-- The attempt ends with the result, and what is read costs no more than there is credit and tokens
are taken. -/
structure Advances {α : Type} (credit : Nat) (cost : α → Nat) (tokens : List Token)
    (result : Except Error (α × List Token)) (attempt : Attempt (α × List Token)) : Prop where
  ends : attempt = finished result
  pays {value : α} {rest : List Token} (h : result = .ok (value, rest)) :
    rest <:+ tokens ∧ cost value + rest.length ≤ credit + tokens.length

section Advances

variable {α β : Type} {credit : Nat} {cost : α → Nat} {total : β → Nat} {tokens : List Token}

theorem advances_error (error : Error) :
    Advances credit cost tokens (.error error) (throw error) where
  ends := rfl
  pays h := by cases h

theorem advances_ok {value : α} (h : cost value ≤ credit) :
    Advances credit cost tokens (.ok (value, tokens)) (pure (value, tokens)) where
  ends := rfl
  pays hread := by
    cases hread
    exact ⟨List.suffix_refl tokens, Nat.add_le_add_right h tokens.length⟩

variable {result : Except Error (α × List Token)} {attempt : Attempt (α × List Token)}

theorem Advances.mono {more : Nat} (h : Advances credit cost tokens result attempt)
    (hmore : credit ≤ more) : Advances more cost tokens result attempt where
  ends := h.ends
  pays hread := by
    obtain ⟨hsuffix, hcost⟩ := h.pays hread
    exact ⟨hsuffix, by omega⟩

/-- The token in front adds to the credit. -/
theorem Advances.cons {token : Token} {rest : List Token}
    (h : Advances (credit + 1) cost rest result attempt) :
    Advances credit cost (token :: rest) result attempt where
  ends := h.ends
  pays hread := by
    obtain ⟨hsuffix, hcost⟩ := h.pays hread
    rw [List.length_cons]
    exact ⟨hsuffix.trans (List.suffix_cons token rest), by omega⟩

/-- A token that pays for nothing. -/
theorem Advances.skip {token : Token} {rest : List Token}
    (h : Advances 0 cost rest result attempt) : Advances 0 cost (token :: rest) result attempt :=
  (h.mono (Nat.zero_le 1)).cons

theorem advances_token {token : Token} {rest : List Token} {value : α}
    (h : cost value ≤ credit + 1) :
    Advances credit cost (token :: rest) (.ok (value, rest)) (pure (value, rest)) :=
  (advances_ok h).cons

/-- What the first step reads is all the credit there is for the next one. -/
theorem Advances.bind_spent {next : α × List Token → Except Error (β × List Token)}
    {follow : α × List Token → Attempt (β × List Token)}
    (h : Advances credit cost tokens result attempt)
    (hnext : ∀ value rest, cost value + rest.length ≤ credit + tokens.length →
      Advances (cost value) total rest (next (value, rest)) (follow (value, rest))) :
    Advances credit total tokens (result >>= next) (attempt >>= follow) where
  ends := by
    apply finished_bind h.ends
    rintro ⟨value, rest⟩ hread
    exact (hnext value rest (h.pays hread).2).ends
  pays hresult := by
    obtain ⟨⟨value, rest⟩, hread, hlast⟩ := bind_eq_ok_iff.1 hresult
    obtain ⟨hsuffix, hcost⟩ := h.pays hread
    obtain ⟨hlater, htotal⟩ := (hnext value rest hcost).pays hlast
    exact ⟨hlater.trans hsuffix, Nat.le_trans htotal hcost⟩

/-- Credit that is not needed is kept. -/
theorem Advances.keep (h : Advances 0 cost tokens result attempt) :
    Advances credit (fun value ↦ cost value + credit) tokens result attempt where
  ends := h.ends
  pays hread := by
    obtain ⟨hsuffix, hcost⟩ := h.pays hread
    exact ⟨hsuffix, by omega⟩

/-- What the first step reads is further credit for the next one. -/
theorem Advances.bind {next : α × List Token → Except Error (β × List Token)}
    {follow : α × List Token → Attempt (β × List Token)}
    (h : Advances 0 cost tokens result attempt)
    (hnext : ∀ value rest, cost value + rest.length ≤ tokens.length →
      Advances (cost value + credit) total rest (next (value, rest)) (follow (value, rest))) :
    Advances credit total tokens (result >>= next) (attempt >>= follow) :=
  h.keep.bind_spent fun value rest hcost ↦ hnext value rest (by omega)

theorem Advances.map (h : Advances 0 cost tokens result attempt) (build : α → β)
    (hbuild : ∀ value, total (build value) ≤ cost value + credit) :
    Advances credit total tokens (result >>= fun (value, rest) ↦ .ok (build value, rest))
      (attempt >>= fun (value, rest) ↦ pure (build value, rest)) :=
  h.bind fun value _ _ ↦ advances_ok (hbuild value)

theorem advances_lift (h : ∀ {value rest}, result = .ok (value, rest) →
    rest <:+ tokens ∧ cost value + rest.length ≤ tokens.length) :
    Advances 0 cost tokens result (liftM result) where
  ends := rfl
  pays hread := by
    obtain ⟨hsuffix, hcost⟩ := h hread
    exact ⟨hsuffix, by omega⟩

variable (ending : Span)

/-- The expected token adds to the credit. -/
theorem advances_expect {kind : TokenKind} {next : List Token → Except Error (β × List Token)}
    {follow : List Token → Attempt (β × List Token)}
    (hnext : ∀ rest, rest.length < tokens.length →
      Advances (credit + 1) total rest (next rest) (follow rest)) :
    Advances credit total tokens (expect ending kind tokens >>= next)
      (liftM (expect ending kind tokens) >>= follow) := by
  cases hread : expect ending kind tokens with
  | ok rest =>
    obtain ⟨span, rfl⟩ := expect_eq_ok_iff.1 hread
    exact (hnext rest (Nat.lt_succ_self _)).cons
  | error error => exact advances_error error

theorem advances_identifier :
    Advances 0 (fun _ ↦ 1) tokens (identifier ending tokens)
      (liftM (identifier ending tokens)) := by
  apply advances_lift
  intro name rest hread
  obtain ⟨token, rfl, _⟩ := identifier_eq_ok_iff.1 hread
  rw [List.length_cons]
  exact ⟨List.suffix_cons token rest, by omega⟩

theorem advances_stringLiteral :
    Advances 0 (fun _ ↦ 1) tokens (stringLiteral ending tokens)
      (liftM (stringLiteral ending tokens)) := by
  apply advances_lift
  intro text rest hread
  obtain ⟨used, rfl, hquoted⟩ := stringLiteral_eq_ok_iff.1 hread
  obtain ⟨span, inside, rfl⟩ := hquoted.exists_quote
  rw [List.length_append, List.length_cons]
  exact ⟨List.suffix_append _ rest, by omega⟩

end Advances

variable {ending : Span} {tokens : List Token} {budget bound : Nat}

/-! ## Expressions -/

theorem advances_primary {expression : Reader Node} {bounded : BoundedReader Node}
    (h : ∀ rest, rest.length < tokens.length →
      Advances 0 size rest (expression rest) (bounded rest)) :
    Advances 0 size tokens (primary ending expression tokens)
      (Bounded.primary ending bounded tokens) := by
  obtain _ | ⟨⟨kind, span⟩, rest⟩ := tokens
  · exact advances_error _
  · cases kind with
    | number | alpha | alphaNum =>
      apply advances_token
      exact Nat.le_refl 1
    | quote => exact (advances_stringLiteral ending).map Node.string fun _ ↦ Nat.le_refl 1
    | keyword word =>
      cases word with
      | trueWord | falseWord =>
        apply advances_token
        exact Nat.le_refl 1
      | _ => exact advances_error _
    | leftParen =>
      refine Advances.cons ((h rest (Nat.lt_succ_self _)).bind fun inner rest _ ↦ ?_)
      refine advances_expect ending fun rest _ ↦ ?_
      exact advances_ok (Nat.le_add_right_of_le (Nat.le_add_right _ _))
    | _ => exact advances_error _

/-- The invariant of the loop: the tokens taken so far have paid for `left`. -/
theorem advances_climb {operand : Nat → Reader Node} {bounded : Nat → BoundedReader Node}
    {room rounds : Nat} (h : ∀ least rest, rest.length ≤ room →
      Advances 0 size rest (operand least rest) (bounded least rest))
    (least : Nat) (left : Node) (hroom : tokens.length ≤ room) (hrounds : tokens.length ≤ rounds)
    (hbound : tokens.length < bound) :
    Advances left.size size tokens (climb operand least rounds left tokens)
      (Bounded.climb bounded least bound left tokens) := by
  induction bound generalizing rounds left tokens with
  | zero => omega
  | succ bound ih =>
    obtain _ | ⟨⟨kind, span⟩, rest⟩ := tokens
    · cases rounds <;> exact advances_ok (Nat.le_refl _)
    rw [List.length_cons] at hroom hrounds hbound
    obtain _ | rounds := rounds
    · omega
    cases hbinds : kind.precedence? with
    | none =>
      simp only [climb, Bounded.climb, hbinds]
      exact advances_ok (Nat.le_refl _)
    | some precedence =>
      obtain ⟨op, hop⟩ := exists_binOp_of_precedence? hbinds
      simp only [climb, Bounded.climb, hbinds, hop]
      split
      · exact advances_ok (Nat.le_refl _)
      · apply Advances.cons
        refine (h _ rest (by omega)).bind fun right rest hright ↦ ?_
        refine (ih (.binary left op right) (by omega) (by omega) (by omega)).mono ?_
        rw [size_binary]
        omega

theorem advances_expressionFrom (least : Nat) (hbudget : tokens.length ≤ budget)
    (hbound : tokens.length < bound) :
    Advances 0 size tokens (expressionFrom ending budget least tokens)
      (Bounded.expressionFrom ending bound least tokens) := by
  induction bound generalizing budget least tokens with
  | zero => omega
  | succ bound ih =>
    obtain _ | budget := budget
    · rw [List.length_eq_zero_iff.1 (Nat.le_zero.1 hbudget)]
      exact advances_error _
    · have hprimary : Advances 0 size tokens
          (primary ending (expressionFrom ending budget 0) tokens)
          (Bounded.primary ending (Bounded.expressionFrom ending bound 0) tokens) :=
        advances_primary fun rest hrest ↦ ih 0 (by omega) (by omega)
      refine hprimary.bind fun left rest hleft ↦ ?_
      -- The operand is a node and has taken a token, so that the loop has room for the others.
      have hpos := left.size_pos
      exact advances_climb (fun least others hothers ↦ ih least (by omega) (by omega)) least left
        (Nat.le_refl rest.length) (by omega) (by omega)

theorem advances_expression (hbudget : tokens.length ≤ budget) (hbound : tokens.length < bound) :
    Advances 0 size tokens (expression ending budget tokens)
      (Bounded.expression ending bound tokens) :=
  advances_expressionFrom 0 hbudget hbound

/-! ## Statements -/

theorem advances_bindingValue (hbudget : tokens.length ≤ budget) (hbound : tokens.length < bound) :
    Advances 0 size tokens (bindingValue ending budget tokens)
      (Bounded.bindingValue ending bound tokens) := by
  have hexpression : Advances 0 size tokens (expression ending budget tokens)
      (Bounded.expression ending bound tokens) := advances_expression hbudget hbound
  obtain _ | ⟨⟨kind, span⟩, rest⟩ := tokens
  · exact hexpression
  · cases kind with
    | quote => exact (advances_stringLiteral ending).map Node.string fun _ ↦ Nat.le_refl 1
    | keyword word =>
      cases word with
      | trueWord | falseWord =>
        apply advances_token
        exact Nat.le_refl 1
      | _ => exact hexpression
    | _ => exact hexpression

/-- The name of a binding pays for its node. -/
theorem advances_binding {build : String → Node → Node}
    (hbuild : ∀ name value, (build name value).size = value.size + 1)
    (hbudget : tokens.length ≤ budget + 1) (hbound : tokens.length ≤ bound) :
    Advances 0 size tokens (binding ending build budget tokens)
      (Bounded.binding ending build bound tokens) := by
  refine (advances_identifier ending).bind fun name rest _ ↦ ?_
  refine advances_expect ending fun rest _ ↦ ?_
  refine (advances_bindingValue (by omega) (by omega)).bind fun value rest _ ↦ ?_
  refine advances_expect ending fun rest _ ↦ advances_ok ?_
  rw [hbuild]
  omega

theorem advances_declaration (hbudget : tokens.length ≤ budget + 1)
    (hbound : tokens.length ≤ bound) :
    Advances 0 size tokens (declaration ending budget tokens)
      (Bounded.declaration ending bound tokens) := by
  have himmutable : Advances 0 size tokens
      (binding ending (fun name value ↦ .declare name value false) budget tokens)
      (Bounded.binding ending (fun name value ↦ .declare name value false) bound tokens) :=
    advances_binding (fun _ _ ↦ rfl) hbudget hbound
  obtain _ | ⟨⟨kind, span⟩, rest⟩ := tokens
  · exact himmutable
  rw [List.length_cons] at hbudget hbound
  cases kind with
  | keyword word =>
    cases word with
    | mutable =>
      have hmutable : Advances 0 size rest
          (binding ending (fun name value ↦ .declare name value true) budget rest)
          (Bounded.binding ending (fun name value ↦ .declare name value true) bound rest) :=
        advances_binding (fun _ _ ↦ rfl) (by omega) (by omega)
      exact hmutable.skip
    | _ => exact himmutable
  | _ => exact himmutable

theorem advances_assignment (hbudget : tokens.length ≤ budget + 1)
    (hbound : tokens.length ≤ bound) :
    Advances 0 size tokens (assignment ending budget tokens)
      (Bounded.assignment ending bound tokens) :=
  advances_binding (fun _ _ ↦ rfl) hbudget hbound

theorem advances_loopInit (hbudget : tokens.length ≤ budget + 1)
    (hbound : tokens.length ≤ bound) :
    Advances 0 size tokens (loopInit ending budget tokens)
      (Bounded.loopInit ending bound tokens) := by
  have hassignment : Advances 0 size tokens (assignment ending budget tokens)
      (Bounded.assignment ending bound tokens) := advances_assignment hbudget hbound
  obtain _ | ⟨⟨kind, span⟩, rest⟩ := tokens
  · exact hassignment
  cases kind with
  | keyword word =>
    cases word with
    | define =>
      rw [List.length_cons] at hbudget hbound
      exact (advances_declaration (by omega) (by omega)).skip
    | mutable => exact advances_declaration hbudget hbound
    | _ => exact hassignment
  | _ => exact hassignment

theorem advances_loopUpdate (hbudget : tokens.length ≤ budget) (hbound : tokens.length < bound) :
    Advances 0 size tokens (loopUpdate ending budget tokens)
      (Bounded.loopUpdate ending bound tokens) := by
  have hexpression : Advances 0 size tokens (expression ending budget tokens)
      (Bounded.expression ending bound tokens) := advances_expression hbudget hbound
  obtain _ | ⟨⟨kind, first⟩, _ | ⟨⟨follower, second⟩, rest⟩⟩ := tokens
  · exact hexpression
  · cases kind <;> exact hexpression
  rw [List.length_cons, List.length_cons] at hbudget hbound
  cases kind with
  | alpha name | alphaNum name =>
    cases follower with
    | assign =>
      have hvalue : Advances 0 size rest (expression ending budget rest)
          (Bounded.expression ending bound rest) := advances_expression (by omega) (by omega)
      exact (hvalue.map (Node.assign name) fun _ ↦ Nat.le_refl _).cons.skip
    | _ => exact hexpression
  | _ => exact hexpression

theorem advances_payload (newline : Bool) (hbudget : tokens.length ≤ budget)
    (hbound : tokens.length < bound) :
    Advances 1 size tokens (payload ending newline budget tokens)
      (Bounded.payload ending newline bound tokens) := by
  have hexpression : Advances 0 size tokens (expression ending budget tokens)
      (Bounded.expression ending bound tokens) := advances_expression hbudget hbound
  obtain _ | ⟨⟨kind, span⟩, rest⟩ := tokens
  · exact hexpression.map (fun value ↦ Node.write newline none (some value)) fun _ ↦ Nat.le_refl _
  · cases kind with
    | quote =>
      exact (advances_stringLiteral ending).map (fun text ↦ Node.write newline (some text) none)
        fun _ ↦ Nat.le_succ 1
    | _ =>
      exact hexpression.map (fun value ↦ Node.write newline none (some value))
        fun _ ↦ Nat.le_refl _

theorem advances_write (newline : Bool) (hbudget : tokens.length ≤ budget)
    (hbound : tokens.length < bound) :
    Advances 0 size tokens (write ending newline budget tokens)
      (Bounded.write ending newline bound tokens) := by
  refine advances_expect ending fun rest _ ↦ ?_
  refine (advances_payload newline (by omega) (by omega)).bind_spent fun node rest _ ↦ ?_
  refine advances_expect ending fun rest _ ↦ ?_
  refine advances_expect ending fun rest _ ↦ advances_ok ?_
  omega

theorem advances_ret (hbudget : tokens.length ≤ budget) (hbound : tokens.length < bound) :
    Advances 0 size tokens (ret ending budget tokens) (Bounded.ret ending bound tokens) := by
  refine (advances_expression hbudget hbound).bind fun value rest _ ↦ ?_
  exact advances_expect ending fun rest _ ↦ advances_ok (Nat.le_refl _)

/-! ## Blocks -/

theorem advances_statementsWith {statement : Reader Node} {bounded : BoundedReader Node}
    {room rounds : Nat} (h : ∀ rest, rest.length ≤ room →
      Advances 0 size rest (statement rest) (bounded rest))
    (hroom : tokens.length ≤ room) (hrounds : tokens.length ≤ rounds)
    (hbound : tokens.length < bound) :
    Advances 0 sizeBody tokens (statementsWith statement rounds tokens)
      (Bounded.statementsWith bounded bound tokens) := by
  induction bound generalizing rounds tokens with
  | zero => omega
  | succ bound ih =>
    obtain _ | ⟨token, rest⟩ := tokens
    · cases rounds <;> exact advances_ok (Nat.le_refl 0)
    obtain _ | rounds := rounds
    · rw [List.length_cons] at hrounds
      omega
    by_cases hbrace : token.kind = .rightBrace
    · obtain ⟨_, span⟩ := token
      subst hbrace
      exact advances_ok (Nat.le_refl 0)
    · rw [statementsWith_cons hbrace, Bounded.statementsWith_cons hbrace]
      refine (h _ hroom).bind fun first rest hfirst ↦ ?_
      -- As long as each round takes a token, there is room for the rest.
      have hpos := first.size_pos
      refine (ih (by omega) (by omega) (by omega)).map (first :: ·) fun others ↦ ?_
      rw [sizeBody_cons]
      omega

/-- The braces of a block pay for nothing inside of it. -/
theorem advances_blockWith {statement : Reader Node} {bounded : BoundedReader Node}
    (h : ∀ rest, rest.length < tokens.length → Advances 0 size rest (statement rest) (bounded rest))
    (hbudget : tokens.length ≤ budget + 1) (hbound : tokens.length ≤ bound) :
    Advances 0 (fun body ↦ sizeBody body + 2) tokens (blockWith ending statement budget tokens)
      (Bounded.blockWith ending bounded bound tokens) := by
  refine advances_expect ending fun rest hrest ↦ ?_
  have hbody : Advances 0 sizeBody rest (statementsWith statement budget rest)
      (Bounded.statementsWith bounded bound rest) :=
    advances_statementsWith (fun others hothers ↦ h others (Nat.lt_of_le_of_lt hothers hrest))
      (Nat.le_refl _) (by omega) (by omega)
  refine hbody.bind fun body rest _ ↦ ?_
  exact advances_expect ending fun rest _ ↦ advances_ok (Nat.le_refl _)

section Block

variable {block : Reader (List Node)} {bounded : BoundedReader (List Node)} {room : Nat}
  (hblock : ∀ rest, rest.length ≤ room →
    Advances 0 (fun body ↦ sizeBody body + 2) rest (block rest) (bounded rest))

include hblock

theorem advances_elseIfsWith {expression : Reader Node} {boundedExpression : BoundedReader Node}
    {rounds : Nat} (hexpression : ∀ rest, rest.length ≤ room →
      Advances 0 size rest (expression rest) (boundedExpression rest))
    (hroom : tokens.length ≤ room) (hrounds : tokens.length ≤ rounds)
    (hbound : tokens.length < bound) :
    Advances 0 sizeClauses tokens (elseIfsWith expression block rounds tokens)
      (Bounded.elseIfsWith boundedExpression bounded bound tokens) := by
  induction bound generalizing rounds tokens with
  | zero => omega
  | succ bound ih =>
    obtain _ | ⟨⟨kind, span⟩, rest⟩ := tokens
    · cases rounds <;> exact advances_ok (Nat.le_refl 0)
    rw [List.length_cons] at hroom hrounds hbound
    obtain _ | rounds := rounds
    · omega
    have hnone : Advances 0 sizeClauses (⟨kind, span⟩ :: rest)
        (.ok ([], ⟨kind, span⟩ :: rest)) (pure ([], ⟨kind, span⟩ :: rest)) :=
      advances_ok (Nat.le_refl 0)
    cases kind with
    | keyword word =>
      cases word with
      | elif =>
        apply Advances.skip
        refine (hexpression rest (by omega)).bind fun condition rest _ ↦ ?_
        refine (hblock rest (by omega)).bind fun body rest _ ↦ ?_
        refine (ih (by omega) (by omega) (by omega)).map ((condition, body) :: ·) fun others ↦ ?_
        rw [sizeClauses_cons]
        omega
      | _ => exact hnone
    | _ => exact hnone

theorem advances_otherwiseWith (hroom : tokens.length ≤ room) :
    Advances 0 sizeOtherwise tokens (otherwiseWith block tokens)
      (Bounded.otherwiseWith bounded tokens) := by
  have hnone : Advances 0 sizeOtherwise tokens (.ok (none, tokens)) (pure (none, tokens)) :=
    advances_ok (Nat.le_refl 0)
  obtain _ | ⟨⟨kind, span⟩, rest⟩ := tokens
  · exact hnone
  rw [List.length_cons] at hroom
  cases kind with
  | keyword word =>
    cases word with
    | elseWord =>
      apply Advances.skip
      exact (hblock rest (by omega)).map some fun body ↦ Nat.le_add_right (sizeBody body) 2
    | _ => exact hnone
  | _ => exact hnone

/-- The word `if` has paid for the node. -/
theorem advances_branchWith (hroom : tokens.length ≤ room) (hbudget : tokens.length ≤ budget)
    (hbound : tokens.length < bound) :
    Advances 1 size tokens (branchWith ending block budget tokens)
      (Bounded.branchWith ending bounded bound tokens) := by
  refine (advances_expression hbudget hbound).bind fun condition rest _ ↦ ?_
  refine (hblock rest (by omega)).bind fun body rest _ ↦ ?_
  have helseIfs : Advances 0 sizeClauses rest
      (elseIfsWith (expression ending budget) block budget rest)
      (Bounded.elseIfsWith (Bounded.expression ending bound) bounded bound rest) :=
    advances_elseIfsWith
      (fun others hothers ↦ hblock others (by omega))
      (fun others hothers ↦ advances_expression (by omega) (by omega))
      (Nat.le_refl _) (by omega) (by omega)
  refine helseIfs.bind fun elseIfs rest _ ↦ ?_
  refine (advances_otherwiseWith hblock (by omega)).map (Node.branch condition body elseIfs)
    fun otherwise ↦ ?_
  rw [size_branch]
  omega

/-- The word `for` has paid for the node. -/
theorem advances_loopWith (hroom : tokens.length ≤ room) (hbudget : tokens.length ≤ budget)
    (hbound : tokens.length < bound) :
    Advances 1 size tokens (loopWith ending block budget tokens)
      (Bounded.loopWith ending bounded bound tokens) := by
  refine advances_expect ending fun rest _ ↦ ?_
  refine (advances_loopInit (by omega) (by omega)).bind fun init rest _ ↦ ?_
  refine (advances_expression (by omega) (by omega)).bind fun condition rest _ ↦ ?_
  refine advances_expect ending fun rest _ ↦ ?_
  refine (advances_loopUpdate (by omega) (by omega)).bind fun update rest _ ↦ ?_
  refine advances_expect ending fun rest _ ↦ ?_
  refine (hblock rest (by omega)).map (Node.loop init condition update) fun body ↦ ?_
  rw [size_loop]
  omega

end Block

/-! ## Programs -/

theorem advances_statement (hbudget : tokens.length ≤ budget) (hbound : tokens.length < bound) :
    Advances 0 size tokens (statement ending budget tokens)
      (Bounded.statement ending bound tokens) := by
  induction bound generalizing budget tokens with
  | zero => omega
  | succ bound ih =>
    obtain _ | ⟨⟨kind, span⟩, rest⟩ := tokens
    · cases budget <;> exact advances_error _
    have hlength : (⟨kind, span⟩ :: rest : List Token).length = rest.length + 1 := rfl
    obtain _ | budget := budget
    · omega
    have hblock : ∀ others : List Token, others.length ≤ rest.length →
        Advances 0 (fun body ↦ sizeBody body + 2) others
          (blockWith ending (statement ending budget) budget others)
          (Bounded.blockWith ending (Bounded.statement ending bound) bound others) := by
      intro others hothers
      exact advances_blockWith (fun inside hinside ↦ ih (by omega) (by omega)) (by omega) (by omega)
    cases kind with
    | comment text =>
      apply advances_token
      exact Nat.le_refl 1
    | alpha | alphaNum => exact advances_assignment hbudget (by omega)
    | keyword word =>
      cases word with
      | define => exact (advances_declaration (by omega) (by omega)).skip
      | mutable => exact advances_declaration hbudget (by omega)
      | ifWord => exact (advances_branchWith hblock (Nat.le_refl _) (by omega) (by omega)).cons
      | forWord => exact (advances_loopWith hblock (Nat.le_refl _) (by omega) (by omega)).cons
      | ret => exact (advances_ret (by omega) (by omega)).skip
      | write => exact (advances_write false (by omega) (by omega)).skip
      | writeln => exact (advances_write true (by omega) (by omega)).skip
      | _ => exact advances_error _
    | _ => exact advances_error _

theorem advances_block (hbudget : tokens.length ≤ budget) (hbound : tokens.length < bound) :
    Advances 0 (fun body ↦ sizeBody body + 2) tokens (block ending budget tokens)
      (Bounded.block ending bound tokens) :=
  advances_blockWith (fun rest hrest ↦ advances_statement (by omega) (by omega)) (by omega)
    (by omega)

end Scriptlet.Parser
