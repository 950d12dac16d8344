import Scriptlet.Proofs.Viable.Basic

/-!
# Where the reader of expressions stops

Literals, operands and the climb through the operators track the levels of the grammar. An operand
that is there makes a whole expression, so that a half-read one can always be completed: behind an
operator or an opening parenthesis by any operand and the parentheses that are missing.
-/

namespace Scriptlet.Viable

open Scriptlet.Parser Scriptlet.Grammar

variable {room wide rounds : Setting → Nat} {setting : Setting} {tokens : List Token}

/-! ## Names and string literals -/

/-- A name, which is one token. -/
def Named (kinds : List TokenKind) (name : String) : Prop :=
  ∃ kind : TokenKind, kinds = [kind] ∧ kind.identifier? = some name

theorem Named.length_eq_one {used : List Token} {name : String}
    (h : Named (used.map Token.kind) name) : used.length = 1 := by
  obtain ⟨kind, hkinds, _⟩ := h
  rw [← List.length_map Token.kind, hkinds]
  rfl

theorem identifier_eq_error {ending : Span}
    (h : Apart (fun kind ↦ kind.isIdentifier = true) tokens) :
    identifier ending tokens = .error (mismatch ending "identifier" tokens) := by
  unfold identifier
  split
  · exact (apart_cons.1 h rfl).elim
  · exact (apart_cons.1 h rfl).elim
  · rfl

theorem tracks_identifier :
    Tracks room (fun setting ↦ identifier setting.ending) Named setting tokens := by
  by_cases hkind : Apart (fun kind ↦ kind.isIdentifier = true) tokens
  · exact tracks_mismatch "identifier" (fun _ _ ↦ identifier_eq_error) hkind
      ⟨[.alpha ""], "", .alpha "", rfl, rfl⟩
  · obtain ⟨⟨kind, span⟩, rest, rfl, hname⟩ := exists_cons_of_not_apart hkind
    obtain ⟨name, hname⟩ := Option.isSome_iff_exists.1 hname
    exact tracks_token (fun other tail ↦ identifier_cons hname span tail) ⟨kind, rfl, hname⟩

theorem tracks_stringLiteral :
    Tracks room (fun setting ↦ stringLiteral setting.ending) Quoted setting tokens := by
  refine tracks_expect (fun _ ↦ Nat.le_succ _) ⟨_, "", .quoted ""⟩ fun rest _ ↦ ?_
  by_cases hcontent : Apart (fun kind ↦ ∃ text, kind = .content text) rest
  · refine tracks_mismatch "string content" (fun other tail htail ↦ ?_) hcontent
      ⟨[.content "", .quote], "", .quoted ""⟩
    split
    · exact (apart_cons.1 htail ⟨_, rfl⟩).elim
    · rfl
  · obtain ⟨⟨_, span⟩, others, rfl, text, rfl⟩ := exists_cons_of_not_apart hcontent
    have hclosing : Tracks room
        (fun setting rest ↦ expect setting.ending .quote rest >>= fun rest ↦ .ok (text, rest))
        (fun kinds value ↦ Quoted (.quote :: .content text :: kinds) value) setting others :=
      tracks_expect (fun _ ↦ Nat.le_succ _) ⟨[], text, .quoted text⟩ fun _ _ ↦
        tracks_pure (.quoted text)
    exact hclosing.cons (fun _ ↦ Nat.le_succ _) rfl fun _ _ _ _ ↦ rfl

/-! ## Operands -/

/-- Any operand completes what is missing one, at whatever level. -/
theorem extendable_level (least : Nat) : Extendable (Grammar.Level least) [] := by
  have hoperand : Grammar.Level (least + 5) [.keyword .trueWord] (.boolean true) :=
    Operand.atom .true
  exact ⟨_, _, hoperand.mono (Nat.le_add_right least 5)⟩

/-- What follows an opening parenthesis. -/
def inside (ending : Span) (expression : Reader Node) : Reader Node := fun tokens ↦ do
  let (inner, rest) ← expression tokens
  let rest ← expect ending .rightParen rest
  return (inner, rest)

theorem tracks_inside {expressions : Setting → Reader Node}
    (h : Tracks room expressions Comparison setting tokens) :
    Tracks room (fun setting ↦ inside setting.ending (expressions setting))
      (fun kinds node ↦ Operand (.leftParen :: kinds) node) setting tokens := by
  refine h.then (fun kinds node hnode ↦ ⟨_, node, .parenthesised hnode⟩)
    fun used node rest hnode _ ↦ ?_
  exact tracks_expect (fun _ ↦ Nat.le_succ _) ⟨[], node, .parenthesised hnode⟩ fun _ _ ↦
    tracks_pure (.parenthesised hnode)

theorem tracks_primary {expressions : Setting → Reader Node}
    (hroom : ∀ other, room other ≤ wide other + 1)
    (hexpression : ∀ rest : List Token, rest.length < tokens.length →
      Tracks wide expressions Comparison setting rest) :
    Tracks room (fun setting ↦ primary setting.ending (expressions setting)) Operand setting
      tokens := by
  have hextendable : Extendable Operand [] := extendable_level 5
  cases tokens with
  | nil =>
    exact tracks_of_refuses rfl (.inl ⟨_, rfl⟩) hextendable fun _ _ hfront ↦
      absurd hfront not_sameFront_nil
  | cons token rest =>
    obtain ⟨kind, span⟩ := token
    cases kind with
    | number digits => exact tracks_token (fun _ _ ↦ rfl) (.atom (.number digits))
    | alpha name | alphaNum name => exact tracks_token (fun _ _ ↦ rfl) (.atom (.identifier rfl))
    | quote =>
      have htext : ∀ kinds text, Quoted kinds text → Operand kinds (.string text) :=
        fun _ _ h ↦ .atom (.string h)
      exact (tracks_stringLiteral.map Node.string htext).congr_cons fun _ _ ↦ rfl
    | leftParen =>
      exact (tracks_inside (hexpression rest (Nat.lt_succ_self _))).cons hroom rfl
        fun _ _ _ _ ↦ rfl
    | keyword word =>
      cases word with
      | trueWord => exact tracks_token (fun _ _ ↦ rfl) (.atom .true)
      | falseWord => exact tracks_token (fun _ _ ↦ rfl) (.atom .false)
      | _ => exact tracks_unexpected (fun _ _ ↦ rfl) hextendable
    | _ => exact tracks_unexpected (fun _ _ ↦ rfl) hextendable

/-! ## The loop through the operators -/

theorem climb_operator_of_pos {operand : Nat → Reader Node} {least budget : Nat}
    (hbudget : 0 < budget) {op : BinOp} (hleast : least ≤ op.precedence) (left : Node) (span : Span)
    (rest : List Token) :
    climb operand least budget left (⟨.operator op, span⟩ :: rest) =
      operand op.rightPrecedence rest >>= fun (right, rest) ↦
        climb operand least (budget - 1) (.binary left op right) rest := by
  obtain ⟨smaller, rfl⟩ := Nat.exists_eq_add_one.2 hbudget
  exact climb_operator hleast

/-- The loop holds a derivation `left` of a level that no operator in front outranks. The induction
is on the number of tokens in front. -/
theorem tracks_climb {operands : Setting → Nat → Reader Node} {least level : Nat}
    {kinds : List TokenKind} {left : Node} (hlevels : ReadsLevel (room setting) (operands setting))
    (hoperand : ∀ least (rest : List Token), rest.length < tokens.length →
      Tracks room (fun setting ↦ operands setting least) (Grammar.Level least) setting rest)
    (hlength : tokens.length ≤ room setting) (hrounds : tokens.length ≤ rounds setting)
    (hleft : Grammar.Level level kinds left) (hleast : least ≤ level)
    (hnext : Apart (outranks level) tokens) :
    Tracks (fun other ↦ min (room other) (rounds other))
      (fun setting ↦ climb (operands setting) least (rounds setting) left)
      (fun more node ↦ Grammar.Level least (kinds ++ more) node) setting tokens := by
  induction hsize : tokens.length using Nat.strong_induction_on
    generalizing tokens rounds level kinds left with
  | _ size ih =>
    subst hsize
    by_cases hstop : Apart (binds least) tokens
    · refine tracks_of_leaves (climb_eq_of_apart hstop) ?_ fun other tail hfront _ ↦
        climb_eq_of_apart (hfront.apart hstop)
      rw [List.append_nil]
      exact hleft.mono hleast
    obtain ⟨op, span, rest, rfl, hprecedence⟩ := exists_operator_of_not_apart hstop
    have hlevel : Grammar.Level (leftLevel op) kinds left := by
      apply hleft.mono
      by_contra hhigh
      exact apart_cons.1 hnext ⟨op, rfl, by omega⟩
    rw [List.length_cons] at hlength hrounds
    -- One round less is left for what follows the operator.
    have hrest : Tracks (fun other ↦ min (room other) (rounds other - 1))
        (fun setting tokens ↦ operands setting op.rightPrecedence tokens >>= fun (right, rest) ↦
          climb (operands setting) least (rounds setting - 1) (.binary left op right) rest)
        (fun more node ↦ Grammar.Level least (kinds ++ .operator op :: more) node) setting
        rest := by
      refine ((hoperand op.rightPrecedence rest (Nat.lt_succ_self _)).narrow fun other ↦
        Nat.min_le_left _ _).bind (fun other ↦ min (room other) (rounds other - 1)) ?_ ?_ ?_
      · intro second right hright
        refine ⟨[], .binary left op right, ?_⟩
        rw [List.append_nil]
        exact (hlevel.binary hright).mono hprecedence
      · intro used _ _ other tail htail
        rw [List.length_append] at htail
        omega
      · rintro used right others rfl hright hread
        obtain ⟨_, _, _, happart⟩ := hlevels (by omega) hread
        rw [List.length_append] at hlength hrounds
        have hothers : Tracks (fun other ↦ min (room other) (rounds other - 1))
            (fun setting ↦
              climb (operands setting) least (rounds setting - 1) (.binary left op right))
            (fun more node ↦
              Grammar.Level least ((kinds ++ .operator op :: used.map Token.kind) ++ more) node)
            setting others := by
          refine ih others.length ?_ (fun least rest hshorter ↦ hoperand least rest ?_) (by omega)
            (by omega) (hlevel.binary hright) hprecedence (apart_outranks happart) rfl
          · rw [List.length_cons, List.length_append]
            omega
          · rw [List.length_cons, List.length_append]
            omega
        refine hothers.mono fun more node hnode ↦ ?_
        rwa [List.append_assoc, List.cons_append] at hnode
    exact hrest.cons (fun other ↦ by omega)
      (climb_operator_of_pos (by omega) hprecedence left span rest)
      fun other tail _ htail ↦ climb_operator_of_pos (by omega) hprecedence left span tail

/-! ## Expressions -/

theorem expressionFrom_of_pos {ending : Span} {budget : Nat} (h : 0 < budget) (least : Nat)
    (tokens : List Token) :
    expressionFrom ending budget least tokens =
      primary ending (expressionFrom ending (budget - 1) 0) tokens >>= fun (left, rest) ↦
        climb (expressionFrom ending (budget - 1)) least (budget - 1) left rest := by
  obtain ⟨smaller, rfl⟩ := Nat.exists_eq_add_one.2 h
  rfl

/-- The induction is on the budget, of which an operand and the loop behind it have one less. -/
theorem tracks_expressionFrom (least : Nat) (hlength : tokens.length ≤ setting.budget) :
    Tracks Setting.budget (fun setting ↦ expressionFrom setting.ending setting.budget least)
      (Grammar.Level least) setting tokens := by
  induction hbudget : setting.budget generalizing setting tokens least with
  | zero =>
    have hnil : tokens = [] := List.length_eq_zero_iff.1 (by omega)
    subst hnil
    refine tracks_of_refuses ?_ (.inl ⟨"expression", rfl⟩) (extendable_level least) fun _ _ hfront ↦
      absurd hfront not_sameFront_nil
    rw [hbudget]
    rfl
  | succ budget ih =>
    have hoperand : ∀ least (rest : List Token), rest.length < tokens.length →
        Tracks (fun other ↦ other.budget - 1)
          (fun setting ↦ expressionFrom setting.ending (setting.budget - 1) least)
          (Grammar.Level least) setting rest := by
      intro least rest hshorter
      have hless := Setting.budget_less_of_succ hbudget
      exact (ih least (by omega) hless).comap Setting.less rfl
    have hclimbing : Tracks Setting.budget
        (fun setting tokens ↦
          primary setting.ending (expressionFrom setting.ending (setting.budget - 1) 0) tokens >>=
            fun (left, rest) ↦ climb (expressionFrom setting.ending (setting.budget - 1)) least
              (setting.budget - 1) left rest)
        (Grammar.Level least) setting tokens := by
      refine (tracks_primary (fun _ ↦ by omega) fun rest ↦ hoperand 0 rest).bind
        (fun other ↦ min (other.budget - 1) (other.budget - 1)) ?_ ?_ ?_
      · intro kinds node hnode
        have hlevel : Grammar.Level (least + 5) kinds node := hnode
        refine ⟨[], node, ?_⟩
        rw [List.append_nil]
        exact hlevel.mono (Nat.le_add_right least 5)
      · intro used node hnode other tail htail
        have hused := hnode.length_pos
        rw [List.length_append] at htail
        omega
      · rintro used left rest rfl hleft _
        have hused := hleft.length_pos
        rw [List.length_append] at hlength
        have hlevel : Grammar.Level (least + 5) (used.map Token.kind) left := hleft
        refine tracks_climb ?_ (fun least rest hshorter ↦ hoperand least rest ?_) (by omega)
          (by omega) hlevel (Nat.le_add_right least 5) (apart_outranks_five least rest)
        · exact expressionFrom_sound setting.ending (setting.budget - 1)
        · rw [List.length_append]
          omega
    refine hclimbing.congr ?_ fun other tail hfront htail ↦ ?_
    · exact expressionFrom_of_pos (by omega) least tokens
    · obtain ⟨_, _, _, rfl, rfl⟩ := hfront
      rw [List.length_cons] at htail
      exact expressionFrom_of_pos (by omega) least _

theorem tracks_expression (hlength : tokens.length ≤ setting.budget) :
    Tracks Setting.budget (fun setting ↦ expression setting.ending setting.budget) Comparison
      setting tokens :=
  tracks_expressionFrom 0 hlength

/-- What stands behind an operator or in parentheses is read with one less. -/
theorem tracks_operand (least : Nat) (hlength : tokens.length ≤ setting.budget - 1) :
    Tracks (fun other ↦ other.budget - 1)
      (fun setting ↦ expressionFrom setting.ending (setting.budget - 1) least)
      (Grammar.Level least) setting tokens :=
  (tracks_expressionFrom least hlength : Tracks _ _ _ setting.less tokens).comap Setting.less rfl

end Scriptlet.Viable
