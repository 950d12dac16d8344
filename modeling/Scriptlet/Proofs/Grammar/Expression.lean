import Mathlib.Data.List.Basic
import Scriptlet.Proofs.Grammar.Basic

/-!
# Climbing precedences reads the stratified grammar

The reader of expressions has one loop for all precedences, the grammar one level for each. The
two meet in a numbered family of the levels: an operator wants a left and a right operand of
certain levels, and the loop, on meeting an operator, holds an operand of the level that this
operator wants.

Soundness follows the reader and completeness the derivation. Both need as large a budget as there
are tokens, since a reader that runs out of budget stops too early.
-/

namespace Scriptlet.Grammar

open Scriptlet.Parser

/-! ## What a reader takes -/

theorem bind_eq_ok_iff {α β : Type} {first : Except Error α} {next : α → Except Error β}
    {result : β} :
    first >>= next = .ok result ↔ ∃ value, first = .ok value ∧ next value = .ok result := by
  constructor
  · intro h
    cases first with
    | error e => cases h
    | ok value => exact ⟨value, rfl, h⟩
  · rintro ⟨value, rfl, h⟩
    exact h

@[simp] theorem ok_bind {α β : Type} (value : α) (next : α → Except Error β) :
    (Except.ok value >>= next) = next value := rfl

/-- The first of the tokens, if there is one, is not of a kind that `continues`. -/
def Apart (continues : TokenKind → Prop) (tokens : List Token) : Prop :=
  ∀ token ∈ tokens.head?, ¬continues token.kind

theorem apart_nil (continues : TokenKind → Prop) : Apart continues [] := by
  intro token htoken
  cases htoken

theorem apart_cons {continues : TokenKind → Prop} {token : Token} {rest : List Token} :
    Apart continues (token :: rest) ↔ ¬continues token.kind := by
  simp [Apart]

theorem Apart.mono {narrow wide : TokenKind → Prop} {tokens : List Token}
    (h : Apart wide tokens) (hnarrow : ∀ kind, narrow kind → wide kind) : Apart narrow tokens :=
  fun token htoken hkind ↦ h token htoken (hnarrow token.kind hkind)

theorem exists_cons_of_not_apart {continues : TokenKind → Prop} {tokens : List Token}
    (h : ¬Apart continues tokens) : ∃ token rest, tokens = token :: rest ∧ continues token.kind := by
  cases tokens with
  | nil => exact absurd (apart_nil _) h
  | cons token rest => exact ⟨token, rest, rfl, not_not.1 (mt apart_cons.2 h)⟩

/-- No kind goes on. -/
def never (_ : TokenKind) : Prop := False

theorem apart_never (tokens : List Token) : Apart never tokens := fun _ _ h ↦ h

/-- From inputs within the budget the reader takes what the grammar derives, and all of it unless
a token that `continues` follows. -/
structure Reads {α : Type} (budget : Nat) (reader : Reader α)
    (Derives : List TokenKind → α → Prop) (continues : TokenKind → Prop) : Prop where
  sound {tokens rest : List Token} {value : α} (hbudget : tokens.length ≤ budget)
    (h : reader tokens = .ok (value, rest)) :
    ∃ used, tokens = used ++ rest ∧ Derives (used.map Token.kind) value
  complete {used rest : List Token} {value : α} (hbudget : (used ++ rest).length ≤ budget)
    (h : Derives (used.map Token.kind) value) (hrest : Apart continues rest) :
    reader (used ++ rest) = .ok (value, rest)

theorem identifier_eq_ok_iff {ending : Span} {tokens rest : List Token} {name : String} :
    identifier ending tokens = .ok (name, rest) ↔
      ∃ token, tokens = token :: rest ∧ token.kind.identifier? = some name := by
  constructor
  · intro h
    unfold identifier at h
    split at h <;> cases h
    · exact ⟨_, rfl, rfl⟩
    · exact ⟨_, rfl, rfl⟩
  · rintro ⟨⟨kind, span⟩, rfl, hname⟩
    cases kind <;> cases hname <;> rfl

theorem stringLiteral_eq_ok_iff {ending : Span} {tokens rest : List Token} {text : String} :
    stringLiteral ending tokens = .ok (text, rest) ↔
      ∃ used, tokens = used ++ rest ∧ Quoted (used.map Token.kind) text := by
  constructor
  · intro h
    obtain ⟨inside, hopening, hinside⟩ := bind_eq_ok_iff.1 h
    obtain ⟨opening, rfl⟩ := expect_eq_ok_iff.1 hopening
    split at hinside
    · rename_i middle _
      obtain ⟨others, hclosing, hend⟩ := bind_eq_ok_iff.1 hinside
      obtain ⟨closing, rfl⟩ := expect_eq_ok_iff.1 hclosing
      cases hend
      exact ⟨[⟨.quote, opening⟩, ⟨.content text, middle⟩, ⟨.quote, closing⟩], rfl, .quoted text⟩
    · cases hinside
  · rintro ⟨used, rfl, hquoted⟩
    generalize hkinds : used.map Token.kind = kinds at hquoted
    cases hquoted
    simp only [List.map_eq_cons_iff, List.map_eq_nil_iff] at hkinds
    obtain ⟨⟨_, opening⟩, _, rfl, rfl, ⟨_, middle⟩, _, rfl, rfl, ⟨_, closing⟩, _, rfl, rfl, rfl⟩ :=
      hkinds
    simp [stringLiteral, expect, pure, Except.pure]

theorem Quoted.exists_quote {used : List Token} {text : String}
    (h : Quoted (used.map Token.kind) text) : ∃ span inside, used = ⟨.quote, span⟩ :: inside := by
  generalize hkinds : used.map Token.kind = kinds at h
  cases h
  obtain ⟨⟨_, span⟩, inside, rfl, rfl, _⟩ := List.map_eq_cons_iff.1 hkinds
  exact ⟨span, inside, rfl⟩

/-! ## Levels -/

/-- The level of the expressions whose operators outside of parentheses bind at least as tightly
as a given precedence. -/
def Level : Nat → List TokenKind → Node → Prop
  | 0 | 1 => Comparison
  | 2 => Sum
  | 3 => Product
  | 4 => Power
  | _ => Operand

/-- The level of an operator's left operand. -/
def leftLevel (op : BinOp) : Nat :=
  if op.isRightAssociative then op.precedence + 1 else op.precedence

/-- An operator can take what another has built as its left operand exactly if the reader of the
other's right operand leaves it alone. -/
theorem leftLevel_le_iff (op other : BinOp) :
    leftLevel other ≤ op.precedence ↔ other.precedence < op.rightPrecedence := by
  cases op <;> cases other <;> decide

theorem precedence_le_leftLevel (op : BinOp) : op.precedence ≤ leftLevel op := by
  cases op <;> decide

theorem precedence_le_rightPrecedence (op : BinOp) : op.precedence ≤ op.rightPrecedence := by
  cases op <;> decide

theorem leftLevel_le_five (op : BinOp) : leftLevel op ≤ 5 := by
  cases op <;> decide

theorem Level.looser {level : Nat} {kinds : List TokenKind} {node : Node}
    (h : Level (level + 1) kinds node) : Level level kinds node := by
  match level with
  | 0 => exact h
  | 1 => exact .sum h
  | 2 => exact .product h
  | 3 => exact .power h
  | 4 => exact .operand h
  | _ + 5 => exact h

theorem Level.mono {least level : Nat} {kinds : List TokenKind} {node : Node}
    (h : Level level kinds node) (hleast : least ≤ level) : Level least kinds node := by
  induction hleast with
  | refl => exact h
  | step _ ih => exact ih h.looser

theorem Level.binary {first second : List TokenKind} {left right : Node} {op : BinOp}
    (hleft : Level (leftLevel op) first left) (hright : Level op.rightPrecedence second right) :
    Level op.precedence (first ++ .operator op :: second) (.binary left op right) := by
  cases op with
  | gt | lt | ge | le | eq | ne => exact .compare hleft (by decide) hright
  | add | sub => exact .add hleft (by decide) hright
  | mul | div | mod => exact .multiply hleft (by decide) hright
  | pow => exact .raise hleft hright

/-- A property of numbered levels that the rules of the grammar preserve. -/
structure Hereditary (motive : Nat → List TokenKind → Node → Prop) : Prop where
  looser {level : Nat} {kinds : List TokenKind} {node : Node}
    (h : motive (level + 1) kinds node) : motive level kinds node
  binary {first second : List TokenKind} {left right : Node} (op : BinOp)
    (hleft : motive (leftLevel op) first left) (hright : motive op.rightPrecedence second right) :
    motive op.precedence (first ++ .operator op :: second) (.binary left op right)
  atom {kinds : List TokenKind} {node : Node} (h : Atom kinds node) : motive 5 kinds node
  parenthesised {kinds : List TokenKind} {node : Node} (h : motive 0 kinds node) :
    motive 5 (.leftParen :: (kinds ++ [.rightParen])) node

theorem comparisons_level :
    ∀ op ∈ comparisons, op.precedence = 1 ∧ op.isRightAssociative = false := by decide

theorem sums_level : ∀ op ∈ sums, op.precedence = 2 ∧ op.isRightAssociative = false := by decide

theorem products_level :
    ∀ op ∈ products, op.precedence = 3 ∧ op.isRightAssociative = false := by decide

section Hereditary

variable {motive : Nat → List TokenKind → Node → Prop} (hereditary : Hereditary motive)

include hereditary

theorem Hereditary.binary_at {first second : List TokenKind} {left right : Node} {op : BinOp}
    {level : Nat} (hop : op.precedence = level ∧ op.isRightAssociative = false)
    (hleft : motive level first left) (hright : motive (level + 1) second right) :
    motive level (first ++ .operator op :: second) (.binary left op right) := by
  obtain ⟨rfl, hassociative⟩ := hop
  apply hereditary.binary op
  · rwa [leftLevel, hassociative]
  · rwa [BinOp.rightPrecedence, hassociative]

mutual

theorem Comparison.hereditary {kinds : List TokenKind} {node : Node} :
    Comparison kinds node → motive 1 kinds node
  | .sum h => hereditary.looser h.hereditary
  | .compare hleft hop hright =>
    hereditary.binary_at (comparisons_level _ hop) hleft.hereditary hright.hereditary

theorem Sum.hereditary {kinds : List TokenKind} {node : Node} :
    Sum kinds node → motive 2 kinds node
  | .product h => hereditary.looser h.hereditary
  | .add hleft hop hright =>
    hereditary.binary_at (sums_level _ hop) hleft.hereditary hright.hereditary

theorem Product.hereditary {kinds : List TokenKind} {node : Node} :
    Product kinds node → motive 3 kinds node
  | .power h => hereditary.looser h.hereditary
  | .multiply hleft hop hright =>
    hereditary.binary_at (products_level _ hop) hleft.hereditary hright.hereditary

theorem Power.hereditary {kinds : List TokenKind} {node : Node} :
    Power kinds node → motive 4 kinds node
  | .operand h => hereditary.looser h.hereditary
  | .raise hbase hexponent => hereditary.binary .pow hbase.hereditary hexponent.hereditary

theorem Operand.hereditary {kinds : List TokenKind} {node : Node} :
    Operand kinds node → motive 5 kinds node
  | .atom h => hereditary.atom h
  | .parenthesised h => hereditary.parenthesised (hereditary.looser h.hereditary)

end

end Hereditary

/-! ## The loop -/

/-- The operators that an expression of precedence `least` goes on with. -/
def binds (least : Nat) (kind : TokenKind) : Prop :=
  ∃ op, kind = .operator op ∧ least ≤ op.precedence

/-- The operators that want a left operand of a higher level. -/
def outranks (level : Nat) (kind : TokenKind) : Prop :=
  ∃ op, kind = .operator op ∧ level < leftLevel op

theorem not_binds {kind : TokenKind} (h : kind.precedence? = none) (least : Nat) :
    ¬binds least kind := by
  rintro ⟨op, hop, _⟩
  exact TokenKind.ne_operator h op hop

theorem not_outranks {kind : TokenKind} (h : kind.precedence? = none) (level : Nat) :
    ¬outranks level kind := by
  rintro ⟨op, hop, _⟩
  exact TokenKind.ne_operator h op hop

theorem apart_outranks {op : BinOp} {tokens : List Token}
    (h : Apart (binds op.rightPrecedence) tokens) : Apart (outranks op.precedence) tokens := by
  apply h.mono
  rintro kind ⟨other, rfl, hlevel⟩
  refine ⟨other, rfl, ?_⟩
  have hiff := leftLevel_le_iff op other
  omega

theorem apart_binds {op : BinOp} {tokens : List Token}
    (h : Apart (outranks op.precedence) tokens) : Apart (binds op.rightPrecedence) tokens := by
  apply h.mono
  rintro kind ⟨other, rfl, hlevel⟩
  refine ⟨other, rfl, ?_⟩
  have hiff := leftLevel_le_iff op other
  omega

theorem climb_eq_of_apart {operand : Nat → Reader Node} {least rounds : Nat} {left : Node}
    {tokens : List Token} (h : Apart (binds least) tokens) :
    climb operand least rounds left tokens = .ok (left, tokens) := by
  cases rounds with
  | zero => rfl
  | succ rounds =>
    cases tokens with
    | nil => rfl
    | cons token rest =>
      cases hbinds : token.kind.precedence? with
      | none => simp only [climb, hbinds]
      | some precedence =>
        obtain ⟨op, hop, rfl⟩ := TokenKind.exists_operator_of_precedence? hbinds
        have hloose : op.precedence < least := by
          by_contra hprecedence
          exact apart_cons.1 h ⟨op, hop, by omega⟩
        simp only [climb, hbinds, if_pos hloose]

theorem exists_operator_of_not_apart {least : Nat} {tokens : List Token}
    (h : ¬Apart (binds least) tokens) :
    ∃ op span rest, tokens = ⟨.operator op, span⟩ :: rest ∧ least ≤ op.precedence := by
  obtain ⟨token, rest, rfl, op, hop, hleast⟩ := exists_cons_of_not_apart h
  exact ⟨op, token.span, rest, by rw [← hop], hleast⟩

theorem climb_operator {operand : Nat → Reader Node} {least rounds : Nat} {left : Node}
    {op : BinOp} {span : Span} {rest : List Token} (h : least ≤ op.precedence) :
    climb operand least (rounds + 1) left (⟨.operator op, span⟩ :: rest) =
      operand op.rightPrecedence rest >>= fun (right, rest) ↦
        climb operand least rounds (.binary left op right) rest := by
  simp only [climb, TokenKind.precedence?_operator, binOp_operator, if_neg (Nat.not_lt.2 h)]
  rfl

/-- What `expressionFrom` promises for one precedence: a derivation of that level, up to an operator
that binds less tightly. -/
def ReadsLevel (budget : Nat) (operand : Nat → Reader Node) : Prop :=
  ∀ {least : Nat} {tokens rest : List Token} {node : Node}, tokens.length ≤ budget →
    operand least tokens = .ok (node, rest) →
      ∃ used, tokens = used ++ rest ∧ Level least (used.map Token.kind) node ∧
        Apart (binds least) rest

/-- The invariant of the loop: it holds a derivation `left` of a level that no operator in front
outranks. -/
theorem climb_sound {operand : Nat → Reader Node} {budget least level rounds : Nat}
    (hoperand : ReadsLevel budget operand) {kinds : List TokenKind} {left node : Node}
    {tokens rest : List Token} (hbudget : tokens.length ≤ budget)
    (hrounds : tokens.length ≤ rounds) (hleft : Level level kinds left) (hleast : least ≤ level)
    (hnext : Apart (outranks level) tokens)
    (h : climb operand least rounds left tokens = .ok (node, rest)) :
    ∃ used, tokens = used ++ rest ∧ Level least (kinds ++ used.map Token.kind) node ∧
      Apart (binds least) rest := by
  induction rounds generalizing level kinds left tokens with
  | zero =>
    have hnil : tokens = [] := List.length_eq_zero_iff.1 (Nat.le_zero.1 hrounds)
    subst hnil
    cases h
    exact ⟨[], rfl, by simpa using hleft.mono hleast, apart_nil _⟩
  | succ rounds ih =>
    by_cases hstop : Apart (binds least) tokens
    · rw [climb_eq_of_apart hstop] at h
      cases h
      exact ⟨[], rfl, by simpa using hleft.mono hleast, hstop⟩
    · obtain ⟨op, span, tail, rfl, hprecedence⟩ := exists_operator_of_not_apart hstop
      rw [climb_operator hprecedence] at h
      obtain ⟨⟨right, others⟩, hright, hothers⟩ := bind_eq_ok_iff.1 h
      rw [List.length_cons] at hbudget hrounds
      obtain ⟨operands, rfl, hderived, happart⟩ := hoperand (by omega) hright
      rw [List.length_append] at hbudget hrounds
      have hlevel : Level (leftLevel op) kinds left := by
        apply hleft.mono
        by_contra hhigh
        exact apart_cons.1 hnext ⟨op, rfl, by omega⟩
      obtain ⟨used, rfl, hnode, hrest⟩ := ih (by omega) (by omega) (hlevel.binary hderived)
        hprecedence (apart_outranks happart) hothers
      refine ⟨⟨.operator op, span⟩ :: (operands ++ used), by simp, ?_, hrest⟩
      simpa using hnode

theorem Atom.ne_nil {kinds : List TokenKind} {node : Node} (h : Atom kinds node) : kinds ≠ [] := by
  cases h with
  | string h => cases h; simp
  | _ => simp

theorem hereditary_ne_nil : Hereditary fun _ kinds _ ↦ kinds ≠ [] where
  looser h := h
  binary op hleft hright := by simp
  atom h := h.ne_nil
  parenthesised h := by simp

theorem primary_sound {ending : Span} {operand : Nat → Reader Node} {budget : Nat}
    (hoperand : ReadsLevel budget operand) {tokens rest : List Token} {node : Node}
    (hbudget : tokens.length ≤ budget + 1)
    (h : primary ending (operand 0) tokens = .ok (node, rest)) :
    ∃ used, tokens = used ++ rest ∧ Operand (used.map Token.kind) node := by
  cases tokens with
  | nil => cases h
  | cons token tail =>
    obtain ⟨kind, span⟩ := token
    cases kind with
    | number digits =>
      cases h
      exact ⟨[⟨.number digits, span⟩], rfl, .atom (.number digits)⟩
    | quote =>
      obtain ⟨⟨text, others⟩, htext, hend⟩ := bind_eq_ok_iff.1 h
      cases hend
      obtain ⟨used, hused, hquoted⟩ := stringLiteral_eq_ok_iff.1 htext
      exact ⟨used, hused, .atom (.string hquoted)⟩
    | keyword word =>
      cases word with
      | trueWord =>
        cases h
        exact ⟨[⟨.keyword .trueWord, span⟩], rfl, .atom .true⟩
      | falseWord =>
        cases h
        exact ⟨[⟨.keyword .falseWord, span⟩], rfl, .atom .false⟩
      | _ => cases h
    | alpha name =>
      cases h
      exact ⟨[⟨.alpha name, span⟩], rfl, .atom (.identifier rfl)⟩
    | alphaNum name =>
      cases h
      exact ⟨[⟨.alphaNum name, span⟩], rfl, .atom (.identifier rfl)⟩
    | leftParen =>
      obtain ⟨⟨inner, others⟩, hinner, hclosing⟩ := bind_eq_ok_iff.1 h
      obtain ⟨after, hparen, hend⟩ := bind_eq_ok_iff.1 hclosing
      cases hend
      obtain ⟨closing, rfl⟩ := expect_eq_ok_iff.1 hparen
      rw [List.length_cons] at hbudget
      obtain ⟨used, rfl, hcomparison, _⟩ := hoperand (by omega) hinner
      refine ⟨⟨.leftParen, span⟩ :: (used ++ [⟨.rightParen, closing⟩]), by simp, ?_⟩
      simpa using Operand.parenthesised hcomparison
    | _ => cases h

theorem Operand.length_pos {used : List Token} {node : Node}
    (h : Operand (used.map Token.kind) node) : 0 < used.length := by
  have hkinds := h.hereditary hereditary_ne_nil
  exact List.length_pos_iff.2 (by simpa using hkinds)

/-- No operator wants a higher level than that of operands. -/
theorem apart_outranks_five (least : Nat) (tokens : List Token) :
    Apart (outranks (least + 5)) tokens := by
  rintro token _ ⟨op, _, hhigh⟩
  have hfive := leftLevel_le_five op
  omega

theorem expressionFrom_sound (ending : Span) (budget : Nat) :
    ReadsLevel budget (expressionFrom ending budget) := by
  induction budget with
  | zero =>
    intro least tokens rest node _ h
    cases h
  | succ budget ih =>
    intro least tokens rest node hbudget h
    obtain ⟨⟨left, others⟩, hleft, hclimb⟩ := bind_eq_ok_iff.1 h
    obtain ⟨first, rfl, hoperand⟩ := primary_sound ih hbudget hleft
    have hfirst := hoperand.length_pos
    rw [List.length_append] at hbudget
    have hlevel : Level (least + 5) (first.map Token.kind) left := hoperand
    obtain ⟨used, rfl, hnode, hrest⟩ := climb_sound ih (by omega) (by omega) hlevel (by omega)
      (apart_outranks_five least others) hclimb
    exact ⟨first ++ used, by simp, by simpa using hnode, hrest⟩

/-! ## From a derivation to the loop -/

/-- With this expression and then `rest` in front of it, the reader comes to hold the expression in
its loop before `rest`. -/
def Held (ending : Span) (level : Nat) (kinds : List TokenKind) (node : Node) : Prop :=
  kinds ≠ [] ∧
    ∀ (used rest : List Token) (least budget : Nat), used.map Token.kind = kinds →
      least ≤ level → (used ++ rest).length ≤ budget + 1 → Apart (outranks level) rest →
        ∃ rounds, rest.length ≤ rounds ∧
          expressionFrom ending (budget + 1) least (used ++ rest) =
            climb (expressionFrom ending budget) least rounds node rest

theorem Held.eq_ok {ending : Span} {level least budget : Nat} {used rest : List Token}
    {node : Node} (h : Held ending level (used.map Token.kind) node) (hleast : least ≤ level)
    (hbudget : (used ++ rest).length ≤ budget) (hlevel : Apart (outranks level) rest)
    (hrest : Apart (binds least) rest) :
    expressionFrom ending budget least (used ++ rest) = .ok (node, rest) := by
  have hused : 0 < used.length := List.length_pos_iff.2 (by simpa using h.1)
  obtain ⟨budget, rfl⟩ : ∃ smaller, budget = smaller + 1 := by
    refine ⟨budget - 1, ?_⟩
    rw [List.length_append] at hbudget
    omega
  obtain ⟨rounds, _, heq⟩ := h.2 used rest least budget rfl hleast hbudget hlevel
  rw [heq, climb_eq_of_apart hrest]

theorem held_of_primary {ending : Span} {kinds : List TokenKind} {node : Node}
    (hkinds : kinds ≠ [])
    (h : ∀ (used rest : List Token) (budget : Nat), used.map Token.kind = kinds →
      (used ++ rest).length ≤ budget + 1 →
        primary ending (expressionFrom ending budget 0) (used ++ rest) = .ok (node, rest)) :
    Held ending 5 kinds node := by
  refine ⟨hkinds, fun used rest least budget hused _ hbudget _ ↦ ⟨budget, ?_, ?_⟩⟩
  · have hpos : 0 < used.length := by
      rw [← List.length_map Token.kind, hused]
      exact List.length_pos_iff.2 hkinds
    rw [List.length_append] at hbudget
    omega
  · rw [expressionFrom, h used rest budget hused hbudget]
    rfl

theorem primary_atom {ending : Span} {expression : Reader Node} {used rest : List Token}
    {node : Node} (h : Atom (used.map Token.kind) node) :
    primary ending expression (used ++ rest) = .ok (node, rest) := by
  generalize hkinds : used.map Token.kind = kinds at h
  cases h with
  | string hquoted =>
    subst hkinds
    obtain ⟨span, inside, rfl⟩ := hquoted.exists_quote
    have htext : stringLiteral ending (⟨.quote, span⟩ :: (inside ++ rest)) = .ok (_, rest) :=
      stringLiteral_eq_ok_iff.2 ⟨_, rfl, hquoted⟩
    simp only [List.cons_append, primary, htext, ok_bind]
    rfl
  | identifier hname =>
    obtain ⟨⟨kind, _⟩, _, rfl, rfl, hnil⟩ := List.map_eq_cons_iff.1 hkinds
    obtain rfl := List.map_eq_nil_iff.1 hnil
    cases kind <;> cases hname <;> rfl
  | _ =>
    obtain ⟨⟨_, _⟩, _, rfl, rfl, hnil⟩ := List.map_eq_cons_iff.1 hkinds
    obtain rfl := List.map_eq_nil_iff.1 hnil
    rfl

theorem hereditary_held (ending : Span) : Hereditary (Held ending) where
  looser h := by
    refine ⟨h.1, fun used rest least budget hused hleast hbudget hlevel ↦ ?_⟩
    refine h.2 used rest least budget hused (by omega) hbudget (hlevel.mono ?_)
    rintro kind ⟨op, rfl, hhigh⟩
    exact ⟨op, rfl, by omega⟩
  binary {_ _ _ right} op hleft hright := by
    refine ⟨by simp, fun used rest least budget hused hleast hbudget hlevel ↦ ?_⟩
    obtain ⟨first, others, rfl, rfl, hothers⟩ := List.map_eq_append_iff.1 hused
    obtain ⟨⟨_, span⟩, second, rfl, rfl, rfl⟩ := List.map_eq_cons_iff.1 hothers
    rw [List.append_assoc, List.cons_append] at hbudget ⊢
    have hnext : Apart (outranks (leftLevel op)) (⟨.operator op, span⟩ :: (second ++ rest)) := by
      rw [apart_cons]
      rintro ⟨other, hother, hhigh⟩
      obtain rfl := operator_injective hother
      omega
    obtain ⟨rounds, hrounds, heq⟩ := hleft.2 first (⟨.operator op, span⟩ :: (second ++ rest)) least
      budget rfl (Nat.le_trans hleast (precedence_le_leftLevel op)) hbudget hnext
    have hfirst : 0 < first.length := List.length_pos_iff.2 (by simpa using hleft.1)
    simp only [List.length_append, List.length_cons] at hbudget hrounds
    -- The right operand ends where an operator could take the whole as its left operand.
    have hoperand : expressionFrom ending budget op.rightPrecedence (second ++ rest) =
        .ok (right, rest) :=
      hright.eq_ok (Nat.le_refl _) (by simp; omega)
        (hlevel.mono fun kind ⟨other, hkind, hhigh⟩ ↦
          ⟨other, hkind, Nat.lt_of_le_of_lt (precedence_le_rightPrecedence op) hhigh⟩)
        (apart_binds hlevel)
    obtain ⟨rounds, rfl⟩ : ∃ fewer, rounds = fewer + 1 := ⟨rounds - 1, by omega⟩
    refine ⟨rounds, by omega, ?_⟩
    rw [heq, climb_operator hleast, hoperand]
    rfl
  atom h := held_of_primary h.ne_nil fun used rest budget hused _ ↦ primary_atom (hused ▸ h)
  parenthesised {_ node} h := by
    refine held_of_primary (by simp) fun used rest budget hused hbudget ↦ ?_
    obtain ⟨⟨_, opening⟩, others, rfl, rfl, hothers⟩ := List.map_eq_cons_iff.1 hused
    obtain ⟨inner, last, rfl, rfl, hlast⟩ := List.map_eq_append_iff.1 hothers
    obtain ⟨⟨_, closing⟩, _, rfl, rfl, hnil⟩ := List.map_eq_cons_iff.1 hlast
    obtain rfl := List.map_eq_nil_iff.1 hnil
    have hinner : expressionFrom ending budget 0 (inner ++ ⟨.rightParen, closing⟩ :: rest) =
        .ok (node, ⟨.rightParen, closing⟩ :: rest) := by
      refine h.eq_ok (Nat.le_refl 0) ?_ ?_ ?_
      · simpa using hbudget
      · exact apart_cons.2 (not_outranks rfl _)
      · exact apart_cons.2 (not_binds rfl _)
    simp [primary, hinner, expect, pure, Except.pure]

theorem expression_reads (ending : Span) (budget : Nat) :
    Reads budget (expression ending budget) Comparison (binds 0) where
  sound hbudget h := by
    obtain ⟨used, rfl, hcomparison, _⟩ := expressionFrom_sound ending budget hbudget h
    exact ⟨used, rfl, hcomparison⟩
  complete hbudget h hrest := by
    have hheld := h.hereditary (hereditary_held ending)
    refine hheld.eq_ok (Nat.zero_le 1) hbudget (hrest.mono ?_) hrest
    rintro kind ⟨op, rfl, _⟩
    exact ⟨op, rfl, Nat.zero_le _⟩

end Scriptlet.Grammar
