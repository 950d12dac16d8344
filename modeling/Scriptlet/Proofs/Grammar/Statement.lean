import Scriptlet.Proofs.Grammar.Expression

/-!
# Statements without blocks

The readers of bindings, loop updates, output and returned values take what the grammar derives
for them. A literal at the start of a right-hand side or of a payload stands alone, and a name
before `=` starts an assignment; the side conditions of the grammar say the same.
-/

namespace Scriptlet.Grammar

open Scriptlet.Parser

/-! ## Tokens of given kinds -/

theorem kinds_eq_cons_iff {tokens : List Token} {kind : TokenKind} {kinds : List TokenKind} :
    tokens.map Token.kind = kind :: kinds ↔
      ∃ span rest, tokens = ⟨kind, span⟩ :: rest ∧ rest.map Token.kind = kinds := by
  constructor
  · intro h
    obtain ⟨⟨_, span⟩, rest, rfl, rfl, hrest⟩ := List.map_eq_cons_iff.1 h
    exact ⟨span, rest, rfl, hrest⟩
  · rintro ⟨span, rest, rfl, hrest⟩
    rw [List.map_cons, hrest]

theorem apart_iff_kinds {continues : TokenKind → Prop} {tokens : List Token} :
    Apart continues tokens ↔ ∀ kind ∈ (tokens.map Token.kind).head?, ¬continues kind := by
  cases tokens <;> simp [Apart]

theorem apart_append {continues : TokenKind → Prop} {used rest : List Token} (h : used ≠ []) :
    Apart continues (used ++ rest) ↔ Apart continues used := by
  cases used with
  | nil => exact absurd rfl h
  | cons token others => rw [List.cons_append, apart_cons, apart_cons]

theorem apart_eq_iff {kind : TokenKind} {tokens : List Token} :
    Apart (· = kind) tokens ↔ ∀ span rest, tokens ≠ ⟨kind, span⟩ :: rest := by
  cases tokens with
  | nil => simp [apart_nil]
  | cons token rest =>
    rw [apart_cons]
    constructor
    · rintro hkind span others heq
      cases heq
      exact hkind rfl
    · rintro h rfl
      exact h token.span rest rfl

theorem apart_or_iff {first second : TokenKind → Prop} {tokens : List Token} :
    Apart (fun kind ↦ first kind ∨ second kind) tokens ↔
      Apart first tokens ∧ Apart second tokens := by
  cases tokens with
  | nil => simp [apart_nil]
  | cons token rest => simp [apart_cons]

/-- The first kind of a derivation that a reader found is the first it saw. -/
theorem apart_kinds_of_append {continues : TokenKind → Prop} {used rest : List Token}
    (h : Apart continues (used ++ rest)) :
    ∀ kind ∈ (used.map Token.kind).head?, ¬continues kind := by
  rw [← apart_iff_kinds]
  cases used with
  | nil => exact apart_nil _
  | cons token others => exact h

@[simp] theorem expect_cons (ending : Span) (kind : TokenKind) (span : Span) (rest : List Token) :
    expect ending kind (⟨kind, span⟩ :: rest) = .ok rest := by
  simp [expect]

theorem identifier_cons {ending : Span} {kind : TokenKind} {name : String}
    (h : kind.identifier? = some name) (span : Span) (rest : List Token) :
    identifier ending (⟨kind, span⟩ :: rest) = .ok (name, rest) :=
  identifier_eq_ok_iff.2 ⟨⟨kind, span⟩, rfl, h⟩

theorem Comparison.tokens_ne_nil {used : List Token} {node : Node}
    (h : Comparison (used.map Token.kind) node) : used ≠ [] := by
  have hkinds := h.hereditary hereditary_ne_nil
  simpa using hkinds

/-- A kind that is no operator ends an expression. -/
theorem apart_binds_cons (kind : TokenKind) (h : kind.precedence? = none) (span : Span)
    (rest : List Token) : Apart (binds 0) (⟨kind, span⟩ :: rest) :=
  apart_cons.2 (not_binds h 0)

/-! ## Bindings -/

theorem bindingValue_eq_expression {ending : Span} {budget : Nat} {tokens : List Token}
    (h : Apart opensLiteral tokens) :
    bindingValue ending budget tokens = expression ending budget tokens := by
  unfold bindingValue
  split
  · exact absurd (.inl rfl) (apart_cons.1 h)
  · exact absurd (.inr (.inl rfl)) (apart_cons.1 h)
  · exact absurd (.inr (.inr rfl)) (apart_cons.1 h)
  · rfl

theorem bindingValue_reads (ending : Span) (budget : Nat) :
    Reads budget (bindingValue ending budget) Value (binds 0) where
  sound {tokens rest value} hbudget h := by
    unfold bindingValue at h
    split at h
    · obtain ⟨⟨text, others⟩, htext, hend⟩ := bind_eq_ok_iff.1 h
      cases hend
      obtain ⟨used, hused, hquoted⟩ := stringLiteral_eq_ok_iff.1 htext
      exact ⟨used, hused, .string hquoted⟩
    · cases h
      exact ⟨[_], rfl, .true⟩
    · cases h
      exact ⟨[_], rfl, .false⟩
    · rename_i hquote htrue hfalse
      have hfirst : Apart opensLiteral tokens :=
        apart_or_iff.2 ⟨apart_eq_iff.2 hquote,
          apart_or_iff.2 ⟨apart_eq_iff.2 htrue, apart_eq_iff.2 hfalse⟩⟩
      obtain ⟨used, rfl, hvalue⟩ := (expression_reads ending budget).sound hbudget h
      exact ⟨used, rfl, .expression hvalue (apart_kinds_of_append hfirst)⟩
  complete {used rest value} hbudget h hrest := by
    generalize hkinds : used.map Token.kind = kinds at h
    cases h with
    | string hquoted =>
      subst hkinds
      obtain ⟨span, inside, rfl⟩ := hquoted.exists_quote
      have htext : stringLiteral ending (⟨.quote, span⟩ :: (inside ++ rest)) = .ok (_, rest) :=
        stringLiteral_eq_ok_iff.2 ⟨_, rfl, hquoted⟩
      simp only [List.cons_append, bindingValue, htext, ok_bind]
      rfl
    | expression hvalue hfirst =>
      subst hkinds
      have hapart : Apart opensLiteral (used ++ rest) :=
        (apart_append hvalue.tokens_ne_nil).2 (apart_iff_kinds.2 hfirst)
      rw [bindingValue_eq_expression hapart]
      exact (expression_reads ending budget).complete hbudget hvalue hrest
    | _ =>
      simp only [kinds_eq_cons_iff, List.map_eq_nil_iff] at hkinds
      obtain ⟨span, _, rfl, rfl⟩ := hkinds
      rfl

theorem binding_reads (ending : Span) (build : String → Node → Node) (budget : Nat) :
    Reads (budget + 1) (binding ending build budget) (Bound build) never where
  sound {tokens rest node} hbudget h := by
    simp only [binding, bind_eq_ok_iff, Prod.exists] at h
    obtain ⟨name, _, hname, _, hassign, value, _, hvalue, _, hsemicolon, hend⟩ := h
    obtain ⟨first, rfl, hfirst⟩ := identifier_eq_ok_iff.1 hname
    obtain ⟨second, rfl⟩ := expect_eq_ok_iff.1 hassign
    simp only [List.length_cons] at hbudget
    obtain ⟨used, rfl, hderived⟩ := (bindingValue_reads ending budget).sound (by omega) hvalue
    obtain ⟨last, rfl⟩ := expect_eq_ok_iff.1 hsemicolon
    cases hend
    refine ⟨first :: ⟨.assign, second⟩ :: (used ++ [⟨.semicolon, last⟩]), by simp, ?_⟩
    simpa using Bound.bound hfirst hderived
  complete {used rest node} hbudget h hrest := by
    generalize hkinds : used.map Token.kind = kinds at h
    cases h with
    | bound hname hvalue =>
      simp only [kinds_eq_cons_iff, List.map_eq_append_iff, List.map_eq_nil_iff] at hkinds
      obtain ⟨first, _, rfl, second, _, rfl, right, _, rfl, rfl, last, _, rfl, rfl⟩ := hkinds
      simp only [List.cons_append, List.append_assoc, List.nil_append] at hbudget ⊢
      have hright : bindingValue ending budget (right ++ ⟨.semicolon, last⟩ :: rest) =
          .ok (_, ⟨.semicolon, last⟩ :: rest) :=
        (bindingValue_reads ending budget).complete
          (by simp only [List.length_cons] at hbudget ⊢; omega) hvalue
          (apart_binds_cons _ rfl _ _)
      simp only [binding, identifier_cons hname, ok_bind, expect_cons, hright]
      rfl

theorem Bound.exists_name {build : String → Node → Node} {used : List Token} {node : Node}
    (h : Bound build (used.map Token.kind) node) :
    ∃ kind span rest name, used = ⟨kind, span⟩ :: rest ∧ kind.identifier? = some name := by
  generalize hkinds : used.map Token.kind = kinds at h
  cases h with
  | @bound kind name _ _ hname _ =>
    obtain ⟨span, rest, rfl, _⟩ := kinds_eq_cons_iff.1 hkinds
    exact ⟨kind, span, rest, name, rfl, hname⟩

theorem declaration_reads (ending : Span) (budget : Nat) :
    Reads (budget + 1) (declaration ending budget) Declared never where
  sound {tokens rest node} hbudget h := by
    unfold declaration at h
    split at h
    · rename_i span others
      rw [List.length_cons] at hbudget
      obtain ⟨used, rfl, hbound⟩ := (binding_reads ending _ budget).sound (by omega) h
      exact ⟨⟨.keyword .mutable, span⟩ :: used, rfl, .mutable hbound⟩
    · obtain ⟨used, rfl, hbound⟩ := (binding_reads ending _ budget).sound hbudget h
      exact ⟨used, rfl, .immutable hbound⟩
  complete {used rest node} hbudget h hrest := by
    generalize hkinds : used.map Token.kind = kinds at h
    cases h with
    | immutable hbound =>
      subst hkinds
      have heq := (binding_reads ending _ budget).complete hbudget hbound hrest
      obtain ⟨kind, span, others, name, rfl, hname⟩ := hbound.exists_name
      cases kind <;> cases hname <;> exact heq
    | mutable hbound =>
      obtain ⟨span, others, rfl, rfl⟩ := kinds_eq_cons_iff.1 hkinds
      rw [List.cons_append, List.length_cons] at hbudget
      exact (binding_reads ending _ budget).complete (by omega) hbound hrest

theorem loopInit_reads (ending : Span) (budget : Nat) :
    Reads (budget + 1) (loopInit ending budget) Binding never where
  sound {tokens rest node} hbudget h := by
    unfold loopInit at h
    split at h
    · rename_i span others
      rw [List.length_cons] at hbudget
      obtain ⟨used, rfl, hdeclared⟩ := (declaration_reads ending budget).sound (by omega) h
      exact ⟨⟨.keyword .define, span⟩ :: used, rfl, .define hdeclared⟩
    · rename_i span others
      have hbinding : binding ending (fun name value ↦ .declare name value true) budget others =
          .ok (node, rest) := h
      rw [List.length_cons] at hbudget
      obtain ⟨used, rfl, hbound⟩ := (binding_reads ending _ budget).sound (by omega) hbinding
      exact ⟨⟨.keyword .mutable, span⟩ :: used, rfl, .mutable hbound⟩
    · obtain ⟨used, rfl, hbound⟩ := (binding_reads ending _ budget).sound hbudget h
      exact ⟨used, rfl, .assign hbound⟩
  complete {used rest node} hbudget h hrest := by
    generalize hkinds : used.map Token.kind = kinds at h
    cases h with
    | define hdeclared =>
      obtain ⟨span, others, rfl, rfl⟩ := kinds_eq_cons_iff.1 hkinds
      rw [List.cons_append, List.length_cons] at hbudget
      exact (declaration_reads ending budget).complete (by omega) hdeclared hrest
    | mutable hbound =>
      obtain ⟨span, others, rfl, rfl⟩ := kinds_eq_cons_iff.1 hkinds
      rw [List.cons_append, List.length_cons] at hbudget
      exact (binding_reads ending _ budget).complete (by omega) hbound hrest
    | assign hbound =>
      subst hkinds
      have heq := (binding_reads ending _ budget).complete hbudget hbound hrest
      obtain ⟨kind, span, others, name, rfl, hname⟩ := hbound.exists_name
      cases kind <;> cases hname <;> exact heq

/-! ## Loop updates and output -/

/-- The kinds that an expression is spelled with. -/
def inExpression : TokenKind → Bool
  | .keyword .trueWord | .keyword .falseWord | .alpha _ | .alphaNum _ | .number _ | .quote
  | .content _ | .leftParen | .rightParen => true
  | kind => kind.precedence?.isSome

theorem inExpression_operator (op : BinOp) : inExpression (.operator op) = true := by
  cases op <;> rfl

theorem inExpression_of_identifier {kind : TokenKind} {name : String}
    (h : kind.identifier? = some name) : inExpression kind = true := by
  cases kind <;> cases h <;> rfl

theorem Quoted.inExpression {kinds : List TokenKind} {text : String} (h : Quoted kinds text) :
    ∀ kind ∈ kinds, inExpression kind = true := by
  cases h
  simp [Grammar.inExpression]

theorem hereditary_inExpression : Hereditary fun _ kinds _ ↦
    ∀ kind ∈ kinds, inExpression kind = true where
  looser h := h
  binary op hleft hright := List.forall_mem_append.2
    ⟨hleft, List.forall_mem_cons.2 ⟨inExpression_operator op, hright⟩⟩
  atom h := by
    cases h with
    | string h => exact h.inExpression
    | identifier hname => simpa using inExpression_of_identifier hname
    | _ => simp [inExpression]
  parenthesised h :=
    List.forall_mem_cons.2 ⟨rfl, List.forall_mem_append.2 ⟨h, List.forall_mem_singleton.2 rfl⟩⟩

/-- An expression has none of the kinds that stand around it. -/
theorem Comparison.notMem {kinds : List TokenKind} {node : Node} (h : Comparison kinds node)
    {kind : TokenKind} (hkind : inExpression kind = false) : kind ∉ kinds := by
  intro hmem
  rw [h.hereditary hereditary_inExpression kind hmem] at hkind
  cases hkind

/-- What an update goes on with: a name alone and then `=` would be the start of an assignment. -/
def extendsUpdate (kind : TokenKind) : Prop := binds 0 kind ∨ kind = .assign

theorem loopUpdate_eq_expression {ending : Span} {budget : Nat} {tokens : List Token}
    (h : Apart (· = .assign) tokens.tail) :
    loopUpdate ending budget tokens = expression ending budget tokens := by
  unfold loopUpdate
  split
  · exact absurd rfl (apart_eq_iff.1 h _ _)
  · exact absurd rfl (apart_eq_iff.1 h _ _)
  · rfl

theorem loopUpdate_assign {ending : Span} {budget : Nat} {kind : TokenKind} {name : String}
    (h : kind.identifier? = some name) (first second : Span) (rest : List Token) :
    loopUpdate ending budget (⟨kind, first⟩ :: ⟨.assign, second⟩ :: rest) =
      expression ending budget rest >>= fun (value, rest) ↦ .ok (.assign name value, rest) := by
  cases kind <;> cases h <;> rfl

theorem loopUpdate_reads (ending : Span) (budget : Nat) :
    Reads budget (loopUpdate ending budget) Update extendsUpdate where
  sound {tokens rest node} hbudget h := by
    by_cases hassign : ∃ kind name first second others,
        tokens = ⟨kind, first⟩ :: ⟨.assign, second⟩ :: others ∧ kind.identifier? = some name
    · obtain ⟨kind, name, first, second, others, rfl, hname⟩ := hassign
      rw [loopUpdate_assign hname] at h
      obtain ⟨⟨value, _⟩, hvalue, hend⟩ := bind_eq_ok_iff.1 h
      cases hend
      simp only [List.length_cons] at hbudget
      obtain ⟨used, rfl, hderived⟩ := (expression_reads ending budget).sound (by omega) hvalue
      exact ⟨⟨kind, first⟩ :: ⟨.assign, second⟩ :: used, rfl, .assign hname hderived⟩
    · unfold loopUpdate at h
      split at h
      · exact absurd ⟨_, _, _, _, _, rfl, rfl⟩ hassign
      · exact absurd ⟨_, _, _, _, _, rfl, rfl⟩ hassign
      · obtain ⟨used, rfl, hderived⟩ := (expression_reads ending budget).sound hbudget h
        exact ⟨used, rfl, .expression hderived⟩
  complete {used rest node} hbudget h hrest := by
    generalize hkinds : used.map Token.kind = kinds at h
    cases h with
    | assign hname hvalue =>
      simp only [kinds_eq_cons_iff] at hkinds
      obtain ⟨first, _, rfl, second, others, rfl, rfl⟩ := hkinds
      simp only [List.cons_append, List.length_cons] at hbudget ⊢
      rw [loopUpdate_assign hname, (expression_reads ending budget).complete (by omega) hvalue
        (hrest.mono fun _ ↦ .inl)]
      rfl
    | expression hvalue =>
      subst hkinds
      rw [loopUpdate_eq_expression]
      · exact (expression_reads ending budget).complete hbudget hvalue (hrest.mono fun _ ↦ .inl)
      · have hkinds : .assign ∉ used.map Token.kind := hvalue.notMem rfl
        match used with
        | [] => exact absurd rfl hvalue.tokens_ne_nil
        | [_] => exact hrest.mono fun _ ↦ .inr
        | _ :: second :: _ =>
          rw [List.cons_append, List.tail_cons, List.cons_append, apart_cons]
          intro hsecond
          simp [hsecond] at hkinds

theorem payload_reads (ending : Span) (newline : Bool) (budget : Nat) :
    Reads budget (payload ending newline budget) (Payload newline) (binds 0) where
  sound {tokens rest node} hbudget h := by
    unfold payload at h
    split at h
    · obtain ⟨⟨text, _⟩, htext, hend⟩ := bind_eq_ok_iff.1 h
      cases hend
      obtain ⟨used, hused, hquoted⟩ := stringLiteral_eq_ok_iff.1 htext
      exact ⟨used, hused, .text hquoted⟩
    · rename_i hquote
      obtain ⟨⟨value, _⟩, hvalue, hend⟩ := bind_eq_ok_iff.1 h
      cases hend
      obtain ⟨used, rfl, hderived⟩ := (expression_reads ending budget).sound hbudget hvalue
      exact ⟨used, rfl, .expression hderived (apart_kinds_of_append (apart_eq_iff.2 hquote))⟩
  complete {used rest node} hbudget h hrest := by
    generalize hkinds : used.map Token.kind = kinds at h
    cases h with
    | text hquoted =>
      subst hkinds
      obtain ⟨span, inside, rfl⟩ := hquoted.exists_quote
      have htext : stringLiteral ending (⟨.quote, span⟩ :: (inside ++ rest)) = .ok (_, rest) :=
        stringLiteral_eq_ok_iff.2 ⟨_, rfl, hquoted⟩
      simp only [List.cons_append, payload, htext, ok_bind]
      rfl
    | expression hvalue hfirst =>
      subst hkinds
      have hapart : Apart (· = .quote) (used ++ rest) :=
        (apart_append hvalue.tokens_ne_nil).2 (apart_iff_kinds.2 hfirst)
      rw [payload]
      · rw [(expression_reads ending budget).complete hbudget hvalue hrest]
        rfl
      · exact apart_eq_iff.1 hapart

theorem write_reads (ending : Span) (newline : Bool) (budget : Nat) :
    Reads budget (write ending newline budget) (Written newline) never where
  sound {tokens rest node} hbudget h := by
    simp only [write, bind_eq_ok_iff, Prod.exists] at h
    obtain ⟨_, hopening, _, _, hpayload, _, hclosing, _, hsemicolon, hend⟩ := h
    obtain ⟨first, rfl⟩ := expect_eq_ok_iff.1 hopening
    rw [List.length_cons] at hbudget
    obtain ⟨used, rfl, hderived⟩ := (payload_reads ending newline budget).sound (by omega) hpayload
    obtain ⟨second, rfl⟩ := expect_eq_ok_iff.1 hclosing
    obtain ⟨last, rfl⟩ := expect_eq_ok_iff.1 hsemicolon
    cases hend
    refine ⟨⟨.leftParen, first⟩ :: (used ++ [⟨.rightParen, second⟩, ⟨.semicolon, last⟩]),
      by simp, ?_⟩
    simpa using Written.written hderived
  complete {used rest node} hbudget h hrest := by
    generalize hkinds : used.map Token.kind = kinds at h
    cases h with
    | written hpayload =>
      simp only [kinds_eq_cons_iff, List.map_eq_append_iff, List.map_eq_nil_iff] at hkinds
      obtain ⟨first, _, rfl, inside, _, rfl, rfl, second, _, rfl, last, _, rfl, rfl⟩ := hkinds
      simp only [List.cons_append, List.append_assoc, List.nil_append, List.length_cons]
        at hbudget ⊢
      rw [write, expect_cons, ok_bind, (payload_reads ending newline budget).complete (by omega)
        hpayload (apart_binds_cons _ rfl _ _)]
      simp only [ok_bind, expect_cons]
      rfl

theorem ret_reads (ending : Span) (budget : Nat) :
    Reads budget (ret ending budget) Returned never where
  sound {tokens rest node} hbudget h := by
    simp only [ret, bind_eq_ok_iff, Prod.exists] at h
    obtain ⟨value, _, hvalue, _, hsemicolon, hend⟩ := h
    obtain ⟨used, rfl, hderived⟩ := (expression_reads ending budget).sound hbudget hvalue
    obtain ⟨last, rfl⟩ := expect_eq_ok_iff.1 hsemicolon
    cases hend
    refine ⟨used ++ [⟨.semicolon, last⟩], by simp, ?_⟩
    simpa using Returned.returned hderived
  complete {used rest node} hbudget h hrest := by
    generalize hkinds : used.map Token.kind = kinds at h
    cases h with
    | returned hvalue =>
      simp only [kinds_eq_cons_iff, List.map_eq_append_iff, List.map_eq_nil_iff] at hkinds
      obtain ⟨inside, _, rfl, rfl, last, _, rfl, rfl⟩ := hkinds
      simp only [List.append_assoc, List.cons_append, List.nil_append] at hbudget ⊢
      rw [ret, (expression_reads ending budget).complete hbudget hvalue
        (apart_binds_cons _ rfl _ _)]
      simp only [ok_bind, expect_cons]
      rfl

end Scriptlet.Grammar
