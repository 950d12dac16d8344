import Scriptlet.Proofs.Grammar.Statement

/-!
# The reader accepts exactly the grammar

A block and what is inside of it are read with a smaller budget, so that an induction on the
budget closes the circle through nested statements. Completeness needs no second induction:
a derivation only has to be taken apart. The main statement is `parse_eq_ok_iff`: a token
sequence is read as a program exactly if the grammar derives that program from it.

The grammar looks at nothing that follows a statement, while the reader of a conditional looks for
a further clause. No statement starts with one, so the two never disagree.
-/

namespace Scriptlet.Grammar

open Scriptlet.Parser

/-! ## Where statements start -/

/-- The kinds that a binding starts with. -/
def startsBinding : TokenKind → Prop
  | .alpha _ | .alphaNum _ | .keyword .define | .keyword .mutable => True
  | _ => False

/-- The kinds that a statement starts with. -/
def startsStatement : TokenKind → Prop
  | .keyword .ifWord | .keyword .forWord | .keyword .ret | .keyword .write
  | .keyword .writeln => True
  | kind => startsBinding kind

theorem Binding.exists_first {kinds : List TokenKind} {node : Node} (h : Binding kinds node) :
    ∃ first rest, kinds = first :: rest ∧ startsBinding first := by
  cases h with
  | assign h =>
    cases h with
    | @bound kind _ _ _ hname _ =>
      refine ⟨kind, _, rfl, ?_⟩
      cases kind <;> cases hname <;> exact trivial
  | _ => exact ⟨_, _, rfl, trivial⟩

theorem startsStatement_of_startsBinding {kind : TokenKind} (h : startsBinding kind) :
    startsStatement kind := by
  unfold startsStatement
  split <;> first | exact trivial | exact h

theorem Statement.exists_first {kinds : List TokenKind} {node : Node} (h : Statement kinds node) :
    ∃ first rest, kinds = first :: rest ∧ startsStatement first := by
  cases h with
  | binding h =>
    obtain ⟨first, rest, rfl, hfirst⟩ := h.exists_first
    exact ⟨first, rest, rfl, startsStatement_of_startsBinding hfirst⟩
  | _ => exact ⟨_, _, rfl, trivial⟩

/-- A block goes on up to its closing brace. -/
def extendsBlock (kind : TokenKind) : Prop := kind ≠ .rightBrace

/-- A conditional goes on with a further clause. -/
def extendsBranch (kind : TokenKind) : Prop :=
  kind = .keyword .elif ∨ kind = .keyword .elseWord

theorem Item.exists_first {used : List Token} {node : Node}
    (h : Item (used.map Token.kind) node) :
    ∃ first rest, used = first :: rest ∧ ¬extendsBranch first.kind ∧ extendsBlock first.kind := by
  generalize hkinds : used.map Token.kind = kinds at h
  cases h with
  | comment text =>
    obtain ⟨span, rest, rfl, _⟩ := kinds_eq_cons_iff.1 hkinds
    exact ⟨_, rest, rfl, by simp [extendsBranch], by simp [extendsBlock]⟩
  | statement h =>
    obtain ⟨first, _, rfl, hfirst⟩ := h.exists_first
    obtain ⟨span, rest, rfl, _⟩ := kinds_eq_cons_iff.1 hkinds
    refine ⟨_, rest, rfl, ?_, ?_⟩
    · rintro (rfl | rfl) <;> exact hfirst
    · rintro rfl
      exact hfirst

/-- Inside of a block no clause follows a statement. -/
theorem Items.apart_append {used rest : List Token} {nodes : List Node}
    (h : Items (used.map Token.kind) nodes) (hrest : Apart extendsBlock rest) :
    Apart extendsBranch (used ++ rest) := by
  generalize hkinds : used.map Token.kind = kinds at h
  cases h with
  | nil =>
    rw [List.map_eq_nil_iff.1 hkinds]
    apply hrest.mono
    rintro kind (rfl | rfl) <;> simp [extendsBlock]
  | cons hitem _ =>
    obtain ⟨first, others, rfl, rfl, _⟩ := List.map_eq_append_iff.1 hkinds
    obtain ⟨token, tail, rfl, htoken, _⟩ := hitem.exists_first
    exact apart_cons.2 htoken

/-! ## Blocks -/

theorem statementsWith_cons {statement : Reader Node} {rounds : Nat} {token : Token}
    {rest : List Token} (h : extendsBlock token.kind) :
    statementsWith statement (rounds + 1) (token :: rest) =
      statement (token :: rest) >>= fun (first, rest) ↦
        statementsWith statement rounds rest >>= fun (others, rest) ↦ .ok (first :: others, rest) := by
  rw [statementsWith]
  · rfl
  · intro heq
    cases heq
  · intro span others heq
    cases heq
    exact h rfl

theorem statementsWith_eq_of_apart {statement : Reader Node} {rounds : Nat} {tokens : List Token}
    (h : Apart extendsBlock tokens) : statementsWith statement rounds tokens = .ok ([], tokens) := by
  cases rounds with
  | zero => rfl
  | succ rounds =>
    cases tokens with
    | nil => rfl
    | cons token rest =>
      obtain ⟨kind, span⟩ := token
      have hkind : kind = .rightBrace := not_not.1 (apart_cons.1 h)
      subst hkind
      rfl

theorem statementsWith_sound {statement : Reader Node} {budget rounds : Nat}
    (hstatement : Reads budget statement Item extendsBranch) {tokens rest : List Token}
    {nodes : List Node} (hbudget : tokens.length ≤ budget)
    (h : statementsWith statement rounds tokens = .ok (nodes, rest)) :
    ∃ used, tokens = used ++ rest ∧ Items (used.map Token.kind) nodes := by
  induction rounds generalizing tokens nodes with
  | zero =>
    cases h
    exact ⟨[], rfl, .nil⟩
  | succ rounds ih =>
    by_cases hend : Apart extendsBlock tokens
    · rw [statementsWith_eq_of_apart hend] at h
      cases h
      exact ⟨[], rfl, .nil⟩
    · obtain ⟨token, others, rfl, htoken⟩ := exists_cons_of_not_apart hend
      rw [statementsWith_cons htoken] at h
      simp only [bind_eq_ok_iff, Prod.exists] at h
      obtain ⟨node, _, hnode, nodes, _, hnodes, hresult⟩ := h
      cases hresult
      obtain ⟨first, hfirst, hitem⟩ := hstatement.sound hbudget hnode
      rw [hfirst, List.length_append] at hbudget
      obtain ⟨used, rfl, hitems⟩ := ih (by omega) hnodes
      refine ⟨first ++ used, by rw [hfirst, List.append_assoc], ?_⟩
      rw [List.map_append]
      exact .cons hitem hitems

theorem statementsWith_complete {statement : Reader Node} {budget rounds : Nat}
    (hstatement : Reads budget statement Item extendsBranch) {used rest : List Token}
    {nodes : List Node} (hbudget : (used ++ rest).length ≤ budget)
    (hrounds : (used ++ rest).length ≤ rounds) (h : Items (used.map Token.kind) nodes)
    (hrest : Apart extendsBlock rest) :
    statementsWith statement rounds (used ++ rest) = .ok (nodes, rest) := by
  induction rounds generalizing used nodes with
  | zero =>
    generalize hkinds : used.map Token.kind = kinds at h
    cases h with
    | nil =>
      rw [List.map_eq_nil_iff.1 hkinds]
      rfl
    | cons hitem _ =>
      obtain ⟨first, others, rfl, rfl, _⟩ := List.map_eq_append_iff.1 hkinds
      obtain ⟨token, tail, rfl, _⟩ := hitem.exists_first
      simp at hrounds
  | succ rounds ih =>
    generalize hkinds : used.map Token.kind = kinds at h
    cases h with
    | nil =>
      rw [List.map_eq_nil_iff.1 hkinds]
      exact statementsWith_eq_of_apart hrest
    | cons hitem hitems =>
      obtain ⟨first, others, rfl, rfl, rfl⟩ := List.map_eq_append_iff.1 hkinds
      rw [List.append_assoc] at hbudget hrounds ⊢
      have hfirst := hstatement.complete hbudget hitem (hitems.apart_append hrest)
      obtain ⟨token, tail, rfl, _, htoken⟩ := hitem.exists_first
      rw [List.cons_append, List.length_cons, List.length_append] at hbudget hrounds
      have hothers := ih (by omega) (by omega) hitems
      rw [List.cons_append] at hfirst ⊢
      rw [statementsWith_cons htoken, hfirst]
      simp only [ok_bind, hothers]

theorem blockWith_reads {ending : Span} {statement : Reader Node} {budget : Nat}
    (hstatement : Reads budget statement Item extendsBranch) :
    Reads budget (blockWith ending statement budget) Block never where
  sound {tokens rest nodes} hbudget h := by
    simp only [blockWith, bind_eq_ok_iff, Prod.exists] at h
    obtain ⟨_, hopening, _, _, hbody, _, hclosing, hend⟩ := h
    obtain ⟨first, rfl⟩ := expect_eq_ok_iff.1 hopening
    rw [List.length_cons] at hbudget
    obtain ⟨used, rfl, hitems⟩ := statementsWith_sound hstatement (by omega) hbody
    obtain ⟨last, rfl⟩ := expect_eq_ok_iff.1 hclosing
    cases hend
    refine ⟨⟨.leftBrace, first⟩ :: (used ++ [⟨.rightBrace, last⟩]), by simp, ?_⟩
    simpa using Block.braces hitems
  complete {used rest nodes} hbudget h hrest := by
    generalize hkinds : used.map Token.kind = kinds at h
    cases h with
    | braces hitems =>
      simp only [kinds_eq_cons_iff, List.map_eq_append_iff, List.map_eq_nil_iff] at hkinds
      obtain ⟨first, _, rfl, inside, _, rfl, rfl, last, _, rfl, rfl⟩ := hkinds
      simp only [List.cons_append, List.append_assoc, List.nil_append, List.length_cons]
        at hbudget ⊢
      rw [blockWith, expect_cons, ok_bind, statementsWith_complete hstatement (by omega) (by omega)
        hitems (apart_cons.2 (not_not.2 rfl))]
      simp only [ok_bind, expect_cons]
      rfl

/-! ## Conditionals and loops -/

theorem Block.apart_binds {used : List Token} {body : List Node}
    (h : Block (used.map Token.kind) body) (rest : List Token) :
    Apart (binds 0) (used ++ rest) := by
  generalize hkinds : used.map Token.kind = kinds at h
  cases h with
  | braces _ =>
    obtain ⟨span, others, rfl, _⟩ := kinds_eq_cons_iff.1 hkinds
    exact apart_binds_cons _ rfl _ _

theorem Otherwise.apart_elif {used rest : List Token} {otherwise : Option (List Node)}
    (h : Otherwise (used.map Token.kind) otherwise) (hrest : Apart extendsBranch rest) :
    Apart (· = .keyword .elif) (used ++ rest) := by
  generalize hkinds : used.map Token.kind = kinds at h
  cases h with
  | absent =>
    rw [List.map_eq_nil_iff.1 hkinds]
    exact hrest.mono fun _ ↦ .inl
  | present _ =>
    obtain ⟨span, others, rfl, _⟩ := kinds_eq_cons_iff.1 hkinds
    exact apart_cons.2 (by simp)

section Branch

variable {ending : Span} {block : Reader (List Node)} {budget : Nat}
  (hblock : Reads budget block Block never)

include hblock

theorem elseIfsWith_sound {rounds : Nat} {tokens rest : List Token}
    {clauses : List (Node × List Node)} (hbudget : tokens.length ≤ budget)
    (h : elseIfsWith (expression ending budget) block rounds tokens = .ok (clauses, rest)) :
    ∃ used, tokens = used ++ rest ∧ ElseIfs (used.map Token.kind) clauses := by
  induction rounds generalizing tokens clauses with
  | zero =>
    cases h
    exact ⟨[], rfl, .nil⟩
  | succ rounds ih =>
    unfold elseIfsWith at h
    split at h
    · rename_i span others
      simp only [bind_eq_ok_iff, Prod.exists] at h
      obtain ⟨condition, _, hcondition, body, _, hbody, clauses, _, hclauses, hend⟩ := h
      cases hend
      rw [List.length_cons] at hbudget
      obtain ⟨first, rfl, hfirst⟩ :=
        (expression_reads ending budget).sound (by omega) hcondition
      rw [List.length_append] at hbudget
      obtain ⟨second, rfl, hsecond⟩ := hblock.sound (by omega) hbody
      rw [List.length_append] at hbudget
      obtain ⟨used, rfl, hused⟩ := ih (by omega) hclauses
      refine ⟨⟨.keyword .elif, span⟩ :: (first ++ (second ++ used)), by simp, ?_⟩
      simpa using ElseIfs.cons hfirst hsecond hused
    · cases h
      exact ⟨[], rfl, .nil⟩

theorem elseIfsWith_complete {rounds : Nat} {used rest : List Token}
    {clauses : List (Node × List Node)} (hbudget : (used ++ rest).length ≤ budget)
    (hrounds : (used ++ rest).length ≤ rounds) (h : ElseIfs (used.map Token.kind) clauses)
    (hrest : Apart (· = .keyword .elif) rest) :
    elseIfsWith (expression ending budget) block rounds (used ++ rest) = .ok (clauses, rest) := by
  induction rounds generalizing used clauses with
  | zero =>
    generalize hkinds : used.map Token.kind = kinds at h
    cases h with
    | nil =>
      rw [List.map_eq_nil_iff.1 hkinds]
      rfl
    | cons _ _ _ =>
      obtain ⟨span, others, rfl, _⟩ := kinds_eq_cons_iff.1 hkinds
      simp at hrounds
  | succ rounds ih =>
    generalize hkinds : used.map Token.kind = kinds at h
    cases h with
    | nil =>
      rw [List.map_eq_nil_iff.1 hkinds, List.nil_append, elseIfsWith]
      exact apart_eq_iff.1 hrest
    | cons hcondition hbody hclauses =>
      simp only [kinds_eq_cons_iff, List.map_eq_append_iff] at hkinds
      obtain ⟨span, _, rfl, first, _, rfl, rfl, second, others, rfl, rfl, rfl⟩ := hkinds
      simp only [List.cons_append, List.append_assoc, List.length_cons] at hbudget hrounds ⊢
      have hfirst := (expression_reads ending budget).complete (by omega) hcondition
        (hbody.apart_binds (others ++ rest))
      rw [List.length_append] at hbudget hrounds
      have hsecond := hblock.complete (by omega) hbody (apart_never (others ++ rest))
      rw [List.length_append] at hbudget hrounds
      have hothers := ih (by omega) (by omega) hclauses
      simp only [elseIfsWith, hfirst, hsecond, hothers, ok_bind]
      rfl

theorem otherwiseWith_reads :
    Reads budget (otherwiseWith block) Otherwise (· = .keyword .elseWord) where
  sound {tokens rest otherwise} hbudget h := by
    unfold otherwiseWith at h
    split at h
    · rename_i span others
      simp only [bind_eq_ok_iff, Prod.exists] at h
      obtain ⟨body, _, hbody, hend⟩ := h
      cases hend
      rw [List.length_cons] at hbudget
      obtain ⟨used, rfl, hderived⟩ := hblock.sound (by omega) hbody
      exact ⟨⟨.keyword .elseWord, span⟩ :: used, rfl, .present hderived⟩
    · cases h
      exact ⟨[], rfl, .absent⟩
  complete {used rest otherwise} hbudget h hrest := by
    generalize hkinds : used.map Token.kind = kinds at h
    cases h with
    | absent =>
      rw [List.map_eq_nil_iff.1 hkinds, List.nil_append, otherwiseWith]
      exact apart_eq_iff.1 hrest
    | present hbody =>
      obtain ⟨span, others, rfl, rfl⟩ := kinds_eq_cons_iff.1 hkinds
      rw [List.cons_append, List.length_cons] at hbudget
      rw [List.cons_append, otherwiseWith, hblock.complete (by omega) hbody (apart_never rest)]
      rfl

theorem branchWith_reads :
    Reads budget (branchWith ending block budget) Branch extendsBranch where
  sound {tokens rest node} hbudget h := by
    simp only [branchWith, bind_eq_ok_iff, Prod.exists] at h
    obtain ⟨condition, _, hcondition, body, _, hbody, clauses, _, hclauses, otherwise, _,
      hotherwise, hend⟩ := h
    cases hend
    obtain ⟨first, rfl, hfirst⟩ := (expression_reads ending budget).sound hbudget hcondition
    rw [List.length_append] at hbudget
    obtain ⟨second, rfl, hsecond⟩ := hblock.sound (by omega) hbody
    rw [List.length_append] at hbudget
    obtain ⟨third, rfl, hthird⟩ := elseIfsWith_sound hblock (by omega) hclauses
    rw [List.length_append] at hbudget
    obtain ⟨fourth, rfl, hfourth⟩ := (otherwiseWith_reads hblock).sound (by omega) hotherwise
    refine ⟨first ++ (second ++ (third ++ fourth)), by simp, ?_⟩
    simpa using Branch.branch hfirst hsecond hthird hfourth
  complete {used rest node} hbudget h hrest := by
    generalize hkinds : used.map Token.kind = kinds at h
    cases h with
    | branch hcondition hbody helseIfs hotherwise =>
      simp only [List.map_eq_append_iff] at hkinds
      obtain ⟨first, _, rfl, rfl, second, _, rfl, rfl, third, fourth, rfl, rfl, rfl⟩ := hkinds
      simp only [List.append_assoc] at hbudget ⊢
      have hfirst := (expression_reads ending budget).complete hbudget hcondition
        (hbody.apart_binds (third ++ (fourth ++ rest)))
      rw [List.length_append] at hbudget
      have hsecond := hblock.complete (by omega) hbody (apart_never (third ++ (fourth ++ rest)))
      rw [List.length_append] at hbudget
      have hthird : elseIfsWith (expression ending budget) block budget (third ++ (fourth ++ rest)) =
          .ok (_, fourth ++ rest) :=
        elseIfsWith_complete hblock (by omega) (by omega) helseIfs (hotherwise.apart_elif hrest)
      rw [List.length_append] at hbudget
      have hfourth := (otherwiseWith_reads hblock).complete (by omega) hotherwise
        (hrest.mono fun _ ↦ .inr)
      simp only [branchWith, hfirst, hsecond, hthird, hfourth, ok_bind]
      rfl

theorem loopWith_reads :
    Reads budget (loopWith ending block budget) Loop never where
  sound {tokens rest node} hbudget h := by
    simp only [loopWith, bind_eq_ok_iff, Prod.exists] at h
    obtain ⟨_, hopening, init, _, hinit, condition, _, hcondition, _, hsemicolon, update, _,
      hupdate, _, hclosing, body, _, hbody, hend⟩ := h
    cases hend
    obtain ⟨opening, rfl⟩ := expect_eq_ok_iff.1 hopening
    rw [List.length_cons] at hbudget
    obtain ⟨first, rfl, hfirst⟩ := (loopInit_reads ending budget).sound (by omega) hinit
    rw [List.length_append] at hbudget
    obtain ⟨second, rfl, hsecond⟩ := (expression_reads ending budget).sound (by omega) hcondition
    obtain ⟨middle, rfl⟩ := expect_eq_ok_iff.1 hsemicolon
    rw [List.length_append, List.length_cons] at hbudget
    obtain ⟨third, rfl, hthird⟩ := (loopUpdate_reads ending budget).sound (by omega) hupdate
    obtain ⟨closing, rfl⟩ := expect_eq_ok_iff.1 hclosing
    rw [List.length_append, List.length_cons] at hbudget
    obtain ⟨fourth, rfl, hfourth⟩ := hblock.sound (by omega) hbody
    refine ⟨⟨.leftParen, opening⟩ :: (first ++ (second ++ ⟨.semicolon, middle⟩ ::
      (third ++ ⟨.rightParen, closing⟩ :: fourth))), by simp, ?_⟩
    simpa using Loop.loop hfirst hsecond hthird hfourth
  complete {used rest node} hbudget h hrest := by
    generalize hkinds : used.map Token.kind = kinds at h
    cases h with
    | loop hinit hcondition hupdate hbody =>
      simp only [kinds_eq_cons_iff, List.map_eq_append_iff] at hkinds
      obtain ⟨opening, _, rfl, first, _, rfl, rfl, second, _, rfl, rfl, middle, _, rfl, third, _,
        rfl, rfl, closing, fourth, rfl, rfl⟩ := hkinds
      simp only [List.cons_append, List.append_assoc, List.length_cons] at hbudget ⊢
      have hfirst := (loopInit_reads ending budget).complete (by omega) hinit
        (apart_never (second ++ ⟨.semicolon, middle⟩ ::
          (third ++ ⟨.rightParen, closing⟩ :: (fourth ++ rest))))
      rw [List.length_append] at hbudget
      have hsecond := (expression_reads ending budget).complete (by omega) hcondition
        (apart_binds_cons .semicolon rfl middle (third ++ ⟨.rightParen, closing⟩ :: (fourth ++ rest)))
      rw [List.length_append, List.length_cons] at hbudget
      have hthird := (loopUpdate_reads ending budget).complete (by omega) hupdate
        (apart_or_iff.2 ⟨apart_binds_cons .rightParen rfl closing (fourth ++ rest), apart_cons.2 (by simp)⟩)
      rw [List.length_append, List.length_cons] at hbudget
      have hfourth := hblock.complete (by omega) hbody hrest
      simp only [loopWith, expect_cons, hfirst, hsecond, hthird, hfourth, ok_bind]
      rfl

end Branch

/-! ## Statements and programs -/

theorem statement_eq_loopInit (ending : Span) (budget : Nat) {kind : TokenKind}
    (h : startsBinding kind) (span : Span) (rest : List Token) :
    statement ending (budget + 1) (⟨kind, span⟩ :: rest) =
      loopInit ending budget (⟨kind, span⟩ :: rest) := by
  unfold startsBinding at h
  split at h
  all_goals first | rfl | exact h.elim

section Statement

variable {ending : Span} {budget : Nat}
  (hblock : Reads budget (blockWith ending (statement ending budget) budget) Block never)

include hblock

theorem statement_sound {tokens rest : List Token} {node : Node}
    (hbudget : tokens.length ≤ budget + 1)
    (h : statement ending (budget + 1) tokens = .ok (node, rest)) :
    ∃ used, tokens = used ++ rest ∧ Item (used.map Token.kind) node := by
  cases tokens with
  | nil => cases h
  | cons token tail =>
    obtain ⟨kind, span⟩ := token
    by_cases hbinding : startsBinding kind
    · rw [statement_eq_loopInit ending budget hbinding] at h
      obtain ⟨used, hused, hderived⟩ := (loopInit_reads ending budget).sound hbudget h
      exact ⟨used, hused, .statement (.binding hderived)⟩
    rw [List.length_cons] at hbudget
    cases kind with
    | comment text =>
      cases h
      exact ⟨[⟨.comment text, span⟩], rfl, .comment text⟩
    | keyword word =>
      cases word with
      | ifWord =>
        obtain ⟨used, rfl, hbranch⟩ := (branchWith_reads hblock).sound (by omega) h
        exact ⟨⟨.keyword .ifWord, span⟩ :: used, rfl, .statement (.branch hbranch)⟩
      | forWord =>
        obtain ⟨used, rfl, hloop⟩ := (loopWith_reads hblock).sound (by omega) h
        exact ⟨⟨.keyword .forWord, span⟩ :: used, rfl, .statement (.loop hloop)⟩
      | ret =>
        obtain ⟨used, rfl, hreturned⟩ := (ret_reads ending budget).sound (by omega) h
        exact ⟨⟨.keyword .ret, span⟩ :: used, rfl, .statement (.ret hreturned)⟩
      | write =>
        obtain ⟨used, rfl, hwritten⟩ := (write_reads ending false budget).sound (by omega) h
        exact ⟨⟨.keyword .write, span⟩ :: used, rfl, .statement (.write hwritten)⟩
      | writeln =>
        obtain ⟨used, rfl, hwritten⟩ := (write_reads ending true budget).sound (by omega) h
        exact ⟨⟨.keyword .writeln, span⟩ :: used, rfl, .statement (.writeln hwritten)⟩
      | define | mutable => exact absurd trivial hbinding
      | elif | elseWord | trueWord | falseWord => cases h
    | alpha _ | alphaNum _ => exact absurd trivial hbinding
    | _ => cases h

theorem statement_complete {used rest : List Token} {node : Node}
    (hbudget : (used ++ rest).length ≤ budget + 1) (h : Item (used.map Token.kind) node)
    (hrest : Apart extendsBranch rest) :
    statement ending (budget + 1) (used ++ rest) = .ok (node, rest) := by
  generalize hkinds : used.map Token.kind = kinds at h
  cases h with
  | comment text =>
    simp only [kinds_eq_cons_iff, List.map_eq_nil_iff] at hkinds
    obtain ⟨span, _, rfl, rfl⟩ := hkinds
    rfl
  | statement h =>
    cases h with
    | binding hbinding =>
      subst hkinds
      have heq := (loopInit_reads ending budget).complete hbudget hbinding (apart_never rest)
      obtain ⟨kind, _, hkinds, hkind⟩ := hbinding.exists_first
      obtain ⟨span, others, rfl, _⟩ := kinds_eq_cons_iff.1 hkinds
      rwa [List.cons_append, statement_eq_loopInit ending budget hkind]
    | branch hbranch =>
      obtain ⟨span, others, rfl, rfl⟩ := kinds_eq_cons_iff.1 hkinds
      rw [List.cons_append, List.length_cons] at hbudget
      exact (branchWith_reads hblock).complete (by omega) hbranch hrest
    | loop hloop =>
      obtain ⟨span, others, rfl, rfl⟩ := kinds_eq_cons_iff.1 hkinds
      rw [List.cons_append, List.length_cons] at hbudget
      exact (loopWith_reads hblock).complete (by omega) hloop (apart_never rest)
    | ret hreturned =>
      obtain ⟨span, others, rfl, rfl⟩ := kinds_eq_cons_iff.1 hkinds
      rw [List.cons_append, List.length_cons] at hbudget
      exact (ret_reads ending budget).complete (by omega) hreturned (apart_never rest)
    | write hwritten =>
      obtain ⟨span, others, rfl, rfl⟩ := kinds_eq_cons_iff.1 hkinds
      rw [List.cons_append, List.length_cons] at hbudget
      exact (write_reads ending false budget).complete (by omega) hwritten (apart_never rest)
    | writeln hwritten =>
      obtain ⟨span, others, rfl, rfl⟩ := kinds_eq_cons_iff.1 hkinds
      rw [List.cons_append, List.length_cons] at hbudget
      exact (write_reads ending true budget).complete (by omega) hwritten (apart_never rest)

end Statement

theorem statement_reads (ending : Span) (budget : Nat) :
    Reads budget (statement ending budget) Item extendsBranch := by
  induction budget with
  | zero =>
    constructor
    · intro tokens rest node _ h
      cases h
    · intro used rest node hbudget h _
      obtain ⟨token, others, rfl, _⟩ := h.exists_first
      simp at hbudget
  | succ budget ih =>
    have hblock : Reads budget (blockWith ending (statement ending budget) budget) Block never :=
      blockWith_reads ih
    exact ⟨statement_sound hblock, statement_complete hblock⟩

theorem Script.eq_nil {program : Program} (h : Script [] program) : program = [] := by
  generalize hkinds : ([] : List TokenKind) = kinds at h
  cases h with
  | nil => rfl
  | comment _ _ => cases hkinds
  | statement hfirst _ =>
    obtain ⟨first, rest, rfl, _⟩ := hfirst.exists_first
    cases hkinds

/-- What follows a top-level statement is no clause of it. -/
theorem Script.apart_extendsBranch {tokens : List Token} {program : Program}
    (h : Script (tokens.map Token.kind) program) : Apart extendsBranch tokens := by
  generalize hkinds : tokens.map Token.kind = kinds at h
  cases h with
  | nil =>
    rw [List.map_eq_nil_iff.1 hkinds]
    exact apart_nil _
  | comment text _ =>
    obtain ⟨span, rest, rfl, _⟩ := kinds_eq_cons_iff.1 hkinds
    exact apart_cons.2 (by simp [extendsBranch])
  | statement hfirst _ =>
    obtain ⟨used, rest, rfl, rfl, _⟩ := List.map_eq_append_iff.1 hkinds
    obtain ⟨token, others, rfl, htoken, _⟩ := (Item.statement hfirst).exists_first
    exact apart_cons.2 htoken

theorem program_cons (ending : Span) (budget : Nat) {token : Token} (rest : List Token)
    (h : ∀ text, token.kind ≠ .comment text) :
    Parser.program ending (budget + 1) (token :: rest) =
      statement ending (budget + 1) (token :: rest) >>= fun (first, rest) ↦
        Parser.program ending budget rest >>= fun others ↦ .ok (first :: others) := by
  rw [Parser.program]
  · rfl
  · intro heq
    cases heq
  · intro text span others heq
    cases heq
    exact h text rfl

theorem Statement.exists_token {used : List Token} {node : Node}
    (h : Statement (used.map Token.kind) node) :
    ∃ token rest, used = token :: rest ∧ ∀ text, token.kind ≠ .comment text := by
  obtain ⟨first, _, hkinds, hfirst⟩ := h.exists_first
  obtain ⟨span, rest, rfl, _⟩ := kinds_eq_cons_iff.1 hkinds
  refine ⟨_, rest, rfl, ?_⟩
  rintro text rfl
  exact hfirst

theorem program_sound {ending : Span} {budget : Nat} {tokens : List Token} {result : Program}
    (hbudget : tokens.length ≤ budget) (h : Parser.program ending budget tokens = .ok result) :
    Script (tokens.map Token.kind) result := by
  induction budget generalizing tokens result with
  | zero =>
    rw [List.length_eq_zero_iff.1 (Nat.le_zero.1 hbudget)]
    cases h
    exact .nil
  | succ budget ih =>
    unfold Parser.program at h
    split at h
    · cases h
      exact .nil
    · rename_i text span rest
      rw [List.length_cons] at hbudget
      exact .comment text (ih (by omega) h)
    · rename_i hcomment
      simp only [bind_eq_ok_iff, Prod.exists] at h
      obtain ⟨node, rest, hnode, others, hothers, hend⟩ := h
      cases hend
      obtain ⟨used, rfl, hitem⟩ := (statement_reads ending (budget + 1)).sound hbudget hnode
      generalize hkinds : used.map Token.kind = kinds at hitem
      cases hitem with
      | comment text =>
        obtain ⟨span, tail, rfl, _⟩ := kinds_eq_cons_iff.1 hkinds
        exact absurd rfl (hcomment text span (tail ++ rest))
      | statement hstatement =>
        subst hkinds
        obtain ⟨token, tail, rfl, _⟩ := hstatement.exists_token
        rw [List.cons_append, List.length_cons, List.length_append] at hbudget
        rw [List.map_append]
        exact .statement hstatement (ih (by omega) hothers)

theorem program_complete {ending : Span} {budget : Nat} {tokens : List Token} {result : Program}
    (hbudget : tokens.length ≤ budget) (h : Script (tokens.map Token.kind) result) :
    Parser.program ending budget tokens = .ok result := by
  induction budget generalizing tokens result with
  | zero =>
    rw [List.length_eq_zero_iff.1 (Nat.le_zero.1 hbudget)] at h ⊢
    rw [h.eq_nil]
    rfl
  | succ budget ih =>
    generalize hkinds : tokens.map Token.kind = kinds at h
    cases h with
    | nil =>
      rw [List.map_eq_nil_iff.1 hkinds]
      rfl
    | comment text hrest =>
      obtain ⟨span, rest, rfl, rfl⟩ := kinds_eq_cons_iff.1 hkinds
      rw [List.length_cons] at hbudget
      exact ih (by omega) hrest
    | statement hfirst hrest =>
      obtain ⟨used, rest, rfl, rfl, rfl⟩ := List.map_eq_append_iff.1 hkinds
      have hnode := (statement_reads ending (budget + 1)).complete hbudget (.statement hfirst)
        hrest.apart_extendsBranch
      obtain ⟨token, tail, rfl, htoken⟩ := hfirst.exists_token
      rw [List.cons_append, List.length_cons, List.length_append] at hbudget
      have hothers := ih (by omega) hrest
      rw [List.cons_append] at hnode ⊢
      rw [program_cons ending budget _ htoken, hnode]
      simp only [ok_bind, hothers]

theorem Script.of_parse {tokens : List Token} {program : Program}
    (h : parse tokens = .ok program) : Script (tokens.map Token.kind) program :=
  program_sound (Nat.le_refl _) h

theorem Script.parse {tokens : List Token} {program : Program}
    (h : Script (tokens.map Token.kind) program) : parse tokens = .ok program :=
  program_complete (Nat.le_refl _) h

/-- The reader accepts exactly the grammar, and builds the tree that the grammar gives. -/
theorem parse_eq_ok_iff (tokens : List Token) (program : Program) :
    parse tokens = .ok program ↔ Script (tokens.map Token.kind) program :=
  ⟨Script.of_parse, Script.parse⟩

end Scriptlet.Grammar
