import Scriptlet.Proofs.Viable.Statement

/-!
# A refused program could be gone on with up to the refused token

Blocks, clauses, statements and programs track the grammar, by the same induction on the budget
that shows what they accept. Outside of all brackets nothing is missing behind a statement, so that
what a program has taken is a program.

The main statement is `exists_refused_of_parse`. The error reports a token: what stands in front of
it is the beginning of some program, and with it of none. If no token is left to report, all of the
input is the beginning of a program, and the error says that it ends too early.
-/

namespace Scriptlet.Viable

open Scriptlet.Parser Scriptlet.Grammar

variable {setting : Setting} {tokens : List Token}

/-! ## Blocks -/

theorem length_pos_of_item {used : List Token} {node : Node} (h : Item (used.map Token.kind) node) :
    0 < used.length := by
  obtain ⟨_, _, rfl, _⟩ := h.exists_first
  exact Nat.succ_pos _

theorem statementsWith_cons_of_pos {statement : Reader Node} {budget : Nat} (hbudget : 0 < budget)
    {token : Token} (h : extendsBlock token.kind) (rest : List Token) :
    statementsWith statement budget (token :: rest) =
      statement (token :: rest) >>= fun (first, rest) ↦
        statementsWith statement (budget - 1) rest >>= fun (others, rest) ↦
          .ok (first :: others, rest) := by
  obtain ⟨smaller, rfl⟩ := Nat.exists_eq_add_one.2 hbudget
  exact statementsWith_cons h

section Statements

variable {room : Setting → Nat} {statements : Setting → Reader Node}

/-- The induction is on the number of tokens in front. -/
theorem tracks_statementsWith {rounds : Setting → Nat}
    (hstatement : ∀ rest : List Token, rest.length ≤ tokens.length →
      Tracks room statements Item setting rest)
    (hrounds : tokens.length ≤ rounds setting) :
    Tracks (fun other ↦ min (room other) (rounds other))
      (fun setting ↦ statementsWith (statements setting) (rounds setting)) Items setting
      tokens := by
  induction hsize : tokens.length using Nat.strong_induction_on generalizing tokens rounds with
  | _ size ih =>
    subst hsize
    by_cases hend : Apart extendsBlock tokens
    · exact tracks_of_leaves (statementsWith_eq_of_apart hend) .nil fun _ _ hfront _ ↦
        statementsWith_eq_of_apart (hfront.apart hend)
    obtain ⟨token, rest, rfl, htoken⟩ := exists_cons_of_not_apart hend
    have hmore : Tracks (fun other ↦ min (room other) (rounds other))
        (fun setting tokens ↦ statements setting tokens >>= fun (first, rest) ↦
          statementsWith (statements setting) (rounds setting - 1) rest >>= fun (others, rest) ↦
            .ok (first :: others, rest)) Items setting (token :: rest) := by
      refine ((hstatement (token :: rest) (Nat.le_refl _)).narrow fun other ↦
        Nat.min_le_left _ _).bind (fun other ↦ min (room other) (rounds other - 1)) ?_ ?_ ?_
      · intro kinds node hnode
        exact ⟨_, _, .cons hnode .nil⟩
      · intro used node hnode other tail htail
        have hused := length_pos_of_item hnode
        rw [List.length_append] at htail
        omega
      · intro used node others htokens hnode _
        have hused := length_pos_of_item hnode
        have hlength := congrArg List.length htokens
        rw [List.length_append] at hlength
        have hothers : Tracks (fun other ↦ min (room other) (rounds other - 1))
            (fun setting ↦ statementsWith (statements setting) (rounds setting - 1)) Items setting
            others := by
          refine ih others.length ?_ (fun rest hshorter ↦ hstatement rest ?_) ?_ rfl
          · omega
          · omega
          · omega
        exact hothers.map (List.cons node) fun _ _ ↦ Items.cons hnode
    rw [List.length_cons] at hrounds
    refine hmore.congr (statementsWith_cons_of_pos (by omega) htoken rest)
      fun other tail hfront htail ↦ ?_
    obtain ⟨more, rfl⟩ := sameFront_cons_iff.1 hfront
    rw [List.length_cons] at htail
    exact statementsWith_cons_of_pos (by omega) htoken more

theorem tracks_blockWith
    (hstatement : ∀ rest : List Token, rest.length ≤ setting.budget →
      Tracks Setting.budget statements Item setting rest)
    (hlength : tokens.length ≤ setting.budget) :
    Tracks Setting.budget
      (fun setting ↦ blockWith setting.ending (statements setting) setting.budget) Block setting
      tokens := by
  refine tracks_expect (fun _ ↦ Nat.le_succ _) ⟨_, _, .braces .nil⟩ fun rest hshorter ↦ ?_
  have hbody := tracks_statementsWith (fun rest hrest ↦ hstatement rest (by omega))
    (show rest.length ≤ setting.budget by omega)
  refine (hbody.narrow fun _ ↦ le_min le_rfl le_rfl).then (fun kinds body h ↦ ⟨_, _, .braces h⟩)
    fun used body rest h _ ↦ ?_
  exact tracks_expect (fun _ ↦ Nat.le_succ _) ⟨[], body, .braces h⟩ fun _ _ ↦
    tracks_pure (.braces h)

end Statements

/-! ## Conditionals and loops -/

theorem elseIfsWith_eq_of_apart {expression : Reader Node} {block : Reader (List Node)}
    {rounds : Nat} (h : Apart (· = .keyword .elif) tokens) :
    elseIfsWith expression block rounds tokens = .ok ([], tokens) := by
  cases rounds with
  | zero => rfl
  | succ rounds =>
    rw [elseIfsWith]
    exact apart_eq_iff.1 h

theorem elseIfsWith_elif {expression : Reader Node} {block : Reader (List Node)} {budget : Nat}
    (hbudget : 0 < budget) (span : Span) (rest : List Token) :
    elseIfsWith expression block budget (⟨.keyword .elif, span⟩ :: rest) =
      expression rest >>= fun (condition, rest) ↦ block rest >>= fun (body, rest) ↦
        elseIfsWith expression block (budget - 1) rest >>= fun (others, rest) ↦
          .ok ((condition, body) :: others, rest) := by
  obtain ⟨smaller, rfl⟩ := Nat.exists_eq_add_one.2 hbudget
  rfl

theorem otherwiseWith_eq_of_apart {block : Reader (List Node)}
    (h : Apart (· = .keyword .elseWord) tokens) :
    otherwiseWith block tokens = .ok (none, tokens) := by
  rw [otherwiseWith]
  exact apart_eq_iff.1 h

section Clauses

variable {blocks : Setting → Reader (List Node)}
  (hblock : ∀ rest : List Token, rest.length ≤ setting.budget →
    Tracks Setting.budget blocks Block setting rest)

include hblock

/-- The induction is on the number of tokens in front. -/
theorem tracks_elseIfsWith {rounds : Setting → Nat} (hlength : tokens.length ≤ setting.budget)
    (hrounds : tokens.length ≤ rounds setting) :
    Tracks (fun other ↦ min other.budget (rounds other))
      (fun setting ↦ elseIfsWith (expression setting.ending setting.budget) (blocks setting)
        (rounds setting)) ElseIfs setting tokens := by
  induction hsize : tokens.length using Nat.strong_induction_on generalizing tokens rounds with
  | _ size ih =>
    subst hsize
    by_cases helif : Apart (· = .keyword .elif) tokens
    · exact tracks_of_leaves (elseIfsWith_eq_of_apart helif) .nil fun _ _ hfront _ ↦
        elseIfsWith_eq_of_apart (hfront.apart helif)
    obtain ⟨⟨_, span⟩, rest, rfl, rfl⟩ := exists_cons_of_not_apart helif
    rw [List.length_cons] at hlength hrounds
    have hclause : Tracks (fun other ↦ min other.budget (rounds other - 1))
        (fun setting tokens ↦ expression setting.ending setting.budget tokens >>=
          fun (condition, rest) ↦ blocks setting rest >>= fun (body, rest) ↦
            elseIfsWith (expression setting.ending setting.budget) (blocks setting)
              (rounds setting - 1) rest >>= fun (others, rest) ↦
                .ok ((condition, body) :: others, rest))
        (fun kinds clauses ↦ ElseIfs (.keyword .elif :: kinds) clauses) setting rest := by
      have hcondition := (tracks_expression (show rest.length ≤ setting.budget by omega)).narrow
        fun other ↦ Nat.min_le_left other.budget (rounds other - 1)
      refine hcondition.then (fun kinds condition h ↦ ⟨_, _, .cons h (.braces .nil) .nil⟩)
        fun used condition rest h hshorter ↦ ?_
      refine ((hblock rest (by omega)).narrow fun other ↦ Nat.min_le_left _ _).then
        (fun kinds body hbody ↦ ⟨_, _, .cons h hbody .nil⟩) fun used body rest hbody hshorter ↦ ?_
      have hothers : Tracks (fun other ↦ min other.budget (rounds other - 1))
          (fun setting ↦ elseIfsWith (expression setting.ending setting.budget) (blocks setting)
            (rounds setting - 1)) ElseIfs setting rest := by
        refine ih rest.length ?_ ?_ ?_ rfl
        · rw [List.length_cons]
          omega
        · omega
        · omega
      exact hothers.map (List.cons (condition, body)) fun _ _ ↦ ElseIfs.cons h hbody
    exact hclause.cons (fun other ↦ by omega) (elseIfsWith_elif (by omega) span rest)
      fun other tail _ htail ↦ elseIfsWith_elif (by omega) span tail

theorem tracks_otherwiseWith (hlength : tokens.length ≤ setting.budget) :
    Tracks Setting.budget (fun setting ↦ otherwiseWith (blocks setting)) Otherwise setting
      tokens := by
  by_cases helse : Apart (· = .keyword .elseWord) tokens
  · exact tracks_of_leaves (otherwiseWith_eq_of_apart helse) .absent fun _ _ hfront _ ↦
      otherwiseWith_eq_of_apart (hfront.apart helse)
  obtain ⟨⟨_, span⟩, rest, rfl, rfl⟩ := exists_cons_of_not_apart helse
  rw [List.length_cons] at hlength
  have hbody := (hblock rest (by omega)).map some fun _ _ ↦ Otherwise.present
  exact hbody.cons (fun _ ↦ Nat.le_succ _) rfl fun _ _ _ _ ↦ rfl

theorem tracks_branchWith (hlength : tokens.length ≤ setting.budget) :
    Tracks Setting.budget
      (fun setting ↦ branchWith setting.ending (blocks setting) setting.budget) Branch setting
      tokens := by
  refine (tracks_expression hlength).then (fun kinds condition h ↦
    ⟨_, _, .branch h (.braces .nil) .nil .absent⟩) fun first condition rest hfirst hshorter ↦ ?_
  refine (hblock rest (by omega)).then (fun kinds body h ↦ ⟨_, _, .branch hfirst h .nil .absent⟩)
    fun second body rest hsecond hshorter ↦ ?_
  have hclauses := (tracks_elseIfsWith hblock (show rest.length ≤ setting.budget by omega)
    (show rest.length ≤ setting.budget by omega)).narrow fun _ ↦ le_min le_rfl le_rfl
  refine hclauses.then (fun kinds clauses h ↦ ⟨_, _, .branch hfirst hsecond h .absent⟩)
    fun third clauses rest hthird hshorter ↦ ?_
  exact (tracks_otherwiseWith hblock (by omega)).map (Node.branch condition body clauses)
    fun _ _ ↦ Branch.branch hfirst hsecond hthird

theorem tracks_loopWith (hlength : tokens.length ≤ setting.budget) :
    Tracks Setting.budget
      (fun setting ↦ loopWith setting.ending (blocks setting) setting.budget) Loop setting
      tokens := by
  have hbinding : Binding [.alpha "", .assign, .keyword .trueWord, .semicolon]
      (.assign "" (.boolean true)) := .assign (.bound rfl .true)
  have hvalue : Comparison [.keyword .trueWord] (.boolean true) :=
    .sum (.product (.power (.operand (.atom .true))))
  have hbody : Block [.leftBrace, .rightBrace] [] := .braces .nil
  refine tracks_expect (fun _ ↦ Nat.le_succ _)
    ⟨_, _, .loop hbinding hvalue (.expression hvalue) hbody⟩ fun rest hshorter ↦ ?_
  refine ((tracks_loopInit (by omega)).narrow fun _ ↦ Nat.le_succ _).then (fun kinds init h ↦
    ⟨_, _, .loop h hvalue (.expression hvalue) hbody⟩) fun first init rest hfirst hshorter ↦ ?_
  refine (tracks_expression (by omega)).then (fun kinds condition h ↦
    ⟨_, _, .loop hfirst h (.expression hvalue) hbody⟩)
    fun second condition rest hsecond hshorter ↦ ?_
  refine tracks_expect (fun _ ↦ Nat.le_succ _)
    ⟨_, _, .loop hfirst hsecond (.expression hvalue) hbody⟩ fun rest hshorter ↦ ?_
  refine (tracks_loopUpdate (by omega)).then (fun kinds update h ↦
    ⟨_, _, .loop hfirst hsecond h hbody⟩) fun third update rest hthird hshorter ↦ ?_
  refine tracks_expect (fun _ ↦ Nat.le_succ _) ⟨_, _, .loop hfirst hsecond hthird hbody⟩
    fun rest hshorter ↦ ?_
  exact (hblock rest (by omega)).map (Node.loop init condition update) fun _ _ ↦
    Loop.loop hfirst hsecond hthird

end Clauses

/-! ## Statements -/

/-- A block inside of a statement is read with one less than the statement. -/
theorem tracks_statement_succ
    (hstatement : ∀ rest : List Token, rest.length ≤ setting.budget →
      Tracks Setting.budget (fun setting ↦ statement setting.ending setting.budget) Item setting
        rest)
    (hlength : tokens.length ≤ setting.budget + 1) :
    Tracks (fun other ↦ other.budget + 1)
      (fun setting ↦ statement setting.ending (setting.budget + 1)) Item setting tokens := by
  have hextendable : Extendable Item [] := ⟨_, _, .comment ""⟩
  have hblock : ∀ rest : List Token, rest.length ≤ setting.budget →
      Tracks Setting.budget (fun setting ↦ blockWith setting.ending
        (statement setting.ending setting.budget) setting.budget) Block setting rest :=
    fun rest ↦ tracks_blockWith hstatement
  cases tokens with
  | nil =>
    exact tracks_of_refuses rfl (.inl ⟨"statement", rfl⟩) hextendable fun _ _ hfront ↦
      absurd hfront not_sameFront_nil
  | cons token rest =>
    obtain ⟨kind, span⟩ := token
    by_cases hbinding : startsBinding kind
    · have hinit := (tracks_loopInit hlength).mono fun _ _ h ↦ Item.statement (.binding h)
      exact hinit.congr_cons fun other tail ↦
        statement_eq_loopInit other.ending other.budget hbinding span tail
    have hrest : rest.length ≤ setting.budget := by
      rw [List.length_cons] at hlength
      omega
    cases kind with
    | comment text => exact tracks_token (fun _ _ ↦ rfl) (.comment text)
    | keyword word =>
      cases word with
      | ifWord =>
        have hbranch := (tracks_branchWith hblock hrest).mono fun _ _ h ↦
          Item.statement (.branch h)
        exact hbranch.cons (fun _ ↦ Nat.le_refl _) rfl fun _ _ _ _ ↦ rfl
      | forWord =>
        have hloop := (tracks_loopWith hblock hrest).mono fun _ _ h ↦ Item.statement (.loop h)
        exact hloop.cons (fun _ ↦ Nat.le_refl _) rfl fun _ _ _ _ ↦ rfl
      | ret =>
        have hret := (tracks_ret hrest).mono fun _ _ h ↦ Item.statement (.ret h)
        exact hret.cons (fun _ ↦ Nat.le_refl _) rfl fun _ _ _ _ ↦ rfl
      | write =>
        have hwrite := (tracks_write false hrest).mono fun _ _ h ↦ Item.statement (.write h)
        exact hwrite.cons (fun _ ↦ Nat.le_refl _) rfl fun _ _ _ _ ↦ rfl
      | writeln =>
        have hwriteln := (tracks_write true hrest).mono fun _ _ h ↦ Item.statement (.writeln h)
        exact hwriteln.cons (fun _ ↦ Nat.le_refl _) rfl fun _ _ _ _ ↦ rfl
      | define | mutable => exact absurd trivial hbinding
      | elif | elseWord | trueWord | falseWord =>
        exact tracks_unexpected (fun _ _ ↦ rfl) hextendable
    | alpha _ | alphaNum _ => exact absurd trivial hbinding
    | _ => exact tracks_unexpected (fun _ _ ↦ rfl) hextendable

theorem tracks_statement (hlength : tokens.length ≤ setting.budget) :
    Tracks Setting.budget (fun setting ↦ statement setting.ending setting.budget) Item setting
      tokens := by
  induction hbudget : setting.budget generalizing setting tokens with
  | zero =>
    have hnil : tokens = [] := List.length_eq_zero_iff.1 (by omega)
    subst hnil
    refine tracks_of_refuses ?_ (.inl ⟨"statement", rfl⟩) ⟨_, _, .comment ""⟩ fun _ _ hfront ↦
      absurd hfront not_sameFront_nil
    rw [hbudget]
    rfl
  | succ budget ih =>
    have hless := Setting.budget_less_of_succ hbudget
    have hstatement : Tracks (fun other ↦ other.budget + 1)
        (fun setting ↦ statement setting.ending (setting.budget + 1)) Item setting.less tokens :=
      tracks_statement_succ (fun rest hrest ↦ ih hrest hless) (by omega)
    have hsame : ∀ (other : Setting) tail, 0 < other.budget →
        statement other.ending other.budget tail =
          statement other.less.ending (other.less.budget + 1) tail := by
      intro other tail hpos
      rw [Setting.budget_less, Nat.sub_add_cancel hpos]
      rfl
    refine ((hstatement.comap Setting.less rfl).narrow fun other ↦ ?_).congr
      (hsame setting tokens (by omega)) fun other tail hfront htail ↦ ?_
    · rw [Setting.budget_less]
      omega
    · obtain ⟨_, _, _, rfl, rfl⟩ := hfront
      rw [List.length_cons] at htail
      exact hsame other _ (by omega)

/-! ## Programs -/

/-- A reader that leaves nothing. -/
def wholly {α : Type} (read : List Token → Except Error α) : Reader α := fun tokens ↦
  read tokens >>= fun value ↦ .ok (value, [])

theorem wholly_program_nil (ending : Span) (budget : Nat) :
    wholly (Parser.program ending budget) [] = .ok ([], []) := by
  cases budget <;> rfl

theorem wholly_program_comment {ending : Span} {budget : Nat} (hbudget : 0 < budget) (text : String)
    (span : Span) (rest : List Token) :
    wholly (Parser.program ending budget) (⟨.comment text, span⟩ :: rest) =
      wholly (Parser.program ending (budget - 1)) rest := by
  obtain ⟨smaller, rfl⟩ := Nat.exists_eq_add_one.2 hbudget
  rfl

theorem wholly_program_cons {ending : Span} {budget : Nat} (hbudget : 0 < budget) {token : Token}
    (h : ∀ text, token.kind ≠ .comment text) (rest : List Token) :
    wholly (Parser.program ending budget) (token :: rest) =
      statement ending budget (token :: rest) >>= fun (first, rest) ↦
        wholly (Parser.program ending (budget - 1)) rest >>= fun (others, rest) ↦
          .ok (first :: others, rest) := by
  obtain ⟨smaller, rfl⟩ := Nat.exists_eq_add_one.2 hbudget
  unfold wholly
  rw [program_cons ending smaller rest h]
  cases statement ending (smaller + 1) (token :: rest) with
  | error error => rfl
  | ok result =>
    obtain ⟨first, rest⟩ := result
    simp only [ok_bind, Nat.add_sub_cancel]
    cases Parser.program ending smaller rest with
    | error error => rfl
    | ok others => rfl

theorem statement_of_item {token : Token} {used others rest : List Token} {node : Node}
    (h : Item (used.map Token.kind) node) (htokens : token :: rest = used ++ others)
    (hkind : ∀ text, token.kind ≠ .comment text) : Statement (used.map Token.kind) node := by
  generalize hkinds : used.map Token.kind = kinds at h ⊢
  cases h with
  | comment text =>
    obtain ⟨span, _, rfl, _⟩ := kinds_eq_cons_iff.1 hkinds
    cases htokens
    exact absurd rfl (hkind text)
  | statement h => exact h

theorem tracks_program (hlength : tokens.length ≤ setting.budget) :
    Tracks Setting.budget (fun setting ↦ wholly (Parser.program setting.ending setting.budget))
      Script setting tokens := by
  induction hbudget : setting.budget generalizing setting tokens with
  | zero =>
    have hnil : tokens = [] := List.length_eq_zero_iff.1 (by omega)
    subst hnil
    exact tracks_of_leaves (wholly_program_nil _ _) .nil fun _ _ hfront _ ↦
      absurd hfront not_sameFront_nil
  | succ budget ih =>
    have hrest : ∀ rest : List Token, rest.length ≤ budget →
        Tracks (fun other ↦ other.budget - 1)
          (fun setting ↦ wholly (Parser.program setting.ending (setting.budget - 1))) Script setting
          rest := by
      intro rest hrest
      have hless := Setting.budget_less_of_succ hbudget
      exact (ih (by omega) hless).comap Setting.less rfl
    cases tokens with
    | nil =>
      exact tracks_of_leaves (wholly_program_nil _ _) .nil fun _ _ hfront _ ↦
        absurd hfront not_sameFront_nil
    | cons token rest =>
      rw [List.length_cons] at hlength
      by_cases hcomment : ∃ text, token.kind = .comment text
      · obtain ⟨_, span⟩ := token
        obtain ⟨text, rfl⟩ := hcomment
        have hothers := (hrest rest (by omega)).mono fun _ _ ↦ Script.comment text
        exact hothers.cons (fun other ↦ by omega)
          (wholly_program_comment (by omega) text span rest) fun other tail _ htail ↦
            wholly_program_comment (by omega) text span tail
      have hkind : ∀ text, token.kind ≠ .comment text := fun text htext ↦ hcomment ⟨text, htext⟩
      have hmore : Tracks Setting.budget
          (fun setting tokens ↦ statement setting.ending setting.budget tokens >>=
            fun (first, rest) ↦ wholly (Parser.program setting.ending (setting.budget - 1)) rest >>=
              fun (others, rest) ↦ .ok (first :: others, rest)) Script setting (token :: rest) := by
        refine (tracks_statement (by rw [List.length_cons]; omega)).bind
          (fun other ↦ other.budget - 1) ?_ ?_ ?_
        · intro kinds node hnode
          cases hnode with
          | comment text => exact ⟨[], [], .comment text .nil⟩
          | statement h => exact ⟨[], [node], .statement h .nil⟩
        · intro used node hnode other tail htail
          have hused := length_pos_of_item hnode
          rw [List.length_append] at htail
          omega
        · intro used node others htokens hnode _
          have hused := length_pos_of_item hnode
          have hlengths := congrArg List.length htokens
          rw [List.length_cons, List.length_append] at hlengths
          have hstatement := statement_of_item hnode htokens hkind
          exact (hrest others (by omega)).map (List.cons node) fun _ _ ↦ Script.statement hstatement
      refine hmore.congr (wholly_program_cons (by omega) hkind rest)
        fun other tail hfront htail ↦ ?_
      obtain ⟨more, rfl⟩ := sameFront_cons_iff.1 hfront
      rw [List.length_cons] at htail
      exact wholly_program_cons (by omega) hkind more

/-! ## The refused token -/

/-- Some program begins with these tokens. -/
def Continuable (tokens : List Token) : Prop :=
  ∃ more program, parse (tokens ++ more) = .ok program

theorem continuable_of_extendable {used : List Token} (h : Extendable Script used) :
    Continuable used := by
  obtain ⟨more, program, hscript⟩ := h
  refine ⟨more.map fun kind ↦ ⟨kind, default⟩, program, Script.parse ?_⟩
  have hmore : (more.map fun kind ↦ (⟨kind, default⟩ : Token)).map Token.kind = more := by
    rw [List.map_map]
    exact List.map_id more
  rwa [List.map_append, hmore]

/-- The refusal of a program, seen from the token in front of which it stands. An input that goes
on differently behind that token is refused all the same. -/
theorem exists_split_of_parse {error : Error} (h : parse tokens = .error error) :
    ∃ used rest, tokens = used ++ rest ∧ error.Refuses (endOf tokens) rest ∧ Continuable used ∧
      ∀ token others, rest = token :: others → ¬Continuable (used ++ [token]) := by
  have hread : wholly (Parser.program (endOf tokens) tokens.length) tokens = .error error := by
    have hprogram : Parser.program (endOf tokens) tokens.length tokens = .error error := h
    rw [wholly, hprogram]
    rfl
  have htracks : Tracks Setting.budget
      (fun setting ↦ wholly (Parser.program setting.ending setting.budget)) Script
      ⟨endOf tokens, tokens.length⟩ tokens := tracks_program (Nat.le_refl _)
  obtain ⟨used, rest, htokens, hrefuses, hextendable, hsteady⟩ := htracks.of_error hread
  refine ⟨used, rest, htokens, hrefuses, continuable_of_extendable hextendable, ?_⟩
  rintro token others rfl ⟨more, program, hparse⟩
  rw [List.append_assoc, List.singleton_append] at hparse
  obtain ⟨refusal, hrefusal⟩ := hsteady ⟨endOf (used ++ token :: more), _⟩ (token :: more)
    ⟨token, others, more, rfl, rfl⟩ (Nat.le_refl _)
  have hprogram : Parser.program (endOf (used ++ token :: more)) (used ++ token :: more).length
      (used ++ token :: more) = .ok program := hparse
  dsimp only [wholly] at hrefusal
  rw [hprogram] at hrefusal
  cases hrefusal

theorem endOf_eq {last : Token} (h : tokens.getLast? = some last) :
    endOf tokens = last.span.pastEnd := by
  rw [endOf, h]

/-- Nothing at all is a program. -/
theorem exists_last_of_parse {error : Error} (h : parse tokens = .error error) :
    ∃ last, tokens.getLast? = some last := by
  cases hlast : tokens.getLast? with
  | none =>
    rw [List.getLast?_eq_none_iff] at hlast
    subst hlast
    cases h
  | some last => exact ⟨last, rfl⟩

/-- Up to the refused token the input is the beginning of a program, and with it of none. -/
theorem exists_refused_of_parse (tokens : List Token) (error : Error)
    (h : parse tokens = .error error) :
    ∃ index ≤ tokens.length, Continuable (tokens.take index) ∧
      (∀ token, tokens[index]? = some token →
        error.Reports token ∧ ¬Continuable (tokens.take (index + 1))) ∧
      (index = tokens.length →
        (∃ expected, error = .unexpectedEndOfInput expected) ∨
          ∃ expected last, tokens.getLast? = some last ∧
            error = .expectedToken expected "end of input" last.span.pastEnd) := by
  obtain ⟨used, rest, rfl, hrefuses, hcontinuable, hnone⟩ := exists_split_of_parse h
  refine ⟨used.length, by simp, by simpa using hcontinuable, ?_, ?_⟩
  · intro token htoken
    cases rest with
    | nil => simp at htoken
    | cons first others =>
      obtain rfl : first = token := by simpa using htoken
      rw [List.take_length_add_append]
      exact ⟨hrefuses, hnone first others rfl⟩
  · intro hlength
    obtain rfl : rest = [] := by simpa using hlength
    rw [List.append_nil] at h hrefuses ⊢
    obtain ⟨last, hlast⟩ := exists_last_of_parse h
    rw [endOf_eq hlast] at hrefuses
    exact hrefuses.imp_right fun ⟨expected, herror⟩ ↦ ⟨expected, last, hlast, herror⟩

/-- The half-read update of a loop in an open block: behind `=` no closing parenthesis can stand. -/
def halfUpdate : List Token :=
  [.keyword .ifWord, .keyword .trueWord, .leftBrace, .keyword .forWord, .leftParen, .alpha "i",
    .assign, .number "0", .semicolon, .alpha "i", .semicolon, .alpha "i", .assign, .rightParen,
    .leftBrace].mapIdx fun index kind ↦ ⟨kind, ⟨index, index + 1, 1, index + 1⟩⟩

theorem exists_refused_of_parse_halfUpdate :
    parse halfUpdate = .error (.unexpectedToken "')'" ⟨13, 14, 1, 14⟩) ∧
    ∃ index ≤ halfUpdate.length, Continuable (halfUpdate.take index) ∧
      (∀ token, halfUpdate[index]? = some token →
        (Error.unexpectedToken "')'" ⟨13, 14, 1, 14⟩).Reports token ∧
          ¬Continuable (halfUpdate.take (index + 1))) ∧
      (index = halfUpdate.length →
        (∃ expected, Error.unexpectedToken "')'" ⟨13, 14, 1, 14⟩ = .unexpectedEndOfInput expected) ∨
          ∃ expected last, halfUpdate.getLast? = some last ∧
            Error.unexpectedToken "')'" ⟨13, 14, 1, 14⟩ =
              .expectedToken expected "end of input" last.span.pastEnd) := by
  have herror : parse halfUpdate = .error (.unexpectedToken "')'" ⟨13, 14, 1, 14⟩) := by rfl
  exact ⟨herror, exists_refused_of_parse halfUpdate _ herror⟩

end Scriptlet.Viable
