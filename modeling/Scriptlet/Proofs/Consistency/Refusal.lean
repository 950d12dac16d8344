import Scriptlet.Proofs.Consistency.Runnable
import Scriptlet.Proofs.Grammar.Program
import Scriptlet.Proofs.Tiling.Basic

/-!
# What the reader refuses

Where quotes and contents stand in triples, a reader takes each triple whole. So it never stands
inside of one: no error reports a content or misses a quote or a content. The budget of every
reader of statements covers the tokens left, so none gives up before a statement that is there.
-/

namespace Scriptlet

/-- The error refuses this token. -/
def Error.Reports (error : Error) (token : Token) : Prop :=
  error = .unexpectedToken token.kind.describe token.span ∨
    ∃ expected, error = .expectedToken expected token.kind.describe token.span

/-- The error blames the script, for a token that it can be blamed for, and misses nothing that
every token sequence of a source has in its place. -/
structure Error.Legible (error : Error) : Prop where
  regular : error.isInternal = false
  statement : error ≠ .unexpectedEndOfInput "statement"
  content : ∀ found span, error ≠ .expectedToken "string content" found span
  delimiter : ∀ found span, error ≠ .expectedToken TokenKind.quote.describe found span
  token : ∀ text span, ¬error.Reports ⟨.content text, span⟩

namespace Parser

open Tiling Grammar

/-! ## Legible errors -/

/-- The description starts with this letter. -/
def StartsWith (c : Char) (description : String) : Prop := description.toList.head? = some c

theorem StartsWith.append {c : Char} {first : String} (h : StartsWith c first) (rest : String) :
    StartsWith c (first ++ rest) := by
  rw [StartsWith, String.toList_append, List.head?_append, h, Option.some_or]

theorem StartsWith.ne {c d : Char} {first second : String} (hfirst : StartsWith c first)
    (hsecond : StartsWith d second) (hne : c ≠ d) : first ≠ second := by
  rintro rfl
  exact hne (Option.some.inj (hfirst.symm.trans hsecond))

theorem startsWith_content (text : String) : StartsWith 's' (TokenKind.content text).describe :=
  have hfirst : StartsWith 's' "string content \"" := rfl
  (hfirst.append text).append "\""

/-- The descriptions of contents are told apart from all others by their first letter. -/
theorem describe_ne_content {kind : TokenKind} (h : ∀ text, kind ≠ .content text) (text : String) :
    kind.describe ≠ (TokenKind.content text).describe := by
  have hquote : StartsWith '\'' "'" := rfl
  have hidentifier : StartsWith 'i' "identifier '" := rfl
  have hnumber : StartsWith 'n' "number " := rfl
  have hcomment : StartsWith 'c' "comment" := rfl
  have hcontent := startsWith_content text
  cases kind with
  | content other => exact absurd rfl (h other)
  | keyword word => exact ((hquote.append word.word).append "'").ne hcontent (by decide)
  | alpha name | alphaNum name =>
    exact ((hidentifier.append name).append "'").ne hcontent (by decide)
  | number digits => exact (hnumber.append digits).ne hcontent (by decide)
  | comment _ => exact hcomment.ne hcontent (by decide)
  | _ =>
    exact @StartsWith.ne '\'' 's' _ _ rfl hcontent (by decide)

theorem legible_unexpectedToken {kind : TokenKind} (h : ∀ text, kind ≠ .content text)
    (span : Span) : (Error.unexpectedToken kind.describe span).Legible where
  regular := rfl
  statement := nofun
  content := nofun
  delimiter := nofun
  token text _ := by
    rintro (heq | ⟨_, ⟨⟩⟩)
    exact describe_ne_content h text (Error.unexpectedToken.inj heq).1

theorem legible_expectedToken {expected found : String} (hcontent : expected ≠ "string content")
    (hdelimiter : expected ≠ TokenKind.quote.describe)
    (hfound : ∀ text, found ≠ (TokenKind.content text).describe) (span : Span) :
    (Error.expectedToken expected found span).Legible where
  regular := rfl
  statement := nofun
  content _ _ heq := hcontent (Error.expectedToken.inj heq).1
  delimiter _ _ heq := hdelimiter (Error.expectedToken.inj heq).1
  token text _ := by
    rintro (⟨⟨⟩⟩ | ⟨_, heq⟩)
    exact hfound text (Error.expectedToken.inj heq).2.1

theorem legible_endOfInput : (Error.unexpectedEndOfInput "expression").Legible where
  regular := rfl
  statement := by decide
  content := nofun
  delimiter := nofun
  token _ _ := by rintro (⟨⟨⟩⟩ | ⟨_, ⟨⟩⟩)

theorem legible_mismatch {ending : Span} {expected : String} {tokens : List Token}
    (hgrouped : Grouped tokens) (hcontent : expected ≠ "string content")
    (hdelimiter : expected ≠ TokenKind.quote.describe) :
    (mismatch ending expected tokens).Legible := by
  cases tokens with
  | nil =>
    have hfirst : StartsWith 'e' "end of input" := rfl
    exact legible_expectedToken hcontent hdelimiter
      (fun text ↦ hfirst.ne (startsWith_content text) (by decide)) ending
  | cons token rest =>
    exact legible_expectedToken hcontent hdelimiter (describe_ne_content hgrouped.kind_ne_content) _

/-! ## Readers that take literals whole -/

/-- A reading that ended before a literal or outside of any, with at most `limit` tokens left, or
with a legible error. -/
def Leaves {α : Type} (limit : Nat) : Except Error (α × List Token) → Prop
  | .ok (_, rest) => Grouped rest ∧ rest.length ≤ limit
  | .error error => error.Legible

/-- What a reader leaves of at most `budget` tokens. -/
def Respects {α : Type} (budget : Nat) (reader : Reader α) : Prop :=
  ∀ {limit : Nat} {tokens : List Token}, limit ≤ budget → Grouped tokens →
    tokens.length ≤ limit → Leaves limit (reader tokens)

variable {α β : Type} {limit : Nat}

theorem leaves_ok {value : α} {rest : List Token} (hgrouped : Grouped rest)
    (hlength : rest.length ≤ limit) : Leaves limit (.ok (value, rest)) :=
  ⟨hgrouped, hlength⟩

theorem Leaves.mono {more : Nat} {result : Except Error (α × List Token)}
    (h : Leaves limit result) (hmore : limit ≤ more) : Leaves more result := by
  match result, h with
  | .ok (_, _), ⟨hgrouped, hlength⟩ => exact ⟨hgrouped, Nat.le_trans hlength hmore⟩
  | .error _, h => exact h

theorem Leaves.bind {first : Except Error (α × List Token)}
    {next : α × List Token → Except Error (β × List Token)} (h : Leaves limit first)
    (hnext : ∀ value rest, Grouped rest → rest.length ≤ limit → Leaves limit (next (value, rest))) :
    Leaves limit (first >>= next) := by
  match first, h with
  | .ok (value, rest), ⟨hgrouped, hlength⟩ => exact hnext value rest hgrouped hlength
  | .error _, h => exact h

/-- The kinds that a reader may insist on outside of literals. -/
def marks : List TokenKind :=
  [.assign, .semicolon, .leftParen, .rightParen, .leftBrace, .rightBrace]

theorem marks_apart : ∀ kind ∈ marks, kind ≠ .quote ∧ kind.describe ≠ "string content" ∧
    kind.describe ≠ TokenKind.quote.describe := by decide

variable {ending : Span} {tokens : List Token}

theorem leaves_expect {kind : TokenKind} (hkind : kind ∈ marks)
    {next : List Token → Except Error (α × List Token)} (hgrouped : Grouped tokens)
    (hlength : tokens.length ≤ limit)
    (hnext : ∀ rest, Grouped rest → rest.length ≤ limit → Leaves limit (next rest)) :
    Leaves limit (expect ending kind tokens >>= next) := by
  obtain ⟨hquote, hcontent, hdelimiter⟩ := marks_apart kind hkind
  have hrefused : (mismatch ending kind.describe tokens).Legible :=
    legible_mismatch hgrouped hcontent hdelimiter
  unfold expect
  split
  · rename_i token rest
    split
    · rename_i hfound
      rw [List.length_cons] at hlength
      exact hnext rest (hgrouped.tail (hfound ▸ hquote)) (by omega)
    · exact hrefused
  · exact hrefused

theorem leaves_identifier (hgrouped : Grouped tokens) (hlength : tokens.length ≤ limit) :
    Leaves limit (identifier ending tokens) := by
  unfold identifier
  split
  · rw [List.length_cons] at hlength
    exact ⟨hgrouped.tail nofun, by omega⟩
  · rw [List.length_cons] at hlength
    exact ⟨hgrouped.tail nofun, by omega⟩
  · exact legible_mismatch hgrouped (by decide) (by decide)

/-- A literal is there as a whole, so that reading it cannot fail. -/
theorem leaves_stringLiteral {span : Span} {rest : List Token}
    (hgrouped : Grouped (⟨.quote, span⟩ :: rest)) (hlength : (⟨.quote, span⟩ :: rest).length ≤ limit) :
    Leaves limit (stringLiteral ending (⟨.quote, span⟩ :: rest)) := by
  cases hgrouped with
  | single hkind _ => exact absurd (.inl rfl) hkind
  | literal _ _ hrest =>
    simp only [List.length_cons] at hlength
    simp only [stringLiteral, expect_cons, ok_bind]
    exact ⟨hrest, by omega⟩

/-! ## Expressions -/

theorem leaves_primary {expression : Reader Node} (hexpression : Respects limit expression)
    (hgrouped : Grouped tokens) (hlength : tokens.length ≤ limit) :
    Leaves limit (primary ending expression tokens) := by
  cases tokens with
  | nil => exact legible_endOfInput
  | cons token rest =>
    obtain ⟨kind, span⟩ := token
    have hplain := hgrouped.kind_ne_content
    have hshorter : rest.length ≤ limit := by
      rw [List.length_cons] at hlength
      omega
    cases kind with
    | number | alpha | alphaNum => exact ⟨hgrouped.tail nofun, hshorter⟩
    | quote => exact (leaves_stringLiteral hgrouped hlength).bind fun _ _ ↦ leaves_ok
    | leftParen =>
      refine (hexpression (Nat.le_refl _) (hgrouped.tail nofun) hshorter).bind
        fun _ rest hgrouped hlength ↦ ?_
      exact leaves_expect (by decide) hgrouped hlength fun _ ↦ leaves_ok
    | keyword word =>
      cases word with
      | trueWord | falseWord => exact ⟨hgrouped.tail nofun, hshorter⟩
      | _ => exact legible_unexpectedToken hplain span
    | _ => exact legible_unexpectedToken hplain span

theorem leaves_climb {operand : Nat → Reader Node} (hoperand : ∀ least, Respects limit (operand least))
    (least rounds : Nat) (left : Node) (hgrouped : Grouped tokens) (hlength : tokens.length ≤ limit) :
    Leaves limit (climb operand least rounds left tokens) := by
  induction rounds generalizing left tokens with
  | zero => exact ⟨hgrouped, hlength⟩
  | succ rounds ih =>
    obtain _ | ⟨⟨kind, span⟩, rest⟩ := tokens
    · exact ⟨hgrouped, hlength⟩
    cases hbinds : kind.precedence? with
    | none =>
      simp only [climb, hbinds]
      exact ⟨hgrouped, hlength⟩
    | some precedence =>
      obtain ⟨op, hop⟩ := exists_binOp_of_precedence? hbinds
      simp only [climb, hbinds, hop, Grammar.ok_bind]
      split
      · exact ⟨hgrouped, hlength⟩
      have hkind : kind ≠ .quote := by
        rintro rfl
        cases hbinds
      rw [List.length_cons] at hlength
      refine (hoperand _ (Nat.le_refl _) (hgrouped.tail hkind) (by omega)).bind
        fun right rest hgrouped hlength ↦ ?_
      exact ih _ hgrouped hlength

theorem respects_expressionFrom (ending : Span) (budget least bound : Nat) :
    Respects bound (expressionFrom ending budget least) := by
  induction budget generalizing least bound with
  | zero => exact fun _ _ _ ↦ legible_endOfInput
  | succ budget ih =>
    intro limit tokens _ hgrouped hlength
    refine (leaves_primary (ih 0 limit) hgrouped hlength).bind fun left rest hgrouped hlength ↦ ?_
    exact leaves_climb (fun least ↦ ih least limit) least budget left hgrouped hlength

theorem leaves_expression (budget : Nat) (hgrouped : Grouped tokens)
    (hlength : tokens.length ≤ limit) : Leaves limit (expression ending budget tokens) :=
  respects_expressionFrom ending budget 0 limit (Nat.le_refl _) hgrouped hlength

/-! ## Statements without blocks -/

theorem leaves_bindingValue (budget : Nat) (hgrouped : Grouped tokens)
    (hlength : tokens.length ≤ limit) : Leaves limit (bindingValue ending budget tokens) := by
  unfold bindingValue
  split
  · exact (leaves_stringLiteral hgrouped hlength).bind fun _ _ ↦ leaves_ok
  · rw [List.length_cons] at hlength
    exact ⟨hgrouped.tail nofun, by omega⟩
  · rw [List.length_cons] at hlength
    exact ⟨hgrouped.tail nofun, by omega⟩
  · exact leaves_expression budget hgrouped hlength

theorem leaves_binding (build : String → Node → Node) (budget : Nat) (hgrouped : Grouped tokens)
    (hlength : tokens.length ≤ limit) : Leaves limit (binding ending build budget tokens) := by
  refine (leaves_identifier hgrouped hlength).bind fun name rest hgrouped hlength ↦ ?_
  refine leaves_expect (by decide) hgrouped hlength fun rest hgrouped hlength ↦ ?_
  refine (leaves_bindingValue budget hgrouped hlength).bind fun value rest hgrouped hlength ↦ ?_
  exact leaves_expect (by decide) hgrouped hlength fun _ ↦ leaves_ok

theorem leaves_declaration (budget : Nat) (hgrouped : Grouped tokens)
    (hlength : tokens.length ≤ limit) : Leaves limit (declaration ending budget tokens) := by
  unfold declaration
  split
  · rw [List.length_cons] at hlength
    exact leaves_binding _ budget (hgrouped.tail nofun) (by omega)
  · exact leaves_binding _ budget hgrouped hlength

theorem leaves_loopInit (budget : Nat) (hgrouped : Grouped tokens)
    (hlength : tokens.length ≤ limit) : Leaves limit (loopInit ending budget tokens) := by
  unfold loopInit
  split
  · rw [List.length_cons] at hlength
    exact leaves_declaration budget (hgrouped.tail nofun) (by omega)
  · exact leaves_declaration budget hgrouped hlength
  · exact leaves_binding _ budget hgrouped hlength

theorem leaves_loopUpdate (budget : Nat) (hgrouped : Grouped tokens)
    (hlength : tokens.length ≤ limit) : Leaves limit (loopUpdate ending budget tokens) := by
  unfold loopUpdate
  split
  · simp only [List.length_cons] at hlength
    have hrest := (hgrouped.tail nofun).tail nofun
    exact (leaves_expression budget hrest (by omega)).bind fun _ _ ↦ leaves_ok
  · simp only [List.length_cons] at hlength
    have hrest := (hgrouped.tail nofun).tail nofun
    exact (leaves_expression budget hrest (by omega)).bind fun _ _ ↦ leaves_ok
  · exact leaves_expression budget hgrouped hlength

theorem leaves_ret (budget : Nat) (hgrouped : Grouped tokens) (hlength : tokens.length ≤ limit) :
    Leaves limit (ret ending budget tokens) := by
  refine (leaves_expression budget hgrouped hlength).bind fun value rest hgrouped hlength ↦ ?_
  exact leaves_expect (by decide) hgrouped hlength fun _ ↦ leaves_ok

theorem leaves_payload (newline : Bool) (budget : Nat) (hgrouped : Grouped tokens)
    (hlength : tokens.length ≤ limit) : Leaves limit (payload ending newline budget tokens) := by
  unfold payload
  split
  · exact (leaves_stringLiteral hgrouped hlength).bind fun _ _ ↦ leaves_ok
  · exact (leaves_expression budget hgrouped hlength).bind fun _ _ ↦ leaves_ok

theorem leaves_write (newline : Bool) (budget : Nat) (hgrouped : Grouped tokens)
    (hlength : tokens.length ≤ limit) : Leaves limit (write ending newline budget tokens) := by
  refine leaves_expect (by decide) hgrouped hlength fun rest hgrouped hlength ↦ ?_
  refine (leaves_payload newline budget hgrouped hlength).bind fun node rest hgrouped hlength ↦ ?_
  refine leaves_expect (by decide) hgrouped hlength fun rest hgrouped hlength ↦ ?_
  exact leaves_expect (by decide) hgrouped hlength fun _ ↦ leaves_ok

/-! ## Blocks -/

theorem respects_blockWith {statement : Reader Node} {budget : Nat}
    (hstatement : ∀ {limit tokens}, limit ≤ budget → Grouped tokens → tokens.length ≤ limit →
      tokens ≠ [] → Leaves limit (statement tokens)) (rounds : Nat) :
    Respects budget (blockWith ending statement rounds) := by
  have hstatements : ∀ rounds, Respects budget (statementsWith statement rounds) := by
    intro rounds
    induction rounds with
    | zero => exact fun _ ↦ leaves_ok
    | succ rounds ih =>
      intro limit tokens hlimit hgrouped hlength
      unfold statementsWith
      split
      · exact ⟨hgrouped, hlength⟩
      · exact ⟨hgrouped, hlength⟩
      · rename_i hnil _
        refine (hstatement hlimit hgrouped hlength hnil).bind fun first rest hgrouped hlength ↦ ?_
        exact (ih hlimit hgrouped hlength).bind fun _ _ ↦ leaves_ok
  intro limit tokens hlimit hgrouped hlength
  refine leaves_expect (by decide) hgrouped hlength fun rest hgrouped hlength ↦ ?_
  refine (hstatements rounds hlimit hgrouped hlength).bind fun body rest hgrouped hlength ↦ ?_
  exact leaves_expect (by decide) hgrouped hlength fun _ ↦ leaves_ok

section Blocks

variable {budget : Nat} {block : Reader (List Node)} (hblock : Respects budget block)

include hblock

theorem respects_elseIfsWith (rounds : Nat) :
    Respects budget (elseIfsWith (expression ending budget) block rounds) := by
  induction rounds with
  | zero => exact fun _ ↦ leaves_ok
  | succ rounds ih =>
    intro limit tokens hlimit hgrouped hlength
    unfold elseIfsWith
    split
    · rw [List.length_cons] at hlength
      refine (leaves_expression budget (hgrouped.tail nofun) (by omega)).bind
        fun condition rest hgrouped hlength ↦ ?_
      refine (hblock hlimit hgrouped hlength).bind fun body rest hgrouped hlength ↦ ?_
      exact (ih hlimit hgrouped hlength).bind fun _ _ ↦ leaves_ok
    · exact ⟨hgrouped, hlength⟩

theorem respects_otherwiseWith : Respects budget (otherwiseWith block) := by
  intro limit tokens hlimit hgrouped hlength
  unfold otherwiseWith
  split
  · rw [List.length_cons] at hlength
    exact (hblock hlimit (hgrouped.tail nofun) (by omega)).bind fun _ _ ↦ leaves_ok
  · exact ⟨hgrouped, hlength⟩

theorem respects_branchWith : Respects budget (branchWith ending block budget) := by
  intro limit tokens hlimit hgrouped hlength
  refine (leaves_expression budget hgrouped hlength).bind fun condition rest hgrouped hlength ↦ ?_
  refine (hblock hlimit hgrouped hlength).bind fun body rest hgrouped hlength ↦ ?_
  refine (respects_elseIfsWith hblock budget hlimit hgrouped hlength).bind
    fun elseIfs rest hgrouped hlength ↦ ?_
  exact (respects_otherwiseWith hblock hlimit hgrouped hlength).bind fun _ _ ↦ leaves_ok

theorem respects_loopWith : Respects budget (loopWith ending block budget) := by
  intro limit tokens hlimit hgrouped hlength
  refine leaves_expect (by decide) hgrouped hlength fun rest hgrouped hlength ↦ ?_
  refine (leaves_loopInit budget hgrouped hlength).bind fun init rest hgrouped hlength ↦ ?_
  refine (leaves_expression budget hgrouped hlength).bind fun condition rest hgrouped hlength ↦ ?_
  refine leaves_expect (by decide) hgrouped hlength fun rest hgrouped hlength ↦ ?_
  refine (leaves_loopUpdate budget hgrouped hlength).bind fun update rest hgrouped hlength ↦ ?_
  refine leaves_expect (by decide) hgrouped hlength fun rest hgrouped hlength ↦ ?_
  exact (hblock hlimit hgrouped hlength).bind fun _ _ ↦ leaves_ok

end Blocks

/-- The induction is on the budget, which no statement inside of another exceeds. -/
theorem leaves_statement {budget : Nat} (hbudget : limit ≤ budget) (hgrouped : Grouped tokens)
    (hlength : tokens.length ≤ limit) (hnonempty : tokens ≠ []) :
    Leaves limit (statement ending budget tokens) := by
  induction budget generalizing limit tokens with
  | zero => exact absurd (List.length_eq_zero_iff.1 (by omega)) hnonempty
  | succ budget ih =>
    cases tokens with
    | nil => exact absurd rfl hnonempty
    | cons token rest =>
      obtain ⟨kind, span⟩ := token
      by_cases hbinding : startsBinding kind
      · rw [statement_eq_loopInit ending budget hbinding]
        exact leaves_loopInit budget hgrouped hlength
      have hplain := hgrouped.kind_ne_content
      have hblock : Respects budget (blockWith ending (statement ending budget) budget) :=
        respects_blockWith (fun hlimit ↦ ih hlimit) budget
      rw [List.length_cons] at hlength
      have hshorter : rest.length ≤ limit := by omega
      have hcovered : rest.length ≤ budget := by omega
      cases kind with
      | comment text => exact ⟨hgrouped.tail nofun, hshorter⟩
      | keyword word =>
        have hrest : Grouped rest := hgrouped.tail nofun
        cases word with
        | ifWord =>
          exact (respects_branchWith hblock hcovered hrest (Nat.le_refl _)).mono hshorter
        | forWord =>
          exact (respects_loopWith hblock hcovered hrest (Nat.le_refl _)).mono hshorter
        | ret => exact leaves_ret budget hrest hshorter
        | write => exact leaves_write false budget hrest hshorter
        | writeln => exact leaves_write true budget hrest hshorter
        | define | mutable => exact absurd trivial hbinding
        | elif | elseWord | trueWord | falseWord => exact legible_unexpectedToken hplain span
      | alpha _ | alphaNum _ => exact absurd trivial hbinding
      | _ => exact legible_unexpectedToken hplain span

/-! ## Programs -/

/-- A statement takes a token at least. -/
theorem length_lt_of_statement {budget : Nat} {node : Node} {rest : List Token}
    (hbudget : tokens.length ≤ budget) (h : statement ending budget tokens = .ok (node, rest)) :
    rest.length < tokens.length := by
  obtain ⟨used, rfl, hitem⟩ := (statement_reads ending budget).sound hbudget h
  obtain ⟨first, others, rfl, _⟩ := hitem.exists_first
  rw [List.length_append, List.length_cons]
  omega

theorem legible_of_program {budget : Nat} {error : Error} (hbudget : tokens.length ≤ budget)
    (hgrouped : Grouped tokens) (h : Parser.program ending budget tokens = .error error) :
    error.Legible := by
  induction budget generalizing tokens with
  | zero => cases h
  | succ budget ih =>
    unfold Parser.program at h
    split at h
    · cases h
    · rw [List.length_cons] at hbudget
      exact ih (by omega) (hgrouped.tail nofun) h
    · rename_i hnil _
      have hstatement : Leaves (budget + 1) (statement ending (budget + 1) tokens) :=
        leaves_statement (Nat.le_refl _) hgrouped hbudget hnil
      cases hfirst : statement ending (budget + 1) tokens with
      | error refusal =>
        rw [hfirst] at h hstatement
        cases h
        exact hstatement
      | ok result =>
        obtain ⟨node, rest⟩ := result
        rw [hfirst] at h hstatement
        have hshorter := length_lt_of_statement hbudget hfirst
        cases hothers : Parser.program ending budget rest with
        | error refusal =>
          simp only [ok_bind, hothers] at h
          cases h
          exact ih (by omega) hstatement.1 hothers
        | ok others =>
          simp only [ok_bind, hothers] at h
          cases h

theorem legible_of_parse {error : Error} (hgrouped : Grouped tokens)
    (h : parse tokens = .error error) : error.Legible :=
  legible_of_program (Nat.le_refl _) hgrouped h

end Parser

end Scriptlet
