import Scriptlet.Proofs.Viable.Program

/-!
# Reading without places

A reader of tokens looks at their kinds. The places reach nothing but the errors it reports: on
tokens that have lost their places it reads the same, leaves the same and refuses for the same
reason. For each reader this is one equation, and the equations compose along its steps.
-/

namespace Scriptlet

/-- The error without its place. -/
def Error.unplaced : Error → Error
  | unexpectedCharacter c _ => unexpectedCharacter c default
  | unterminatedString _ => unterminatedString default
  | unexpectedToken found _ => unexpectedToken found default
  | expectedToken expected found _ => expectedToken expected found default
  | error => error

/-- The token without its place. -/
def Token.unplaced (token : Token) : Token := ⟨token.kind, default⟩

namespace Parser

open Grammar Viable

/-- A result without places, with a change to what was read. -/
def forget {α β : Type} (change : α → β) : Except Error α → Except Error β
  | .ok value => .ok (change value)
  | .error error => .error error.unplaced

theorem forget_bind {α β γ δ : Type} {change : α → β} {last : γ → δ} {first : Except Error α}
    {blind : Except Error β} {next : α → Except Error γ} {follower : β → Except Error δ}
    (h : blind = forget change first)
    (hnext : ∀ value, follower (change value) = forget last (next value)) :
    (blind >>= follower) = forget last (first >>= next) := by
  subst h
  cases first with
  | ok value => exact hnext value
  | error error => rfl

/-- The tokens without their places. -/
abbrev blindly (tokens : List Token) : List Token := tokens.map Token.unplaced

/-- Without places, `blind` reads what `reader` reads with them. -/
def Forgets {α : Type} (reader blind : Reader α) : Prop :=
  ∀ tokens, blind (blindly tokens) = forget (Prod.map id blindly) (reader tokens)

/-- What is left for the next step has lost its places as well. -/
theorem forget_read {α γ δ : Type} {last : γ → δ} {first blind : Except Error (α × List Token)}
    {next : α × List Token → Except Error γ} {follower : α × List Token → Except Error δ}
    (h : blind = forget (Prod.map id blindly) first)
    (hnext : ∀ value rest, follower (value, blindly rest) = forget last (next (value, rest))) :
    (blind >>= follower) = forget last (first >>= next) :=
  forget_bind h fun result ↦ hnext result.1 result.2

theorem Forgets.map {α β : Type} {reader blind : Reader α} (h : Forgets reader blind)
    (build : α → β) (tokens : List Token) :
    (blind (blindly tokens) >>= fun (value, rest) ↦ .ok (build value, rest)) =
      forget (Prod.map id blindly)
        (reader tokens >>= fun (value, rest) ↦ .ok (build value, rest)) :=
  forget_bind (h tokens) fun _ ↦ rfl

theorem apart_blindly {continues : TokenKind → Prop} {tokens : List Token} :
    Apart continues (blindly tokens) ↔ Apart continues tokens := by
  cases tokens with
  | nil => rfl
  | cons token rest => rw [blindly, List.map_cons, apart_cons, apart_cons, Token.unplaced]

theorem expect_blindly (ending : Span) (kind : TokenKind) (tokens : List Token) :
    expect default kind (blindly tokens) = forget blindly (expect ending kind tokens) := by
  cases tokens with
  | nil => rfl
  | cons token rest =>
    unfold expect
    rw [blindly, List.map_cons]
    dsimp only [Token.unplaced]
    split
    · rfl
    · rfl

variable (ending : Span)

theorem forgets_identifier : Forgets (identifier ending) (identifier default) := by
  rintro (_ | ⟨⟨kind, span⟩, rest⟩)
  · rfl
  · cases kind <;> rfl

theorem forgets_stringLiteral : Forgets (stringLiteral ending) (stringLiteral default) := by
  intro tokens
  refine forget_bind (expect_blindly ending .quote tokens) fun inside ↦ ?_
  obtain _ | ⟨⟨kind, span⟩, rest⟩ := inside
  · rfl
  · cases kind with
    | content text => exact forget_bind (expect_blindly ending .quote rest) fun _ ↦ rfl
    | _ => rfl

/-! ## Expressions -/

theorem forgets_primary {expression blind : Reader Node} (h : Forgets expression blind) :
    Forgets (primary ending expression) (primary default blind) := by
  rintro (_ | ⟨⟨kind, span⟩, rest⟩)
  · rfl
  · cases kind with
    | keyword word => cases word <;> rfl
    | quote => exact (forgets_stringLiteral ending).map Node.string (⟨.quote, span⟩ :: rest)
    | leftParen =>
      refine forget_read (h rest) fun inner rest ↦ ?_
      exact forget_bind (expect_blindly ending .rightParen rest) fun _ ↦ rfl
    | _ => rfl

theorem forgets_climb {operand blind : Nat → Reader Node}
    (h : ∀ least, Forgets (operand least) (blind least)) (least budget : Nat) (left : Node) :
    Forgets (climb operand least budget left) (climb blind least budget left) := by
  induction budget generalizing left with
  | zero => exact fun _ ↦ rfl
  | succ budget ih =>
    intro tokens
    by_cases hstop : Apart (binds least) tokens
    · rw [climb_eq_of_apart hstop, climb_eq_of_apart (apart_blindly.2 hstop)]
      rfl
    · obtain ⟨op, span, rest, rfl, hleast⟩ := exists_operator_of_not_apart hstop
      rw [blindly, List.map_cons, Token.unplaced, climb_operator hleast, climb_operator hleast]
      exact forget_read (h op.rightPrecedence rest) fun right rest ↦
        ih (.binary left op right) rest

theorem forgets_expressionFrom (budget least : Nat) :
    Forgets (expressionFrom ending budget least) (expressionFrom default budget least) := by
  induction budget generalizing least with
  | zero => exact fun _ ↦ rfl
  | succ budget ih =>
    intro tokens
    refine forget_read (forgets_primary ending (ih 0) tokens) fun left rest ↦ ?_
    exact forgets_climb ih least budget left rest

theorem forgets_expression (budget : Nat) :
    Forgets (expression ending budget) (expression default budget) :=
  forgets_expressionFrom ending budget 0

/-! ## Statements -/

theorem forgets_bindingValue (budget : Nat) :
    Forgets (bindingValue ending budget) (bindingValue default budget) := by
  intro tokens
  by_cases hliteral : Apart opensLiteral tokens
  · rw [bindingValue_eq_expression hliteral,
      bindingValue_eq_expression (apart_blindly.2 hliteral)]
    exact forgets_expression ending budget tokens
  · obtain ⟨⟨_, span⟩, rest, rfl, rfl | rfl | rfl⟩ := exists_cons_of_not_apart hliteral
    · exact (forgets_stringLiteral ending).map Node.string (⟨.quote, span⟩ :: rest)
    · rfl
    · rfl

theorem forgets_binding (build : String → Node → Node) (budget : Nat) :
    Forgets (binding ending build budget) (binding default build budget) := by
  intro tokens
  refine forget_read (forgets_identifier ending tokens) fun name tokens ↦ ?_
  refine forget_bind (expect_blindly ending .assign tokens) fun tokens ↦ ?_
  refine forget_read (forgets_bindingValue ending budget tokens) fun value tokens ↦ ?_
  exact forget_bind (expect_blindly ending .semicolon tokens) fun _ ↦ rfl

theorem forgets_declaration (budget : Nat) :
    Forgets (declaration ending budget) (declaration default budget) := by
  intro tokens
  by_cases hmutable : Apart (· = .keyword .mutable) tokens
  · rw [declaration_eq_binding hmutable, declaration_eq_binding (apart_blindly.2 hmutable)]
    exact forgets_binding ending _ budget tokens
  · obtain ⟨⟨_, span⟩, rest, rfl, rfl⟩ := exists_cons_of_not_apart hmutable
    exact forgets_binding ending (fun name value ↦ .declare name value true) budget rest

theorem forgets_loopInit (budget : Nat) :
    Forgets (loopInit ending budget) (loopInit default budget) := by
  intro tokens
  by_cases hdeclares : Apart declares tokens
  · rw [loopInit_eq_assignment hdeclares, loopInit_eq_assignment (apart_blindly.2 hdeclares)]
    exact forgets_binding ending .assign budget tokens
  · obtain ⟨⟨_, span⟩, rest, rfl, rfl | rfl⟩ := exists_cons_of_not_apart hdeclares
    · exact forgets_declaration ending budget rest
    · exact forgets_declaration ending budget (⟨.keyword .mutable, span⟩ :: rest)

theorem forgets_loopUpdate (budget : Nat) :
    Forgets (loopUpdate ending budget) (loopUpdate default budget) := by
  intro tokens
  by_cases hassign : Apart (· = .assign) tokens.tail
  · have hblind : Apart (· = .assign) (blindly tokens).tail := by
      rw [blindly, ← List.map_tail]
      exact apart_blindly.2 hassign
    rw [loopUpdate_eq_expression hassign, loopUpdate_eq_expression hblind]
    exact forgets_expression ending budget tokens
  · obtain ⟨⟨_, second⟩, others, htail, rfl⟩ := exists_cons_of_not_apart hassign
    obtain _ | ⟨⟨kind, first⟩, rest⟩ := tokens
    · cases htail
    obtain rfl : rest = ⟨.assign, second⟩ :: others := htail
    cases kind with
    | alpha name | alphaNum name =>
      exact (forgets_expression ending budget).map (Node.assign name) others
    | _ => exact forgets_expression ending budget (⟨_, first⟩ :: ⟨.assign, second⟩ :: others)

theorem forgets_payload (newline : Bool) (budget : Nat) :
    Forgets (payload ending newline budget) (payload default newline budget) := by
  intro tokens
  by_cases hquote : Apart (· = .quote) tokens
  · rw [payload_eq_expression hquote, payload_eq_expression (apart_blindly.2 hquote)]
    exact (forgets_expression ending budget).map (fun value ↦ Node.write newline none (some value))
      tokens
  · obtain ⟨⟨_, span⟩, rest, rfl, rfl⟩ := exists_cons_of_not_apart hquote
    exact (forgets_stringLiteral ending).map (fun text ↦ Node.write newline (some text) none)
      (⟨.quote, span⟩ :: rest)

theorem forgets_write (newline : Bool) (budget : Nat) :
    Forgets (write ending newline budget) (write default newline budget) := by
  intro tokens
  refine forget_bind (expect_blindly ending .leftParen tokens) fun tokens ↦ ?_
  refine forget_read (forgets_payload ending newline budget tokens) fun node tokens ↦ ?_
  refine forget_bind (expect_blindly ending .rightParen tokens) fun tokens ↦ ?_
  exact forget_bind (expect_blindly ending .semicolon tokens) fun _ ↦ rfl

theorem forgets_ret (budget : Nat) : Forgets (ret ending budget) (ret default budget) := by
  intro tokens
  refine forget_read (forgets_expression ending budget tokens) fun value tokens ↦ ?_
  exact forget_bind (expect_blindly ending .semicolon tokens) fun _ ↦ rfl

/-! ## Blocks -/

theorem forgets_statementsWith {statement blind : Reader Node} (h : Forgets statement blind)
    (budget : Nat) :
    Forgets (statementsWith statement budget) (statementsWith blind budget) := by
  induction budget with
  | zero => exact fun _ ↦ rfl
  | succ budget ih =>
    rintro (_ | ⟨token, rest⟩)
    · rfl
    by_cases hbrace : token.kind = .rightBrace
    · obtain ⟨_, span⟩ := token
      subst hbrace
      rfl
    · have hblind : extendsBlock token.unplaced.kind := hbrace
      rw [blindly, List.map_cons, statementsWith_cons hbrace, statementsWith_cons hblind]
      refine forget_read (h (token :: rest)) fun first rest ↦ ?_
      exact ih.map (first :: ·) rest

variable {block blind : Reader (List Node)} (hblock : Forgets block blind)

theorem forgets_blockWith {statement blind : Reader Node} (h : Forgets statement blind)
    (budget : Nat) :
    Forgets (blockWith ending statement budget) (blockWith default blind budget) := by
  intro tokens
  refine forget_bind (expect_blindly ending .leftBrace tokens) fun tokens ↦ ?_
  refine forget_read (forgets_statementsWith h budget tokens) fun body tokens ↦ ?_
  exact forget_bind (expect_blindly ending .rightBrace tokens) fun _ ↦ rfl

include hblock

theorem forgets_elseIfsWith {expression blindExpression : Reader Node}
    (h : Forgets expression blindExpression) (budget : Nat) :
    Forgets (elseIfsWith expression block budget) (elseIfsWith blindExpression blind budget) := by
  induction budget with
  | zero => exact fun _ ↦ rfl
  | succ budget ih =>
    intro tokens
    by_cases helif : Apart (· = .keyword .elif) tokens
    · rw [elseIfsWith_eq_of_apart helif, elseIfsWith_eq_of_apart (apart_blindly.2 helif)]
      rfl
    · obtain ⟨⟨_, span⟩, rest, rfl, rfl⟩ := exists_cons_of_not_apart helif
      refine forget_read (h rest) fun condition rest ↦ ?_
      refine forget_read (hblock rest) fun body rest ↦ ?_
      exact ih.map ((condition, body) :: ·) rest

theorem forgets_otherwiseWith : Forgets (otherwiseWith block) (otherwiseWith blind) := by
  intro tokens
  by_cases helse : Apart (· = .keyword .elseWord) tokens
  · rw [otherwiseWith_eq_of_apart helse, otherwiseWith_eq_of_apart (apart_blindly.2 helse)]
    rfl
  · obtain ⟨⟨_, span⟩, rest, rfl, rfl⟩ := exists_cons_of_not_apart helse
    exact hblock.map some rest

theorem forgets_branchWith (budget : Nat) :
    Forgets (branchWith ending block budget) (branchWith default blind budget) := by
  intro tokens
  have hexpression := forgets_expression ending budget
  refine forget_read (hexpression tokens) fun condition tokens ↦ ?_
  refine forget_read (hblock tokens) fun body tokens ↦ ?_
  refine forget_read (forgets_elseIfsWith hblock hexpression budget tokens)
    fun elseIfs tokens ↦ ?_
  exact (forgets_otherwiseWith hblock).map (Node.branch condition body elseIfs) tokens

theorem forgets_loopWith (budget : Nat) :
    Forgets (loopWith ending block budget) (loopWith default blind budget) := by
  intro tokens
  refine forget_bind (expect_blindly ending .leftParen tokens) fun tokens ↦ ?_
  refine forget_read (forgets_loopInit ending budget tokens) fun init tokens ↦ ?_
  refine forget_read (forgets_expression ending budget tokens) fun condition tokens ↦ ?_
  refine forget_bind (expect_blindly ending .semicolon tokens) fun tokens ↦ ?_
  refine forget_read (forgets_loopUpdate ending budget tokens) fun update tokens ↦ ?_
  refine forget_bind (expect_blindly ending .rightParen tokens) fun tokens ↦ ?_
  exact hblock.map (Node.loop init condition update) tokens

omit hblock

/-! ## Programs -/

theorem forgets_statement (budget : Nat) :
    Forgets (statement ending budget) (statement default budget) := by
  induction budget with
  | zero => exact fun _ ↦ rfl
  | succ budget ih =>
    have hblock := forgets_blockWith ending ih budget
    rintro (_ | ⟨⟨kind, span⟩, rest⟩)
    · rfl
    cases kind with
    | keyword word =>
      cases word with
      | define => exact forgets_declaration ending budget rest
      | mutable => exact forgets_declaration ending budget (⟨.keyword .mutable, span⟩ :: rest)
      | ifWord => exact forgets_branchWith ending hblock budget rest
      | forWord => exact forgets_loopWith ending hblock budget rest
      | ret => exact forgets_ret ending budget rest
      | write => exact forgets_write ending false budget rest
      | writeln => exact forgets_write ending true budget rest
      | _ => rfl
    | alpha name => exact forgets_binding ending .assign budget (⟨.alpha name, span⟩ :: rest)
    | alphaNum name => exact forgets_binding ending .assign budget (⟨.alphaNum name, span⟩ :: rest)
    | _ => rfl

theorem program_blindly (budget : Nat) (tokens : List Token) :
    program default budget (blindly tokens) = forget id (program ending budget tokens) := by
  induction budget generalizing tokens with
  | zero => rfl
  | succ budget ih =>
    obtain _ | ⟨token, rest⟩ := tokens
    · rfl
    by_cases hcomment : ∃ text, token.kind = .comment text
    · obtain ⟨_, span⟩ := token
      obtain ⟨text, rfl⟩ := hcomment
      exact ih rest
    · rw [not_exists] at hcomment
      have hblind : ∀ text, token.unplaced.kind ≠ .comment text := hcomment
      rw [blindly, List.map_cons, program_cons ending budget rest hcomment,
        program_cons default budget _ hblind]
      refine forget_read (forgets_statement ending (budget + 1) (token :: rest))
        fun first rest ↦ ?_
      exact forget_bind (ih rest) fun _ ↦ rfl

end Parser

theorem Parser.forget_id {α : Type} (result : Except Error α) :
    Parser.forget id result = result.mapError Error.unplaced := by
  cases result <;> rfl

/-- Tokens of the same kinds spell the same program or are refused for the same reason. -/
theorem mapError_parse_congr {tokens others : List Token}
    (h : tokens.map Token.kind = others.map Token.kind) :
    (parse tokens).mapError Error.unplaced = (parse others).mapError Error.unplaced := by
  have hblind : Parser.blindly tokens = Parser.blindly others := by
    have hunplaced : Token.unplaced = (⟨·, default⟩) ∘ Token.kind := rfl
    rw [Parser.blindly, Parser.blindly, hunplaced, ← List.map_map, ← List.map_map, h]
  have hlength : tokens.length = others.length := by
    simpa using congrArg List.length h
  calc
    (parse tokens).mapError Error.unplaced =
        Parser.program default tokens.length (Parser.blindly tokens) := by
      rw [← Parser.forget_id]
      exact (Parser.program_blindly _ _ tokens).symm
    _ = (parse others).mapError Error.unplaced := by
      rw [hblind, hlength, ← Parser.forget_id]
      exact Parser.program_blindly _ _ others

end Scriptlet
