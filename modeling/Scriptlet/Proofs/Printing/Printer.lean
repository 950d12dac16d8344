import Mathlib.Logic.Function.Basic
import Scriptlet.Proofs.Printing.WellFormed

/-!
# Printing with as few parentheses as possible

A printer from trees to token kinds. A left operand is put in parentheses only if its operator binds
weaker than the one above it, or equally tightly under `^`; a right operand only if it binds weaker,
or equally tightly under another operator. The right-hand side of a binding and an expression to be
written are put in parentheses only if they would start like a literal that stands alone.

The printed kinds are derived by the grammar, so reading them gives the tree back. As every tree
that has a spelling is well-formed, the well-formed programs are exactly those that can be read.
-/

namespace Scriptlet

/-- What a printer may choose: how numbers and names are written, and whether a literal that is all
of a binding's right-hand side is left without parentheses. -/
structure Spelling where
  numeral : Float → String
  word : String → TokenKind
  leavesBare : Bool
  numberOf_numeral : ∀ digits,
    Parser.numberOf (numeral (Parser.numberOf digits)) = Parser.numberOf digits
  identifier?_word : ∀ name, (word name).identifier? = some name

/-- Writes each number by some numeral that denotes it, and each name as one without digits. -/
noncomputable def Spelling.plain (leavesBare : Bool) : Spelling where
  numeral := Function.invFun Parser.numberOf
  word := .alpha
  leavesBare := leavesBare
  numberOf_numeral digits := Function.invFun_eq ⟨digits, rfl⟩
  identifier?_word _ := rfl

namespace Printer

open Grammar

def parenthesised (kinds : List TokenKind) : List TokenKind :=
  .leftParen :: (kinds ++ [.rightParen])

/-- Whether the operator needs parentheses around a left operand whose own operator is `inner`. -/
def regroupsLeft (op inner : BinOp) : Bool :=
  inner.precedence < op.precedence || (inner.precedence == op.precedence && op == .pow)

/-- Whether the operator needs parentheses around a right operand whose own operator is `inner`. -/
def regroupsRight (op inner : BinOp) : Bool :=
  inner.precedence < op.precedence || (inner.precedence == op.precedence && op != .pow)

def isBinaryWith (test : BinOp → Bool) : Node → Bool
  | .binary _ op _ => test op
  | _ => false

def wrapIf (wraps : Bool) (kinds : List TokenKind) : List TokenKind :=
  if wraps then parenthesised kinds else kinds

variable (spelling : Spelling)

def expression : Node → List TokenKind
  | .number value => [.number (spelling.numeral value)]
  | .string value => [.quote, .content value, .quote]
  | .boolean value => [.keyword (if value then .trueWord else .falseWord)]
  | .identifier name => [spelling.word name]
  | .binary left op right =>
    wrapIf (isBinaryWith (regroupsLeft op) left) (expression left) ++
      .operator op :: wrapIf (isBinaryWith (regroupsRight op) right) (expression right)
  | _ => []

instance : DecidablePred opensLiteral := fun kind ↦
  inferInstanceAs (Decidable (kind = .quote ∨ kind = .keyword .trueWord ∨
    kind = .keyword .falseWord))

/-- Parentheses for what starts with one of the kinds. -/
def shield (triggers : TokenKind → Prop) [DecidablePred triggers] (kinds : List TokenKind) :
    List TokenKind :=
  wrapIf (kinds.head?.any (triggers ·)) kinds

/-- The literals that may be all of a binding's right-hand side. -/
def isLiteral : Node → Bool
  | .string _ | .boolean _ => true
  | _ => false

/-- The right-hand side of a binding. -/
def value (node : Node) : List TokenKind :=
  if spelling.leavesBare && isLiteral node then expression spelling node
  else shield opensLiteral (expression spelling node)

def binding (name : String) (node : Node) : List TokenKind :=
  spelling.word name :: .assign :: (value spelling node ++ [.semicolon])

/-- The last part of a loop header. -/
def update : Node → List TokenKind
  | .assign name node => spelling.word name :: .assign :: expression spelling node
  | node => expression spelling node

/-- What is written: a text, or an expression that must not look like one. -/
def payload : Option String → Option Node → List TokenKind
  | some text, _ => [.quote, .content text, .quote]
  | none, some node => shield (· = .quote) (expression spelling node)
  | none, none => []

def braces (kinds : List TokenKind) : List TokenKind := .leftBrace :: (kinds ++ [.rightBrace])

mutual

/-- A statement. An expression in its place is printed as it is. -/
def statement : Node → List TokenKind
  | .declare name node isMutable =>
    .keyword .define :: ((if isMutable then [.keyword .mutable] else []) ++
      binding spelling name node)
  | .assign name node => binding spelling name node
  | .branch condition inside elseIfs otherwise =>
    .keyword .ifWord :: (expression spelling condition ++
      (braces (body inside) ++ (clauses elseIfs ++ lastResort otherwise)))
  | .loop init condition step inside =>
    .keyword .forWord :: .leftParen :: (statement init ++ (expression spelling condition ++
      .semicolon :: (update spelling step ++ .rightParen :: braces (body inside))))
  | .write newline text node =>
    .keyword (if newline then .writeln else .write) :: .leftParen ::
      (payload spelling text node ++ [.rightParen, .semicolon])
  | .ret node => .keyword .ret :: (expression spelling node ++ [.semicolon])
  | .comment text => [.comment text]
  | node => expression spelling node

def body : List Node → List TokenKind
  | [] => []
  | node :: nodes => statement node ++ body nodes

def clauses : List (Node × List Node) → List TokenKind
  | [] => []
  | (condition, inside) :: others =>
    .keyword .elif :: (expression spelling condition ++ (braces (body inside) ++ clauses others))

def lastResort : Option (List Node) → List TokenKind
  | none => []
  | some inside => .keyword .elseWord :: braces (body inside)

end

/-- A whole program. -/
def program (nodes : Program) : List TokenKind := body spelling nodes

/-! ## Expressions -/

/-- The level at which an expression is derived without parentheses around it. -/
def level : Node → Nat
  | .binary _ op _ => op.precedence
  | _ => 5

theorem leftLevel_le_precedence {op inner : BinOp} (h : regroupsLeft op inner = false) :
    leftLevel op ≤ inner.precedence := by
  revert h
  cases op <;> cases inner <;> decide

theorem rightPrecedence_le_precedence {op inner : BinOp} (h : regroupsRight op inner = false) :
    op.rightPrecedence ≤ inner.precedence := by
  revert h
  cases op <;> cases inner <;> decide

theorem rightPrecedence_le_five (op : BinOp) : op.rightPrecedence ≤ 5 := by
  cases op <;> decide

/-- An operand reaches the level it needs, with parentheses or without. -/
theorem level_wrapIf {least : Nat} {test : BinOp → Bool} (hleast : least ≤ 5)
    (htest : ∀ op, test op = false → least ≤ op.precedence) {kinds : List TokenKind} {node : Node}
    (h : Grammar.Level (level node) kinds node) :
    Grammar.Level least (wrapIf (isBinaryWith test node) kinds) node := by
  unfold wrapIf
  split
  · have hcomparison : Comparison kinds node := h.mono (Nat.zero_le _)
    have hoperand : Grammar.Level 5 (parenthesised kinds) node := Operand.parenthesised hcomparison
    exact hoperand.mono hleast
  · rename_i hwraps
    apply h.mono
    cases node with
    | binary left op right => exact htest op (by simpa [isBinaryWith] using hwraps)
    | _ => exact hleast

variable {spelling}

theorem level_expression {node : Node} (h : node.Denotable) :
    Grammar.Level (level node) (expression spelling node) node := by
  induction h with
  | number digits =>
    have hatom := Atom.number (spelling.numeral (Parser.numberOf digits))
    rw [spelling.numberOf_numeral] at hatom
    exact .atom hatom
  | string value => exact .atom (.string (.quoted value))
  | boolean value =>
    cases value with
    | true => exact .atom .true
    | false => exact .atom .false
  | identifier name => exact .atom (.identifier (spelling.identifier?_word name))
  | binary op _ _ ihleft ihright =>
    exact Grammar.Level.binary
      (level_wrapIf (leftLevel_le_five op) (fun _ ↦ leftLevel_le_precedence) ihleft)
      (level_wrapIf (rightPrecedence_le_five op) (fun _ ↦ rightPrecedence_le_precedence) ihright)

theorem comparison_expression {node : Node} (h : node.Denotable) :
    Comparison (expression spelling node) node :=
  (level_expression h).mono (Nat.zero_le _)

/-- A shielded expression starts with none of the kinds that it is shielded from. -/
theorem comparison_shield (triggers : TokenKind → Prop) [DecidablePred triggers]
    (hparen : ¬triggers .leftParen) {kinds : List TokenKind} {node : Node}
    (h : Comparison kinds node) :
    Comparison (shield triggers kinds) node ∧
      ∀ kind ∈ (shield triggers kinds).head?, ¬triggers kind := by
  unfold shield wrapIf
  split
  · refine ⟨.sum (.product (.power (.operand (.parenthesised h)))), ?_⟩
    rintro _ ⟨⟩
    exact hparen
  · rename_i hfirst
    refine ⟨h, fun kind hkind ↦ ?_⟩
    rw [Option.mem_def] at hkind
    simpa [hkind] using hfirst

/-! ## Statements -/

theorem derives_value {node : Node} (h : node.Denotable) : Value (value spelling node) node := by
  unfold value
  split
  · rename_i hbare
    obtain ⟨-, hliteral⟩ := Bool.and_eq_true_iff.1 hbare
    cases h with
    | string text => exact .string (.quoted text)
    | boolean truth =>
      cases truth with
      | true => exact .true
      | false => exact .false
    | _ => cases hliteral
  · have hnode : Comparison (expression spelling node) node := comparison_expression h
    obtain ⟨hshielded, hfirst⟩ := comparison_shield opensLiteral (by decide) hnode
    exact .expression hshielded hfirst

theorem derives_binding {build : String → Node → Node} (name : String) {node : Node}
    (h : node.Denotable) : Bound build (binding spelling name node) (build name node) :=
  .bound (spelling.identifier?_word name) (derives_value h)

theorem derives_initial {node : Node} (h : node.Initial) :
    Binding (statement spelling node) node := by
  cases h with
  | declare name isMutable hvalue =>
    rw [statement]
    cases isMutable with
    | true => exact .define (.mutable (derives_binding name hvalue))
    | false => exact .define (.immutable (derives_binding name hvalue))
  | assign name hvalue =>
    rw [statement]
    exact .assign (derives_binding name hvalue)

theorem derives_update {node : Node} (h : node.Advancing) :
    Update (update spelling node) node := by
  cases h with
  | assign name hvalue =>
    exact .assign (spelling.identifier?_word name) (comparison_expression hvalue)
  | expression hnode =>
    have hupdate : update spelling node = expression spelling node := by
      cases hnode <;> rfl
    rw [hupdate]
    exact .expression (comparison_expression hnode)

theorem derives_payload (newline : Bool) {node : Node} (h : node.Denotable) :
    Payload newline (payload spelling none (some node)) (.write newline none (some node)) := by
  have hnode : Comparison (expression spelling node) node := comparison_expression h
  obtain ⟨hshielded, hfirst⟩ := comparison_shield (· = .quote) (by decide) hnode
  exact .expression hshielded hfirst

theorem derives_write {newline : Bool} {text : Option String} {node : Option Node}
    (h : Payload newline (payload spelling text node) (.write newline text node)) :
    Statement (statement spelling (.write newline text node)) (.write newline text node) := by
  rw [statement]
  cases newline with
  | true => exact .writeln (.written h)
  | false => exact .write (.written h)

theorem derives_body {nodes : List Node}
    (h : ∀ node ∈ nodes, Item (statement spelling node) node) :
    Items (body spelling nodes) nodes := by
  induction nodes with
  | nil => exact .nil
  | cons node rest ih =>
    rw [List.forall_mem_cons] at h
    exact .cons h.1 (ih h.2)

theorem derives_clauses {elseIfs : List (Node × List Node)}
    (hguards : ∀ clause ∈ elseIfs, clause.1.Denotable)
    (hbodies : ∀ clause ∈ elseIfs, ∀ node ∈ clause.2, Item (statement spelling node) node) :
    ElseIfs (clauses spelling elseIfs) elseIfs := by
  induction elseIfs with
  | nil => exact .nil
  | cons clause rest ih =>
    obtain ⟨condition, inside⟩ := clause
    rw [List.forall_mem_cons] at hguards hbodies
    exact .cons (comparison_expression hguards.1) (.braces (derives_body hbodies.1))
      (ih hguards.2 hbodies.2)

theorem derives_lastResort {otherwise : Option (List Node)}
    (h : ∀ inside ∈ otherwise, ∀ node ∈ inside, Item (statement spelling node) node) :
    Otherwise (lastResort spelling otherwise) otherwise := by
  cases otherwise with
  | none => exact .absent
  | some inside => exact .present (.braces (derives_body (h inside rfl)))

/-- The induction is on the tree, by which every block inside it is printed as it is derived. -/
theorem derives_item {node : Node} (h : node.Proper false) :
    Item (statement spelling node) node := by
  induction h with
  | initial h => exact .statement (.binding (derives_initial h))
  | branch hcondition _ hguards _ _ ihbody ihbodies ihotherwise =>
    rw [statement]
    exact .statement (.branch (.branch (comparison_expression hcondition)
      (.braces (derives_body ihbody)) (derives_clauses hguards ihbodies)
      (derives_lastResort ihotherwise)))
  | loop hinit hcondition hupdate _ ihbody =>
    rw [statement]
    exact .statement (.loop (.loop (derives_initial hinit) (comparison_expression hcondition)
      (derives_update hupdate) (.braces (derives_body ihbody))))
  | text newline text => exact .statement (derives_write (.text (.quoted text)))
  | output newline hvalue => exact .statement (derives_write (derives_payload newline hvalue))
  | ret hvalue =>
    rw [statement]
    exact .statement (.ret (.returned (comparison_expression hvalue)))
  | comment text =>
    rw [statement]
    exact .comment text
  | expression hbare _ => cases hbare

theorem script_program {nodes : Program} (h : WellFormed false nodes) :
    Script (program spelling nodes) nodes := by
  obtain ⟨hproper, huncommented⟩ := h
  induction nodes with
  | nil => exact .nil
  | cons node rest ih =>
    rw [List.forall_mem_cons] at hproper
    have hrest : ∀ text, .comment text ∉ rest := fun text hmem ↦
      huncommented text (List.mem_cons_of_mem _ hmem)
    refine .statement ?_ (ih hproper.2 hrest)
    have hitem : Item (statement spelling node) node := derives_item hproper.1
    generalize statement spelling node = kinds at hitem
    cases hitem with
    | comment text => exact absurd List.mem_cons_self (huncommented text)
    | statement h => exact h

end Printer

/-- The programs that some tokens spell are the well-formed ones without an expression as a
statement, and each of them is read back from what is printed for it. -/
theorem parse_inverts_print (spelling : Spelling) (program : Program) :
    ((∃ tokens, parse tokens = .ok program) ↔ WellFormed false program) ∧
      (WellFormed false program → ∀ tokens : List Token,
        tokens.map Token.kind = Printer.program spelling program →
          parse tokens = .ok program) := by
  have hprint : WellFormed false program → ∀ tokens : List Token,
      tokens.map Token.kind = Printer.program spelling program → parse tokens = .ok program := by
    intro h tokens htokens
    apply Grammar.Script.parse
    rw [htokens]
    exact Printer.script_program h
  refine ⟨⟨?_, fun h ↦ ?_⟩, hprint⟩
  · rintro ⟨tokens, htokens⟩
    exact (Grammar.Script.of_parse htokens).wellFormed
  · let tokens : List Token := (Printer.program spelling program).map fun kind ↦ ⟨kind, default⟩
    have htokens : tokens.map Token.kind = Printer.program spelling program := by
      rw [List.map_map]
      exact List.map_id _
    exact ⟨tokens, hprint h tokens htokens⟩

/-- A binding and an output that can only be spelled with parentheses around what they take. -/
def shieldedProgram : Program :=
  [.assign "x" (.binary (.string "a") .sub (.binary (.identifier "y") .sub (.identifier "z"))),
    .write true none (some (.string "a"))]

/-- What is printed for `shieldedProgram`. -/
def shieldedKinds : List TokenKind :=
  [.alpha "x", .assign, .leftParen, .quote, .content "a", .quote, .operator .sub, .leftParen,
    .alpha "y", .operator .sub, .alpha "z", .rightParen, .rightParen, .semicolon,
    .keyword .writeln, .leftParen, .leftParen, .quote, .content "a", .quote, .rightParen,
    .rightParen, .semicolon]

theorem parse_inverts_print_shielded :
    WellFormed false shieldedProgram ∧
      parse (shieldedKinds.map fun kind ↦ ⟨kind, default⟩) = .ok shieldedProgram := by
  have hdifference : (Node.binary (.identifier "y") .sub (.identifier "z")).Denotable :=
    .binary .sub (.identifier "y") (.identifier "z")
  have hassign : (Node.assign "x" (.binary (.string "a") .sub
      (.binary (.identifier "y") .sub (.identifier "z")))).Proper false :=
    .initial (.assign "x" (.binary .sub (.string "a") hdifference))
  have h : WellFormed false shieldedProgram :=
    ⟨List.forall_mem_cons.2 ⟨hassign, List.forall_mem_singleton.2 (.output true (.string "a"))⟩,
      fun text ↦ by simp [shieldedProgram]⟩
  exact ⟨h, (parse_inverts_print (.plain true) shieldedProgram).2 h _ rfl⟩

/-- An expression as a statement breaks none of the other conditions, but has no spelling. -/
theorem identifier_has_no_spelling :
    WellFormed true [.identifier "x"] ∧ ¬∃ tokens, parse tokens = .ok [.identifier "x"] := by
  refine ⟨⟨List.forall_mem_singleton.2 (.expression rfl (.identifier "x")), by simp⟩, ?_⟩
  rintro ⟨tokens, htokens⟩
  have hproper := (Grammar.Script.of_parse htokens).wellFormed.proper _ List.mem_cons_self
  cases hproper with
  | initial h => cases h
  | expression hbare _ => cases hbare

end Scriptlet
