import Scriptlet.Proofs.Grammar.Program

/-!
# Where expressions stand

An expression can be returned, bound to a name, written, or assigned in the header of a loop.
Behind `ret` and in a loop header the reader takes an expression as a whole. A binding and a
`write` decide by the first token instead: a literal there stands alone. So these two accept what
`ret` accepts, with the same tree, except for the expressions that start with such a literal and go
on behind it; those they refuse.
-/

namespace Scriptlet.Grammar

open Scriptlet.Parser

/-! ## Derivations of expressions -/

/-- A reader takes one derivation only: where two derivations start the same kinds, and neither
can go on with what follows it, they are the same. -/
theorem Reads.unique {α : Type} {budget : Nat} {reader : Reader α}
    {Derives : List TokenKind → α → Prop} {continues : TokenKind → Prop}
    (hreads : Reads budget reader Derives continues) {kinds others rest tail : List TokenKind}
    {value found : α} (hbudget : (kinds ++ rest).length ≤ budget)
    (heq : kinds ++ rest = others ++ tail) (hkinds : Derives kinds value)
    (hothers : Derives others found) (hrest : ∀ kind ∈ rest.head?, ¬continues kind)
    (htail : ∀ kind ∈ tail.head?, ¬continues kind) :
    kinds = others ∧ rest = tail ∧ value = found := by
  let token (kind : TokenKind) : Token := ⟨kind, default⟩
  have htokens : ∀ kinds : List TokenKind, (kinds.map token).map Token.kind = kinds := by
    intro kinds
    simp [Function.comp_def, token]
  have hvalue : reader ((kinds ++ rest).map token) = .ok (value, rest.map token) := by
    rw [List.map_append]
    refine hreads.complete (by simpa using hbudget) (by rwa [htokens]) (apart_iff_kinds.2 ?_)
    rwa [htokens]
  have hfound : reader ((kinds ++ rest).map token) = .ok (found, tail.map token) := by
    rw [heq, List.map_append]
    refine hreads.complete ?_ (by rwa [htokens]) (apart_iff_kinds.2 ?_)
    · rw [heq] at hbudget
      simpa using hbudget
    · rwa [htokens]
  rw [hvalue] at hfound
  simp only [Except.ok.injEq, Prod.mk.injEq] at hfound
  have htail' : rest = tail := by rw [← htokens rest, hfound.2, htokens]
  subst htail'
  exact ⟨List.append_cancel_right heq, rfl, hfound.1⟩

/-- An expression is the only one of its kinds. -/
theorem Comparison.unique {kinds : List TokenKind} {value other : Node}
    (h : Comparison kinds value) (hother : Comparison kinds other) : value = other :=
  ((expression_reads default (kinds ++ []).length).unique (Nat.le_refl _) rfl h hother
    (by simp) (by simp)).2.2

theorem Atom.comparison {kinds : List TokenKind} {node : Node} (h : Atom kinds node) :
    Comparison kinds node :=
  .sum (.product (.power (.operand (.atom h))))

/-! ## Literals that stand alone -/

/-- A string literal and nothing else. -/
def isQuoted : List TokenKind → Bool
  | [.quote, .content _, .quote] => true
  | _ => false

/-- A string or boolean literal and nothing else. -/
def isLiteral : List TokenKind → Bool
  | [.keyword .trueWord] | [.keyword .falseWord] => true
  | kinds => isQuoted kinds

theorem isQuoted_iff {kinds : List TokenKind} :
    isQuoted kinds = true ↔ ∃ text, Quoted kinds text := by
  constructor
  · intro h
    unfold isQuoted at h
    split at h
    · exact ⟨_, .quoted _⟩
    · cases h
  · rintro ⟨text, ⟨⟩⟩
    rfl

/-- A right-hand side is an expression, and one that starts with a literal is that literal. -/
theorem value_iff {kinds : List TokenKind} {value : Node} :
    Value kinds value ↔ Comparison kinds value ∧
      (isLiteral kinds = true ∨ ∀ kind ∈ kinds.head?, ¬opensLiteral kind) := by
  constructor
  · intro h
    cases h with
    | string h =>
      refine ⟨(Atom.string h).comparison, .inl ?_⟩
      cases h
      rfl
    | true => exact ⟨Atom.true.comparison, .inl rfl⟩
    | false => exact ⟨Atom.false.comparison, .inl rfl⟩
    | expression h hfirst => exact ⟨h, .inr hfirst⟩
  · rintro ⟨h, hliteral | hfirst⟩
    · unfold isLiteral at hliteral
      split at hliteral
      · rw [h.unique Atom.true.comparison]
        exact .true
      · rw [h.unique Atom.false.comparison]
        exact .false
      · obtain ⟨text, hquoted⟩ := isQuoted_iff.1 hliteral
        rw [h.unique (Atom.string hquoted).comparison]
        exact .string hquoted
    · exact .expression h hfirst

/-- How a value is written: a string literal that stands alone gives its text. -/
def written (newline : Bool) : List TokenKind → Node → Node
  | [.quote, .content _, .quote], .string text => .write newline (some text) none
  | _, value => .write newline none (some value)

theorem written_quoted {kinds : List TokenKind} {text : String} (h : Quoted kinds text)
    (newline : Bool) :
    written newline kinds (.string text) = .write newline (some text) none := by
  cases h
  rfl

theorem written_eq_of_head {kinds : List TokenKind} (h : ∀ kind ∈ kinds.head?, kind ≠ .quote)
    (newline : Bool) (value : Node) :
    written newline kinds value = .write newline none (some value) := by
  unfold written
  split
  · exact absurd rfl (h .quote rfl)
  · rfl

theorem written_injective {newline : Bool} {kinds : List TokenKind} {value other : Node}
    (h : written newline kinds value = written newline kinds other) : value = other := by
  unfold written at h
  split at h <;> split at h <;> cases h <;> rfl

/-- What is written is an expression, and one that starts with a string literal is that literal. -/
theorem payload_iff {newline : Bool} {kinds : List TokenKind} {value : Node} :
    Payload newline kinds (written newline kinds value) ↔ Comparison kinds value ∧
      (isQuoted kinds = true ∨ ∀ kind ∈ kinds.head?, kind ≠ .quote) := by
  constructor
  · intro h
    generalize hnode : written newline kinds value = node at h
    cases h with
    | text h =>
      rw [← written_quoted h newline] at hnode
      rw [written_injective hnode]
      exact ⟨(Atom.string h).comparison, .inl (isQuoted_iff.2 ⟨_, h⟩)⟩
    | expression h hfirst =>
      rw [← written_eq_of_head hfirst newline] at hnode
      rw [written_injective hnode]
      exact ⟨h, .inr hfirst⟩
  · rintro ⟨h, hquoted | hfirst⟩
    · obtain ⟨text, hquoted⟩ := isQuoted_iff.1 hquoted
      rw [h.unique (Atom.string hquoted).comparison, written_quoted hquoted]
      exact .text hquoted
    · rw [written_eq_of_head hfirst]
      exact .expression h hfirst

/-! ## Positions -/

/-- A kind that names a variable. -/
structure Target where
  kind : TokenKind
  name : String
  named : kind.identifier? = some name

/-- What stands before the update in the header of a loop. -/
structure Header where
  initKinds : List TokenKind
  conditionKinds : List TokenKind
  init : Node
  condition : Node
  hinit : Binding initKinds init
  hcondition : Comparison conditionKinds condition

/-- Where an expression can stand. -/
inductive Position where
  | ret
  | assign (target : Target)
  | define (target : Target)
  | write (newline : Bool)
  /-- The right-hand side of an update; the loop has an empty body. -/
  | update (header : Header) (target : Target)

namespace Position

/-- The position filled by an expression. -/
def around (kinds : List TokenKind) : Position → List TokenKind
  | ret => .keyword .ret :: (kinds ++ [.semicolon])
  | assign target => target.kind :: .assign :: (kinds ++ [.semicolon])
  | define target => .keyword .define :: target.kind :: .assign :: (kinds ++ [.semicolon])
  | write newline =>
    .keyword (if newline then .writeln else .write) :: .leftParen ::
      (kinds ++ [.rightParen, .semicolon])
  | update header target =>
    .keyword .forWord :: .leftParen :: (header.initKinds ++ (header.conditionKinds ++
      .semicolon :: (target.kind :: .assign :: kinds ++ [.rightParen, .leftBrace, .rightBrace])))

/-- The statement that an expression of the given value makes there. -/
def statement (kinds : List TokenKind) (value : Node) : Position → Node
  | ret => .ret value
  | assign target => .assign target.name value
  | define target => .declare target.name value false
  | write newline => written newline kinds value
  | update header target => .loop header.init header.condition (.assign target.name value) []

/-- Whether the position has room for the expression: a binding has none behind a literal, a
`write` none behind a string literal. -/
def Takes (kinds : List TokenKind) : Position → Prop
  | ret | update _ _ => True
  | assign _ | define _ => isLiteral kinds = true ∨ ∀ kind ∈ kinds.head?, ¬opensLiteral kind
  | write _ => isQuoted kinds = true ∨ ∀ kind ∈ kinds.head?, kind ≠ .quote

end Position

/-! ## Single statements -/

theorem Script.eq_comment {kinds : List TokenKind} (h : Script kinds []) :
    ∀ kind ∈ kinds, ∃ text, kind = .comment text := by
  generalize hprogram : ([] : Program) = program at h
  induction h with
  | nil => simp
  | comment text _ ih =>
    intro kind hkind
    obtain rfl | hrest := List.mem_cons.1 hkind
    · exact ⟨text, rfl⟩
    · exact ih hprogram kind hrest
  | statement => cases hprogram

theorem Script.exists_statement {first : TokenKind} {inside : List TokenKind} {program : Program}
    (h : Script (first :: inside) program) (hfirst : startsStatement first) :
    ∃ used rest node others, inside = used ++ rest ∧ program = node :: others ∧
      Statement (first :: used) node ∧ Script rest others := by
  generalize hkinds : first :: inside = kinds at h
  cases h with
  | nil => cases hkinds
  | comment text _ =>
    cases hkinds
    exact hfirst.elim
  | statement hstatement hrest =>
    obtain ⟨_, used, rfl, _⟩ := hstatement.exists_first
    cases hkinds
    exact ⟨_, _, _, _, rfl, rfl, hstatement, hrest⟩

theorem script_singleton_iff {first last : TokenKind} {inside : List TokenKind} {node : Node}
    (hfirst : startsStatement first) (hlast : ∀ text, last ≠ .comment text) :
    Script (first :: (inside ++ [last])) [node] ↔ Statement (first :: (inside ++ [last])) node := by
  constructor
  · intro h
    obtain ⟨used, rest, found, others, hinside, hprogram, hstatement, hrest⟩ :=
      h.exists_statement hfirst
    cases hprogram
    obtain rfl | ⟨front, final, rfl⟩ := List.eq_nil_or_concat' rest
    · rwa [hinside, List.append_nil]
    · obtain ⟨text, rfl⟩ := hrest.eq_comment final (by simp)
      rw [← List.append_assoc] at hinside
      have hend := (List.append_inj' hinside rfl).2
      simp only [List.cons.injEq, and_true] at hend
      exact absurd hend (hlast text)
  · intro h
    have hscript := Script.statement h .nil
    rwa [List.append_nil] at hscript

theorem Bound.exists_value {build : String → Node → Node} {target : Target}
    {kinds : List TokenKind} {node : Node} (h : Bound build (target.kind :: kinds) node) :
    ∃ right value, kinds = .assign :: (right ++ [.semicolon]) ∧ Value right value ∧
      node = build target.name value := by
  cases h with
  | bound hname hvalue =>
    rw [target.named] at hname
    cases hname
    exact ⟨_, _, rfl, hvalue, rfl⟩

theorem Binding.starts {first : TokenKind} {rest : List TokenKind} {node : Node}
    (h : Binding (first :: rest) node) : startsBinding first := by
  obtain ⟨_, _, hkinds, hfirst⟩ := h.exists_first
  cases hkinds
  exact hfirst

theorem Statement.assign_cases {target : Target} {kinds : List TokenKind} {node : Node}
    (h : Statement (target.kind :: kinds) node) :
    ∃ right value, kinds = .assign :: (right ++ [.semicolon]) ∧ Value right value ∧
      node = .assign target.name value := by
  have hbound : Bound .assign (target.kind :: kinds) node := by
    obtain ⟨kind, name, named⟩ := target
    cases kind <;> cases named <;> cases h with | binding h => cases h with | assign h => exact h
  exact hbound.exists_value

theorem Statement.define_cases {kinds : List TokenKind} {node : Node}
    (h : Statement (.keyword .define :: kinds) node) : Declared kinds node := by
  cases h with
  | binding h =>
    cases h with
    | define h => exact h
    | assign h => cases h with | bound hname => cases hname

theorem Declared.exists_value {target : Target} {kinds : List TokenKind} {node : Node}
    (h : Declared (target.kind :: kinds) node) :
    ∃ right value, kinds = .assign :: (right ++ [.semicolon]) ∧ Value right value ∧
      node = .declare target.name value false := by
  have hbound : Bound (fun name value ↦ .declare name value false) (target.kind :: kinds) node := by
    obtain ⟨kind, name, named⟩ := target
    cases h with
    | immutable h => exact h
    | mutable h => cases named
  exact hbound.exists_value

theorem Statement.ret_cases {kinds : List TokenKind} {node : Node}
    (h : Statement (.keyword .ret :: kinds) node) :
    ∃ right value, kinds = right ++ [.semicolon] ∧ Comparison right value ∧ node = .ret value := by
  cases h with
  | binding h => exact h.starts.elim
  | ret h => cases h with | returned h => exact ⟨_, _, rfl, h, rfl⟩

theorem Statement.write_cases {newline : Bool} {kinds : List TokenKind} {node : Node}
    (h : Statement (.keyword (if newline then .writeln else .write) :: kinds) node) :
    ∃ payload, kinds = .leftParen :: (payload ++ [.rightParen, .semicolon]) ∧
      Payload newline payload node := by
  cases newline with
  | false =>
    cases h with
    | binding h => exact h.starts.elim
    | write h => cases h with | written h => exact ⟨_, rfl, h⟩
  | true =>
    cases h with
    | binding h => exact h.starts.elim
    | writeln h => cases h with | written h => exact ⟨_, rfl, h⟩

theorem Statement.loop_cases {kinds : List TokenKind} {node : Node}
    (h : Statement (.keyword .forWord :: kinds) node) : Loop kinds node := by
  cases h with
  | binding h => exact h.starts.elim
  | loop h => exact h

theorem Items.eq_nil {kinds : List TokenKind} (h : Items kinds []) : kinds = [] := by
  cases h
  rfl

/-- Where a loop spells its update: the header before it leaves no choice. -/
theorem Loop.update_of_header {header : Header} {kinds : List TokenKind} {update : Node}
    (h : Loop (.leftParen :: (header.initKinds ++ (header.conditionKinds ++
      .semicolon :: (kinds ++ [.rightParen, .leftBrace, .rightBrace]))))
      (.loop header.init header.condition update [])) : Update kinds update := by
  generalize hkinds : TokenKind.leftParen :: (header.initKinds ++ (header.conditionKinds ++
    .semicolon :: (kinds ++ [.rightParen, .leftBrace, .rightBrace]))) = all at h
  cases h with
  | @loop first second third fourth _ _ _ _ hinit hcondition hupdate hbody =>
    rw [List.cons.injEq] at hkinds
    obtain ⟨-, hinside, -⟩ := (loopInit_reads default _).unique (Nat.le_succ _) hkinds.2
      header.hinit hinit (by simp [never]) (by simp [never])
    have hstop : ¬binds 0 .semicolon := not_binds rfl 0
    obtain ⟨-, hbehind, -⟩ := (expression_reads default _).unique (Nat.le_refl _) hinside
      header.hcondition hcondition (by simpa using hstop) (by simpa using hstop)
    cases hbody with
    | braces hitems =>
      rw [hitems.eq_nil, List.cons.injEq] at hbehind
      rwa [List.append_cancel_right hbehind.2]

namespace Position

/-- Filled by an expression, a position is a statement exactly if it has room for the
expression. -/
theorem statement_iff (position : Position) {kinds : List TokenKind} {value : Node} :
    Statement (position.around kinds) (position.statement kinds value) ↔
      Comparison kinds value ∧ position.Takes kinds := by
  cases position with
  | ret =>
    constructor
    · intro h
      obtain ⟨right, found, hkinds, hright, hnode⟩ := h.ret_cases
      cases hnode
      rw [List.append_cancel_right hkinds]
      exact ⟨hright, trivial⟩
    · rintro ⟨h, -⟩
      exact .ret (.returned h)
  | assign target =>
    constructor
    · intro h
      obtain ⟨right, found, hkinds, hright, hnode⟩ := h.assign_cases
      cases hnode
      rw [List.append_cancel_right (List.cons.inj hkinds).2]
      exact value_iff.1 hright
    · intro h
      exact .binding (.assign (.bound target.named (value_iff.2 h)))
  | define target =>
    constructor
    · intro h
      obtain ⟨right, found, hkinds, hright, hnode⟩ := h.define_cases.exists_value
      cases hnode
      rw [List.append_cancel_right (List.cons.inj hkinds).2]
      exact value_iff.1 hright
    · intro h
      exact .binding (.define (.immutable (.bound target.named (value_iff.2 h))))
  | write newline =>
    constructor
    · intro h
      obtain ⟨payload, hkinds, hpayload⟩ := h.write_cases
      rw [← List.append_cancel_right (List.cons.inj hkinds).2] at hpayload
      exact payload_iff.1 hpayload
    · intro h
      have hwritten := Written.written (payload_iff.2 h : Payload newline kinds _)
      cases newline with
      | false => exact .write hwritten
      | true => exact .writeln hwritten
  | update header target =>
    constructor
    · intro h
      have hupdate : Update (target.kind :: .assign :: kinds) (.assign target.name value) :=
        h.loop_cases.update_of_header
      cases hupdate with
      | assign _ h => exact ⟨h, trivial⟩
      | expression h => exact absurd (by simp) (h.notMem rfl : TokenKind.assign ∉ _)
    · rintro ⟨h, -⟩
      exact .loop (.loop header.hinit header.hcondition (.assign target.named h) (.braces .nil))

theorem exists_around_eq (position : Position) (kinds : List TokenKind) :
    ∃ first inside last, position.around kinds = first :: (inside ++ [last]) ∧
      startsStatement first ∧ ∀ text, last ≠ .comment text := by
  cases position with
  | ret => exact ⟨_, kinds, .semicolon, rfl, trivial, by simp⟩
  | assign target =>
    refine ⟨target.kind, .assign :: kinds, .semicolon, rfl, ?_, by simp⟩
    obtain ⟨kind, name, named⟩ := target
    cases kind <;> cases named <;> exact trivial
  | define target => exact ⟨_, target.kind :: .assign :: kinds, .semicolon, rfl, trivial, by simp⟩
  | write newline =>
    refine ⟨.keyword (if newline then .writeln else .write), .leftParen :: (kinds ++ [.rightParen]),
      .semicolon, by simp [around], ?_, by simp⟩
    cases newline <;> exact trivial
  | update header target =>
    exact ⟨.keyword .forWord, .leftParen :: (header.initKinds ++ (header.conditionKinds ++
      .semicolon :: (target.kind :: .assign :: kinds ++ [.rightParen, .leftBrace]))), .rightBrace,
      by simp [around], trivial, by simp⟩

theorem parse_eq_iff (position : Position) {kinds : List TokenKind} {value : Node}
    {tokens : List Token} (htokens : tokens.map Token.kind = position.around kinds) :
    parse tokens = .ok [position.statement kinds value] ↔
      Comparison kinds value ∧ position.Takes kinds := by
  rw [← statement_iff]
  obtain ⟨first, inside, last, haround, hfirst, hlast⟩ := position.exists_around_eq kinds
  rw [haround, ← script_singleton_iff hfirst hlast, ← haround, ← htokens]
  exact ⟨Script.of_parse, Script.parse⟩

theorem eq_of_semicolon {kinds others rest : List TokenKind} (hkinds : .semicolon ∉ kinds)
    (h : kinds ++ [.semicolon] = others ++ [.semicolon] ++ rest) : kinds = others := by
  rw [List.append_assoc] at h
  exact ((List.append_cons_inj_of_notMem hkinds List.not_mem_nil).1 h).1

/-- Whatever program a filled position spells, its first statement has the expression up to the
semicolon behind it. -/
theorem takes_of_script {position : Position} {kinds : List TokenKind} {value : Node}
    {program : Program} (hvalue : Comparison kinds value)
    (h : Script (position.around kinds) program) : position.Takes kinds := by
  have hkinds : .semicolon ∉ kinds := hvalue.notMem rfl
  obtain ⟨first, inside, last, haround, hfirst, -⟩ := position.exists_around_eq kinds
  rw [haround] at h
  obtain ⟨used, rest, node, -, hused, -, hstatement, -⟩ := h.exists_statement hfirst
  rw [hused] at haround
  cases position with
  | ret | update => trivial
  | assign target =>
    obtain ⟨rfl, hinside⟩ := List.cons.inj haround
    obtain ⟨right, found, rfl, hright, -⟩ := hstatement.assign_cases
    rw [eq_of_semicolon hkinds (List.cons.inj hinside).2]
    exact (value_iff.1 hright).2
  | define target =>
    obtain ⟨rfl, hinside⟩ := List.cons.inj haround
    cases used with
    | nil => exact nomatch hstatement.define_cases
    | cons kind used =>
      obtain ⟨rfl, hbound⟩ := List.cons.inj hinside
      obtain ⟨right, found, rfl, hright, -⟩ := hstatement.define_cases.exists_value
      rw [eq_of_semicolon hkinds (List.cons.inj hbound).2]
      exact (value_iff.1 hright).2
  | write newline =>
    obtain ⟨rfl, hinside⟩ := List.cons.inj haround
    obtain ⟨payload, rfl, hpayload⟩ := hstatement.write_cases
    have hclosed : (.semicolon : TokenKind) ∉ kinds ++ [.rightParen] := by simp [hkinds]
    have heq : kinds ++ [.rightParen] = payload ++ [.rightParen] :=
      eq_of_semicolon hclosed (by simpa using (List.cons.inj hinside).2)
    rw [List.append_cancel_right heq]
    cases hpayload with
    | text h => exact .inl (isQuoted_iff.2 ⟨_, h⟩)
    | expression _ hfirst => exact .inr hfirst

end Position

/-- Tokens are read in a position exactly as they are read behind `ret`, provided that the position
has room for them, and are refused there otherwise. -/
theorem parse_in_position (position : Position) {kinds : List TokenKind} {value : Node}
    {returning tokens : List Token}
    (hreturning : returning.map Token.kind = Position.ret.around kinds)
    (htokens : tokens.map Token.kind = position.around kinds) :
    (parse tokens = .ok [position.statement kinds value] ↔
      parse returning = .ok [.ret value] ∧ position.Takes kinds) ∧
    (parse returning = .ok [.ret value] → ¬position.Takes kinds →
      ∃ error, parse tokens = .error error) := by
  have hret : parse returning = .ok [.ret value] ↔ Comparison kinds value :=
    (Position.ret.parse_eq_iff hreturning).trans (and_iff_left trivial)
  rw [hret]
  refine ⟨position.parse_eq_iff htokens, fun hvalue hroom ↦ ?_⟩
  cases hparse : parse tokens with
  | error error => exact ⟨error, rfl⟩
  | ok program =>
    have hscript := Script.of_parse hparse
    rw [htokens] at hscript
    exact absurd (Position.takes_of_script hvalue hscript) hroom

/-- `"a" + 1` -/
def textSum : List TokenKind := [.quote, .content "a", .quote, .operator .add, .number "1"]

def textSumNode : Node := .binary (.string "a") .add (.number (numberOf "1"))

def targetX : Target := ⟨.alpha "x", "x", rfl⟩

/-- `for (y = 0; 1;` -/
def counting : Header where
  initKinds := [.alpha "y", .assign, .number "0", .semicolon]
  conditionKinds := [.number "1"]
  init := .assign "y" (.number (numberOf "0"))
  condition := .number (numberOf "1")
  hinit := .assign (.bound rfl (.expression (Atom.number "0").comparison (by simp [opensLiteral])))
  hcondition := (Atom.number "1").comparison

/-- `x = "a" + 1;` is refused at the operator, and the same assignment is an update of a loop. -/
theorem assignment_refuses_textSum :
    parse ((Position.ret.around textSum).map (⟨·, default⟩)) = .ok [.ret textSumNode] ∧
    parse (((Position.assign targetX).around textSum).map (⟨·, default⟩)) =
      .error (.expectedToken "';'" "'+'" default) ∧
    parse (((Position.update counting targetX).around textSum).map (⟨·, default⟩)) =
      .ok [.loop (.assign "y" (.number (numberOf "0"))) (.number (numberOf "1"))
        (.assign "x" textSumNode) []] :=
  ⟨rfl, rfl, rfl⟩

theorem parse_in_position_textSum :
    parse ((Position.ret.around textSum).map (⟨·, default⟩)) = .ok [.ret textSumNode] ∧
    (∃ error, parse (((Position.write true).around textSum).map (⟨·, default⟩)) = .error error) ∧
    parse (((Position.update counting targetX).around textSum).map (⟨·, default⟩)) =
      .ok [(Position.update counting targetX).statement textSum textSumNode] := by
  have hret : parse ((Position.ret.around textSum).map (⟨·, default⟩)) = .ok [.ret textSumNode] :=
    rfl
  refine ⟨hret, (@parse_in_position (.write true) textSum textSumNode _ _ rfl rfl).2 hret ?_,
    (@parse_in_position (.update counting targetX) textSum textSumNode _ _ rfl rfl).1.2
      ⟨hret, trivial⟩⟩
  rintro (hquoted | hfirst)
  · cases hquoted
  · exact hfirst .quote rfl rfl

end Scriptlet.Grammar
