import Scriptlet.Program
import Scriptlet.Proofs.Consistency.Refusal
import Scriptlet.Proofs.Tiling.Lexer

/-!
# Sources cause no internal errors

The tokens of a source have quotes and contents in triples only, and no identifier among them is a
keyword. From such tokens the grammar derives runnable trees, so whatever keeps a source from
running to its end is the fault of the source, of its environment or of its sink.
-/

namespace Scriptlet

/-! ## Names -/

/-- If the token can name a variable, the name is no keyword. -/
def TokenKind.Unreserved (kind : TokenKind) : Prop :=
  ∀ name, kind.identifier? = some name → Keyword.ofWord? name = none

namespace Tiling

theorem Spells.unreserved {slice : List Char} {kind : TokenKind} (h : Spells slice kind) :
    kind.Unreserved := by
  intro name hname
  cases h with
  | fixed hfixed =>
    cases kind with
    | alpha | alphaNum => cases hfixed
    | _ => cases hname
  | alpha _ _ hfree =>
    cases hname
    exact ofWord?_of_free hfree
  | alphaNum _ hdigit =>
    cases hname
    exact ofWord?_of_free (free_of_isDigit hdigit)
  | number | comment | content => cases hname

theorem grouped_of_lex {source : String} {tokens : List Token} (h : lex source = .ok tokens) :
    Grouped tokens :=
  ((tokenize_eq_ok_iff [] source.toList tokens).1 h).1

theorem unreserved_of_lex {source : String} {tokens : List Token} (h : lex source = .ok tokens) :
    ∀ kind ∈ tokens.map Token.kind, kind.Unreserved := by
  have htiles := ((tokenize_eq_ok_iff [] source.toList tokens).1 h).2
  intro kind hkind
  obtain ⟨token, htoken, rfl⟩ := List.mem_map.1 hkind
  exact (htiles.fits token htoken).spelled.unreserved

end Tiling

/-! ## Derived trees -/

namespace Grammar

theorem hereditary_evaluable : Hereditary fun _ _ node ↦ node.Evaluable where
  looser h := h
  binary op hleft hright := .binary op hleft hright
  atom h := by
    cases h with
    | number digits => exact .number _
    | string _ => exact .string _
    | true | false => exact .boolean _
    | identifier _ => exact .identifier _
  parenthesised h := h

theorem Comparison.evaluable {kinds : List TokenKind} {node : Node} (h : Comparison kinds node) :
    node.Evaluable :=
  h.hereditary hereditary_evaluable

theorem Value.evaluable {kinds : List TokenKind} {node : Node} (h : Value kinds node) :
    node.Evaluable := by
  cases h with
  | string _ => exact .string _
  | true | false => exact .boolean _
  | expression h _ => exact h.evaluable

theorem Bound.runnable {build : String → Node → Node} {kinds : List TokenKind} {node : Node}
    (h : Bound build kinds node) (hfree : ∀ kind ∈ kinds, kind.Unreserved)
    (hbuild : ∀ name value, Keyword.ofWord? name = none → value.Evaluable →
      (build name value).Runnable) : node.Runnable := by
  cases h with
  | bound hname hvalue =>
    exact hbuild _ _ (hfree _ List.mem_cons_self _ hname) hvalue.evaluable

theorem Binding.runnable {kinds : List TokenKind} {node : Node} (h : Binding kinds node)
    (hfree : ∀ kind ∈ kinds, kind.Unreserved) : node.Runnable := by
  cases h with
  | define h =>
    obtain ⟨-, hfree⟩ := List.forall_mem_cons.1 hfree
    cases h with
    | immutable h => exact h.runnable hfree fun _ _ ↦ .declare false
    | mutable h =>
      obtain ⟨-, hfree⟩ := List.forall_mem_cons.1 hfree
      exact h.runnable hfree fun _ _ ↦ .declare true
  | mutable h =>
    obtain ⟨-, hfree⟩ := List.forall_mem_cons.1 hfree
    exact h.runnable hfree fun _ _ ↦ .declare true
  | assign h => exact h.runnable hfree fun name _ _ ↦ .assign name

theorem Update.runnable {kinds : List TokenKind} {node : Node} (h : Update kinds node) :
    node.Runnable := by
  cases h with
  | assign _ hvalue => exact .assign _ hvalue.evaluable
  | expression h => exact .expression h.evaluable

theorem Written.runnable {newline : Bool} {kinds : List TokenKind} {node : Node}
    (h : Written newline kinds node) : node.Runnable := by
  cases h with
  | written h =>
    cases h with
    | text _ => exact .text newline _
    | expression h _ => exact .output newline h.evaluable

mutual

theorem Statement.runnable {kinds : List TokenKind} {node : Node} :
    Statement kinds node → (∀ kind ∈ kinds, kind.Unreserved) → node.Runnable
  | .binding h, hfree => h.runnable hfree
  | .branch h, hfree => h.runnable (List.forall_mem_cons.1 hfree).2
  | .loop h, hfree => h.runnable (List.forall_mem_cons.1 hfree).2
  | .ret (.returned h), _ => .ret h.evaluable
  | .write h, _ => h.runnable
  | .writeln h, _ => h.runnable

theorem Branch.runnable {kinds : List TokenKind} {node : Node} :
    Branch kinds node → (∀ kind ∈ kinds, kind.Unreserved) → node.Runnable
  | .branch hcondition hbody helseIfs hotherwise, hfree => by
    simp only [List.forall_mem_append] at hfree
    obtain ⟨-, hsecond, hthird, hfourth⟩ := hfree
    exact .branch hcondition.evaluable (hbody.runnable hsecond) helseIfs.evaluable
      (helseIfs.runnable hthird) (hotherwise.runnable hfourth)

theorem Loop.runnable {kinds : List TokenKind} {node : Node} :
    Loop kinds node → (∀ kind ∈ kinds, kind.Unreserved) → node.Runnable
  | .loop hinit hcondition hupdate hbody, hfree => by
    simp only [List.forall_mem_cons, List.forall_mem_append] at hfree
    obtain ⟨-, hfirst, -, -, -, -, hfourth⟩ := hfree
    exact .loop (hinit.runnable hfirst) hcondition.evaluable hupdate.runnable
      (hbody.runnable hfourth)

theorem Block.runnable {kinds : List TokenKind} {body : List Node} :
    Block kinds body → (∀ kind ∈ kinds, kind.Unreserved) → ∀ node ∈ body, node.Runnable
  | .braces h, hfree => h.runnable (List.forall_mem_append.1 (List.forall_mem_cons.1 hfree).2).1

theorem Items.runnable {kinds : List TokenKind} {nodes : List Node} :
    Items kinds nodes → (∀ kind ∈ kinds, kind.Unreserved) → ∀ node ∈ nodes, node.Runnable
  | .nil, _ => nofun
  | .cons hitem hrest, hfree => by
    obtain ⟨hfirst, hothers⟩ := List.forall_mem_append.1 hfree
    exact List.forall_mem_cons.2 ⟨hitem.runnable hfirst, hrest.runnable hothers⟩

theorem Item.runnable {kinds : List TokenKind} {node : Node} :
    Item kinds node → (∀ kind ∈ kinds, kind.Unreserved) → node.Runnable
  | .comment text, _ => .comment text
  | .statement h, hfree => h.runnable hfree

theorem ElseIfs.runnable {kinds : List TokenKind} {clauses : List (Node × List Node)} :
    ElseIfs kinds clauses → (∀ kind ∈ kinds, kind.Unreserved) →
      ∀ clause ∈ clauses, ∀ node ∈ clause.2, node.Runnable
  | .nil, _ => nofun
  | .cons _ hbody hrest, hfree => by
    simp only [List.forall_mem_cons, List.forall_mem_append] at hfree
    obtain ⟨-, -, hsecond, hothers⟩ := hfree
    exact List.forall_mem_cons.2 ⟨hbody.runnable hsecond, hrest.runnable hothers⟩

theorem ElseIfs.evaluable {kinds : List TokenKind} {clauses : List (Node × List Node)} :
    ElseIfs kinds clauses → ∀ clause ∈ clauses, clause.1.Evaluable
  | .nil => nofun
  | .cons hcondition _ hrest => List.forall_mem_cons.2 ⟨hcondition.evaluable, hrest.evaluable⟩

theorem Otherwise.runnable {kinds : List TokenKind} {otherwise : Option (List Node)} :
    Otherwise kinds otherwise → (∀ kind ∈ kinds, kind.Unreserved) →
      ∀ body ∈ otherwise, ∀ node ∈ body, node.Runnable
  | .absent, _ => nofun
  | .present h, hfree => by
    rintro _ ⟨⟩
    exact h.runnable (List.forall_mem_cons.1 hfree).2

end

theorem Script.runnable {kinds : List TokenKind} {program : Program} (h : Script kinds program)
    (hfree : ∀ kind ∈ kinds, kind.Unreserved) : ∀ node ∈ program, node.Runnable := by
  induction h with
  | nil => nofun
  | comment _ _ ih => exact ih (List.forall_mem_cons.1 hfree).2
  | statement hfirst _ ih =>
    obtain ⟨hstatement, hothers⟩ := List.forall_mem_append.1 hfree
    exact List.forall_mem_cons.2 ⟨hfirst.runnable hstatement, ih hothers⟩

end Grammar

/-! ## Whole sources -/

theorem isInternal_tokenize {position : Position} {text : List Char} {error : Error}
    (h : tokenize position text = .error error) : error.isInternal = false := by
  fun_induction tokenize position text with
  | case1 => cases h
  | case2 _ _ _ _ ih => exact ih h
  | case3 | case6 =>
    cases h
    rfl
  | case4 | case7 => cases h
  | case5 _ _ _ _ _ _ hothers _ ih | case8 _ _ _ _ _ _ _ _ _ hothers ih =>
    cases h
    exact ih hothers

theorem Machine.regular_runSource (blockScope : Bool) (fuel : Nat) (source : String)
    (machine : Machine) : (machine.runSource blockScope fuel source).Regular := by
  unfold runSource load lex
  cases hlex : Scriptlet.lex source with
  | error error => exact isInternal_tokenize hlex
  | ok tokens =>
    simp only [yield, Outcome.bind_done]
    unfold parse
    cases hparse : Scriptlet.parse tokens with
    | error error => exact (Parser.legible_of_parse (Tiling.grouped_of_lex hlex) hparse).regular
    | ok program =>
      simp only [yield, Outcome.bind_done]
      have hscript := Grammar.Script.of_parse hparse
      exact regularStep_interpret blockScope fuel
        (hscript.runnable (Tiling.unreserved_of_lex hlex)) _

/-- No source ever fails for an internal cause, in any environment and with any sink; and of the
tokens of a source, the reader refuses only what a script can be blamed for. -/
theorem regular_of_source (source : String) :
    (∀ (blockScope : Bool) (fuel : Nat) (machine left : Machine) (error : Error),
      machine.runSource blockScope fuel source = .failed left error → error.isInternal = false) ∧
    ∀ (tokens : List Token) (error : Error),
      lex source = .ok tokens → parse tokens = .error error → error.Legible := by
  constructor
  · intro blockScope fuel machine left error hfailed
    have hregular := machine.regular_runSource blockScope fuel source
    rwa [hfailed] at hregular
  · intro tokens error hlex hparse
    exact Parser.legible_of_parse (Tiling.grouped_of_lex hlex) hparse

/-- A branch that returns a variable which is not there, and a literal too many. -/
theorem regular_of_source_two_failures :
    ((Machine.start .unlimited .quiet).runSource true 3 "if true \x7b ret y; \x7d" =
        .failed (Machine.start .unlimited .quiet) (.undefinedVariable "y") ∧
      (Error.undefinedVariable "y").isInternal = false) ∧
    ∃ tokens error, lex "write(\"a\" \"b\");" = .ok tokens ∧ parse tokens = .error error ∧
      error.Legible := by
  have hlexed : lex "if true \x7b ret y; \x7d" = .ok [⟨.keyword .ifWord, ⟨0, 2, 1, 1⟩⟩,
      ⟨.keyword .trueWord, ⟨3, 7, 1, 4⟩⟩, ⟨.leftBrace, ⟨8, 9, 1, 9⟩⟩,
      ⟨.keyword .ret, ⟨10, 13, 1, 11⟩⟩, ⟨.alpha "y", ⟨14, 15, 1, 15⟩⟩,
      ⟨.semicolon, ⟨15, 16, 1, 16⟩⟩, ⟨.rightBrace, ⟨17, 18, 1, 18⟩⟩] := by decide +kernel
  have hrun : (Machine.start .unlimited .quiet).runSource true 3 "if true \x7b ret y; \x7d" =
      .failed (Machine.start .unlimited .quiet) (.undefinedVariable "y") := by
    rw [Machine.runSource, Machine.load, Machine.lex, hlexed]
    rfl
  have hliterals : lex "write(\"a\" \"b\");" = .ok [⟨.keyword .write, ⟨0, 5, 1, 1⟩⟩,
      ⟨.leftParen, ⟨5, 6, 1, 6⟩⟩, ⟨.quote, ⟨6, 7, 1, 7⟩⟩, ⟨.content "a", ⟨7, 8, 1, 8⟩⟩,
      ⟨.quote, ⟨8, 9, 1, 9⟩⟩, ⟨.quote, ⟨10, 11, 1, 11⟩⟩, ⟨.content "b", ⟨11, 12, 1, 12⟩⟩,
      ⟨.quote, ⟨12, 13, 1, 13⟩⟩, ⟨.rightParen, ⟨13, 14, 1, 14⟩⟩, ⟨.semicolon, ⟨14, 15, 1, 15⟩⟩] := by
    decide +kernel
  exact ⟨⟨hrun, (regular_of_source _).1 true 3 _ _ _ hrun⟩,
    _, _, hliterals, rfl, (regular_of_source _).2 _ _ hliterals rfl⟩

end Scriptlet
