import Scriptlet.Node.Parser

/-!
# The grammar of programs

Which token kinds spell which tree, said without a reader. Expressions have one level for each
precedence: comparisons, sums, products, powers and operands. The three lower levels are
left-recursive, so that they group to the left; a power has an operand on its left and a power on
its right. A comment is a statement inside of braces and leaves no trace outside of them.

No rule looks at what follows it. That the reader needs no more than it looks at is shown in
the modules that build on this one.
-/

namespace Scriptlet.Grammar

/-! ## Expressions -/

/-- The operators of a comparison. -/
def comparisons : List BinOp := [.gt, .lt, .ge, .le, .eq, .ne]

/-- The operators of a sum. -/
def sums : List BinOp := [.add, .sub]

/-- The operators of a product. -/
def products : List BinOp := [.mul, .div, .mod]

/-- A string literal, its content between two quotes. -/
inductive Quoted : List TokenKind → String → Prop
  | quoted (text : String) : Quoted [.quote, .content text, .quote] text

/-- What an expression is built from. -/
inductive Atom : List TokenKind → Node → Prop
  | number (digits : String) : Atom [.number digits] (.number (Parser.numberOf digits))
  | string {kinds : List TokenKind} {text : String} (h : Quoted kinds text) :
      Atom kinds (.string text)
  | true : Atom [.keyword .trueWord] (.boolean true)
  | false : Atom [.keyword .falseWord] (.boolean false)
  | identifier {kind : TokenKind} {name : String} (h : kind.identifier? = some name) :
      Atom [kind] (.identifier name)

mutual

inductive Comparison : List TokenKind → Node → Prop
  | sum {kinds : List TokenKind} {node : Node} (h : Sum kinds node) : Comparison kinds node
  | compare {first second : List TokenKind} {left right : Node} {op : BinOp}
      (hleft : Comparison first left) (hop : op ∈ comparisons) (hright : Sum second right) :
      Comparison (first ++ .operator op :: second) (.binary left op right)

inductive Sum : List TokenKind → Node → Prop
  | product {kinds : List TokenKind} {node : Node} (h : Product kinds node) : Sum kinds node
  | add {first second : List TokenKind} {left right : Node} {op : BinOp}
      (hleft : Sum first left) (hop : op ∈ sums) (hright : Product second right) :
      Sum (first ++ .operator op :: second) (.binary left op right)

inductive Product : List TokenKind → Node → Prop
  | power {kinds : List TokenKind} {node : Node} (h : Power kinds node) : Product kinds node
  | multiply {first second : List TokenKind} {left right : Node} {op : BinOp}
      (hleft : Product first left) (hop : op ∈ products) (hright : Power second right) :
      Product (first ++ .operator op :: second) (.binary left op right)

inductive Power : List TokenKind → Node → Prop
  | operand {kinds : List TokenKind} {node : Node} (h : Operand kinds node) : Power kinds node
  | raise {first second : List TokenKind} {base exponent : Node}
      (hbase : Operand first base) (hexponent : Power second exponent) :
      Power (first ++ .operator .pow :: second) (.binary base .pow exponent)

inductive Operand : List TokenKind → Node → Prop
  | atom {kinds : List TokenKind} {node : Node} (h : Atom kinds node) : Operand kinds node
  | parenthesised {kinds : List TokenKind} {node : Node} (h : Comparison kinds node) :
      Operand (.leftParen :: (kinds ++ [.rightParen])) node

end

/-! ## Bindings -/

/-- The kinds that start a string or boolean literal. -/
def opensLiteral (kind : TokenKind) : Prop :=
  kind = .quote ∨ kind = .keyword .trueWord ∨ kind = .keyword .falseWord

/-- The right-hand side of a binding: a literal that stands alone, or an expression that starts
with none. -/
inductive Value : List TokenKind → Node → Prop
  | string {kinds : List TokenKind} {text : String} (h : Quoted kinds text) :
      Value kinds (.string text)
  | true : Value [.keyword .trueWord] (.boolean true)
  | false : Value [.keyword .falseWord] (.boolean false)
  | expression {kinds : List TokenKind} {node : Node} (h : Comparison kinds node)
      (hfirst : ∀ kind ∈ kinds.head?, ¬opensLiteral kind) : Value kinds node

/-- `name = value;`, as the statement that `build` makes of it. -/
inductive Bound (build : String → Node → Node) : List TokenKind → Node → Prop
  | bound {kind : TokenKind} {name : String} {kinds : List TokenKind} {value : Node}
      (hname : kind.identifier? = some name) (hvalue : Value kinds value) :
      Bound build (kind :: .assign :: (kinds ++ [.semicolon])) (build name value)

/-- `name = value;` or `mut name = value;`, as a declaration. -/
inductive Declared : List TokenKind → Node → Prop
  | immutable {kinds : List TokenKind} {node : Node}
      (h : Bound (fun name value ↦ .declare name value false) kinds node) : Declared kinds node
  | mutable {kinds : List TokenKind} {node : Node}
      (h : Bound (fun name value ↦ .declare name value true) kinds node) :
      Declared (.keyword .mutable :: kinds) node

inductive Binding : List TokenKind → Node → Prop
  | define {kinds : List TokenKind} {node : Node} (h : Declared kinds node) :
      Binding (.keyword .define :: kinds) node
  | mutable {kinds : List TokenKind} {node : Node}
      (h : Bound (fun name value ↦ .declare name value true) kinds node) :
      Binding (.keyword .mutable :: kinds) node
  | assign {kinds : List TokenKind} {node : Node} (h : Bound .assign kinds node) :
      Binding kinds node

/-! ## Statements -/

/-- The last part of a loop header. -/
inductive Update : List TokenKind → Node → Prop
  | assign {kind : TokenKind} {name : String} {kinds : List TokenKind} {value : Node}
      (hname : kind.identifier? = some name) (hvalue : Comparison kinds value) :
      Update (kind :: .assign :: kinds) (.assign name value)
  | expression {kinds : List TokenKind} {node : Node} (h : Comparison kinds node) :
      Update kinds node

/-- What is written: a string literal that stands alone, or an expression that does not start
with one. -/
inductive Payload (newline : Bool) : List TokenKind → Node → Prop
  | text {kinds : List TokenKind} {text : String} (h : Quoted kinds text) :
      Payload newline kinds (.write newline (some text) none)
  | expression {kinds : List TokenKind} {node : Node} (h : Comparison kinds node)
      (hfirst : ∀ kind ∈ kinds.head?, kind ≠ .quote) :
      Payload newline kinds (.write newline none (some node))

/-- What follows the word `write` or `writeln`. -/
inductive Written (newline : Bool) : List TokenKind → Node → Prop
  | written {kinds : List TokenKind} {node : Node} (h : Payload newline kinds node) :
      Written newline (.leftParen :: (kinds ++ [.rightParen, .semicolon])) node

/-- What follows the word `ret`. -/
inductive Returned : List TokenKind → Node → Prop
  | returned {kinds : List TokenKind} {value : Node} (h : Comparison kinds value) :
      Returned (kinds ++ [.semicolon]) (.ret value)

mutual

inductive Statement : List TokenKind → Node → Prop
  | binding {kinds : List TokenKind} {node : Node} (h : Binding kinds node) : Statement kinds node
  | branch {kinds : List TokenKind} {node : Node} (h : Branch kinds node) :
      Statement (.keyword .ifWord :: kinds) node
  | loop {kinds : List TokenKind} {node : Node} (h : Loop kinds node) :
      Statement (.keyword .forWord :: kinds) node
  | ret {kinds : List TokenKind} {node : Node} (h : Returned kinds node) :
      Statement (.keyword .ret :: kinds) node
  | write {kinds : List TokenKind} {node : Node} (h : Written false kinds node) :
      Statement (.keyword .write :: kinds) node
  | writeln {kinds : List TokenKind} {node : Node} (h : Written true kinds node) :
      Statement (.keyword .writeln :: kinds) node

/-- What follows the word `if`. -/
inductive Branch : List TokenKind → Node → Prop
  | branch {first second third fourth : List TokenKind} {condition : Node} {body : List Node}
      {elseIfs : List (Node × List Node)} {otherwise : Option (List Node)}
      (hcondition : Comparison first condition) (hbody : Block second body)
      (helseIfs : ElseIfs third elseIfs) (hotherwise : Otherwise fourth otherwise) :
      Branch (first ++ (second ++ (third ++ fourth))) (.branch condition body elseIfs otherwise)

/-- What follows the word `for`. -/
inductive Loop : List TokenKind → Node → Prop
  | loop {first second third fourth : List TokenKind} {init condition update : Node}
      {body : List Node} (hinit : Binding first init) (hcondition : Comparison second condition)
      (hupdate : Update third update) (hbody : Block fourth body) :
      Loop (.leftParen :: (first ++ (second ++ .semicolon :: (third ++ .rightParen :: fourth))))
        (.loop init condition update body)

/-- Statements between braces. -/
inductive Block : List TokenKind → List Node → Prop
  | braces {kinds : List TokenKind} {body : List Node} (h : Items kinds body) :
      Block (.leftBrace :: (kinds ++ [.rightBrace])) body

/-- The inside of a block. -/
inductive Items : List TokenKind → List Node → Prop
  | nil : Items [] []
  | cons {first rest : List TokenKind} {node : Node} {nodes : List Node}
      (hitem : Item first node) (hrest : Items rest nodes) : Items (first ++ rest) (node :: nodes)

/-- A statement of a block, or a comment, which stays as a statement of its own. -/
inductive Item : List TokenKind → Node → Prop
  | comment (text : String) : Item [.comment text] (.comment text)
  | statement {kinds : List TokenKind} {node : Node} (h : Statement kinds node) : Item kinds node

inductive ElseIfs : List TokenKind → List (Node × List Node) → Prop
  | nil : ElseIfs [] []
  | cons {first second rest : List TokenKind} {condition : Node} {body : List Node}
      {clauses : List (Node × List Node)} (hcondition : Comparison first condition)
      (hbody : Block second body) (hrest : ElseIfs rest clauses) :
      ElseIfs (.keyword .elif :: (first ++ (second ++ rest))) ((condition, body) :: clauses)

inductive Otherwise : List TokenKind → Option (List Node) → Prop
  | absent : Otherwise [] none
  | present {kinds : List TokenKind} {body : List Node} (h : Block kinds body) :
      Otherwise (.keyword .elseWord :: kinds) (some body)

end

/-- A whole program: statements, with comments between them that are dropped. -/
inductive Script : List TokenKind → Program → Prop
  | nil : Script [] []
  | comment {rest : List TokenKind} {program : Program} (text : String)
      (h : Script rest program) : Script (.comment text :: rest) program
  | statement {first rest : List TokenKind} {node : Node} {program : Program}
      (hfirst : Statement first node) (hrest : Script rest program) :
      Script (first ++ rest) (node :: program)

end Scriptlet.Grammar
