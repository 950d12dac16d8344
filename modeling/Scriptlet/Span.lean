/-!
# Places in a source text

A position counts characters, lines and columns; a span is a range of characters that
remembers the line and column of its first one. Offsets start at zero, lines and columns at one,
and every count is in Unicode scalar values.
-/

namespace Scriptlet

/-- A range of characters, with the line and column at which it starts. -/
structure Span where
  start : Nat
  stop : Nat
  line : Nat
  column : Nat
deriving DecidableEq, Repr, Inhabited

namespace Span

def length (span : Span) : Nat := span.stop - span.start

def isEmpty (span : Span) : Bool := span.start == span.stop

/-- The place named in messages, `line:column`. -/
def place (span : Span) : String :=
  toString span.line ++ ":" ++ toString span.column

/-- The empty span just past `span`, on the line where `span` starts. -/
def pastEnd (span : Span) : Span :=
  ⟨span.stop, span.stop, span.line, span.column + span.length⟩

end Span

/-- How far a reader has come in a text. -/
structure Position where
  offset : Nat
  line : Nat
  column : Nat
deriving DecidableEq, Repr, Inhabited

namespace Position

/-- The position before the first character. -/
def origin : Position := ⟨0, 1, 1⟩

/-- The position after one more character; a newline starts the next line. -/
def next (position : Position) (c : Char) : Position :=
  if c = '\n' then ⟨position.offset + 1, position.line + 1, 1⟩
  else ⟨position.offset + 1, position.line, position.column + 1⟩

/-- The position after all of `text`. -/
def after (position : Position) (text : List Char) : Position :=
  text.foldl next position

/-- The span that reaches from one position to a later one. -/
def upTo (first last : Position) : Span :=
  ⟨first.offset, last.offset, first.line, first.column⟩

@[simp] theorem after_nil (position : Position) : position.after [] = position := rfl

@[simp] theorem after_cons (position : Position) (c : Char) (text : List Char) :
    position.after (c :: text) = (position.next c).after text := rfl

theorem after_append (position : Position) (first second : List Char) :
    position.after (first ++ second) = (position.after first).after second :=
  List.foldl_append

theorem offset_after (position : Position) (text : List Char) :
    (position.after text).offset = position.offset + text.length := by
  induction text generalizing position with
  | nil => rfl
  | cons c rest ih =>
    have hnext : (position.next c).offset = position.offset + 1 := by
      unfold next
      split <;> rfl
    rw [after_cons, ih, hnext, List.length_cons]
    omega

end Position

end Scriptlet
