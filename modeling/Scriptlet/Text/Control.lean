/-!
# Text without terminal control

What is left of a text when everything that steers a terminal is taken out: control characters
other than tabs and line ends, and the sequences that an escape character starts. Tabs and line
ends inside a short sequence are shown; so is the text after them, up to the next control
character, with which the sequence goes on. A sequence that is never closed hides the rest.
-/

namespace Scriptlet.Text

/-- Which part of a control sequence comes next. -/
inductive Control where
  /-- Outside of every sequence. -/
  | ground
  /-- After an escape character. -/
  | escape
  /-- After an escape character and further characters before the one that ends the sequence. -/
  | designation
  /-- In a command, up to its final letter. -/
  | command
  /-- In a title or link, up to a bell. -/
  | title
  /-- Before the parameters of a device string. -/
  | deviceStart
  | deviceParameters
  /-- Between the parameters of a device string and its body. -/
  | deviceMiddle
  /-- In the body of a device string or of a message for the host. -/
  | body
deriving DecidableEq, Repr

namespace Control

/-- Tabs and line ends, which stay in a text. -/
def isLayout (c : Char) : Bool := c == '\t' || c == '\n' || c == '\x0c' || c == '\r'

/-- Characters that are shown outside of control sequences. -/
def isShown (c : Char) : Bool :=
  isLayout c || (0x20 ≤ c.toNat && c.toNat != 0x7F)

/-- Whether the encoding of `c` holds the byte that closes the body of a string. -/
def holdsTerminator (c : Char) : Bool := (String.utf8EncodeChar c).contains 0x9C

/-- What the character after an escape character starts. -/
def afterEscape (c : Char) : Control :=
  match c with
  | '[' => command
  | ']' => title
  | 'P' => deviceStart
  | 'X' | '^' | '_' => body
  | _ =>
    if c.toNat < 0x20 || 0x7F ≤ c.toNat then escape
    else if c.toNat < 0x30 then designation
    else ground

/-- The part that follows a character which is not shown. An escape character always starts a
sequence anew, and the characters `18` and `1A` cancel it. -/
def next (state : Control) (c : Char) : Control :=
  let code := c.toNat
  if code = 0x1B then escape
  else if code = 0x18 || code = 0x1A then ground
  else
    match state with
    | ground => ground
    | escape => afterEscape c
    | designation => if 0x30 ≤ code && code < 0x7F then ground else designation
    | command => if 0x40 ≤ code && code < 0x7F then ground else command
    | title => if code = 0x07 then ground else title
    | deviceStart =>
      if code < 0x20 || 0x7F ≤ code then deviceStart
      else if code < 0x30 then deviceMiddle
      else if code < 0x40 then deviceParameters
      else body
    | deviceParameters =>
      if code < 0x20 || 0x7F ≤ code then deviceParameters
      else if code < 0x30 then deviceMiddle
      else if code < 0x3C then deviceParameters
      else body
    | deviceMiddle => if 0x30 ≤ code && code < 0x7F then body else deviceMiddle
    | body => if holdsTerminator c then ground else body

/-- Whether a character is shown that comes in a given part of a sequence. -/
def shows (state : Control) (c : Char) : Bool :=
  match state with
  | ground => isShown c
  | escape | designation | command => isLayout c
  | _ => false

/-- The shown characters of a text that starts in a given part of a sequence. While `showing`,
that sequence is interrupted; a character outside of ASCII ends it for good. -/
def strip (showing : Bool) (state : Control) : List Char → List Char
  | [] => []
  | c :: rest =>
    if (if showing then isShown c else shows state c) then
      c :: strip true (if c.toNat < 0x80 then state else ground) rest
    else strip false (next state c) rest

theorem strip_eq_self {text : List Char} (h : ∀ c ∈ text, isShown c = true) (showing : Bool) :
    strip showing ground text = text := by
  induction text generalizing showing with
  | nil => rfl
  | cons c rest ih =>
    have hc : isShown c = true := h c List.mem_cons_self
    have hrest : ∀ d ∈ rest, isShown d = true := fun d hd ↦ h d (List.mem_cons_of_mem c hd)
    simp [strip, shows, hc, ih hrest]

end Control

/-- The text without terminal control. -/
def withoutControl (text : List Char) : List Char := Control.strip false .ground text

end Scriptlet.Text
