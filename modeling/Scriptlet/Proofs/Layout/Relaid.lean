import Scriptlet.Proofs.Layout.Unplaced
import Scriptlet.Proofs.Session.Joined

/-!
# Layout

The pieces of a source are what its tokens are written as, a string literal being one piece. Any
text that has the same pieces in the same order, with blanks between them, means the same: it has
tokens of the same kinds, spells the same program or is refused for the same reason, and runs alike.
Blanks behind a comment start with a newline, or they would become part of it.
-/

namespace Scriptlet

namespace Layout

open Tiling

/-- What one token, or the three tokens of a string literal, is written as. -/
structure Piece where
  text : List Char
  isComment : Bool
deriving DecidableEq

/-- The span from the start of one to the end of another. -/
def cover (first last : Span) : Span := ⟨first.start, last.stop, first.line, first.column⟩

def isComment : TokenKind → Bool
  | .comment _ => true
  | _ => false

/-- The pieces that the tokens are written as in a source. -/
def pieces (source : List Char) : List Token → List Piece
  | ⟨.quote, opening⟩ :: ⟨.content _, _⟩ :: ⟨.quote, closing⟩ :: others =>
    ⟨(cover opening closing).slice source, false⟩ :: pieces source others
  | token :: others => ⟨token.span.slice source, isComment token.kind⟩ :: pieces source others
  | [] => []

/-- Blanks that may stand behind a piece. -/
structure Gap (piece : Piece) (gap : List Char) : Prop where
  blank : ∀ c ∈ gap, Text.isBlank c = true
  newline : piece.isComment = true → ∀ c ∈ gap.head?, c = '\n'

instance (piece : Piece) (gap : List Char) : Decidable (Gap piece gap) :=
  decidable_of_iff (gap.all Text.isBlank = true ∧
      (piece.isComment = true → gap.head?.all (· == '\n') = true)) <| by
    constructor
    · rintro ⟨hblank, hnewline⟩
      refine ⟨List.all_eq_true.1 hblank, fun h c hc ↦ ?_⟩
      simpa [Option.mem_def.1 hc] using hnewline h
    · rintro ⟨hblank, hnewline⟩
      refine ⟨List.all_eq_true.2 hblank, fun h ↦ ?_⟩
      cases hhead : gap.head? with
      | none => rfl
      | some c => simpa using hnewline h c hhead

/-- The text consists of the pieces, each with blanks behind it, of which there is at least one
between two pieces. -/
inductive Spread : List Piece → List Char → Prop
  | nil : Spread [] []
  | cons {piece : Piece} {others : List Piece} {gap text : List Char} (hgap : Gap piece gap)
      (hapart : others ≠ [] → gap ≠ []) (hrest : Spread others text) :
      Spread (piece :: others) (piece.text ++ (gap ++ text))

/-- The text consists of the pieces with blanks in front of, between and behind them. -/
inductive LaidOut (pieces : List Piece) : List Char → Prop
  | indented {indent text : List Char} (hindent : ∀ c ∈ indent, Text.isBlank c = true)
      (hspread : Spread pieces text) : LaidOut pieces (indent ++ text)

/-! ## Pieces -/

theorem cover_spanOf (before first second third : List Char) :
    cover (spanOf before first) (spanOf (before ++ first ++ second) third) =
      spanOf before (first ++ second ++ third) := by
  simp [cover, spanOf, Position.upTo]

theorem pieces_literal (body : StringBody) (before rest : List Char) (others : List Token) :
    pieces (before ++ '"' :: (body.written ++ '"' :: rest))
        (body.tokens (Position.origin.after before) ++ others) =
      ⟨['"'] ++ body.written ++ ['"'], false⟩ ::
        pieces (before ++ '"' :: (body.written ++ '"' :: rest)) others := by
  have hslice := slice_spanOf before (['"'] ++ body.written ++ ['"']) rest
  rw [← cover_spanOf] at hslice
  rw [tokens_eq_spanOf]
  simp only [List.cons_append, List.nil_append, pieces]
  simpa using hslice

theorem pieces_single {source : List Char} {token : Token} (h : ¬InLiteral token.kind)
    (others : List Token) :
    pieces source (token :: others) =
      ⟨token.span.slice source, isComment token.kind⟩ :: pieces source others := by
  rw [pieces]
  rintro opening text span closing rest ⟨⟩
  exact absurd (.inl rfl) h

/-! ## Reading what was laid out -/

theorem isBlank_of_isWordPart {c : Char} (h : isWordPart c = true) : Text.isBlank c = false := by
  unfold isWordPart Char.isAlphanum at h
  rw [Bool.or_assoc, Bool.or_comm c.isDigit, ← Bool.or_assoc, Bool.or_eq_true] at h
  exact h.elim isBlank_of_isWordStart isBlank_of_isDigit

/-- A blank ends every token but a comment. -/
theorem continues_of_isBlank {kind : TokenKind} (hkind : isComment kind = false) {c : Char}
    (hblank : Text.isBlank c = true) : continues kind c = false := by
  have hother : ∀ {p : Char → Bool}, (∀ d, p d = true → Text.isBlank d = false) → p c = false := by
    intro p hp
    refine Bool.eq_false_iff.2 fun hc ↦ ?_
    rw [hp c hc] at hblank
    cases hblank
  have hequals : (c == '=') = false := by
    refine @hother (· == '=') fun d hd ↦ ?_
    rw [eq_of_beq hd]
    decide
  cases kind with
  | keyword | alpha | alphaNum => exact hother fun _ ↦ isBlank_of_isWordPart
  | number => exact hother fun _ ↦ isBlank_of_isDigit
  | comment => cases hkind
  | lt | gt | assign => exact hequals
  | _ => rfl

/-- What is laid out behind a token does not continue it. -/
theorem Gap.stops {kind : TokenKind} {text gap laid : List Char} {others : List Piece}
    (h : Gap ⟨text, isComment kind⟩ gap) (hapart : others ≠ [] → gap ≠ [])
    (hlaid : Spread others laid) : ∀ c ∈ (gap ++ laid).head?, continues kind c = false := by
  intro c hc
  cases gap with
  | nil =>
    obtain rfl : others = [] := not_not.1 fun hothers ↦ hapart hothers rfl
    cases hlaid
    cases hc
  | cons d rest =>
    obtain rfl : d = c := Option.some.inj hc
    cases hkind : isComment kind with
    | true =>
      rw [h.newline hkind d rfl]
      exact continues_newline kind
    | false => exact continues_of_isBlank hkind (h.blank d List.mem_cons_self)

theorem lexed_blanks {position : Position} {gap text : List Char} {tokens : List Token}
    (hgap : ∀ c ∈ gap, Text.isBlank c = true) (h : Lexed (position.after gap) text tokens) :
    Lexed position (gap ++ text) tokens := by
  induction gap generalizing position with
  | nil => exact h
  | cons c rest ih =>
    rw [List.forall_mem_cons] at hgap
    exact .blank hgap.1 (ih hgap.2 h)

/-- A literal is read whole wherever it stands. -/
theorem lexed_literal {rest : List Char} {body : StringBody}
    (hbody : StringBody.scan? rest = some body) {target : Position} {tail : List Char}
    {others : List Token}
    (h : Lexed (((target.next '"').after body.written).next '"') tail others) :
    Lexed target (['"'] ++ body.written ++ ['"'] ++ tail) (body.tokens target ++ others) := by
  have htext : ['"'] ++ body.written ++ ['"'] ++ tail = '"' :: (body.written ++ '"' :: tail) := by
    simp
  apply Lexed.of_tokenize
  rw [htext, tokenize_written (unescapes_of_scan? hbody), h.tokenize]
  rfl

/-- A lexeme is read whole wherever it stands, unless what follows could continue it. -/
theorem lexed_lexeme {c : Char} {rest : List Char} {lexeme : Lexeme}
    (hblank : Text.isBlank c = false) (hquote : c ≠ '"')
    (hlexeme : Lexeme.scan? c rest = some lexeme) {target : Position} {tail : List Char}
    {others : List Token} (htail : ∀ d ∈ tail.head?, continues lexeme.kind d = false)
    (h : Lexed (target.after lexeme.taken) tail others) :
    Lexed target (lexeme.taken ++ tail)
      (⟨lexeme.kind, target.upTo (target.after lexeme.taken)⟩ :: others) := by
  apply Lexed.of_tokenize
  rw [tokenize_taken hblank hquote hlexeme htail, h.tokenize]
  rfl

/-- Where the pieces of a text stand in another text, the same tokens are read. The induction
follows the reading of the first text, which stands behind the text `before`. -/
theorem Spread.exists_lexed {position : Position} {before text : List Char} {tokens : List Token}
    (h : Lexed position text tokens) (hposition : position = Position.origin.after before)
    {laid : List Char} (hspread : Spread (pieces (before ++ text) tokens) laid)
    (target : Position) :
    ∃ others, Lexed target laid others ∧ others.map Token.kind = tokens.map Token.kind := by
  induction h generalizing before laid target with
  | nil =>
    cases hspread
    exact ⟨[], .nil target, rfl⟩
  | @blank position c rest tokens _ _ ih =>
    refine ih (after_of_eq hposition [c]) ?_ target
    rwa [List.append_assoc]
  | @literal position rest body tokens hbody _ ih =>
    have hnext := (closing_eq_after position body.written).trans (after_of_eq hposition _)
    rw [hposition, ← StringBody.written_append_rest hbody, pieces_literal] at hspread
    cases hspread with
    | @cons _ _ gap laid hgap _ hrest =>
      obtain ⟨others, hothers, hkinds⟩ := ih hnext (by simpa using hrest)
        ((((target.next '"').after body.written).next '"').after gap)
      refine ⟨body.tokens target ++ others,
        lexed_literal hbody (lexed_blanks hgap.blank hothers), ?_⟩
      rw [List.map_append, List.map_append, hkinds]
      rfl
  | @lexeme position c rest lexeme tokens hblank hquote hlexeme _ ih =>
    have hnext := after_of_eq hposition lexeme.taken
    have hspan : position.upTo (position.after lexeme.taken) = spanOf before lexeme.taken := by
      rw [hnext, hposition]
      rfl
    rw [pieces_single (spells_of_scan? hlexeme).2.1, hspan, ← Lexeme.taken_append_rest hlexeme,
      slice_spanOf] at hspread
    cases hspread with
    | @cons _ _ gap laid hgap hapart hrest =>
      obtain ⟨others, hothers, hkinds⟩ := ih hnext (by simpa using hrest)
        ((target.after lexeme.taken).after gap)
      refine ⟨_, lexed_lexeme hblank hquote hlexeme (hgap.stops hapart hrest)
        (lexed_blanks hgap.blank hothers), ?_⟩
      rw [List.map_cons, List.map_cons, hkinds]

theorem LaidOut.exists_lex {source other : String} {tokens : List Token}
    (hlex : lex source = .ok tokens)
    (h : LaidOut (pieces source.toList tokens) other.toList) :
    ∃ others, lex other = .ok others ∧ others.map Token.kind = tokens.map Token.kind := by
  unfold lex
  generalize other.toList = laid at h
  cases h with
  | @indented indent text hindent hspread =>
    have hlexed : Lexed .origin source.toList tokens := .of_tokenize hlex
    obtain ⟨others, hothers, hkinds⟩ := @Spread.exists_lexed .origin [] source.toList tokens hlexed
      rfl text hspread (Position.origin.after indent)
    exact ⟨others, (lexed_blanks hindent hothers).tokenize, hkinds⟩

end Layout

/-! ## Running what was laid out -/

/-- The ending with an error that has lost its place. -/
def Ending.unplaced {α : Type} (ending : Ending α) : Ending α :=
  (ending.1, ending.2.1, ending.2.2.mapError Error.unplaced)

namespace Machine

/-- A source whose tokens spell no program leaves everything as it was. -/
theorem seen_runSource_of_refused {source : String} {tokens : List Token} {error : Error}
    (hlex : Scriptlet.lex source = .ok tokens) (hparse : Scriptlet.parse tokens = .error error)
    (blockScope : Bool) (fuel : Nat) (machine : Machine) :
    (machine.runSource blockScope fuel source).seen =
      some (machine.env, machine.sink, .error error) := by
  rw [runSource, load, lex, hlex, yield, Outcome.bind_done, Outcome.bind_done, parse, hparse, yield,
    Outcome.bind_failed, Outcome.bind_failed]
  rfl

/-- Sources with tokens of the same kinds run alike. -/
theorem seen_runSource_congr {source other : String} {tokens others : List Token}
    (hlex : Scriptlet.lex source = .ok tokens) (hother : Scriptlet.lex other = .ok others)
    (hkinds : others.map Token.kind = tokens.map Token.kind) (blockScope : Bool) (fuel : Nat)
    (machine : Machine) :
    (machine.runSource blockScope fuel other).seen.map Ending.unplaced =
      (machine.runSource blockScope fuel source).seen.map Ending.unplaced := by
  have hparse := mapError_parse_congr hkinds
  cases hleft : Scriptlet.parse others with
  | ok program =>
    cases hright : Scriptlet.parse tokens with
    | ok same =>
      rw [hleft, hright] at hparse
      obtain rfl : program = same := Except.ok.inj hparse
      rw [seen_runSource ⟨others, hother, hleft⟩, seen_runSource ⟨tokens, hlex, hright⟩]
    | error error =>
      rw [hleft, hright] at hparse
      cases hparse
  | error reason =>
    cases hright : Scriptlet.parse tokens with
    | ok same =>
      rw [hleft, hright] at hparse
      cases hparse
    | error error =>
      rw [hleft, hright] at hparse
      have hreason : reason.unplaced = error.unplaced := Except.error.inj hparse
      rw [seen_runSource_of_refused hother hleft, seen_runSource_of_refused hlex hright,
        Option.map_some, Option.map_some]
      simp only [Ending.unplaced, Except.mapError, hreason]

end Machine

/-- A source that is laid out in another way has tokens of the same kinds, spells the same program
or is refused for the same reason, and runs alike. -/
theorem laidOut_means_same {source other : String} {tokens : List Token}
    (hlex : lex source = .ok tokens)
    (h : Layout.LaidOut (Layout.pieces source.toList tokens) other.toList) :
    ∃ others, lex other = .ok others ∧ others.map Token.kind = tokens.map Token.kind ∧
      (parse others).mapError Error.unplaced = (parse tokens).mapError Error.unplaced ∧
      ∀ (blockScope : Bool) (fuel : Nat) (machine : Machine),
        (machine.runSource blockScope fuel other).seen.map Ending.unplaced =
          (machine.runSource blockScope fuel source).seen.map Ending.unplaced := by
  obtain ⟨others, hother, hkinds⟩ := h.exists_lex hlex
  exact ⟨others, hother, hkinds, mapError_parse_congr hkinds,
    Machine.seen_runSource_congr hlex hother hkinds⟩

/-- A source without any blank outside of its literal and its comment. -/
def packedSource : String := "write(\"a  b\");@ note"

/-- The same pieces, with blanks of several kinds. -/
def looseSource : String := "\u00a0write\n(\t\"a  b\"\u2003)  ;\r\n@ note\n\t"

def packedTokens : List Token :=
  [⟨.keyword .write, ⟨0, 5, 1, 1⟩⟩, ⟨.leftParen, ⟨5, 6, 1, 6⟩⟩, ⟨.quote, ⟨6, 7, 1, 7⟩⟩,
    ⟨.content "a  b", ⟨7, 11, 1, 8⟩⟩, ⟨.quote, ⟨11, 12, 1, 12⟩⟩, ⟨.rightParen, ⟨12, 13, 1, 13⟩⟩,
    ⟨.semicolon, ⟨13, 14, 1, 14⟩⟩, ⟨.comment " note", ⟨14, 20, 1, 15⟩⟩]

theorem laidOut_means_same_loose :
    lex packedSource = .ok packedTokens ∧
      ∃ others, lex looseSource = .ok others ∧
        others.map Token.kind = packedTokens.map Token.kind ∧
        ∀ (blockScope : Bool) (fuel : Nat) (machine : Machine),
          (machine.runSource blockScope fuel looseSource).seen.map Ending.unplaced =
            (machine.runSource blockScope fuel packedSource).seen.map Ending.unplaced := by
  have hlex : lex packedSource = .ok packedTokens := by decide +kernel
  have hpieces : Layout.pieces packedSource.toList packedTokens =
      [⟨"write".toList, false⟩, ⟨['('], false⟩, ⟨"\"a  b\"".toList, false⟩, ⟨[')'], false⟩,
        ⟨[';'], false⟩, ⟨"@ note".toList, true⟩] := by
    decide +kernel
  have hlaid : Layout.LaidOut (Layout.pieces packedSource.toList packedTokens)
      looseSource.toList := by
    have htext : looseSource.toList =
        ['\u00a0'] ++ ("write".toList ++ (['\n'] ++ (['('] ++ (['\t'] ++ ("\"a  b\"".toList ++
          (['\u2003'] ++ ([')'] ++ ([' ', ' '] ++ ([';'] ++ (['\r', '\n'] ++
            ("@ note".toList ++ (['\n', '\t'] ++ [])))))))))))) := by
      decide +kernel
    rw [hpieces, htext]
    refine .indented (List.all_eq_true.1 (by decide)) ?_
    refine .cons (by decide) (by decide) (.cons (by decide) (by decide) ?_)
    refine .cons (by decide) (by decide) (.cons (by decide) (by decide) ?_)
    exact .cons (by decide) (by decide) (.cons (by decide) (by decide) .nil)
  obtain ⟨others, hother, hkinds, -, hrun⟩ := laidOut_means_same hlex hlaid
  exact ⟨hlex, others, hother, hkinds, hrun⟩

end Scriptlet
