import Scriptlet.Proofs.Literal.Closing
import Scriptlet.Proofs.Tiling.Lexed

/-!
# Where reading stops

A text has no tokens for one of two reasons, and both lie at one character: it starts no token, or
it opens a string literal that never closes. What stands in front of this character has tokens of
its own, and they are those that were read before. The character behind a token matters to it only
if it is one of those that would make the token longer.
-/

namespace Scriptlet.Tiling

/-! ## Texts that a fault can follow -/

/-- No comment among the tokens reaches up to `stop`. -/
def CommentsEndBefore (stop : Nat) (tokens : List Token) : Prop :=
  ∀ text span, ⟨.comment text, span⟩ ∈ tokens → span.stop ≠ stop

/-- The text is read whole and does not end inside a comment. -/
def Settled (position : Position) (text : List Char) : Prop :=
  ∃ tokens, tokenize position text = .ok tokens ∧
    CommentsEndBefore (position.after text).offset tokens

/-- The character goes on with no token but a comment. -/
structure Separates (c : Char) : Prop where
  part : isWordPart c = false
  ne_equals : c ≠ '='

theorem Separates.continues_eq_false {c : Char} (h : Separates c) {kind : TokenKind}
    (hkind : ∀ text, kind ≠ .comment text) : continues kind c = false := by
  have hdigit : c.isDigit = false := by
    have hpart := h.part
    rw [isWordPart, Char.isAlphanum] at hpart
    simp_all
  have hequal : (c == '=') = false := beq_false_of_ne h.ne_equals
  cases kind with
  | keyword | alpha | alphaNum => exact h.part
  | number => exact hdigit
  | comment text => exact absurd rfl (hkind text)
  | lt | gt | assign => exact hequal
  | _ => rfl

theorem CommentsEndBefore.continues_eq_false {stop : Nat} {tokens : List Token}
    (h : CommentsEndBefore stop tokens) {tail : List Char}
    (htail : ∀ c ∈ tail.head?, Separates c) :
    ∀ token ∈ tokens, token.span.stop = stop →
      ∀ c ∈ tail.head?, continues token.kind c = false := by
  intro token hmem hstop c hc
  apply (htail c hc).continues_eq_false
  intro text hkind
  apply h text token.span _ hstop
  rwa [← hkind]

/-! ## Characters that start nothing -/

/-- The characters that start a token whatever follows them, letters and digits apart. -/
def marks : List Char :=
  ['_', '"', '@', '+', '-', '*', '/', '%', '^', '=', '<', '>', '(', ')', '\x7b', '\x7d', ';']

/-- The character is not blank and starts no token. An exclamation mark starts one only in front of
an equals sign. -/
structure StartsNothing (c : Char) (rest : List Char) : Prop where
  visible : Text.isBlank c = false
  letter : c.isAlpha = false
  digit : c.isDigit = false
  mark : c ∉ marks
  unequal : c = '!' → rest.head? ≠ some '='

theorem symbol?_eq_none_iff {c : Char} {rest : List Char} (hquote : c ≠ '"') (hsign : c ≠ '@')
    (hscore : c ≠ '_') : Lexeme.symbol? c rest = none ↔
      c ∉ marks ∧ (c = '!' → rest.head? ≠ some '=') := by
  fun_cases Lexeme.symbol? c rest with
  | case19 =>
    rename_i hunequal
    apply iff_of_true rfl
    constructor
    · simp_all [marks]
    · intro hbang hhead
      obtain ⟨others, hrest⟩ := List.head?_eq_some_iff.1 hhead
      exact hunequal others hbang hrest
  | _ => simp [marks]

theorem scan?_eq_none_iff {c : Char} {rest : List Char} :
    Lexeme.scan? c rest = none ↔
      isWordStart c = false ∧ c.isDigit = false ∧ c ≠ '@' ∧ Lexeme.symbol? c rest = none := by
  unfold Lexeme.scan?
  split
  · simp_all
  split
  · simp_all
  split <;> simp_all

theorem startsNothing_iff {c : Char} {rest : List Char} :
    StartsNothing c rest ↔ Text.isBlank c = false ∧ c ≠ '"' ∧ Lexeme.scan? c rest = none := by
  rw [scan?_eq_none_iff, isWordStart, Bool.or_eq_false_iff, beq_eq_false_iff_ne]
  constructor
  · intro h
    have hmark : ∀ d ∈ marks, c ≠ d := List.forall_mem_ne.2 h.mark
    have hquote := hmark '"' (by decide)
    have hsign := hmark '@' (by decide)
    have hscore := hmark '_' (by decide)
    have hsymbol := (symbol?_eq_none_iff hquote hsign hscore).2 ⟨h.mark, h.unequal⟩
    exact ⟨h.visible, hquote, ⟨h.letter, hscore⟩, h.digit, hsign, hsymbol⟩
  · rintro ⟨hblank, hquote, ⟨hletter, hscore⟩, hdigit, hsign, hsymbol⟩
    obtain ⟨hmark, hunequal⟩ := (symbol?_eq_none_iff hquote hsign hscore).1 hsymbol
    exact ⟨hblank, hletter, hdigit, hmark, hunequal⟩

/-! ## Where reading stops -/

/-- What is wrong with a text that stands at `position`, if it is wrong from the start. -/
inductive Stops (position : Position) : List Char → Error → Prop
  | character {c : Char} {rest : List Char} (h : StartsNothing c rest) :
      Stops position (c :: rest) (.unexpectedCharacter c (position.upTo (position.next c)))
  | literal {rest : List Char} (h : StringBody.scan? rest = none) :
      Stops position ('"' :: rest) (.unterminatedString (position.upTo (position.next '"')))

namespace Stops

variable {position : Position} {text : List Char} {error : Error}

theorem tokenize_eq (h : Stops position text error) : tokenize position text = .error error := by
  cases h with
  | character h =>
    obtain ⟨hblank, hquote, hnone⟩ := startsNothing_iff.1 h
    rw [tokenize_lexeme _ _ hblank hquote, hnone]
  | literal h => rw [tokenize_quote, h]

theorem separates (h : Stops position text error) : ∀ c ∈ text.head?, Separates c := by
  cases h with
  | @character c rest h =>
    have hmark : ∀ d ∈ marks, c ≠ d := List.forall_mem_ne.2 h.mark
    rintro _ ⟨⟩
    constructor
    · simp [isWordPart, Char.isAlphanum, h.letter, h.digit, hmark '_' (by decide)]
    · exact hmark '=' (by decide)
  | literal _ =>
    rintro _ ⟨⟩
    exact ⟨by decide, by decide⟩

/-- Where reading stops, no comment ends. -/
theorem ne_newline (h : Stops position text error) : ∃ c ∈ text.head?, c ≠ '\n' := by
  cases h with
  | @character c rest h =>
    refine ⟨c, rfl, ?_⟩
    rintro rfl
    exact absurd h.visible (by decide)
  | literal _ => exact ⟨'"', rfl, by decide⟩

end Stops

namespace Settled

variable {position : Position}

theorem nil : Settled position [] :=
  ⟨[], tokenize_nil position, fun _ _ hmem ↦ absurd hmem List.not_mem_nil⟩

theorem blank {c : Char} {text : List Char} (hblank : Text.isBlank c = true)
    (h : Settled (position.next c) text) : Settled position (c :: text) := by
  obtain ⟨tokens, htokens, hcomments⟩ := h
  exact ⟨tokens, (tokenize_blank _ _ hblank).trans htokens, hcomments⟩

theorem literal {rest text : List Char} {body : StringBody}
    (hbody : StringBody.scan? rest = some body)
    (h : Settled (((position.next '"').after body.written).next '"') text) :
    Settled position ('"' :: (body.written ++ '"' :: text)) := by
  obtain ⟨tokens, htokens, hcomments⟩ := h
  refine ⟨body.tokens position ++ tokens, ?_, ?_⟩
  · rw [tokenize_written (unescapes_of_scan? hbody), htokens]
    rfl
  · intro comment span hmem
    rw [Position.after_cons, Position.after_append, Position.after_cons]
    apply hcomments comment span
    simpa [StringBody.tokens] using hmem

theorem lexeme {c : Char} {rest before behind : List Char} {lexeme : Lexeme}
    (hblank : Text.isBlank c = false) (hquote : c ≠ '"')
    (hlexeme : Lexeme.scan? c rest = some lexeme) (hrest : lexeme.rest = before ++ behind)
    (hbehind : ∃ d ∈ behind.head?, d ≠ '\n') (h : Settled (position.after lexeme.taken) before) :
    Settled position (lexeme.taken ++ before) := by
  obtain ⟨tokens, htokens, hcomments⟩ := h
  have hlongest := (spells_of_scan? hlexeme).2.2
  rw [hrest] at hlongest
  refine ⟨⟨lexeme.kind, position.upTo (position.after lexeme.taken)⟩ :: tokens, ?_, ?_⟩
  · rw [tokenize_taken hblank hquote hlexeme, htokens]
    · rfl
    · intro d hd
      apply hlongest
      rw [List.head?_append, Option.mem_def.1 hd]
      rfl
  · intro text span hmem hstop
    rw [Position.after_append] at hstop
    rcases List.mem_cons.1 hmem with hfirst | hmem
    · obtain ⟨hkind, rfl⟩ := Token.mk.inj hfirst
      -- A comment that ends where the text does is one that goes on behind it.
      have hnil : before = [] := by
        rw [Position.offset_after (position.after lexeme.taken)] at hstop
        apply List.length_eq_zero_iff.1
        exact Nat.left_eq_add.1 hstop
      obtain ⟨d, hd, hnewline⟩ := hbehind
      rw [hnil, ← hkind] at hlongest
      have hends := hlongest d hd
      exact hnewline (by simpa [continues] using hends)
    · exact hcomments text span hmem hstop

end Settled

/-- Reading fails where a text that it gets through ends and something starts that it does not. -/
theorem exists_stops_of_tokenize {position : Position} {text : List Char} {error : Error}
    (h : tokenize position text = .error error) :
    ∃ before behind, text = before ++ behind ∧ Settled position before ∧
      Stops (position.after before) behind error := by
  fun_induction tokenize position text with
  | case1 => cases h
  | case2 position c rest hblank ih =>
    obtain ⟨before, behind, rfl, hbefore, hbehind⟩ := ih h
    exact ⟨c :: before, behind, rfl, .blank hblank hbefore, hbehind⟩
  | case3 position rest hnone _ =>
    cases h
    exact ⟨[], _, rfl, .nil, .literal hnone⟩
  | case4 => cases h
  | case5 position rest body hscan _ _ hothers _ =>
    rename_i ih
    cases h
    obtain ⟨before, behind, hrest, hbefore, hbehind⟩ := ih hothers
    refine ⟨'"' :: (body.written ++ '"' :: before), behind, ?_, .literal hscan hbefore, ?_⟩
    · rw [← StringBody.written_append_rest hscan, hrest]
      simp
    · rwa [Position.after_cons, Position.after_append, Position.after_cons]
  | case6 position c rest hblank hquote hnone =>
    cases h
    have hstarts := startsNothing_iff.2 ⟨Bool.eq_false_iff.2 hblank, hquote, hnone⟩
    exact ⟨[], _, rfl, .nil, .character hstarts⟩
  | case7 => cases h
  | case8 position c rest hblank hquote lexeme hscan _ _ hothers =>
    rename_i ih
    cases h
    obtain ⟨before, behind, hrest, hbefore, hbehind⟩ := ih hothers
    refine ⟨lexeme.taken ++ before, behind, ?_, ?_, ?_⟩
    · rw [List.append_assoc, ← hrest, Lexeme.taken_append_rest hscan]
    · exact .lexeme (Bool.eq_false_iff.2 hblank) hquote hscan hrest hbehind.ne_newline hbefore
    · rwa [Position.after_append]

theorem tokenize_eq_error_iff {position : Position} {text : List Char} {error : Error} :
    tokenize position text = .error error ↔
      ∃ before behind, text = before ++ behind ∧ Settled position before ∧
        Stops (position.after before) behind error := by
  constructor
  · exact exists_stops_of_tokenize
  · rintro ⟨before, behind, rfl, ⟨tokens, htokens, hcomments⟩, hbehind⟩
    have hstops := hcomments.continues_eq_false hbehind.separates
    rw [tokenize_append (.of_tokenize htokens) hstops, hbehind.tokenize_eq]
    rfl

/-! ## Sources -/

/-- The span covers the one character behind `before` and knows its line and column. -/
structure Pinpoints (source before : List Char) (span : Span) : Prop where
  start : span.start = before.length
  stop : span.stop = span.start + 1
  placed : Placed source span

theorem pinpoints_iff {before rest : List Char} {c : Char} {span : Span} :
    Pinpoints (before ++ c :: rest) before span ↔
      span = (Position.origin.after before).upTo ((Position.origin.after before).next c) := by
  rw [upTo_next rfl]
  constructor
  · intro h
    obtain ⟨hline, hcolumn⟩ := (placed_iff h.start).1 h.placed
    have hstop : span.stop = before.length + 1 := by rw [h.stop, h.start]
    calc
      span = ⟨before.length, before.length + 1, (Position.origin.after before).line,
          (Position.origin.after before).column⟩ := by
        rw [← hline, ← hcolumn, ← hstop, ← h.start]
      _ = spanOf before [c] := by simp [spanOf, origin_after, Position.upTo]
  · rintro rfl
    exact ⟨start_spanOf _ _, by simp, (placed_iff (start_spanOf _ _)).2 ⟨rfl, rfl⟩⟩

theorem lex_eq_error_iff {source : String} {error : Error} :
    lex source = .error error ↔
      ∃ before behind tokens, source.toList = before ++ behind ∧
        lex (String.ofList before) = .ok tokens ∧ CommentsEndBefore before.length tokens ∧
        Stops (Position.origin.after before) behind error := by
  have hsettled : ∀ text, Settled .origin text ↔
      ∃ tokens, lex (String.ofList text) = .ok tokens ∧ CommentsEndBefore text.length tokens := by
    intro text
    rw [Settled, lex, String.toList_ofList, origin_after]
  rw [lex, tokenize_eq_error_iff]
  constructor
  · rintro ⟨before, behind, hsource, hbefore, hbehind⟩
    obtain ⟨tokens, htokens, hcomments⟩ := (hsettled before).1 hbefore
    exact ⟨before, behind, tokens, hsource, htokens, hcomments, hbehind⟩
  · rintro ⟨before, behind, tokens, hsource, htokens, hcomments, hbehind⟩
    exact ⟨before, behind, hsource, (hsettled before).2 ⟨tokens, htokens, hcomments⟩, hbehind⟩

/-- One of the three holds and no other. -/
def ExactlyOne (first second third : Prop) : Prop :=
  first ∧ ¬second ∧ ¬third ∨ ¬first ∧ second ∧ ¬third ∨ ¬first ∧ ¬second ∧ third

theorem exactlyOne_outcome (source : String) :
    ExactlyOne (∃ tokens, lex source = .ok tokens)
      (∃ c span, lex source = .error (.unexpectedCharacter c span))
      (∃ span, lex source = .error (.unterminatedString span)) := by
  cases hlex : lex source with
  | ok tokens => simp [ExactlyOne]
  | error error =>
    obtain ⟨before, behind, tokens, -, -, -, hbehind⟩ := lex_eq_error_iff.1 hlex
    cases hbehind with
    | character _ => simp [ExactlyOne]
    | literal _ => simp [ExactlyOne]

/-- A source has tokens, or it has a first character that starts no token, or a first quote that
opens a literal without end. The error names this character and its place, and what stands in front
of it has tokens of its own and does not end inside a comment. -/
theorem lex_fails_at_first_fault (source : String) :
    (∀ c span, lex source = .error (.unexpectedCharacter c span) ↔
      ∃ before rest tokens, source.toList = before ++ c :: rest ∧
        lex (String.ofList before) = .ok tokens ∧ CommentsEndBefore before.length tokens ∧
        StartsNothing c rest ∧ Pinpoints source.toList before span) ∧
    (∀ span, lex source = .error (.unterminatedString span) ↔
      ∃ before rest tokens, source.toList = before ++ '"' :: rest ∧
        lex (String.ofList before) = .ok tokens ∧ CommentsEndBefore before.length tokens ∧
        (∀ index, rest[index]? = some '"' → Odd (Literal.backslashes (rest.take index))) ∧
        Pinpoints source.toList before span) ∧
    ExactlyOne (∃ tokens, lex source = .ok tokens)
      (∃ c span, lex source = .error (.unexpectedCharacter c span))
      (∃ span, lex source = .error (.unterminatedString span)) := by
  refine ⟨fun c span ↦ ?_, fun span ↦ ?_, exactlyOne_outcome source⟩
  · rw [lex_eq_error_iff]
    constructor
    · rintro ⟨before, behind, tokens, hsource, htokens, hcomments, hbehind⟩
      cases hbehind with
      | @character _ rest hstarts =>
        rw [hsource]
        exact ⟨before, rest, tokens, rfl, htokens, hcomments, hstarts, pinpoints_iff.2 rfl⟩
    · rintro ⟨before, rest, tokens, hsource, htokens, hcomments, hstarts, hspan⟩
      rw [hsource] at hspan
      rw [pinpoints_iff.1 hspan]
      exact ⟨before, _, tokens, hsource, htokens, hcomments, .character hstarts⟩
  · rw [lex_eq_error_iff]
    constructor
    · rintro ⟨before, behind, tokens, hsource, htokens, hcomments, hbehind⟩
      cases hbehind with
      | @literal rest hopen =>
        rw [hsource]
        exact ⟨before, rest, tokens, rfl, htokens, hcomments,
          (Literal.scan?_eq_none_iff_odd rest).1 hopen, pinpoints_iff.2 rfl⟩
    · rintro ⟨before, rest, tokens, hsource, htokens, hcomments, hodd, hspan⟩
      rw [hsource] at hspan
      rw [pinpoints_iff.1 hspan]
      exact ⟨before, _, tokens, hsource, htokens, hcomments,
        .literal ((Literal.scan?_eq_none_iff_odd rest).2 hodd)⟩

end Scriptlet.Tiling
