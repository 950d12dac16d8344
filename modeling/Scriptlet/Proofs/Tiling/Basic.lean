import Mathlib.Data.List.Basic
import Mathlib.Data.List.Induction
import Mathlib.Data.List.TakeWhile
import Scriptlet.Token.Lexer

/-!
# Tilings of a text by tokens

What it means that a list of tokens is the tokenization of a text, said of the whole text at once
and without a reader. The spans come in order, the characters between them are blank, each kind is
what its slice spells, no token could be longer, and each span knows the line and column of its
start. Quotes and contents stand only in touching triples.
-/

namespace Scriptlet

/-- The characters of `source` that the span covers. -/
def Span.slice (span : Span) (source : List Char) : List Char :=
  (source.drop span.start).take span.length

namespace Tiling

/-! ## What a slice spells -/

/-- The one spelling of a kind that carries no text. -/
def fixedText? : TokenKind → Option String
  | .keyword reserved => some reserved.word
  | .quote => some "\""
  | .plus => some "+"
  | .minus => some "-"
  | .star => some "*"
  | .slash => some "/"
  | .percent => some "%"
  | .caret => some "^"
  | .assign => some "="
  | .eqEq => some "=="
  | .ne => some "!="
  | .lt => some "<"
  | .le => some "<="
  | .gt => some ">"
  | .ge => some ">="
  | .leftParen => some "("
  | .rightParen => some ")"
  | .leftBrace => some "\x7b"
  | .rightBrace => some "\x7d"
  | .semicolon => some ";"
  | .alpha _ | .alphaNum _ | .number _ | .content _ | .comment _ => none

/-- An identifier-shaped word, reserved or not. -/
def IsWord : List Char → Prop
  | [] => False
  | c :: rest => isWordStart c = true ∧ ∀ part ∈ rest, isWordPart part = true

instance : DecidablePred IsWord
  | [] => inferInstanceAs (Decidable False)
  | c :: rest =>
    decidable_of_iff (isWordStart c = true ∧ rest.all isWordPart = true)
      (and_congr_right' List.all_eq_true)

/-- What a backslash and the character after it denote; most escapes stand for themselves. -/
inductive Escape : Char → List Char → Prop where
  | quote : Escape '"' ['"']
  | backslash : Escape '\\' ['\\']
  | newline : Escape 'n' ['\n']
  | tab : Escape 't' ['\t']
  | unknown {c : Char} (h : c ∉ ['"', '\\', 'n', 't']) : Escape c ['\\', c]

/-- `Unescapes written text` when `written` holds no quote without a backslash before it, does not
end inside an escape, and denotes `text`. -/
inductive Unescapes : List Char → List Char → Prop where
  | nil : Unescapes [] []
  | escape {c : Char} {denoted written text : List Char} (hescape : Escape c denoted)
      (hrest : Unescapes written text) : Unescapes ('\\' :: c :: written) (denoted ++ text)
  | plain {c : Char} {written text : List Char} (hquote : c ≠ '"') (hslash : c ≠ '\\')
      (hrest : Unescapes written text) : Unescapes (c :: written) (c :: text)

/-- `Spells slice kind` when a token of this kind is written as `slice`. -/
inductive Spells : List Char → TokenKind → Prop where
  | fixed {kind : TokenKind} {text : String} (h : fixedText? kind = some text) :
      Spells text.toList kind
  | alpha {word : List Char} (hword : IsWord word) (hdigit : ∀ c ∈ word, c.isDigit = false)
      (hfree : ∀ reserved : Keyword, word ≠ reserved.word.toList) :
      Spells word (.alpha (String.ofList word))
  | alphaNum {word : List Char} (hword : IsWord word) (hdigit : ∃ c ∈ word, c.isDigit = true) :
      Spells word (.alphaNum (String.ofList word))
  | number {digits : List Char} (hnonempty : digits ≠ [])
      (hdigit : ∀ c ∈ digits, c.isDigit = true) : Spells digits (.number (String.ofList digits))
  | comment {text : List Char} (hline : '\n' ∉ text) :
      Spells ('@' :: text) (.comment (String.ofList text))
  | content {written text : List Char} (hbody : Unescapes written text) :
      Spells written (.content (String.ofList text))

/-- The characters that would make a token of this kind longer. -/
def continues : TokenKind → Char → Bool
  | .keyword _ | .alpha _ | .alphaNum _ => isWordPart
  | .number _ => Char.isDigit
  | .comment _ => (· != '\n')
  | .lt | .gt | .assign => (· == '=')
  | _ => fun _ ↦ false

/-- The kinds that stand inside a string literal only. -/
def InLiteral (kind : TokenKind) : Prop :=
  kind = .quote ∨ ∃ text, kind = .content text

theorem isBlank_of_graphic {c : Char} (hlow : 0x20 < c.toNat) (hhigh : c.toNat < 0x7F) :
    Text.isBlank c = false := by
  have hranges : ∀ range ∈ Text.blankRanges, range.2 ≤ 0x20 ∨ 0x7F ≤ range.1 := by decide
  rw [Text.isBlank, List.any_eq_false]
  intro range hrange hinside
  have houtside := hranges range hrange
  simp only [Bool.and_eq_true, decide_eq_true_eq] at hinside
  omega

theorem toNat_of_isWordStart {c : Char} (h : isWordStart c = true) :
    65 ≤ c.toNat ∧ c.toNat ≤ 90 ∨ 97 ≤ c.toNat ∧ c.toNat ≤ 122 ∨ c.toNat = 95 := by
  rcases Bool.or_eq_true_iff.1 h with halpha | hunderscore
  · rcases Bool.or_eq_true_iff.1 halpha with hupper | hlower
    · exact .inl (of_decide_eq_true hupper)
    · obtain ⟨hlow, hhigh⟩ := Bool.and_eq_true_iff.1 hlower
      exact .inr (.inl ⟨of_decide_eq_true hlow, of_decide_eq_true hhigh⟩)
  · rw [eq_of_beq hunderscore]
    decide

theorem toNat_of_isDigit {c : Char} (h : c.isDigit = true) : 48 ≤ c.toNat ∧ c.toNat ≤ 57 := by
  obtain ⟨hlow, hhigh⟩ := Bool.and_eq_true_iff.1 h
  exact ⟨of_decide_eq_true hlow, of_decide_eq_true hhigh⟩

theorem isBlank_of_isWordStart {c : Char} (h : isWordStart c = true) : Text.isBlank c = false := by
  have hrange := toNat_of_isWordStart h
  exact isBlank_of_graphic (by omega) (by omega)

theorem isBlank_of_isDigit {c : Char} (h : c.isDigit = true) : Text.isBlank c = false := by
  have hrange := toNat_of_isDigit h
  exact isBlank_of_graphic (by omega) (by omega)

theorem mem_fixed_of_fixedText {kind : TokenKind} {text : String}
    (h : fixedText? kind = some text) : kind ∈ TokenKind.fixed := by
  cases kind with
  | keyword reserved => cases reserved <;> decide
  | alpha | alphaNum | number | content | comment => cases h
  | _ => decide

/-- The fixed spellings are not empty, hold no blank, and only a quote starts with a quote. -/
theorem fixedText_shape {kind : TokenKind} {text : String} (h : fixedText? kind = some text) :
    text.toList ≠ [] ∧ text.toList.any Text.isBlank = false ∧
      ('"' ∈ text.toList.head? → kind = .quote) := by
  have htable : ∀ kind ∈ TokenKind.fixed, ∀ text ∈ fixedText? kind,
      text.toList ≠ [] ∧ text.toList.any Text.isBlank = false ∧
        ('"' ∈ text.toList.head? → kind = .quote) := by
    decide
  exact htable kind (mem_fixed_of_fixedText h) text h

/-- Only a content starts with a blank. -/
theorem Spells.isBlank_first {c : Char} {rest : List Char} {kind : TokenKind}
    (h : Spells (c :: rest) kind) (hkind : ∀ text, kind ≠ .content text) :
    Text.isBlank c = false := by
  generalize hslice : c :: rest = slice at h
  cases h with
  | fixed hfixed =>
    have hblank := (fixedText_shape hfixed).2.1
    rw [← hslice, List.any_cons, Bool.or_eq_false_iff] at hblank
    exact hblank.1
  | alpha hword _ _ | alphaNum hword _ =>
    subst hslice
    exact isBlank_of_isWordStart hword.1
  | number _ hdigit =>
    subst hslice
    exact isBlank_of_isDigit (hdigit c List.mem_cons_self)
  | comment _ =>
    cases hslice
    decide
  | content _ => exact absurd rfl (hkind _)

/-- Only a content can be empty. -/
theorem Spells.content_of_nil {kind : TokenKind} (h : Spells [] kind) :
    ∃ text, kind = .content text := by
  generalize hslice : [] = slice at h
  cases h with
  | fixed hfixed => exact absurd hslice.symm (fixedText_shape hfixed).1
  | alpha hword _ _ | alphaNum hword _ =>
    subst hslice
    cases hword
  | number hnonempty _ => exact absurd hslice.symm hnonempty
  | comment _ => cases hslice
  | content _ => exact ⟨_, rfl⟩

/-- Outside a literal only a quote starts with one. -/
theorem Spells.eq_quote {more : List Char} {kind : TokenKind} (h : Spells ('"' :: more) kind)
    (hkind : ∀ text, kind ≠ .content text) : kind = .quote := by
  generalize hslice : '"' :: more = slice at h
  cases h with
  | fixed hfixed =>
    apply (fixedText_shape hfixed).2.2
    rw [← hslice]
    rfl
  | alpha hword _ _ | alphaNum hword _ =>
    subst hslice
    exact absurd hword.1 (by decide)
  | number _ hdigit =>
    subst hslice
    exact absurd (hdigit '"' List.mem_cons_self) (by decide)
  | comment _ => cases hslice
  | content _ => exact absurd rfl (hkind _)

/-! ## Tokens on a text -/

/-- The span's line and column are those of its first character: both count from one, the line
by the newlines before it and the column by the characters since the last of them. -/
structure Placed (source : List Char) (span : Span) : Prop where
  line : span.line = 1 + (source.take span.start).count '\n'
  column :
    span.column = 1 + ((source.take span.start).reverse.takeWhile (· != '\n')).length

/-- One token as it stands on its text. -/
structure Fits (source : List Char) (token : Token) : Prop where
  forward : token.span.start ≤ token.span.stop
  inside : token.span.stop ≤ source.length
  occupied : token.span.start = token.span.stop → ∃ text, token.kind = .content text
  spelled : Spells (token.span.slice source) token.kind
  longest : ∀ c ∈ source[token.span.stop]?, continues token.kind c = false
  placed : Placed source token.span

/-- The tokens stand in order from `first` on, and what they leave uncovered there is blank. -/
structure Tiles (source : List Char) (first : Nat) (tokens : List Token) : Prop where
  fits : ∀ token ∈ tokens, Fits source token
  since : ∀ token ∈ tokens, first ≤ token.span.start
  ordered : tokens.Pairwise fun token next ↦ token.span.stop ≤ next.span.start
  blank : ∀ index c, first ≤ index → source[index]? = some c →
    (∀ token ∈ tokens, index < token.span.start ∨ token.span.stop ≤ index) →
    Text.isBlank c = true

/-- Quotes and contents stand in touching triples, as the three tokens of a string literal. -/
inductive Grouped : List Token → Prop where
  | nil : Grouped []
  | single {token : Token} {others : List Token} (hkind : ¬InLiteral token.kind)
      (hrest : Grouped others) : Grouped (token :: others)
  | literal {opening content closing : Span} {text : String} {others : List Token}
      (hopening : opening.stop = content.start) (hclosing : content.stop = closing.start)
      (hrest : Grouped others) :
      Grouped (⟨.quote, opening⟩ :: ⟨.content text, content⟩ :: ⟨.quote, closing⟩ :: others)

theorem Grouped.kind_ne_content {token : Token} {others : List Token}
    (h : Grouped (token :: others)) (text : String) : token.kind ≠ .content text := by
  intro hkind
  cases h with
  | single hsingle _ => exact hsingle (.inr ⟨text, hkind⟩)
  | literal _ _ _ => cases hkind

theorem Grouped.tail {token : Token} {others : List Token} (h : Grouped (token :: others))
    (hkind : token.kind ≠ .quote) : Grouped others := by
  cases h with
  | single _ hrest => exact hrest
  | literal _ _ _ => exact absurd rfl hkind

/-! ## Positions -/

/-- Reading from the origin counts the characters, the newlines and the length of the last line. -/
theorem origin_after (text : List Char) :
    Position.origin.after text =
      ⟨text.length, 1 + text.count '\n', 1 + (text.reverse.takeWhile (· != '\n')).length⟩ := by
  induction text using List.reverseRecOn with
  | nil => rfl
  | append_singleton text c ih =>
    rw [Position.after_append, ih, Position.after_cons, Position.after_nil, Position.next]
    by_cases hline : c = '\n'
    · subst hline
      simp [Nat.add_assoc]
    · simp [hline, Nat.add_assoc]

/-- What is taken behind `before` is one more part of the text in front. -/
theorem after_of_eq {position : Position} {before : List Char}
    (h : position = Position.origin.after before) (taken : List Char) :
    position.after taken = Position.origin.after (before ++ taken) := by
  rw [h, Position.after_append]

theorem closing_eq_after (position : Position) (written : List Char) :
    ((position.next '"').after written).next '"' =
      position.after ('"' :: (written ++ ['"'])) := by
  rw [Position.after_cons, Position.after_append]
  rfl

/-- The span of `taken` in a text where `before` stands in front of it. -/
def spanOf (before taken : List Char) : Span :=
  (Position.origin.after before).upTo (Position.origin.after (before ++ taken))

theorem upTo_next {position : Position} {before : List Char}
    (hposition : position = Position.origin.after before) (c : Char) :
    position.upTo (position.next c) = spanOf before [c] := by
  rw [spanOf, Position.after_append, ← hposition]
  rfl

@[simp] theorem start_spanOf (before taken : List Char) :
    (spanOf before taken).start = before.length := by
  simp [spanOf, origin_after, Position.upTo]

@[simp] theorem stop_spanOf (before taken : List Char) :
    (spanOf before taken).stop = before.length + taken.length := by
  simp [spanOf, origin_after, Position.upTo]

theorem slice_spanOf (before taken rest : List Char) :
    (spanOf before taken).slice (before ++ (taken ++ rest)) = taken := by
  simp [Span.slice, Span.length]

theorem placed_iff {before text : List Char} {span : Span} (hstart : span.start = before.length) :
    Placed (before ++ text) span ↔
      span.line = (Position.origin.after before).line ∧
        span.column = (Position.origin.after before).column := by
  rw [origin_after]
  constructor
  · rintro ⟨hline, hcolumn⟩
    simpa [hstart] using And.intro hline hcolumn
  · rintro ⟨hline, hcolumn⟩
    exact ⟨by simpa [hstart] using hline, by simpa [hstart] using hcolumn⟩

/-- A token that starts where `before` ends takes some of the characters from there on. -/
theorem Fits.exists_taken {before text : List Char} {token : Token}
    (h : Fits (before ++ text) token) (hstart : token.span.start = before.length) :
    ∃ taken rest, text = taken ++ rest ∧ token.span = spanOf before taken := by
  have hforward := h.forward
  have hinside := h.inside
  obtain ⟨hline, hcolumn⟩ := (placed_iff hstart).1 h.placed
  rw [List.length_append] at hinside
  have hsize : (text.take token.span.length).length = token.span.length :=
    List.length_take_of_le (by rw [Span.length]; omega)
  refine ⟨text.take token.span.length, text.drop token.span.length,
    (List.take_append_drop _ _).symm, ?_⟩
  have hstop : token.span.stop = before.length + token.span.length := by
    rw [Span.length]
    omega
  calc
    token.span = ⟨before.length, before.length + token.span.length,
        (Position.origin.after before).line, (Position.origin.after before).column⟩ := by
      rw [← hstop, ← hline, ← hcolumn, ← hstart]
    _ = spanOf before (text.take token.span.length) := by
      simp [spanOf, origin_after, Position.upTo, hsize]

/-- What it takes that a span is a token, seen from where it starts. -/
theorem fits_spanOf_iff {before taken rest : List Char} {kind : TokenKind} :
    Fits (before ++ (taken ++ rest)) ⟨kind, spanOf before taken⟩ ↔
      Spells taken kind ∧ ∀ c ∈ rest.head?, continues kind c = false := by
  have hnext : (before ++ (taken ++ rest))[before.length + taken.length]? = rest.head? := by
    rw [← List.append_assoc, List.getElem?_append_right (by simp), List.head?_eq_getElem?]
    simp
  constructor
  · rintro ⟨_, _, _, hspelled, hlongest, _⟩
    dsimp only at hspelled hlongest
    rw [slice_spanOf] at hspelled
    rw [stop_spanOf, hnext] at hlongest
    exact ⟨hspelled, hlongest⟩
  · rintro ⟨hspelled, hlongest⟩
    refine ⟨by simp, by simp, ?_, ?_, ?_, (placed_iff (start_spanOf _ _)).2 ⟨rfl, rfl⟩⟩
    · intro hempty
      rw [start_spanOf, stop_spanOf] at hempty
      have htaken : taken = [] := List.length_eq_zero_iff.1 (by omega)
      subst htaken
      exact hspelled.content_of_nil
    · rwa [slice_spanOf]
    · rwa [stop_spanOf, hnext]

theorem Fits.exists_spelled {before text : List Char} {token : Token}
    (h : Fits (before ++ text) token) (hstart : token.span.start = before.length) :
    ∃ taken rest, text = taken ++ rest ∧ token.span = spanOf before taken ∧
      Spells taken token.kind ∧ ∀ c ∈ rest.head?, continues token.kind c = false := by
  obtain ⟨taken, rest, rfl, hspan⟩ := h.exists_taken hstart
  obtain ⟨kind, span⟩ := token
  cases hspan
  exact ⟨taken, rest, rfl, rfl, fits_spanOf_iff.1 h⟩

/-! ## Tilings step by step -/

/-- At the end of the text nothing is left for a token. -/
theorem tiles_end_iff {source : List Char} {tokens : List Token} (hgrouped : Grouped tokens) :
    Tiles source source.length tokens ↔ tokens = [] := by
  constructor
  · intro h
    cases tokens with
    | nil => rfl
    | cons token others =>
      have hfits := h.fits token List.mem_cons_self
      have hsince := h.since token List.mem_cons_self
      have hforward := hfits.forward
      have hinside := hfits.inside
      obtain ⟨text, hcontent⟩ := hfits.occupied (by omega)
      exact absurd hcontent (hgrouped.kind_ne_content text)
  · rintro rfl
    refine ⟨by simp, by simp, .nil, ?_⟩
    intro index c hindex hc
    rw [List.getElem?_eq_none hindex] at hc
    cases hc

/-- Behind the first token every other one starts later. -/
theorem Tiles.lt_start {source : List Char} {first : Nat} {token : Token} {others : List Token}
    (h : Tiles source first (token :: others)) (hgrouped : Grouped (token :: others)) :
    ∀ other ∈ others, first < other.span.start := by
  intro other hother
  have hfits := h.fits token List.mem_cons_self
  have hsince := h.since token List.mem_cons_self
  have hnext : token.span.stop ≤ other.span.start := List.rel_of_pairwise_cons h.ordered hother
  have hforward := hfits.forward
  have hoccupied : token.span.start ≠ token.span.stop := by
    intro hempty
    obtain ⟨text, hcontent⟩ := hfits.occupied hempty
    exact hgrouped.kind_ne_content text hcontent
  omega

/-- A blank is no part of the first token. -/
theorem tiles_blank_iff {before rest : List Char} {c : Char} {tokens : List Token}
    (hgrouped : Grouped tokens) (hblank : Text.isBlank c = true) :
    Tiles (before ++ c :: rest) before.length tokens ↔
      Tiles (before ++ c :: rest) (before.length + 1) tokens := by
  have hc : (before ++ c :: rest)[before.length]? = some c := by simp
  constructor
  · intro h
    refine ⟨h.fits, ?_, h.ordered, fun index d hindex ↦ h.blank index d (by omega)⟩
    cases tokens with
    | nil => simp
    | cons token others =>
      intro other hother
      rcases List.mem_cons.1 hother with rfl | hother
      · have hsince := h.since other List.mem_cons_self
        by_contra hstart
        have hfront : other.span.start = before.length := by omega
        obtain ⟨taken, tail, htext, -, hspelled, -⟩ :=
          (h.fits other List.mem_cons_self).exists_spelled hfront
        cases taken with
        | nil =>
          obtain ⟨text, hcontent⟩ := hspelled.content_of_nil
          exact hgrouped.kind_ne_content text hcontent
        | cons d more =>
          cases htext
          have hfirst := hspelled.isBlank_first hgrouped.kind_ne_content
          rw [hblank] at hfirst
          cases hfirst
      · exact h.lt_start hgrouped other hother
  · intro h
    refine ⟨h.fits, fun token htoken ↦ by have := h.since token htoken; omega, h.ordered, ?_⟩
    intro index d hindex hd hfree
    rcases Nat.eq_or_lt_of_le hindex with rfl | hindex
    · rw [hc] at hd
      cases hd
      exact hblank
    · exact h.blank index d hindex hd hfree

/-- A character that is not blank is the first of the first token. -/
theorem Tiles.exists_first {before rest : List Char} {c : Char} {tokens : List Token}
    (h : Tiles (before ++ c :: rest) before.length tokens) (hgrouped : Grouped tokens)
    (hblank : Text.isBlank c = false) :
    ∃ token others, tokens = token :: others ∧ token.span.start = before.length := by
  have hc : (before ++ c :: rest)[before.length]? = some c := by simp
  have hcovered : ∃ token ∈ tokens, token.span.start ≤ before.length := by
    by_contra hnone
    simp only [not_exists, not_and] at hnone
    have hfree := h.blank before.length c (Nat.le_refl _) hc fun token htoken ↦
      .inl (Nat.lt_of_not_le (hnone token htoken))
    rw [hblank] at hfree
    cases hfree
  obtain ⟨token, htoken, hstart⟩ := hcovered
  cases tokens with
  | nil => cases htoken
  | cons front others =>
    rcases List.mem_cons.1 htoken with rfl | hother
    · have hsince := h.since token List.mem_cons_self
      exact ⟨token, others, rfl, by omega⟩
    · have hlater := h.lt_start hgrouped token hother
      omega

/-- A token at the front leaves a tiling from its end on. -/
theorem tiles_cons_iff {source : List Char} {token : Token} {others : List Token} :
    Tiles source token.span.start (token :: others) ↔
      Fits source token ∧ Tiles source token.span.stop others := by
  constructor
  · intro h
    obtain ⟨hnext, hordered⟩ := List.pairwise_cons.1 h.ordered
    have hfits := h.fits token List.mem_cons_self
    refine ⟨hfits, fun other hother ↦ h.fits other (List.mem_cons_of_mem token hother), hnext,
      hordered, ?_⟩
    intro index c hindex hc hfree
    have hforward := hfits.forward
    refine h.blank index c (by omega) hc ?_
    exact List.forall_mem_cons.2 ⟨.inr hindex, hfree⟩
  · rintro ⟨hfits, h⟩
    have hforward := hfits.forward
    refine ⟨List.forall_mem_cons.2 ⟨hfits, h.fits⟩, ?_, List.pairwise_cons.2 ⟨h.since, h.ordered⟩,
      ?_⟩
    · refine List.forall_mem_cons.2 ⟨Nat.le_refl _, ?_⟩
      intro other hother
      have hsince := h.since other hother
      omega
    · intro index c hindex hc hfree
      obtain ⟨hpast, hfree⟩ := List.forall_mem_cons.1 hfree
      exact h.blank index c (by omega) hc hfree

end Tiling

end Scriptlet
