import Scriptlet.Proofs.Tiling.Basic

/-!
# The tokens of a text tile it

Reading a text gives the one list of grouped tokens that tiles it, and fails where there is none.
Each scanner is first shown to take exactly the slices that spell its kind and end where they
cannot go on; reading from any point on then follows by induction on what is left.
-/

namespace Scriptlet.Tiling

/-! ## Runs of characters -/

/-- A run that its continuation cannot lengthen is found whole. -/
theorem takeWhile_run {p : Char → Bool} {taken rest : List Char} (htaken : ∀ c ∈ taken, p c = true)
    (hrest : ∀ c ∈ rest.head?, p c = false) : (taken ++ rest).takeWhile p = taken := by
  rw [List.takeWhile_append_of_pos htaken]
  cases rest with
  | nil => simp
  | cons c others =>
    have hstop : p c = false := hrest c rfl
    simp [hstop]

theorem dropWhile_run {p : Char → Bool} {taken rest : List Char} (htaken : ∀ c ∈ taken, p c = true)
    (hrest : ∀ c ∈ rest.head?, p c = false) : (taken ++ rest).dropWhile p = rest := by
  rw [List.dropWhile_append_of_pos htaken]
  cases rest with
  | nil => rfl
  | cons c others =>
    have hstop : p c = false := hrest c rfl
    simp [hstop]

theorem head?_dropWhile_run (p : Char → Bool) (text : List Char) :
    ∀ c ∈ (text.dropWhile p).head?, p c = false := by
  intro c hc
  have hstop := List.head?_dropWhile_not p text
  rw [Option.mem_def.1 hc] at hstop
  exact hstop

/-! ## Words -/

theorem spells_ofWord {word : List Char} (h : IsWord word) :
    Spells word (TokenKind.ofWord word) := by
  unfold TokenKind.ofWord
  split
  · rename_i reserved hreserved
    have hword : word = reserved.word.toList := by
      rw [← Keyword.ofWord?_eq_some_iff.1 hreserved, String.toList_ofList]
    rw [hword]
    exact .fixed rfl
  · rename_i hfree
    split
    · rename_i hdigit
      exact .alphaNum h (List.any_eq_true.1 hdigit)
    · rename_i hdigit
      refine .alpha h (by simpa using hdigit) ?_
      rintro reserved rfl
      rw [String.ofList_toList, Keyword.ofWord?_word] at hfree
      cases hfree

theorem continues_ofWord (word : List Char) : continues (TokenKind.ofWord word) = isWordPart := by
  unfold TokenKind.ofWord
  split
  · rfl
  · split <;> rfl

theorem not_inLiteral_ofWord (word : List Char) : ¬InLiteral (TokenKind.ofWord word) := by
  unfold TokenKind.ofWord
  split
  · simp [InLiteral]
  · split <;> simp [InLiteral]

theorem isWord_keyword (reserved : Keyword) : IsWord reserved.word.toList := by
  cases reserved <;> decide

theorem ofWord_keyword (reserved : Keyword) :
    TokenKind.ofWord reserved.word.toList = .keyword reserved := by
  rw [TokenKind.ofWord, String.ofList_toList, Keyword.ofWord?_word]

theorem ofWord?_of_free {word : List Char}
    (h : ∀ reserved : Keyword, word ≠ reserved.word.toList) :
    Keyword.ofWord? (String.ofList word) = none := by
  rw [Option.eq_none_iff_forall_ne_some]
  intro reserved hreserved
  apply h reserved
  rw [← Keyword.ofWord?_eq_some_iff.1 hreserved, String.toList_ofList]

theorem ofWord_of_free {word : List Char} (h : ∀ reserved : Keyword, word ≠ reserved.word.toList) :
    TokenKind.ofWord word =
      if word.any Char.isDigit then .alphaNum (String.ofList word)
      else .alpha (String.ofList word) := by
  rw [TokenKind.ofWord, ofWord?_of_free h]

theorem scan?_word {c : Char} {word rest : List Char} (hword : IsWord (c :: word))
    (hrest : ∀ part ∈ rest.head?, isWordPart part = false) :
    Lexeme.scan? c (word ++ rest) =
      some ⟨TokenKind.ofWord (c :: word), c :: word, rest⟩ := by
  rw [Lexeme.scan?, if_pos hword.1, Lexeme.word, takeWhile_run hword.2 hrest,
    dropWhile_run hword.2 hrest]

/-- No reserved word has a digit. -/
theorem any_isDigit_keyword (reserved : Keyword) :
    reserved.word.toList.any Char.isDigit = false := by
  cases reserved <;> decide

theorem free_of_isDigit {word : List Char} (h : ∃ c ∈ word, c.isDigit = true)
    (reserved : Keyword) : word ≠ reserved.word.toList := by
  intro hreserved
  have hany := List.any_eq_true.2 h
  rw [hreserved, any_isDigit_keyword] at hany
  cases hany

/-! ## One lexeme -/

theorem not_isWordStart_of_isDigit {c : Char} (h : c.isDigit = true) : ¬isWordStart c = true := by
  intro hword
  have hrange := toNat_of_isDigit h
  have hrange' := toNat_of_isWordStart hword
  omega

theorem scan?_number {c : Char} {digits rest : List Char}
    (hdigits : ∀ d ∈ c :: digits, d.isDigit = true)
    (hrest : ∀ d ∈ rest.head?, d.isDigit = false) :
    Lexeme.scan? c (digits ++ rest) =
      some ⟨.number (String.ofList (c :: digits)), c :: digits, rest⟩ := by
  obtain ⟨hfirst, hothers⟩ := List.forall_mem_cons.1 hdigits
  rw [Lexeme.scan?, if_neg (not_isWordStart_of_isDigit hfirst), if_pos hfirst, Lexeme.number,
    takeWhile_run hothers hrest, dropWhile_run hothers hrest]

theorem scan?_comment {text rest : List Char} (hline : '\n' ∉ text)
    (hrest : ∀ c ∈ rest.head?, (c != '\n') = false) :
    Lexeme.scan? '@' (text ++ rest) =
      some ⟨.comment (String.ofList text), '@' :: text, rest⟩ := by
  have htext : ∀ c ∈ text, (c != '\n') = true := by
    intro c hc
    simp only [bne_iff_ne, ne_eq]
    rintro rfl
    exact hline hc
  rw [Lexeme.scan?, if_neg (by decide), if_neg (by decide), if_pos rfl, Lexeme.comment,
    takeWhile_run htext hrest, dropWhile_run htext hrest]

/-- The symbols that are also the first half of a longer one. -/
theorem symbol?_short {c : Char} {kind : TokenKind} {rest : List Char}
    (hkind : (c, kind) ∈ [('<', .lt), ('>', .gt), ('=', .assign)])
    (hrest : ∀ d ∈ rest.head?, (d == '=') = false) :
    Lexeme.symbol? c rest = some ⟨kind, [c], rest⟩ := by
  simp only [List.mem_cons, Prod.mk.injEq, List.not_mem_nil, or_false] at hkind
  cases rest with
  | nil => rcases hkind with ⟨rfl, rfl⟩ | ⟨rfl, rfl⟩ | ⟨rfl, rfl⟩ <;> rfl
  | cons d others =>
    have hd : d ≠ '=' := by simpa using hrest
    rcases hkind with ⟨rfl, rfl⟩ | ⟨rfl, rfl⟩ | ⟨rfl, rfl⟩ <;> simp [Lexeme.symbol?, hd]

/-- The spelling of a symbol is read back, unless the next character makes it a longer one. -/
theorem scan?_symbol {kind : TokenKind} {text : String} (hfixed : fixedText? kind = some text)
    (hword : kind.isKeyword = false) (hquote : kind ≠ .quote) {c : Char} {more rest : List Char}
    (htext : text.toList = c :: more) (hrest : ∀ d ∈ rest.head?, continues kind d = false) :
    Lexeme.scan? c (more ++ rest) = some ⟨kind, text.toList, rest⟩ := by
  cases kind with
  | keyword => cases hword
  | quote => exact absurd rfl hquote
  | alpha | alphaNum | number | content | comment => cases hfixed
  | lt | gt | assign =>
    cases hfixed
    cases htext
    exact symbol?_short (by decide) hrest
  | _ =>
    cases hfixed
    cases htext
    rfl

theorem Spells.of_fixedText {slice : List Char} {kind : TokenKind}
    (h : fixedText? kind = some (String.ofList slice)) : Spells slice kind := by
  rw [← String.toList_ofList (l := slice)]
  exact .fixed h

/-- What the table of symbols answers is spelled by what it takes, and could not be longer. -/
theorem spells_of_symbol? {c : Char} {rest : List Char} {lexeme : Lexeme}
    (h : Lexeme.symbol? c rest = some lexeme) :
    Spells lexeme.taken lexeme.kind ∧ ¬InLiteral lexeme.kind ∧
      ∀ d ∈ lexeme.rest.head?, continues lexeme.kind d = false := by
  have hlonger : ∀ {others : List Char}, (∀ tail, others = '=' :: tail → False) →
      ∀ d ∈ others.head?, (d == '=') = false := by
    intro others hothers d hd
    obtain ⟨tail, rfl⟩ := List.head?_eq_some_iff.1 hd
    rw [beq_eq_false_iff_ne]
    rintro rfl
    exact hothers tail rfl
  unfold Lexeme.symbol? at h
  split at h <;> cases h <;> refine ⟨.of_fixedText rfl, by simp [InLiteral], ?_⟩
  case h_11 | h_12 | h_13 => exact hlonger (by assumption)
  all_goals exact fun _ _ ↦ rfl

/-- A scanned lexeme is spelled by what it takes, and what follows could not continue it. -/
theorem spells_of_scan? {c : Char} {rest : List Char} {lexeme : Lexeme}
    (h : Lexeme.scan? c rest = some lexeme) :
    Spells lexeme.taken lexeme.kind ∧ ¬InLiteral lexeme.kind ∧
      ∀ d ∈ lexeme.rest.head?, continues lexeme.kind d = false := by
  unfold Lexeme.scan? at h
  split at h
  · rename_i hstart
    cases h
    refine ⟨spells_ofWord ⟨hstart, fun d hd ↦ List.mem_takeWhile_imp hd⟩,
      not_inLiteral_ofWord _, ?_⟩
    intro d hd
    rw [Lexeme.word, continues_ofWord]
    exact head?_dropWhile_run isWordPart rest d hd
  split at h
  · rename_i hdigit
    cases h
    refine ⟨.number (List.cons_ne_nil _ _) ?_, by simp [InLiteral, Lexeme.number],
      head?_dropWhile_run Char.isDigit rest⟩
    exact List.forall_mem_cons.2 ⟨hdigit, fun d hd ↦ List.mem_takeWhile_imp hd⟩
  split at h
  · rename_i hsign
    cases h
    subst hsign
    refine ⟨.comment ?_, by simp [InLiteral, Lexeme.comment],
      head?_dropWhile_run (· != '\n') rest⟩
    intro hline
    simpa using List.mem_takeWhile_imp hline
  · exact spells_of_symbol? h

/-- Every spelling outside a literal is scanned whole. -/
theorem scan?_of_spells {c : Char} {more rest : List Char} {kind : TokenKind}
    (h : Spells (c :: more) kind) (hkind : ¬InLiteral kind)
    (hrest : ∀ d ∈ rest.head?, continues kind d = false) :
    Lexeme.scan? c (more ++ rest) = some ⟨kind, c :: more, rest⟩ := by
  generalize hslice : c :: more = slice at h
  cases h with
  | @fixed _ text hfixed =>
    cases hword : kind.isKeyword with
    | false => exact scan?_symbol hfixed hword (fun hquote ↦ hkind (.inl hquote)) hslice.symm hrest
    | true =>
      cases kind with
      | keyword reserved =>
        cases hfixed
        have hshape := isWord_keyword reserved
        rw [← hslice] at hshape
        rw [scan?_word hshape hrest, hslice, ofWord_keyword]
      | _ => cases hword
  | alpha hword hdigit hfree =>
    subst hslice
    have hnone : ¬(c :: more).any Char.isDigit = true := by simpa using hdigit
    rw [scan?_word hword hrest, ofWord_of_free hfree, if_neg hnone]
  | alphaNum hword hdigit =>
    subst hslice
    rw [scan?_word hword hrest, ofWord_of_free (free_of_isDigit hdigit),
      if_pos (List.any_eq_true.2 hdigit)]
  | number _ hdigit =>
    subst hslice
    exact scan?_number hdigit hrest
  | comment hline =>
    cases hslice
    exact scan?_comment hline hrest
  | content _ => exact absurd (.inr ⟨_, rfl⟩) hkind

/-! ## String literals -/

theorem escape_unescape (c : Char) : Escape c (StringBody.unescape c) := by
  unfold StringBody.unescape
  split
  · exact .quote
  · exact .backslash
  · exact .newline
  · exact .tab
  · rename_i hquote hslash hnewline htab
    exact .unknown (by simpa using ⟨hquote, hslash, hnewline, htab⟩)

theorem Escape.unescape_eq {c : Char} {denoted : List Char} (h : Escape c denoted) :
    StringBody.unescape c = denoted := by
  cases h with
  | quote | backslash | newline | tab => rfl
  | unknown h =>
    simp only [List.mem_cons, List.not_mem_nil, or_false, not_or] at h
    obtain ⟨hquote, hslash, hnewline, htab⟩ := h
    rw [StringBody.unescape] <;> assumption

theorem unescapes_of_scan? {text : List Char} {body : StringBody}
    (h : StringBody.scan? text = some body) : Unescapes body.written body.text := by
  fun_induction StringBody.scan? text generalizing body with
  | case1 | case2 | case4 | case6 => cases h
  | case3 =>
    cases h
    exact .nil
  | case5 c rest inner hinner ih =>
    cases h
    exact .escape (escape_unescape c) (ih hinner)
  | case7 c rest hdangling hquote hescape inner hinner ih =>
    cases h
    exact .plain hquote (StringBody.ne_backslash hdangling hescape) (ih hinner)

theorem scan?_of_unescapes {written text : List Char} (h : Unescapes written text)
    (rest : List Char) : StringBody.scan? (written ++ '"' :: rest) = some ⟨text, written, rest⟩ := by
  induction h with
  | nil => rfl
  | escape hescape hrest ih => simp [StringBody.scan?, ih, hescape.unescape_eq]
  | plain hquote hslash hrest ih => simp [StringBody.scan?, ih, hslash]

/-! ## Whole texts -/

theorem map_eq_ok_iff {α β ε : Type} {f : α → β} {result : Except ε α} {value : β} :
    result.map f = .ok value ↔ ∃ found, result = .ok found ∧ f found = value := by
  cases result <;> simp [Except.map]

/-- A token is put in front of a tiling of what follows it. -/
theorem tiles_spanOf_iff {before taken rest : List Char} {kind : TokenKind}
    {others : List Token} :
    Tiles (before ++ (taken ++ rest)) before.length (⟨kind, spanOf before taken⟩ :: others) ↔
      Spells taken kind ∧ (∀ c ∈ rest.head?, continues kind c = false) ∧
        Tiles ((before ++ taken) ++ rest) (before ++ taken).length others := by
  have hstep := @tiles_cons_iff (before ++ (taken ++ rest)) ⟨kind, spanOf before taken⟩ others
  rw [start_spanOf, stop_spanOf, fits_spanOf_iff] at hstep
  rw [hstep, and_assoc, List.append_assoc, List.length_append]

theorem Tiles.exists_spelled {before text : List Char} {token : Token} {others : List Token}
    (h : Tiles (before ++ text) before.length (token :: others))
    (hstart : token.span.start = before.length) :
    ∃ kind taken rest, text = taken ++ rest ∧ token = ⟨kind, spanOf before taken⟩ ∧
      Spells taken kind ∧ (∀ c ∈ rest.head?, continues kind c = false) ∧
        Tiles ((before ++ taken) ++ rest) (before ++ taken).length others := by
  obtain ⟨taken, rest, rfl, hspan⟩ := (h.fits token List.mem_cons_self).exists_taken hstart
  obtain ⟨kind, span⟩ := token
  cases hspan
  exact ⟨kind, taken, rest, rfl, rfl, tiles_spanOf_iff.1 h⟩

theorem tokens_eq_spanOf (body : StringBody) (before : List Char) :
    body.tokens (Position.origin.after before) =
      [⟨.quote, spanOf before ['"']⟩,
        ⟨.content (String.ofList body.text), spanOf (before ++ ['"']) body.written⟩,
        ⟨.quote, spanOf (before ++ ['"'] ++ body.written) ['"']⟩] := by
  simp [StringBody.tokens, spanOf, Position.after_append]

theorem spells_quote_iff {slice : List Char} : Spells slice .quote ↔ slice = ['"'] := by
  constructor
  · intro h
    cases h with
    | fixed hfixed =>
      cases hfixed
      rfl
  · rintro rfl
    exact .of_fixedText rfl

theorem spells_content_iff {slice : List Char} {text : String} :
    Spells slice (.content text) ↔ ∃ denoted, Unescapes slice denoted ∧
      text = String.ofList denoted := by
  constructor
  · intro h
    cases h with
    | fixed hfixed => cases hfixed
    | content hbody => exact ⟨_, hbody, rfl⟩
  · rintro ⟨denoted, hbody, rfl⟩
    exact .content hbody

/-- The literal at the front of a tiling is the one that is read there. -/
theorem tiles_literal_iff {before rest : List Char} {tokens : List Token} :
    Grouped tokens ∧ Tiles (before ++ '"' :: rest) before.length tokens ↔
      ∃ body others, StringBody.scan? rest = some body ∧
        tokens = body.tokens (Position.origin.after before) ++ others ∧ Grouped others ∧
        Tiles ((before ++ ['"'] ++ body.written ++ ['"']) ++ body.rest)
          (before ++ ['"'] ++ body.written ++ ['"']).length others := by
  constructor
  · rintro ⟨hgrouped, htiles⟩
    obtain ⟨token, others, rfl, hstart⟩ := htiles.exists_first hgrouped (by decide)
    cases hgrouped with
    | single hkind hrest =>
      obtain ⟨kind, taken, tail, htext, rfl, hspelled, -, -⟩ := htiles.exists_spelled hstart
      refine absurd ?_ hkind
      cases taken with
      | nil => exact .inr hspelled.content_of_nil
      | cons d more =>
        cases htext
        exact .inl (hspelled.eq_quote fun text hcontent ↦ hkind (.inr ⟨text, hcontent⟩))
    | @literal opening content closing text others hopening hclosing hrest =>
      obtain ⟨_, taken, tail, htext, hfirst, hspelled, -, hinside⟩ := htiles.exists_spelled hstart
      cases hfirst
      obtain rfl := spells_quote_iff.1 hspelled
      obtain rfl : rest = tail := List.cons.inj htext |>.2
      rw [stop_spanOf, ← List.length_append] at hopening
      obtain ⟨_, written, tail, rfl, hsecond, hspelled, -, hclose⟩ :=
        hinside.exists_spelled hopening.symm
      cases hsecond
      obtain ⟨denoted, hbody, rfl⟩ := spells_content_iff.1 hspelled
      rw [stop_spanOf, ← List.length_append] at hclosing
      obtain ⟨_, taken, tail, rfl, hthird, hspelled, -, hothers⟩ :=
        hclose.exists_spelled hclosing.symm
      cases hthird
      obtain rfl := spells_quote_iff.1 hspelled
      refine ⟨⟨denoted, written, tail⟩, others, scan?_of_unescapes hbody tail, ?_, hrest, hothers⟩
      rw [tokens_eq_spanOf]
      rfl
  · rintro ⟨body, others, hscan, rfl, hgrouped, htiles⟩
    rw [tokens_eq_spanOf, ← StringBody.written_append_rest hscan]
    have hclosing : (spanOf (before ++ ['"']) body.written).stop =
        (spanOf (before ++ ['"'] ++ body.written) ['"']).start := by
      simp only [stop_spanOf, start_spanOf, List.length_append]
    refine ⟨.literal (by simp) hclosing hgrouped, ?_⟩
    refine tiles_spanOf_iff.2 ⟨spells_quote_iff.2 rfl, fun _ _ ↦ rfl, ?_⟩
    refine tiles_spanOf_iff.2 ⟨.content (unescapes_of_scan? hscan), fun _ _ ↦ rfl, ?_⟩
    exact tiles_spanOf_iff.2 ⟨spells_quote_iff.2 rfl, fun _ _ ↦ rfl, htiles⟩

/-- A token outside a literal at the front of a tiling is the lexeme that is scanned there. -/
theorem tiles_lexeme_iff {before rest : List Char} {c : Char} {tokens : List Token}
    (hblank : Text.isBlank c = false) (hquote : c ≠ '"') :
    Grouped tokens ∧ Tiles (before ++ c :: rest) before.length tokens ↔
      ∃ lexeme others, Lexeme.scan? c rest = some lexeme ∧
        tokens = ⟨lexeme.kind, spanOf before lexeme.taken⟩ :: others ∧ Grouped others ∧
        Tiles ((before ++ lexeme.taken) ++ lexeme.rest) (before ++ lexeme.taken).length others := by
  constructor
  · rintro ⟨hgrouped, htiles⟩
    obtain ⟨token, others, rfl, hstart⟩ := htiles.exists_first hgrouped hblank
    obtain ⟨kind, taken, tail, htext, rfl, hspelled, hlongest, hothers⟩ :=
      htiles.exists_spelled hstart
    cases taken with
    | nil =>
      obtain ⟨text, hcontent⟩ := hspelled.content_of_nil
      exact absurd hcontent (hgrouped.kind_ne_content text)
    | cons d more =>
      obtain ⟨rfl, rfl⟩ := List.cons.inj htext
      cases hgrouped with
      | single hkind hrest =>
        exact ⟨⟨kind, c :: more, tail⟩, others, scan?_of_spells hspelled hkind hlongest, rfl,
          hrest, hothers⟩
      | literal _ _ _ =>
        obtain ⟨rfl, -⟩ := List.cons.inj (spells_quote_iff.1 hspelled)
        exact absurd rfl hquote
  · rintro ⟨lexeme, others, hscan, rfl, hgrouped, htiles⟩
    obtain ⟨hspelled, hkind, hlongest⟩ := spells_of_scan? hscan
    rw [← Lexeme.taken_append_rest hscan]
    exact ⟨.single hkind hgrouped, tiles_spanOf_iff.2 ⟨hspelled, hlongest, htiles⟩⟩

/-- Reading on from any point gives the tiling of what is left. -/
theorem tokenize_eq_ok_iff (before text : List Char) (tokens : List Token) :
    tokenize (Position.origin.after before) text = .ok tokens ↔
      Grouped tokens ∧ Tiles (before ++ text) before.length tokens := by
  induction hlength : text.length using Nat.strongRecOn generalizing before text tokens with
  | ind length ih =>
    cases text with
    | nil =>
      rw [tokenize_nil, List.append_nil]
      constructor
      · rintro ⟨⟩
        exact ⟨.nil, (tiles_end_iff .nil).2 rfl⟩
      · rintro ⟨hgrouped, htiles⟩
        rw [(tiles_end_iff hgrouped).1 htiles]
    | cons c rest =>
      rw [List.length_cons] at hlength
      by_cases hblank : Text.isBlank c = true
      · have hnext := ih rest.length (by omega) (before ++ [c]) rest tokens rfl
        rw [Position.after_append, List.append_assoc, List.length_append] at hnext
        rw [tokenize_blank _ _ hblank]
        refine hnext.trans (and_congr_right fun hgrouped ↦ ?_)
        exact (tiles_blank_iff hgrouped hblank).symm
      by_cases hquote : c = '"'
      · subst hquote
        rw [tokenize_quote, tiles_literal_iff]
        cases hscan : StringBody.scan? rest with
        | none => simp
        | some body =>
          have hshorter := StringBody.length_rest_lt hscan
          have hothers := fun others ↦ ih body.rest.length (by omega)
            (before ++ ['"'] ++ body.written ++ ['"']) body.rest others rfl
          simp only [Position.after_append] at hothers
          constructor
          · intro h
            obtain ⟨others, hread, rfl⟩ := map_eq_ok_iff.1 h
            exact ⟨body, others, rfl, rfl, (hothers others).1 hread⟩
          · rintro ⟨_, others, ⟨⟩, rfl, htiles⟩
            exact map_eq_ok_iff.2 ⟨others, (hothers others).2 htiles, rfl⟩
      · rw [tokenize_lexeme _ _ (by simpa using hblank) hquote,
          tiles_lexeme_iff (by simpa using hblank) hquote]
        cases hscan : Lexeme.scan? c rest with
        | none => simp
        | some lexeme =>
          have hshorter := Lexeme.length_rest_le hscan
          have hothers := fun others ↦ ih lexeme.rest.length (by omega) (before ++ lexeme.taken)
            lexeme.rest others rfl
          simp only [Position.after_append] at hothers
          have hspan : spanOf before lexeme.taken = (Position.origin.after before).upTo
              ((Position.origin.after before).after lexeme.taken) := by
            rw [spanOf, Position.after_append]
          constructor
          · intro h
            obtain ⟨others, hread, rfl⟩ := map_eq_ok_iff.1 h
            exact ⟨lexeme, others, rfl, by rw [hspan], (hothers others).1 hread⟩
          · rintro ⟨_, others, ⟨⟩, rfl, htiles⟩
            exact map_eq_ok_iff.2 ⟨others, (hothers others).2 htiles, by rw [hspan]⟩

/-- Reading a source gives the tokens that tile it and nothing else. -/
theorem lex_eq_ok_iff_tiles (source : String) (tokens : List Token) :
    lex source = .ok tokens ↔ Grouped tokens ∧ Tiles source.toList 0 tokens :=
  tokenize_eq_ok_iff [] source.toList tokens

end Scriptlet.Tiling
