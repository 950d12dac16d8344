import Scriptlet.Proofs.Tiling.Lexer

/-!
# Reading as a relation

How a text is read token by token, as a relation with one rule for each step. By induction on it, two
texts in a row are read one after the other unless the second goes on with the last token of the
first. A newline goes on with none, so that it keeps any two texts apart.
-/

namespace Scriptlet.Tiling

/-- How reading a text goes on token by token. -/
inductive Lexed : Position → List Char → List Token → Prop
  | nil (position : Position) : Lexed position [] []
  | blank {position : Position} {c : Char} {rest : List Char} {tokens : List Token}
      (hblank : Text.isBlank c = true) (hrest : Lexed (position.next c) rest tokens) :
      Lexed position (c :: rest) tokens
  | literal {position : Position} {rest : List Char} {body : StringBody} {tokens : List Token}
      (hbody : StringBody.scan? rest = some body)
      (hrest : Lexed (((position.next '"').after body.written).next '"') body.rest tokens) :
      Lexed position ('"' :: rest) (body.tokens position ++ tokens)
  | lexeme {position : Position} {c : Char} {rest : List Char} {lexeme : Lexeme}
      {tokens : List Token} (hblank : Text.isBlank c = false) (hquote : c ≠ '"')
      (hlexeme : Lexeme.scan? c rest = some lexeme)
      (hrest : Lexed (position.after lexeme.taken) lexeme.rest tokens) :
      Lexed position (c :: rest)
        (⟨lexeme.kind, position.upTo (position.after lexeme.taken)⟩ :: tokens)

theorem Lexed.of_tokenize {position : Position} {text : List Char} {tokens : List Token}
    (h : tokenize position text = .ok tokens) : Lexed position text tokens := by
  induction hlength : text.length using Nat.strongRecOn generalizing position text tokens with
  | ind length ih =>
    cases text with
    | nil =>
      rw [tokenize_nil] at h
      cases h
      exact .nil position
    | cons c rest =>
      rw [List.length_cons] at hlength
      by_cases hblank : Text.isBlank c = true
      · rw [tokenize_blank _ _ hblank] at h
        exact .blank hblank (ih rest.length (by omega) h rfl)
      rw [Bool.not_eq_true] at hblank
      by_cases hquote : c = '"'
      · subst hquote
        rw [tokenize_quote] at h
        cases hbody : StringBody.scan? rest with
        | none =>
          rw [hbody] at h
          cases h
        | some body =>
          rw [hbody] at h
          obtain ⟨others, hothers, rfl⟩ := map_eq_ok_iff.1 h
          have hshorter := StringBody.length_rest_lt hbody
          exact .literal hbody (ih body.rest.length (by omega) hothers rfl)
      · rw [tokenize_lexeme _ _ hblank hquote] at h
        cases hlexeme : Lexeme.scan? c rest with
        | none =>
          rw [hlexeme] at h
          cases h
        | some lexeme =>
          rw [hlexeme] at h
          obtain ⟨others, hothers, rfl⟩ := map_eq_ok_iff.1 h
          have hshorter := Lexeme.length_rest_le hlexeme
          exact .lexeme hblank hquote hlexeme (ih lexeme.rest.length (by omega) hothers rfl)

theorem Lexed.tokenize {position : Position} {text : List Char} {tokens : List Token}
    (h : Lexed position text tokens) : tokenize position text = .ok tokens := by
  induction h with
  | nil position => exact tokenize_nil position
  | blank hblank _ ih => rw [tokenize_blank _ _ hblank, ih]
  | literal hbody _ ih =>
    rw [tokenize_quote, hbody]
    exact map_eq_ok_iff.2 ⟨_, ih, rfl⟩
  | lexeme hblank hquote hlexeme _ ih =>
    rw [tokenize_lexeme _ _ hblank hquote, hlexeme]
    exact map_eq_ok_iff.2 ⟨_, ih, rfl⟩

/-! ## Texts in a row -/

theorem exists_more_of_scan? {c : Char} {rest : List Char} {lexeme : Lexeme}
    (h : Lexeme.scan? c rest = some lexeme) :
    ∃ more, lexeme.taken = c :: more ∧ rest = more ++ lexeme.rest := by
  have htext := Lexeme.taken_append_rest h
  cases htaken : lexeme.taken with
  | nil => exact absurd htaken (Lexeme.taken_ne_nil h)
  | cons d more =>
    rw [htaken, List.cons_append] at htext
    obtain ⟨rfl, rfl⟩ := List.cons.inj htext
    exact ⟨more, rfl, rfl⟩

/-- A lexeme is read whole in front of any text that does not go on with it. -/
theorem tokenize_taken {position : Position} {c : Char} {rest other : List Char} {lexeme : Lexeme}
    (hblank : Text.isBlank c = false) (hquote : c ≠ '"') (h : Lexeme.scan? c rest = some lexeme)
    (hother : ∀ d ∈ other.head?, continues lexeme.kind d = false) :
    tokenize position (lexeme.taken ++ other) =
      (tokenize (position.after lexeme.taken) other).map
        (⟨lexeme.kind, position.upTo (position.after lexeme.taken)⟩ :: ·) := by
  obtain ⟨hspelled, hkind, -⟩ := spells_of_scan? h
  obtain ⟨more, htaken, -⟩ := exists_more_of_scan? h
  rw [htaken] at hspelled ⊢
  rw [List.cons_append, tokenize_lexeme _ _ hblank hquote, scan?_of_spells hspelled hkind hother]

/-- A literal is read whole in front of any text. -/
theorem tokenize_written {position : Position} {written text : List Char}
    (h : Unescapes written text) (other : List Char) :
    tokenize position ('"' :: (written ++ '"' :: other)) =
      (tokenize (((position.next '"').after written).next '"') other).map
        (StringBody.tokens ⟨text, written, other⟩ position ++ ·) := by
  rw [tokenize_quote, scan?_of_unescapes h]

theorem after_literal (position : Position) {rest : List Char} {body : StringBody}
    (h : StringBody.scan? rest = some body) :
    position.after ('"' :: rest) =
      (((position.next '"').after body.written).next '"').after body.rest := by
  rw [← StringBody.written_append_rest h, Position.after_cons, Position.after_append,
    Position.after_cons]

theorem after_lexeme (position : Position) {c : Char} {rest : List Char} {lexeme : Lexeme}
    (h : Lexeme.scan? c rest = some lexeme) :
    position.after (c :: rest) = (position.after lexeme.taken).after lexeme.rest := by
  rw [← Lexeme.taken_append_rest h, Position.after_append]

theorem map_append_map (first others : List Token) (result : Except Error (List Token)) :
    (result.map (others ++ ·)).map (first ++ ·) = result.map (first ++ others ++ ·) := by
  cases result <;> simp [Except.map]

/-- Two texts in a row are read one after the other, if the second does not go on with a token that
ends where the first does. -/
theorem tokenize_append {position : Position} {text tail : List Char} {tokens : List Token}
    (h : Lexed position text tokens)
    (htail : ∀ token ∈ tokens, token.span.stop = (position.after text).offset →
      ∀ c ∈ tail.head?, continues token.kind c = false) :
    tokenize position (text ++ tail) =
      (tokenize (position.after text) tail).map (tokens ++ ·) := by
  induction h with
  | nil position => cases htokens : tokenize position tail <;> simp [htokens, Except.map]
  | blank hblank _ ih =>
    rw [List.cons_append, tokenize_blank _ _ hblank]
    exact ih htail
  | @literal position rest body tokens hbody _ ih =>
    rw [after_literal _ hbody] at htail ⊢
    have hothers := ih fun token hmem ↦ htail token (List.mem_append_right _ hmem)
    calc
      tokenize position ('"' :: rest ++ tail) =
          tokenize position ('"' :: (body.written ++ '"' :: (body.rest ++ tail))) := by
        rw [← StringBody.written_append_rest hbody]
        simp
      _ = (tokenize (((position.next '"').after body.written).next '"')
            (body.rest ++ tail)).map (body.tokens position ++ ·) :=
        tokenize_written (unescapes_of_scan? hbody) _
      _ = _ := by rw [hothers, map_append_map]
  | @lexeme position c rest lexeme tokens hblank hquote hlexeme _ ih =>
    rw [after_lexeme _ hlexeme] at htail ⊢
    have hothers := ih fun token hmem ↦ htail token (List.mem_cons_of_mem _ hmem)
    have hbehind : ∀ d ∈ (lexeme.rest ++ tail).head?, continues lexeme.kind d = false := by
      cases hrest : lexeme.rest with
      | cons e others =>
        have hlongest := (spells_of_scan? hlexeme).2.2
        rwa [hrest] at hlongest
      | nil =>
        rw [hrest] at htail
        exact htail _ List.mem_cons_self rfl
    calc
      tokenize position (c :: rest ++ tail) =
          tokenize position (lexeme.taken ++ (lexeme.rest ++ tail)) := by
        rw [← Lexeme.taken_append_rest hlexeme, List.append_assoc]
      _ = (tokenize (position.after lexeme.taken) (lexeme.rest ++ tail)).map
            (⟨lexeme.kind, position.upTo (position.after lexeme.taken)⟩ :: ·) :=
        tokenize_taken hblank hquote hlexeme hbehind
      _ = _ := by
        rw [hothers]
        exact map_append_map [_] tokens _

/-- No token goes on past a newline, unless it is inside a literal. -/
theorem continues_newline (kind : TokenKind) : continues kind '\n' = false := by
  cases kind <;> rfl

/-- A newline between two texts keeps their tokens apart. -/
theorem Lexed.append_newline {position : Position} {text tail : List Char}
    {tokens others : List Token} (h : Lexed position text tokens)
    (htail : Lexed ((position.after text).next '\n') tail others) :
    Lexed position (text ++ '\n' :: tail) (tokens ++ others) := by
  apply Lexed.of_tokenize
  rw [tokenize_append h, tokenize_blank _ _ (by decide), htail.tokenize]
  · rfl
  · rintro token - - _ ⟨⟩
    exact continues_newline token.kind

end Scriptlet.Tiling
