import Scriptlet.Proofs.Consistency.Refusal

/-!
# Where readers stop

A reader tracks a language if it stops no earlier and no later than the language asks. What it has
taken is derived, or can be gone on with to something derived if the reader refuses what comes
next. And it has looked no further than the token in front of which it stopped: with the same
tokens up to that one it stops there in the same way, whatever comes behind.

The second part compares a reading with others, of longer or shorter inputs, that have other
budgets and other ends. All of them are the same reader in different settings. What is left for a
second reader after a first one is the rest of a language, after the kinds that the first has taken.
-/

namespace Scriptlet

/-- The error refuses the first of the tokens, or the end of the input if there is none. -/
def Error.Refuses (error : Error) (ending : Span) : List Token → Prop
  | token :: _ => error.Reports token
  | [] => (∃ expected, error = .unexpectedEndOfInput expected) ∨
      ∃ expected, error = .expectedToken expected "end of input" ending

namespace Viable

open Scriptlet.Parser

/-- What a reader is given besides the tokens: where they end, and how far it may go. -/
structure Setting where
  ending : Span
  budget : Nat

/-- The same with one less to go. -/
def Setting.less (setting : Setting) : Setting := ⟨setting.ending, setting.budget - 1⟩

theorem Setting.budget_less (setting : Setting) : setting.less.budget = setting.budget - 1 := rfl

theorem Setting.budget_less_of_succ {setting : Setting} {budget : Nat}
    (h : setting.budget = budget + 1) : setting.less.budget = budget := by
  rw [budget_less, h, Nat.add_sub_cancel]

/-- The two inputs have the same token in front. -/
def SameFront (rest tail : List Token) : Prop :=
  ∃ token others more, rest = token :: others ∧ tail = token :: more

theorem SameFront.append {rest tail : List Token} (h : SameFront rest tail) (used : List Token) :
    SameFront (used ++ rest) (used ++ tail) := by
  cases used with
  | nil => exact h
  | cons token others => exact ⟨token, _, _, rfl, rfl⟩

theorem sameFront_cons_iff {token : Token} {others tail : List Token} :
    SameFront (token :: others) tail ↔ ∃ more, tail = token :: more := by
  constructor
  · rintro ⟨_, _, more, ⟨⟩, rfl⟩
    exact ⟨more, rfl⟩
  · rintro ⟨more, rfl⟩
    exact ⟨token, others, more, rfl, rfl⟩

theorem not_sameFront_nil {tail : List Token} : ¬SameFront [] tail := by
  rintro ⟨_, _, _, ⟨⟩, _⟩

theorem SameFront.apart {continues : TokenKind → Prop} {rest tail : List Token}
    (h : SameFront rest tail) (hrest : Grammar.Apart continues rest) :
    Grammar.Apart continues tail := by
  obtain ⟨token, _, _, rfl, rfl⟩ := h
  exact Grammar.apart_cons.2 (Grammar.apart_cons.1 hrest)

variable {α β : Type}

section Tracks

variable (room : Setting → Nat) (readers : Setting → Reader α)
  (Derives : List TokenKind → α → Prop)

/-- The language has something that starts with the kinds of these tokens. -/
def Extendable (Derives : List TokenKind → α → Prop) (used : List Token) : Prop :=
  ∃ more value, Derives (used.map Token.kind ++ more) value

/-- A reading that succeeded: the reader took something derived, and takes it in every setting that
has room for it, as long as the next token is the same. -/
def Takes (tokens : List Token) (value : α) (rest : List Token) : Prop :=
  ∃ used, tokens = used ++ rest ∧ Derives (used.map Token.kind) value ∧
    ∀ other tail, SameFront rest tail → (used ++ tail).length ≤ room other →
      readers other (used ++ tail) = .ok (value, tail)

/-- A reading that failed: the error refuses a token behind some that can be extended, or the end
of the input, and no setting with room for them accepts these tokens with the refused one. -/
def Stops (ending : Span) (tokens : List Token) (error : Error) : Prop :=
  ∃ used rest, tokens = used ++ rest ∧ error.Refuses ending rest ∧ Extendable Derives used ∧
    ∀ other tail, SameFront rest tail → (used ++ tail).length ≤ room other →
      ∃ refusal, readers other (used ++ tail) = .error refusal

/-- In this setting the reader tracks the language on these tokens. -/
def Tracks (setting : Setting) (tokens : List Token) : Prop :=
  match readers setting tokens with
  | .ok (value, rest) => Takes room readers Derives tokens value rest
  | .error error => Stops room readers Derives setting.ending tokens error

end Tracks

variable {room wide : Setting → Nat} {readers inner : Setting → Reader α}
  {Derives Derived : List TokenKind → α → Prop} {setting : Setting} {tokens : List Token}

theorem tracks_of_ok {value : α} {rest : List Token}
    (hread : readers setting tokens = .ok (value, rest))
    (h : Takes room readers Derives tokens value rest) :
    Tracks room readers Derives setting tokens := by
  unfold Tracks
  rw [hread]
  exact h

theorem tracks_of_error {error : Error} (hread : readers setting tokens = .error error)
    (h : Stops room readers Derives setting.ending tokens error) :
    Tracks room readers Derives setting tokens := by
  unfold Tracks
  rw [hread]
  exact h

theorem Tracks.of_ok (h : Tracks room readers Derives setting tokens) {value : α}
    {rest : List Token} (hread : readers setting tokens = .ok (value, rest)) :
    Takes room readers Derives tokens value rest := by
  unfold Tracks at h
  rwa [hread] at h

theorem Tracks.of_error (h : Tracks room readers Derives setting tokens) {error : Error}
    (hread : readers setting tokens = .error error) :
    Stops room readers Derives setting.ending tokens error := by
  unfold Tracks at h
  rwa [hread] at h

/-- Two cases, one for each way in which a reading ends. -/
theorem tracks_cases (hok : ∀ value rest, readers setting tokens = .ok (value, rest) →
      Takes room readers Derives tokens value rest)
    (herror : ∀ error, readers setting tokens = .error error →
      Stops room readers Derives setting.ending tokens error) :
    Tracks room readers Derives setting tokens := by
  cases hread : readers setting tokens with
  | ok result => exact tracks_of_ok hread (hok result.1 result.2 hread)
  | error error => exact tracks_of_error hread (herror error hread)

/-! ## Another language, other settings, another reader -/

/-- The language may be exchanged as far as it concerns these tokens. -/
theorem Tracks.imp (h : Tracks room readers Derives setting tokens)
    (htaken : ∀ used rest value, tokens = used ++ rest → Derives (used.map Token.kind) value →
      Derived (used.map Token.kind) value)
    (hextendable : ∀ used rest, tokens = used ++ rest → Extendable Derives used →
      Extendable Derived used) :
    Tracks room readers Derived setting tokens := by
  refine tracks_cases (fun value rest hread ↦ ?_) fun error hread ↦ ?_
  · obtain ⟨used, htokens, hderives, hsteady⟩ := h.of_ok hread
    exact ⟨used, htokens, htaken used rest value htokens hderives, hsteady⟩
  · obtain ⟨used, rest, htokens, hrefuses, hused, hsteady⟩ := h.of_error hread
    exact ⟨used, rest, htokens, hrefuses, hextendable used rest htokens hused, hsteady⟩

theorem Tracks.mono (h : Tracks room readers Derives setting tokens)
    (hderives : ∀ kinds value, Derives kinds value → Derived kinds value) :
    Tracks room readers Derived setting tokens :=
  h.imp (fun _ _ _ _ ↦ hderives _ _) fun _ _ _ ⟨more, value, hmore⟩ ↦
    ⟨more, value, hderives _ _ hmore⟩

theorem Tracks.narrow (h : Tracks wide readers Derives setting tokens)
    (hroom : ∀ other, room other ≤ wide other) : Tracks room readers Derives setting tokens := by
  refine tracks_cases (fun value rest hread ↦ ?_) fun error hread ↦ ?_
  · obtain ⟨used, htokens, hderives, hsteady⟩ := h.of_ok hread
    exact ⟨used, htokens, hderives, fun other tail hfront hlength ↦
      hsteady other tail hfront (hlength.trans (hroom other))⟩
  · obtain ⟨used, rest, htokens, hrefuses, hused, hsteady⟩ := h.of_error hread
    exact ⟨used, rest, htokens, hrefuses, hused, fun other tail hfront hlength ↦
      hsteady other tail hfront (hlength.trans (hroom other))⟩

/-- The settings may be looked up elsewhere, for instance with less of a budget. -/
theorem Tracks.comap (change : Setting → Setting)
    (hending : (change setting).ending = setting.ending)
    (h : Tracks room readers Derives (change setting) tokens) :
    Tracks (fun other ↦ room (change other)) (fun other ↦ readers (change other)) Derives setting
      tokens := by
  refine tracks_cases (fun value rest hread ↦ ?_) fun error hread ↦ ?_
  · obtain ⟨used, htokens, hderives, hsteady⟩ := h.of_ok hread
    exact ⟨used, htokens, hderives, fun other ↦ hsteady (change other)⟩
  · obtain ⟨used, rest, htokens, hrefuses, hused, hsteady⟩ := h.of_error hread
    exact ⟨used, rest, htokens, hending ▸ hrefuses, hused, fun other ↦ hsteady (change other)⟩

/-- A reader does as another where its first token decides so. -/
theorem Tracks.congr (h : Tracks room inner Derives setting tokens)
    (hsame : readers setting tokens = inner setting tokens)
    (hfront : ∀ other tail, SameFront tokens tail → tail.length ≤ room other →
      readers other tail = inner other tail) :
    Tracks room readers Derives setting tokens := by
  refine tracks_cases (fun value rest hread ↦ ?_) fun error hread ↦ ?_
  · obtain ⟨used, rfl, hderives, hsteady⟩ := h.of_ok (hsame ▸ hread)
    refine ⟨used, rfl, hderives, fun other tail htail hlength ↦ ?_⟩
    rw [hfront other _ (htail.append used) hlength]
    exact hsteady other tail htail hlength
  · obtain ⟨used, rest, rfl, hrefuses, hused, hsteady⟩ := h.of_error (hsame ▸ hread)
    refine ⟨used, rest, rfl, hrefuses, hused, fun other tail htail hlength ↦ ?_⟩
    rw [hfront other _ (htail.append used) hlength]
    exact hsteady other tail htail hlength

theorem Tracks.congr_cons {token : Token} {rest : List Token}
    (h : Tracks room inner Derives setting (token :: rest))
    (hread : ∀ other tail, readers other (token :: tail) = inner other (token :: tail)) :
    Tracks room readers Derives setting (token :: rest) := by
  refine h.congr (hread setting rest) fun other tail hfront _ ↦ ?_
  obtain ⟨more, rfl⟩ := sameFront_cons_iff.1 hfront
  exact hread other more

/-! ## Readers that take nothing -/

theorem tracks_of_refuses {error : Error} (hread : readers setting tokens = .error error)
    (hrefuses : error.Refuses setting.ending tokens) (hextendable : Extendable Derives [])
    (hfront : ∀ other tail, SameFront tokens tail → tail.length ≤ room other →
      ∃ refusal, readers other tail = .error refusal) :
    Tracks room readers Derives setting tokens :=
  tracks_of_error hread ⟨[], tokens, rfl, hrefuses, hextendable, hfront⟩

theorem tracks_of_leaves {value : α} (hread : readers setting tokens = .ok (value, tokens))
    (hderives : Derives [] value)
    (hfront : ∀ other tail, SameFront tokens tail → tail.length ≤ room other →
      readers other tail = .ok (value, tail)) :
    Tracks room readers Derives setting tokens :=
  tracks_of_ok hread ⟨[], rfl, hderives, hfront⟩

theorem tracks_pure {value : α} (h : Derives [] value) :
    Tracks room (fun _ tokens ↦ .ok (value, tokens)) Derives setting tokens :=
  tracks_of_leaves rfl h fun _ _ _ _ ↦ rfl

/-! ## One token and then another reader -/

/-- A reader that has taken one token goes on as another, and may look at the next token to decide
so. -/
theorem Tracks.cons {token : Token} {rest : List Token}
    (h : Tracks wide inner (fun kinds value ↦ Derives (token.kind :: kinds) value) setting rest)
    (hroom : ∀ other, room other ≤ wide other + 1)
    (hsame : readers setting (token :: rest) = inner setting rest)
    (hfront : ∀ other tail, SameFront rest tail → tail.length < room other →
      readers other (token :: tail) = inner other tail) :
    Tracks room readers Derives setting (token :: rest) := by
  have hlonger : ∀ other (used tail : List Token),
      ((token :: used) ++ tail).length ≤ room other →
        (used ++ tail).length < room other ∧ (used ++ tail).length ≤ wide other := by
    intro other used tail hlength
    have hother := hroom other
    rw [List.cons_append, List.length_cons] at hlength
    omega
  refine tracks_cases (fun value left hread ↦ ?_) fun error hread ↦ ?_
  · obtain ⟨used, rfl, hderives, hsteady⟩ := h.of_ok (hsame ▸ hread)
    refine ⟨token :: used, rfl, hderives, fun other tail htail hlength ↦ ?_⟩
    obtain ⟨hlt, hle⟩ := hlonger other used tail hlength
    rw [List.cons_append, hfront other _ (htail.append used) hlt]
    exact hsteady other tail htail hle
  · obtain ⟨used, left, rfl, hrefuses, hused, hsteady⟩ := h.of_error (hsame ▸ hread)
    refine ⟨token :: used, left, rfl, hrefuses, hused, fun other tail htail hlength ↦ ?_⟩
    obtain ⟨hlt, hle⟩ := hlonger other used tail hlength
    rw [List.cons_append, hfront other _ (htail.append used) hlt]
    exact hsteady other tail htail hle

/-- A reader that takes one token of this kind, whatever stands behind it. -/
theorem tracks_token {token : Token} {rest : List Token} {value : α}
    (hread : ∀ other tail, readers other (token :: tail) = .ok (value, tail))
    (hderives : Derives [token.kind] value) :
    Tracks room readers Derives setting (token :: rest) := by
  have hrest : Tracks room (fun _ tokens ↦ .ok (value, tokens))
      (fun kinds value ↦ Derives (token.kind :: kinds) value) setting rest := tracks_pure hderives
  exact hrest.cons (fun _ ↦ Nat.le_succ _) (hread setting rest)
    fun other tail _ _ ↦ hread other tail

theorem refuses_mismatch (ending : Span) (expected : String) (tokens : List Token) :
    (mismatch ending expected tokens).Refuses ending tokens := by
  cases tokens with
  | nil => exact .inr ⟨expected, rfl⟩
  | cons token rest => exact .inr ⟨expected, rfl⟩

/-- A reader that misses something unless a token of certain kinds stands in front. -/
theorem tracks_mismatch {continues : TokenKind → Prop} (expected : String)
    (hread : ∀ other tail, Grammar.Apart continues tail →
      readers other tail = .error (mismatch other.ending expected tail))
    (h : Grammar.Apart continues tokens) (hextendable : Extendable Derives []) :
    Tracks room readers Derives setting tokens :=
  tracks_of_refuses (hread setting tokens h) (refuses_mismatch _ _ _) hextendable
    fun other tail hfront _ ↦ ⟨_, hread other tail (hfront.apart h)⟩

/-- A reader that no token of this kind can be the first for. -/
theorem tracks_unexpected {token : Token} {rest : List Token}
    (hread : ∀ other tail, readers other (token :: tail) =
      .error (.unexpectedToken token.kind.describe token.span))
    (hextendable : Extendable Derives []) :
    Tracks room readers Derives setting (token :: rest) := by
  refine tracks_of_refuses (hread setting rest) (.inl rfl) hextendable fun other tail hfront _ ↦ ?_
  obtain ⟨more, rfl⟩ := sameFront_cons_iff.1 hfront
  exact ⟨_, hread other more⟩

theorem expect_eq_error {ending : Span} {kind : TokenKind} {tokens : List Token}
    (h : Grammar.Apart (· = kind) tokens) :
    expect ending kind tokens = .error (mismatch ending kind.describe tokens) := by
  cases tokens with
  | nil => rfl
  | cons token rest => rw [expect, if_neg (Grammar.apart_cons.1 h)]

/-- A token that has to be there, and then another reader. -/
theorem tracks_expect {kind : TokenKind}
    {next : Setting → List Token → Except Error (α × List Token)}
    (hroom : ∀ other, room other ≤ wide other + 1)
    (hextendable : ∃ more value, Derives (kind :: more) value)
    (hnext : ∀ rest, rest.length < tokens.length →
      Tracks wide next (fun kinds value ↦ Derives (kind :: kinds) value) setting rest) :
    Tracks room (fun setting tokens ↦ expect setting.ending kind tokens >>= next setting) Derives
      setting tokens := by
  by_cases hkind : Grammar.Apart (· = kind) tokens
  · obtain ⟨more, value, hmore⟩ := hextendable
    refine tracks_mismatch kind.describe (fun other tail htail ↦ ?_) hkind
      ⟨kind :: more, value, hmore⟩
    rw [expect_eq_error htail]
    rfl
  · obtain ⟨⟨_, span⟩, rest, rfl, rfl⟩ := Grammar.exists_cons_of_not_apart hkind
    refine (hnext rest (Nat.lt_succ_self _)).cons hroom ?_ fun other tail _ _ ↦ ?_
    · dsimp only
      rw [Grammar.expect_cons]
      rfl
    · dsimp only
      rw [Grammar.expect_cons]
      rfl

/-! ## One reader after another -/

/-- The second reader tracks what is left of the language after the kinds that the first one has
taken. -/
theorem Tracks.bind {first : Setting → Reader β} {Front : List TokenKind → β → Prop}
    {next : Setting → β × List Token → Except Error (α × List Token)}
    (h : Tracks room first Front setting tokens) (wide : Setting → Nat)
    (hextendable : ∀ kinds value, Front kinds value → ∃ more result, Derives (kinds ++ more) result)
    (hroom : ∀ (used : List Token) value, Front (used.map Token.kind) value →
      ∀ other (tail : List Token), (used ++ tail).length ≤ room other → tail.length ≤ wide other)
    (hnext : ∀ used value rest, tokens = used ++ rest → Front (used.map Token.kind) value →
      first setting tokens = .ok (value, rest) →
        Tracks wide (fun setting rest ↦ next setting (value, rest))
          (fun kinds result ↦ Derives (used.map Token.kind ++ kinds) result) setting rest) :
    Tracks room (fun setting tokens ↦ first setting tokens >>= next setting) Derives setting
      tokens := by
  cases hfirst : first setting tokens with
  | error error =>
    obtain ⟨used, rest, htokens, hrefuses, ⟨more, value, hmore⟩, hsteady⟩ := h.of_error hfirst
    refine tracks_of_error (by rw [hfirst]; rfl) ⟨used, rest, htokens, hrefuses, ?_, ?_⟩
    · obtain ⟨others, result, hothers⟩ := hextendable _ _ hmore
      exact ⟨more ++ others, result, by rwa [← List.append_assoc]⟩
    · intro other tail hfront hlength
      obtain ⟨refusal, hrefusal⟩ := hsteady other tail hfront hlength
      dsimp only
      exact ⟨refusal, by rw [hrefusal]; rfl⟩
  | ok result =>
    obtain ⟨value, rest⟩ := result
    obtain ⟨used, rfl, hderives, hsteady⟩ := h.of_ok hfirst
    have hsecond := hnext used value rest rfl hderives hfirst
    -- Another reading gets as far as this one and goes on with the second reader there.
    have hreach : ∀ other (more left tail : List Token), rest = more ++ left →
        SameFront left tail → ((used ++ more) ++ tail).length ≤ room other →
          (first other ((used ++ more) ++ tail) >>= next other) = next other (value, more ++ tail) ∧
            (more ++ tail).length ≤ wide other := by
      rintro other more left tail rfl hfront hlength
      rw [List.append_assoc] at hlength ⊢
      rw [hsteady other _ (hfront.append more) hlength]
      exact ⟨rfl, hroom used value hderives other _ hlength⟩
    cases hlast : next setting (value, rest) with
    | ok result =>
      obtain ⟨last, left⟩ := result
      obtain ⟨more, rfl, hmore, hsteady'⟩ := hsecond.of_ok hlast
      refine tracks_of_ok (by rw [hfirst]; exact hlast) ⟨used ++ more, ?_, ?_, ?_⟩
      · rw [List.append_assoc]
      · rwa [List.map_append]
      · intro other tail hfront hlength
        obtain ⟨hother, hlength⟩ := hreach other more left tail rfl hfront hlength
        exact hother.trans (hsteady' other tail hfront hlength)
    | error error =>
      obtain ⟨more, left, rfl, hrefuses, ⟨others, result, hothers⟩, hsteady'⟩ :=
        hsecond.of_error hlast
      refine tracks_of_error (by rw [hfirst]; exact hlast)
        ⟨used ++ more, left, ?_, hrefuses, ?_, ?_⟩
      · rw [List.append_assoc]
      · exact ⟨others, result, by rwa [List.map_append, List.append_assoc]⟩
      · intro other tail hfront hlength
        obtain ⟨hother, hlength⟩ := hreach other more left tail rfl hfront hlength
        obtain ⟨refusal, hrefusal⟩ := hsteady' other tail hfront hlength
        exact ⟨refusal, hother.trans hrefusal⟩

/-- One reader after another, with as much room as before. -/
theorem Tracks.then {first : Setting → Reader β} {Front : List TokenKind → β → Prop}
    {next : Setting → β × List Token → Except Error (α × List Token)}
    (h : Tracks room first Front setting tokens)
    (hextendable : ∀ kinds value, Front kinds value → ∃ more result, Derives (kinds ++ more) result)
    (hnext : ∀ (used : List Token) value (rest : List Token),
      Front (used.map Token.kind) value → rest.length ≤ tokens.length →
      Tracks room (fun setting rest ↦ next setting (value, rest))
        (fun kinds result ↦ Derives (used.map Token.kind ++ kinds) result) setting rest) :
    Tracks room (fun setting tokens ↦ first setting tokens >>= next setting) Derives setting
      tokens := by
  refine h.bind room hextendable (fun used _ _ other tail hlength ↦ ?_)
    fun used value rest htokens hderives _ ↦ hnext used value rest hderives ?_
  · rw [List.length_append] at hlength
    omega
  · rw [htokens, List.length_append]
    omega

theorem Tracks.map {first : Setting → Reader β} {Front : List TokenKind → β → Prop}
    (h : Tracks room first Front setting tokens) (build : β → α)
    (hbuild : ∀ kinds value, Front kinds value → Derives kinds (build value)) :
    Tracks room (fun setting tokens ↦ first setting tokens >>= fun (value, rest) ↦
      .ok (build value, rest)) Derives setting tokens := by
  refine h.then (fun kinds value hfront ↦ ⟨[], build value, ?_⟩) fun used value rest hfront _ ↦ ?_
  · rw [List.append_nil]
    exact hbuild kinds value hfront
  · apply tracks_pure
    rw [List.append_nil]
    exact hbuild _ value hfront

end Viable

end Scriptlet
