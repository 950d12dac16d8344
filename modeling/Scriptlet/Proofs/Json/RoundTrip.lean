import Scriptlet.Proofs.Json.Lexical

/-!
# Written values are read back

Whatever blanks a layout puts between the parts of a value, reading the written value gives it
back, if its numbers are natural and each of its strings denotes a text. The induction is on the
value. It is carried by what may follow the text of a value, since only that decides where a number
ends, and by the budget, for which the length of the text is enough.
-/

namespace Scriptlet.Json

/-- A layout that spreads values by blanks only. -/
structure Layout.Spaced (layout : Layout) : Prop where
  lineBreak : ∀ depth, ∀ c ∈ layout.lineBreak depth, isSpace c = true
  colon : ∃ spaces, layout.colon = ':' :: spaces ∧ ∀ c ∈ spaces, isSpace c = true

theorem compactLayout_spaced : compactLayout.Spaced where
  lineBreak _ := nofun
  colon := ⟨[], rfl, nofun⟩

theorem wideLayout_spaced : wideLayout.Spaced where
  lineBreak depth := by
    change ∀ c ∈ '\n' :: List.replicate (2 * depth) ' ', isSpace c = true
    rw [List.forall_mem_cons]
    refine ⟨rfl, fun c hc ↦ ?_⟩
    rw [List.eq_of_mem_replicate hc]
    rfl
  colon := ⟨[' '], rfl, List.forall_mem_singleton.2 rfl⟩

/-- Values whose numbers are natural and whose strings and keys denote texts. -/
inductive Plain : Json → Prop
  | null : Plain null
  | bool (value : Bool) : Plain (bool value)
  | natural (n : Nat) : Plain (ofNat n)
  | string (text : String) : Plain (string text)
  | array {items : List Json} (h : ∀ item ∈ items, Plain item) : Plain (array items)
  | object {fields : List (String × Json)} (h : ∀ field ∈ fields, Plain field.2) :
      Plain (object fields)

/-! ## What stands between values -/

theorem skipSpaces_append {spaces : List Char} (h : ∀ c ∈ spaces, isSpace c = true) {c : Char}
    (hc : isSpace c = false) (rest : List Char) : skipSpaces (spaces ++ c :: rest) = c :: rest := by
  apply Tiling.dropWhile_run h
  rintro _ ⟨⟩
  exact hc

theorem endsNumber_of_isSpace {c : Char} (h : isSpace c = true) : EndsNumber c := by
  simp only [isSpace, Bool.or_eq_true, beq_iff_eq] at h
  rcases h with ((rfl | rfl) | rfl) | rfl
  all_goals exact ⟨by decide, by decide, by decide⟩

/-- Blanks and a mark behind them end a number. -/
theorem endsNumber_append {spaces : List Char} (h : ∀ c ∈ spaces, isSpace c = true) {mark : Char}
    (hmark : EndsNumber mark) (rest : List Char) :
    ∀ c ∈ (spaces ++ mark :: rest).head?, EndsNumber c := by
  cases spaces with
  | nil =>
    rintro _ ⟨⟩
    exact hmark
  | cons space spaces =>
    rintro _ ⟨⟩
    exact endsNumber_of_isSpace (h space List.mem_cons_self)

theorem endsNumber_bracket : EndsNumber ']' := ⟨by decide, by decide, by decide⟩

theorem endsNumber_brace : EndsNumber '\x7d' := ⟨by decide, by decide, by decide⟩

theorem isSpace_of_isDigit {c : Char} (h : c.isDigit = true) : isSpace c = false := by
  rw [Bool.eq_false_iff]
  intro hspace
  have hdigit := (endsNumber_of_isSpace hspace).digit
  rw [h] at hdigit
  cases hdigit

/-! ## Reading one value -/

/-- The value is read from the text that is written for it, before anything that ends a number. -/
structure Reads (layout : Layout) (json : Json) : Prop where
  head : ∀ depth, ∃ c more, renderAt layout depth json = c :: more ∧ isSpace c = false ∧ c ≠ ']'
  value : ∀ depth budget rest, (renderAt layout depth json).length ≤ budget →
    (∀ c ∈ rest.head?, EndsNumber c) →
      value? budget (renderAt layout depth json ++ rest) = some (json, rest)

theorem Reads.skipSpaces {layout : Layout} {json : Json} (h : Reads layout json)
    {spaces : List Char} (hspaces : ∀ c ∈ spaces, isSpace c = true) (depth : Nat)
    (rest : List Char) :
    skipSpaces (spaces ++ (renderAt layout depth json ++ rest)) =
      renderAt layout depth json ++ rest := by
  obtain ⟨c, more, htext, hc, -⟩ := h.head depth
  rw [htext]
  exact skipSpaces_append hspaces hc (more ++ rest)

section

variable (layout : Layout)

/-- For a value that starts with a given character. -/
theorem reads_of_cons {json : Json} (c : Char) (hspace : isSpace c = false) (hclose : c ≠ ']')
    (h : ∀ depth, ∃ more, renderAt layout depth json = c :: more ∧
      ∀ budget rest, more.length ≤ budget → (∀ d ∈ rest.head?, EndsNumber d) →
        value? (budget + 1) (c :: (more ++ rest)) = some (json, rest)) : Reads layout json where
  head depth := by
    obtain ⟨more, htext, -⟩ := h depth
    exact ⟨c, more, htext, hspace, hclose⟩
  value depth budget rest hbudget hrest := by
    obtain ⟨more, htext, hvalue⟩ := h depth
    rw [htext] at hbudget ⊢
    cases budget with
    | zero => cases hbudget
    | succ budget => exact hvalue budget rest (Nat.le_of_succ_le_succ hbudget) hrest

theorem reads_null : Reads layout null :=
  reads_of_cons layout 'n' (by decide) (by decide) fun _ ↦ ⟨_, rfl, fun _ _ _ _ ↦ rfl⟩

theorem reads_bool (value : Bool) : Reads layout (bool value) := by
  cases value with
  | false =>
    exact reads_of_cons layout 'f' (by decide) (by decide) fun _ ↦ ⟨_, rfl, fun _ _ _ _ ↦ rfl⟩
  | true =>
    exact reads_of_cons layout 't' (by decide) (by decide) fun _ ↦ ⟨_, rfl, fun _ _ _ _ ↦ rfl⟩

theorem reads_string (text : String) : Reads layout (string text) := by
  apply reads_of_cons layout '"' (by decide) (by decide)
  intro depth
  refine ⟨text.toList.flatMap escape ++ ['"'], rfl, ?_⟩
  intro budget rest _ _
  rw [value?, List.append_assoc, List.singleton_append, text?_escaped]
  rfl

/-- Only numbers begin with a digit. -/
theorem value?_of_isDigit {c : Char} (h : c.isDigit = true) (budget : Nat) (rest : List Char) :
    value? (budget + 1) (c :: rest) =
      (number? (c :: rest)).map fun found ↦ (number found.1, found.2) := by
  have hne {mark : Char} (hmark : mark.isDigit = false) : c ≠ mark := by
    rintro rfl
    rw [h] at hmark
    cases hmark
  rw [value?]
  · cases number? (c :: rest) with
    | none => rfl
    | some found => rfl
  all_goals
    intro _ heq
    exact hne (by decide) (List.cons.inj heq).1

theorem reads_natural (n : Nat) : Reads layout (ofNat n) := by
  obtain ⟨c, more, hdigits, hdigit⟩ := exists_toDigits n
  have hclose : c ≠ ']' := by
    rintro rfl
    cases hdigit
  apply reads_of_cons layout c (isSpace_of_isDigit hdigit) hclose
  intro depth
  refine ⟨more, ?_, ?_⟩
  · change (toString n).toList = c :: more
    rw [Nat.toString_eq_ofList_toDigits, String.toList_ofList, hdigits]
  · intro budget rest _ hrest
    rw [value?_of_isDigit hdigit, ← List.cons_append, ← hdigits, number?_toDigits n hrest]
    rfl

end

/-! ## Reading several values -/

theorem renderItems_cons (layout : Layout) (depth : Nat) (item : Json) (items : List Json) :
    renderItems layout depth (item :: items) =
      ',' :: (layout.lineBreak depth ++ (renderAt layout depth item ++
        renderItems layout depth items)) := by
  change ',' :: layout.lineBreak depth ++ renderAt layout depth item ++
    renderItems layout depth items = _
  simp only [List.append_assoc, List.cons_append]

theorem renderAt_array_cons (layout : Layout) (depth : Nat) (item : Json) (items : List Json) :
    renderAt layout depth (array (item :: items)) =
      '[' :: (layout.lineBreak (depth + 1) ++ (renderAt layout (depth + 1) item ++
        (renderItems layout (depth + 1) items ++ (layout.lineBreak depth ++ [']'])))) := by
  change '[' :: layout.lineBreak (depth + 1) ++ renderAt layout (depth + 1) item ++
    renderItems layout (depth + 1) items ++ layout.lineBreak depth ++ [']'] = _
  simp only [List.append_assoc, List.cons_append]

theorem head?_renderItems (layout : Layout) (depth : Nat) (items : List Json) :
    ∀ c ∈ (renderItems layout depth items).head?, c = ',' := by
  cases items with
  | nil => nofun
  | cons item items => exact fun c hc ↦ (Option.some.inj hc).symm

/-- A key with its value. -/
def renderField (layout : Layout) (depth : Nat) (field : String × Json) : List Char :=
  quoted field.1 ++ (layout.colon ++ renderAt layout depth field.2)

theorem length_renderAt_le (layout : Layout) (depth : Nat) (field : String × Json) :
    (renderAt layout depth field.2).length ≤ (renderField layout depth field).length := by
  rw [renderField, List.length_append, List.length_append]
  omega

theorem renderFields_cons (layout : Layout) (depth : Nat) (field : String × Json)
    (fields : List (String × Json)) :
    renderFields layout depth (field :: fields) =
      ',' :: (layout.lineBreak depth ++ (renderField layout depth field ++
        renderFields layout depth fields)) := by
  change ',' :: layout.lineBreak depth ++ quoted field.1 ++ layout.colon ++
    renderAt layout depth field.2 ++ renderFields layout depth fields = _
  simp only [renderField, List.append_assoc, List.cons_append]

theorem head?_renderFields (layout : Layout) (depth : Nat) (fields : List (String × Json)) :
    ∀ c ∈ (renderFields layout depth fields).head?, c = ',' := by
  cases fields with
  | nil => nofun
  | cons field fields => exact fun c hc ↦ (Option.some.inj hc).symm

theorem renderAt_object_cons (layout : Layout) (depth : Nat) (field : String × Json)
    (fields : List (String × Json)) :
    renderAt layout depth (object (field :: fields)) =
      '\x7b' :: (layout.lineBreak (depth + 1) ++ (renderField layout (depth + 1) field ++
        (renderFields layout (depth + 1) fields ++ (layout.lineBreak depth ++ ['\x7d'])))) := by
  change '\x7b' :: layout.lineBreak (depth + 1) ++ quoted field.1 ++ layout.colon ++
    renderAt layout (depth + 1) field.2 ++ renderFields layout (depth + 1) fields ++
      layout.lineBreak depth ++ ['\x7d'] = _
  simp only [renderField, List.append_assoc, List.cons_append]

section

variable {value : Scan Json} {budget : Nat} {input behind rest : List Char}

theorem itemsWith_comma {item : Json} {items : List Json}
    (hitem : value (skipSpaces input) = some (item, behind))
    (hitems : itemsWith value budget behind = some (items, rest)) :
    itemsWith value (budget + 1) (',' :: input) = some (item :: items, rest) := by
  have hcomma : skipSpaces (',' :: input) = ',' :: input := rfl
  simp [itemsWith, hcomma, hitem, hitems]

theorem fieldsWith_comma {field : Option String × Json} {fields : List (Option String × Json)}
    (hfield : fieldWith value input = some (field, behind))
    (hfields : fieldsWith value budget behind = some (fields, rest)) :
    fieldsWith value (budget + 1) (',' :: input) = some (field :: fields, rest) := by
  have hcomma : skipSpaces (',' :: input) = ',' :: input := rfl
  simp [fieldsWith, hcomma, hfield, hfields]

theorem arrayWith_cons {text : List Char} {item : Json} {items : List Json}
    (hinput : skipSpaces input = text) (hclose : text.head? ≠ some ']')
    (hitem : value text = some (item, behind))
    (hitems : itemsWith value budget behind = some (items, rest)) :
    arrayWith value budget input = some (array (item :: items), rest) := by
  unfold arrayWith
  rw [hinput]
  split
  · exact absurd rfl hclose
  · simp [hitem, hitems]

theorem objectWith_cons {text : List Char} {field : Option String × Json}
    {fields : List (Option String × Json)} (hinput : skipSpaces input = text)
    (hclose : text.head? ≠ some '\x7d') (hfield : fieldWith value text = some (field, behind))
    (hfields : fieldsWith value budget behind = some (fields, rest)) :
    objectWith value budget input = some (ofFields (field :: fields), rest) := by
  unfold objectWith
  rw [hinput]
  split
  · exact absurd rfl hclose
  · simp [hfield, hfields]

/-- A field is read as its key and its value. -/
theorem fieldWith_quoted {key : String} {item : Json} {spaces : List Char}
    (hspaces : ∀ c ∈ spaces, isSpace c = true)
    (hitem : value (skipSpaces input) = some (item, rest)) :
    fieldWith value (spaces ++ (quoted key ++ ':' :: input)) = some ((some key, item), rest) := by
  have hquoted : quoted key ++ ':' :: input =
      '"' :: (key.toList.flatMap escape ++ '"' :: ':' :: input) := by
    simp [quoted]
  have hcolon : skipSpaces (':' :: input) = ':' :: input := rfl
  unfold fieldWith
  rw [hquoted, skipSpaces_append hspaces (by decide)]
  simp [text?_escaped, hcolon, hitem]

end

section

variable {layout : Layout} {spaces : List Char} (hspaces : ∀ c ∈ spaces, isSpace c = true)
  (rest : List Char)

include hspaces

/-- A list of further parts, each of which stands behind a comma, is no matter to a number. -/
theorem endsNumber_listed {listed : List Char} (h : ∀ c ∈ listed.head?, c = ',') {mark : Char}
    (hmark : EndsNumber mark) :
    ∀ c ∈ (listed ++ (spaces ++ mark :: rest)).head?, EndsNumber c := by
  cases listed with
  | nil => exact endsNumber_append hspaces hmark rest
  | cons d listed =>
    intro c hc
    have hcomma : c = ',' := h c hc
    rw [hcomma]
    exact ⟨by decide, by decide, by decide⟩

variable (hlayout : layout.Spaced)

include hlayout

theorem itemsWith_renderItems (depth : Nat) {items : List Json}
    (h : ∀ item ∈ items, Reads layout item) {inner budget : Nat}
    (hinner : (renderItems layout depth items).length ≤ inner)
    (hbudget : (renderItems layout depth items).length ≤ budget) :
    itemsWith (value? inner) (budget + 1)
        (renderItems layout depth items ++ (spaces ++ ']' :: rest)) = some (items, rest) := by
  induction items generalizing budget with
  | nil =>
    rw [renderItems, List.nil_append, itemsWith, skipSpaces_append hspaces (by decide)]
    rfl
  | cons item items ih =>
    rw [List.forall_mem_cons] at h
    obtain ⟨hitem, hitems⟩ := h
    rw [renderItems_cons, List.length_cons, List.length_append, List.length_append]
      at hinner hbudget
    obtain ⟨budget, rfl⟩ := Nat.exists_eq_add_one_of_ne_zero (n := budget) (by omega)
    rw [renderItems_cons, List.cons_append, List.append_assoc, List.append_assoc]
    apply itemsWith_comma
    · rw [hitem.skipSpaces (hlayout.lineBreak depth)]
      apply hitem.value
      · omega
      · exact endsNumber_listed hspaces rest (head?_renderItems layout _ items) endsNumber_bracket
    · apply ih hitems
      · omega
      · omega

theorem fieldWith_renderField (depth : Nat) {field : String × Json} (h : Reads layout field.2)
    {inner : Nat} (hinner : (renderAt layout depth field.2).length ≤ inner)
    (hrest : ∀ c ∈ rest.head?, EndsNumber c) :
    fieldWith (value? inner) (spaces ++ (renderField layout depth field ++ rest)) =
      some ((some field.1, field.2), rest) := by
  obtain ⟨inside, hcolon, hinside⟩ := hlayout.colon
  rw [renderField, hcolon, List.append_assoc, List.cons_append, List.cons_append, List.append_assoc]
  apply fieldWith_quoted hspaces
  rw [h.skipSpaces hinside]
  exact h.value depth inner rest hinner hrest

theorem fieldsWith_renderFields (depth : Nat) {fields : List (String × Json)}
    (h : ∀ field ∈ fields, Reads layout field.2) {inner budget : Nat}
    (hinner : (renderFields layout depth fields).length ≤ inner)
    (hbudget : (renderFields layout depth fields).length ≤ budget) :
    fieldsWith (value? inner) (budget + 1)
        (renderFields layout depth fields ++ (spaces ++ '\x7d' :: rest)) =
      some (fields.map fun field ↦ (some field.1, field.2), rest) := by
  induction fields generalizing budget with
  | nil =>
    rw [renderFields, List.nil_append, fieldsWith, skipSpaces_append hspaces (by decide)]
    rfl
  | cons field fields ih =>
    rw [List.forall_mem_cons] at h
    obtain ⟨hfield, hfields⟩ := h
    have hlength := length_renderAt_le layout depth field
    rw [renderFields_cons, List.length_cons, List.length_append, List.length_append]
      at hinner hbudget
    obtain ⟨budget, rfl⟩ := Nat.exists_eq_add_one_of_ne_zero (n := budget) (by omega)
    rw [renderFields_cons, List.cons_append, List.append_assoc, List.append_assoc]
    apply fieldsWith_comma
    · apply fieldWith_renderField (hlayout.lineBreak depth) _ hlayout depth hfield
      · omega
      · exact endsNumber_listed hspaces rest (head?_renderFields layout _ fields) endsNumber_brace
    · apply ih hfields
      · omega
      · omega

end

theorem mapM_some_fields (fields : List (String × Json)) :
    (fields.map fun field ↦ (some field.1, field.2)).mapM
      (fun (key, value) ↦ key.map (·, value)) = some fields := by
  induction fields with
  | nil => rfl
  | cons field fields ih =>
    rw [List.map_cons, List.mapM_cons, ih]
    rfl

theorem ofFields_map (fields : List (String × Json)) :
    ofFields (fields.map fun field ↦ (some field.1, field.2)) = object fields := by
  rw [ofFields, mapM_some_fields]

section

variable {layout : Layout} (hlayout : layout.Spaced)

include hlayout

theorem reads_array {items : List Json} (h : ∀ item ∈ items, Reads layout item) :
    Reads layout (array items) := by
  apply reads_of_cons layout '[' (by decide) (by decide)
  intro depth
  cases items with
  | nil => exact ⟨[']'], rfl, fun _ _ _ _ ↦ rfl⟩
  | cons item items =>
    rw [List.forall_mem_cons] at h
    obtain ⟨hitem, hitems⟩ := h
    refine ⟨_, renderAt_array_cons layout depth item items, ?_⟩
    intro budget rest hbudget _
    simp only [List.length_append, List.length_singleton] at hbudget
    obtain ⟨budget, rfl⟩ := Nat.exists_eq_add_one_of_ne_zero (n := budget) (by omega)
    have hspaces := hlayout.lineBreak depth
    change arrayWith (value? (budget + 1)) (budget + 1) _ = _
    simp only [List.append_assoc, List.singleton_append]
    apply arrayWith_cons (hitem.skipSpaces (hlayout.lineBreak (depth + 1)) _ _)
    · obtain ⟨c, more, htext, -, hclose⟩ := hitem.head (depth + 1)
      rw [htext]
      exact fun hc ↦ hclose (Option.some.inj hc)
    · apply hitem.value
      · omega
      · exact endsNumber_listed hspaces rest (head?_renderItems layout _ items) endsNumber_bracket
    · apply itemsWith_renderItems hspaces rest hlayout (depth + 1) hitems
      · omega
      · omega

theorem reads_object {fields : List (String × Json)} (h : ∀ field ∈ fields, Reads layout field.2) :
    Reads layout (object fields) := by
  apply reads_of_cons layout '\x7b' (by decide) (by decide)
  intro depth
  cases fields with
  | nil => exact ⟨['\x7d'], rfl, fun _ _ _ _ ↦ rfl⟩
  | cons field fields =>
    rw [List.forall_mem_cons] at h
    obtain ⟨hfield, hfields⟩ := h
    refine ⟨_, renderAt_object_cons layout depth field fields, ?_⟩
    intro budget rest hbudget _
    have hlength := length_renderAt_le layout (depth + 1) field
    simp only [List.length_append, List.length_singleton] at hbudget
    obtain ⟨budget, rfl⟩ := Nat.exists_eq_add_one_of_ne_zero (n := budget) (by omega)
    have hspaces := hlayout.lineBreak depth
    change objectWith (value? (budget + 1)) (budget + 1) _ = _
    simp only [List.append_assoc, List.singleton_append]
    rw [← ofFields_map, List.map_cons]
    apply objectWith_cons
      (skipSpaces_append (hlayout.lineBreak (depth + 1)) (c := '"') (by decide) _)
    · exact fun hc ↦ absurd (Option.some.inj hc) (by decide)
    · apply @fieldWith_renderField layout [] nofun _ hlayout (depth + 1) _ hfield
      · omega
      · exact endsNumber_listed hspaces rest (head?_renderFields layout _ fields) endsNumber_brace
    · apply fieldsWith_renderFields hspaces rest hlayout (depth + 1) hfields
      · omega
      · omega

/-- Plain values are read back, one case for each kind of value. -/
theorem Plain.reads {json : Json} (h : Plain json) : Reads layout json := by
  induction h with
  | null => exact reads_null layout
  | bool value => exact reads_bool layout value
  | natural n => exact reads_natural layout n
  | string text => exact reads_string layout text
  | array _ ih => exact reads_array hlayout ih
  | object _ ih => exact reads_object hlayout ih

theorem parse?_renderAt {json : Json} (h : Plain json) :
    parse? (String.ofList (renderAt layout 0 json)) = some json := by
  have hreads := h.reads hlayout
  have hskip : skipSpaces (renderAt layout 0 json) = renderAt layout 0 json := by
    have hskip := @Reads.skipSpaces layout json hreads [] nofun 0 []
    rwa [List.nil_append, List.append_nil] at hskip
  have hvalue := hreads.value 0 _ [] le_rfl nofun
  rw [List.append_nil] at hvalue
  rw [parse?, String.toList_ofList, hskip, hvalue]
  rfl

end

/-- Both layouts of a plain value spell the value. -/
theorem parse?_compact {json : Json} (h : Plain json) : parse? json.compact = some json :=
  parse?_renderAt compactLayout_spaced h

theorem parse?_wide {json : Json} (h : Plain json) : parse? json.wide = some json :=
  parse?_renderAt wideLayout_spaced h

end Scriptlet.Json
