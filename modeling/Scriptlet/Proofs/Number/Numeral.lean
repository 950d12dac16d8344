import Mathlib.Tactic.FieldSimp
import Scriptlet.Number.Numeral
import Scriptlet.Proofs.Number.Decimal
import Scriptlet.Proofs.Number.Double
import Scriptlet.Proofs.Tiling.Lexer
import Scriptlet.Scalar

/-!
# Numerals

A numeral is an optional sign, digits with an optional point among or around them, and an optional
exponent. Its value is a rational number, and it is read as the double nearest to that. Besides
numerals only the words for infinity and for what is not a number are read.
-/

namespace Scriptlet.Number

/-! ## Numerals -/

/-- A sign, written or left out. -/
inductive SignMark where
  | absent
  | plus
  | minus
deriving DecidableEq

namespace SignMark

def text : SignMark → List Char
  | absent => []
  | plus => ['+']
  | minus => ['-']

def isNegative : SignMark → Bool
  | minus => true
  | _ => false

end SignMark

/-- An exponent: its mark, its sign and its digits. -/
structure ExponentPart where
  mark : Char
  sign : SignMark
  digits : List Char
  mark_eq : mark = 'e' ∨ mark = 'E'
  digits_ne_nil : digits ≠ []
  isDigit : ∀ c ∈ digits, c.isDigit = true

/-- How a number is written in decimal. -/
structure Numeral where
  sign : SignMark
  /-- The digits before the point. -/
  whole : List Char
  /-- The digits behind the point, if there is one. -/
  fraction : Option (List Char)
  exponent : Option ExponentPart
  isDigit_whole : ∀ c ∈ whole, c.isDigit = true
  isDigit_fraction : ∀ c ∈ fraction.getD [], c.isDigit = true
  digits_ne_nil : whole ++ fraction.getD [] ≠ []

namespace ExponentPart

def text (part : ExponentPart) : List Char := part.mark :: (part.sign.text ++ part.digits)

def value (part : ExponentPart) : ℤ :=
  if part.sign.isNegative then -(Text.ofDigits part.digits : ℤ) else Text.ofDigits part.digits

end ExponentPart

namespace Numeral

/-- The point and the digits behind it. -/
def pointed (numeral : Numeral) : List Char := numeral.fraction.elim [] ('.' :: ·)

/-- The exponent as it is written. -/
def tail (numeral : Numeral) : List Char := numeral.exponent.elim [] ExponentPart.text

/-- The numeral without its sign. -/
def unsigned (numeral : Numeral) : List Char := numeral.whole ++ (numeral.pointed ++ numeral.tail)

def text (numeral : Numeral) : List Char := numeral.sign.text ++ numeral.unsigned

def isNegative (numeral : Numeral) : Bool := numeral.sign.isNegative

def power (numeral : Numeral) : ℤ := numeral.exponent.elim 0 ExponentPart.value

/-- The number that a numeral denotes, without its sign. -/
def size (numeral : Numeral) : ℚ :=
  (Text.ofDigits numeral.whole +
    Text.ofDigits (numeral.fraction.getD []) / 10 ^ (numeral.fraction.getD []).length) *
      10 ^ numeral.power

end Numeral

/-! ## Reading numerals -/

theorem splitSign_text (sign : SignMark) {unsigned : List Char}
    (h : ∀ c ∈ unsigned.head?, c ≠ '+' ∧ c ≠ '-') :
    splitSign (sign.text ++ unsigned) = (sign.isNegative, unsigned) := by
  cases sign with
  | plus | minus => rfl
  | absent =>
    change splitSign unsigned = (false, unsigned)
    unfold splitSign
    split
    · exact absurd rfl (h '+' rfl).1
    · exact absurd rfl (h '-' rfl).2
    · rfl

theorem exists_sign (text : List Char) :
    ∃ sign : SignMark, text = sign.text ++ (splitSign text).2 ∧
      sign.isNegative = (splitSign text).1 := by
  unfold splitSign
  split
  · exact ⟨.plus, rfl, rfl⟩
  · exact ⟨.minus, rfl, rfl⟩
  · exact ⟨.absent, rfl, rfl⟩

theorem isDigit_ne_sign {c : Char} (h : c.isDigit = true) : c ≠ '+' ∧ c ≠ '-' := by
  constructor
  · rintro rfl
    cases h
  · rintro rfl
    cases h

theorem exponent?_text (part : ExponentPart) : exponent? part.text = some part.value := by
  have hsplit :
      splitSign (part.sign.text ++ part.digits) = (part.sign.isNegative, part.digits) := by
    apply splitSign_text
    intro c hc
    exact isDigit_ne_sign (part.isDigit c (List.mem_of_mem_head? hc))
  have hmark : (part.mark == 'e' || part.mark == 'E') = true := by
    simpa using part.mark_eq
  have hdigits : part.digits.all Char.isDigit = true := List.all_eq_true.2 part.isDigit
  rw [ExponentPart.text, exponent?, hsplit]
  simp [hmark, hdigits, part.digits_ne_nil, ExponentPart.value]

theorem exponent?_tail (numeral : Numeral) : exponent? numeral.tail = some numeral.power := by
  rw [Numeral.tail, Numeral.power]
  cases numeral.exponent with
  | none => rfl
  | some part => exact exponent?_text part

theorem exists_exponent {text : List Char} {power : ℤ} (h : exponent? text = some power) :
    ∃ part : Option ExponentPart, part.elim [] ExponentPart.text = text ∧
      part.elim 0 ExponentPart.value = power := by
  cases text with
  | nil =>
    cases h
    exact ⟨none, rfl, rfl⟩
  | cons mark rest =>
    obtain ⟨sign, hrest, hsign⟩ := exists_sign rest
    rw [exponent?] at h
    dsimp only at h
    split at h
    · rename_i hshape
      simp only [Bool.and_eq_true, Bool.or_eq_true, beq_iff_eq, Bool.not_eq_true',
        List.isEmpty_eq_false_iff, List.all_eq_true] at hshape
      obtain ⟨⟨hmark, hnonempty⟩, hdigits⟩ := hshape
      refine ⟨some ⟨mark, sign, (splitSign rest).2, hmark, hnonempty, hdigits⟩, ?_, ?_⟩
      · exact congrArg (mark :: ·) hrest.symm
      · rw [← hsign] at h
        exact Option.some.inj h
    · cases h

theorem tail_head? (numeral : Numeral) : ∀ c ∈ numeral.tail.head?, c = 'e' ∨ c = 'E' := by
  intro c hc
  rw [Numeral.tail] at hc
  cases hexponent : numeral.exponent with
  | none =>
    rw [hexponent] at hc
    cases hc
  | some part =>
    rw [hexponent] at hc
    cases hc
    exact part.mark_eq

/-- The value of digits around a point. -/
theorem value_of_point (whole fraction : List Char) (power : ℤ) :
    Decimal.value ⟨Text.ofDigits (whole ++ fraction), power - fraction.length⟩ =
      (Text.ofDigits whole + Text.ofDigits fraction / 10 ^ fraction.length) * 10 ^ power := by
  have hten : (10 : ℚ) ≠ 0 := by norm_num
  rw [Decimal.value, Text.ofDigits_append, zpow_sub₀ hten, zpow_natCast]
  push_cast
  field_simp

/-- The digits behind a point at the head of a text, and what follows them. -/
def splitPoint : List Char → List Char × List Char
  | '.' :: rest => (rest.takeWhile Char.isDigit, rest.dropWhile Char.isDigit)
  | rest => ([], rest)

theorem ofText?_eq (text : List Char) :
    Decimal.ofText? text =
      let whole := text.takeWhile Char.isDigit
      let point := splitPoint (text.dropWhile Char.isDigit)
      if whole.isEmpty && point.1.isEmpty then none
      else (exponent? point.2).map fun power ↦
        ⟨Text.ofDigits (whole ++ point.1), power - point.1.length⟩ := rfl

theorem splitPoint_pointed (numeral : Numeral) :
    splitPoint (numeral.pointed ++ numeral.tail) = (numeral.fraction.getD [], numeral.tail) := by
  have htail : ∀ c ∈ numeral.tail.head?, c.isDigit = false ∧ c ≠ '.' := by
    intro c hc
    rcases tail_head? numeral c hc with rfl | rfl
    · exact ⟨rfl, by decide⟩
    · exact ⟨rfl, by decide⟩
  have hdigits := numeral.isDigit_fraction
  rw [Numeral.pointed]
  generalize numeral.fraction = fraction at hdigits ⊢
  cases fraction with
  | none =>
    change splitPoint numeral.tail = ([], numeral.tail)
    unfold splitPoint
    split
    · rename_i heq
      rw [heq] at htail
      exact absurd rfl (htail '.' rfl).2
    · rfl
  | some fraction =>
    have hstop : ∀ c ∈ numeral.tail.head?, c.isDigit = false := fun c hc ↦ (htail c hc).1
    exact Prod.ext (Tiling.takeWhile_run hdigits hstop) (Tiling.dropWhile_run hdigits hstop)

theorem ofText?_unsigned (numeral : Numeral) :
    ∃ decimal, Decimal.ofText? numeral.unsigned = some decimal ∧ decimal.value = numeral.size := by
  refine ⟨_, ?_, value_of_point numeral.whole (numeral.fraction.getD []) numeral.power⟩
  have hstop : ∀ c ∈ (numeral.pointed ++ numeral.tail).head?, c.isDigit = false := by
    intro c hc
    rw [Numeral.pointed] at hc
    cases hfraction : numeral.fraction with
    | none =>
      rw [hfraction] at hc
      rcases tail_head? numeral c hc with rfl | rfl <;> rfl
    | some digits =>
      rw [hfraction] at hc
      cases hc
      rfl
  have hdigits : (numeral.whole.isEmpty && (numeral.fraction.getD []).isEmpty) = false := by
    rw [Bool.eq_false_iff]
    intro hempty
    simp only [Bool.and_eq_true, List.isEmpty_iff] at hempty
    exact numeral.digits_ne_nil (List.append_eq_nil_iff.2 hempty)
  rw [ofText?_eq, Numeral.unsigned, Tiling.takeWhile_run numeral.isDigit_whole hstop,
    Tiling.dropWhile_run numeral.isDigit_whole hstop, splitPoint_pointed]
  dsimp only
  rw [hdigits, exponent?_tail]
  rfl

theorem exists_fraction (text : List Char) :
    ∃ fraction : Option (List Char), fraction.elim [] ('.' :: ·) ++ (splitPoint text).2 = text ∧
      fraction.getD [] = (splitPoint text).1 ∧ ∀ c ∈ fraction.getD [], c.isDigit = true := by
  unfold splitPoint
  split
  · rename_i rest
    refine ⟨some (rest.takeWhile Char.isDigit), ?_, rfl, fun c hc ↦ List.mem_takeWhile_imp hc⟩
    exact congrArg ('.' :: ·) List.takeWhile_append_dropWhile
  · exact ⟨none, rfl, rfl, nofun⟩

/-- Whatever is read as a decimal is a numeral, and any sign may stand before it. -/
theorem exists_numeral {text : List Char} {decimal : Decimal}
    (h : Decimal.ofText? text = some decimal) (sign : SignMark) :
    ∃ numeral : Numeral, numeral.sign = sign ∧ numeral.unsigned = text := by
  obtain ⟨fraction, hpoint, hfraction, hdigits⟩ := exists_fraction (text.dropWhile Char.isDigit)
  rw [ofText?_eq] at h
  dsimp only at h
  split at h
  · cases h
  rename_i hempty
  obtain ⟨power, hpower, -⟩ := Option.map_eq_some_iff.1 h
  obtain ⟨exponent, hexponent, -⟩ := exists_exponent hpower
  have hnonempty : text.takeWhile Char.isDigit ++ fraction.getD [] ≠ [] := by
    rw [hfraction]
    intro hnil
    obtain ⟨hwhole, hnone⟩ := List.append_eq_nil_iff.1 hnil
    rw [hwhole, hnone] at hempty
    exact hempty rfl
  refine ⟨⟨sign, text.takeWhile Char.isDigit, fraction, exponent,
    fun c hc ↦ List.mem_takeWhile_imp hc, hdigits, hnonempty⟩, rfl, ?_⟩
  rw [Numeral.unsigned, Numeral.pointed, Numeral.tail]
  dsimp only
  rw [hexponent, hpoint, List.takeWhile_append_dropWhile]

/-! ## Words for numbers -/

/-- The words for infinity, in any letter case. -/
def IsInfinityWord (word : List Char) : Prop :=
  word.map Char.toLower = "inf".toList ∨ word.map Char.toLower = "infinity".toList

/-- A numeral begins with a digit or with a point. -/
theorem exists_unsigned_head (numeral : Numeral) :
    ∃ c, numeral.unsigned.head? = some c ∧ (c.isDigit = true ∨ c = '.') := by
  have hwhole := numeral.isDigit_whole
  have hdigits := numeral.digits_ne_nil
  rw [Numeral.unsigned, Numeral.pointed]
  generalize numeral.whole = whole at hwhole hdigits ⊢
  generalize numeral.fraction = fraction at hdigits ⊢
  cases whole with
  | cons c rest => exact ⟨c, rfl, Or.inl (hwhole c List.mem_cons_self)⟩
  | nil =>
    cases fraction with
    | none => exact absurd rfl hdigits
    | some digits => exact ⟨'.', rfl, Or.inr rfl⟩

theorem read?_signed (sign : SignMark) {unsigned : List Char}
    (h : ∀ c ∈ unsigned.head?, c ≠ '+' ∧ c ≠ '-') :
    read? (sign.text ++ unsigned) = (magnitude? unsigned).map (ofMagnitude sign.isNegative) := by
  rw [read?, splitSign_text sign h]

/-- A numeral is read as the nearest double. -/
theorem read?_text (numeral : Numeral) :
    ∃ bits, Nearest numeral.size bits ∧
      read? numeral.text = some (ofMagnitude numeral.isNegative bits) := by
  obtain ⟨decimal, hdecimal, hvalue⟩ := ofText?_unsigned numeral
  have hhead : ∀ c ∈ numeral.unsigned.head?, c ≠ '+' ∧ c ≠ '-' := by
    intro c hc
    obtain ⟨d, hhead, hd⟩ := exists_unsigned_head numeral
    rw [hhead] at hc
    cases hc
    rcases hd with hdigit | rfl
    · exact isDigit_ne_sign hdigit
    · decide
  have hmagnitude : magnitude? numeral.unsigned = some decimal.bits := by
    simp only [magnitude?, hdecimal]
  refine ⟨decimal.bits, hvalue ▸ Decimal.nearest_bits decimal, ?_⟩
  rw [Numeral.text, read?_signed numeral.sign hhead, hmagnitude]
  rfl

theorem toLower_of_isDigit {c : Char} (h : c.isDigit = true) : c.toLower = c := by
  have hle : c.val ≤ 57 := by
    simp only [Char.isDigit, Bool.and_eq_true, decide_eq_true_eq] at h
    exact h.2
  apply dif_neg
  intro hupper
  exact absurd (UInt32.le_trans hupper.1 hle) (by decide)

theorem exists_infinityWord_head {word : List Char} (h : IsInfinityWord word) :
    ∃ c, word.head? = some c ∧ c.toLower = 'i' := by
  have hhead : (word.map Char.toLower).head? = some 'i' := by
    rcases h with h | h
    · rw [h]
      rfl
    · rw [h]
      rfl
  rw [List.head?_map] at hhead
  exact Option.map_eq_some_iff.1 hhead

theorem ofText?_infinityWord {word : List Char} (h : IsInfinityWord word) :
    Decimal.ofText? word = none := by
  obtain ⟨c, hhead, hc⟩ := exists_infinityWord_head h
  rw [Option.eq_none_iff_forall_not_mem]
  intro decimal hdecimal
  obtain ⟨numeral, -, hunsigned⟩ := exists_numeral hdecimal .absent
  obtain ⟨d, hd, hshape⟩ := exists_unsigned_head numeral
  rw [hunsigned, hhead] at hd
  cases hd
  rcases hshape with hdigit | rfl
  · rw [toLower_of_isDigit hdigit] at hc
    subst hc
    cases hdigit
  · exact absurd hc (by decide)

theorem read?_infinityWord (sign : SignMark) {word : List Char} (h : IsInfinityWord word) :
    read? (sign.text ++ word) = some (ofMagnitude sign.isNegative infinityBits) := by
  have hhead : ∀ c ∈ word.head?, c ≠ '+' ∧ c ≠ '-' := by
    intro c hc
    obtain ⟨d, hhead, hd⟩ := exists_infinityWord_head h
    rw [hhead] at hc
    cases hc
    constructor
    · rintro rfl
      exact absurd hd (by decide)
    · rintro rfl
      exact absurd hd (by decide)
  have hmagnitude : magnitude? word = some infinityBits := by
    simp only [magnitude?, ofText?_infinityWord h]
    rcases h with h | h
    · rw [h]
      rfl
    · rw [h]
      rfl
  rw [read?_signed sign hhead, hmagnitude]
  rfl

theorem ofMagnitude_nan (isNegative : Bool) : ofMagnitude isNegative (magnitudeBits nan) = nan := by
  cases isNegative with
  | false => rfl
  | true => rfl

theorem toList_eq_of_ofList {text : List Char} {word : String} (h : String.ofList text = word) :
    text = word.toList := by
  rw [← h, String.toList_ofList]

/-- Whatever is read is a numeral or a word for a number or for none. -/
theorem read?_cases {text : List Char} {x : Float} (h : read? text = some x) :
    (∃ numeral : Numeral, numeral.text = text) ∨
      (∃ sign word, SignMark.text sign ++ word = text ∧ IsInfinityWord word) ∨ x = nan := by
  obtain ⟨sign, htext, hsign⟩ := exists_sign text
  rw [read?] at h
  generalize splitSign text = split at htext hsign h
  obtain ⟨isNegative, unsigned⟩ := split
  dsimp only at htext h
  obtain ⟨bits, hbits, hx⟩ := Option.map_eq_some_iff.1 h
  rw [magnitude?.eq_def] at hbits
  split at hbits
  · rename_i decimal hdecimal
    obtain ⟨numeral, hnumeral, hunsigned⟩ := exists_numeral hdecimal sign
    refine Or.inl ⟨numeral, ?_⟩
    rw [Numeral.text, hnumeral, hunsigned, ← htext]
  · right
    split at hbits
    · rename_i hword
      exact Or.inl ⟨sign, unsigned, htext.symm, Or.inl (toList_eq_of_ofList hword)⟩
    · rename_i hword
      exact Or.inl ⟨sign, unsigned, htext.symm, Or.inr (toList_eq_of_ofList hword)⟩
    · cases hbits
      exact Or.inr (hx ▸ ofMagnitude_nan isNegative)
    · cases hbits

end Scriptlet.Number
