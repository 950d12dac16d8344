import Scriptlet.Proofs.Json.RoundTrip
import Scriptlet.Proofs.Number.Decimal
import Scriptlet.Report.Reader

/-!
# Reports are read back

A report whose places are numbers of 64 bits is read back from both of its layouts, whatever its
texts are. So each layout tells all reports apart.
-/

namespace Scriptlet

namespace Json

theorem nat?_ofNat {n : ℕ} (h : n < 2 ^ 64) : nat? (ofNat n) = some n := by
  have hdigits : (toString n).toList = Nat.toDigits 10 n := by
    rw [Nat.toString_eq_ofList_toDigits, String.toList_ofList]
  have hall : (Nat.toDigits 10 n).all Char.isDigit = true := by
    rw [List.all_eq_true]
    intro c hc
    exact Nat.isDigit_of_mem_toDigits (by decide) (by decide) hc
  have hbound : decide (n < placeBound) = true := decide_eq_true h
  rw [ofNat, nat?, hdigits, Text.ofDigits_toDigits, hall, hbound]
  rfl

theorem option?_ofOption {α : Type} {encode : α → Json} {decode : Json → Option α}
    {value : Option α} (h : ∀ item ∈ value, encode item ≠ null ∧ decode (encode item) = some item) :
    option? decode (ofOption encode value) = some value := by
  cases value with
  | none => rfl
  | some item =>
    obtain ⟨hnull, hdecode⟩ := h item rfl
    change option? decode (encode item) = some (some item)
    unfold option?
    split
    · rename_i heq
      exact absurd heq hnull
    · rw [hdecode]
      rfl

theorem plain_ofOption {α : Type} {encode : α → Json} (h : ∀ item, Plain (encode item))
    (value : Option α) : Plain (ofOption encode value) := by
  cases value with
  | none => exact .null
  | some item => exact h item

end Json

/-- Places of 64 bits. -/
structure Location.InRange (location : Location) : Prop where
  line : location.line < 2 ^ 64
  column : location.column < 2 ^ 64
  endColumn : ∀ column ∈ location.endColumn, column < 2 ^ 64

theorem Location.ofJson?_toJson {location : Location} (h : location.InRange) :
    ofJson? location.toJson = some location := by
  have hend : Json.option? Json.nat? (Json.ofOption Json.ofNat location.endColumn) =
      some location.endColumn :=
    Json.option?_ofOption fun column hcolumn ↦ ⟨nofun, Json.nat?_ofNat (h.endColumn column hcolumn)⟩
  calc
    ofJson? location.toJson = (do
        return ⟨location.file, ← Json.nat? (.ofNat location.line),
          ← Json.nat? (.ofNat location.column),
          ← Json.option? Json.nat? (Json.ofOption Json.ofNat location.endColumn)⟩) := rfl
    _ = some location := by
      rw [Json.nat?_ofNat h.line, Json.nat?_ofNat h.column, hend]
      rfl

theorem Location.plain_toJson (location : Location) : location.toJson.Plain := by
  apply Json.Plain.object
  simp only [List.forall_mem_cons]
  refine ⟨.string _, .natural _, .natural _, ?_, List.forall_mem_nil _⟩
  exact Json.plain_ofOption .natural location.endColumn

namespace Report

/-- The places of the report, if it has any, are numbers of 64 bits. -/
def InRange (report : Report) : Prop := ∀ location ∈ report.location, location.InRange

theorem ofJson?_toJson {report : Report} (h : report.InRange) :
    ofJson? report.toJson = some report := by
  have hlocation :
      Json.option? Location.ofJson? (Json.ofOption Location.toJson report.location) =
        some report.location :=
    Json.option?_ofOption fun location hmem ↦ ⟨nofun, Location.ofJson?_toJson (h location hmem)⟩
  calc
    ofJson? report.toJson = (do
        let location ←
          Json.option? Location.ofJson? (Json.ofOption Location.toJson report.location)
        if Json.isSeverity (.string "error") then some ⟨report.code, report.message, location⟩
        else none) := rfl
    _ = some report := by
      rw [hlocation]
      rfl

theorem plain_toJson (report : Report) : report.toJson.Plain := by
  apply Json.Plain.object
  simp only [List.forall_mem_cons]
  refine ⟨.string _, .string _, .string _, ?_, List.forall_mem_nil _⟩
  exact Json.plain_ofOption Location.plain_toJson report.location

theorem read?_compact {report : Report} (h : report.InRange) :
    read? report.compact = some report := by
  rw [read?, compact, Json.parse?_compact report.plain_toJson]
  exact ofJson?_toJson h

theorem read?_wide {report : Report} (h : report.InRange) : read? report.wide = some report := by
  rw [read?, wide, Json.parse?_wide report.plain_toJson]
  exact ofJson?_toJson h

/-- Nothing of a report is lost in either layout, so each of them tells all reports apart. -/
theorem layouts_lossless {report : Report} (h : report.InRange) :
    read? report.compact = some report ∧ read? report.wide = some report ∧
      ∀ other : Report, other.InRange →
        (report.compact = other.compact ↔ report = other) ∧
          (report.wide = other.wide ↔ report = other) := by
  refine ⟨read?_compact h, read?_wide h, ?_⟩
  intro other hother
  constructor
  · refine ⟨fun htext ↦ ?_, congrArg compact⟩
    apply Option.some.inj
    rw [← read?_compact h, htext, read?_compact hother]
  · refine ⟨fun htext ↦ ?_, congrArg wide⟩
    apply Option.some.inj
    rw [← read?_wide h, htext, read?_wide hother]

/-- A quote, a backslash, a control character and a character beyond 16 bits, at the last column. -/
def extreme : Report :=
  ⟨"E\"\\", "\x01\n😀", some ⟨"ü", 1, 2 ^ 64 - 1, some (2 ^ 64 - 1)⟩⟩

theorem layouts_lossless_extreme :
    extreme.InRange ∧ read? extreme.compact = some extreme ∧ read? extreme.wide = some extreme := by
  have hrange : extreme.InRange := by
    rintro location ⟨⟩
    refine ⟨by decide, by decide, ?_⟩
    rintro column ⟨⟩
    decide
  obtain ⟨hcompact, hwide, -⟩ := layouts_lossless hrange
  exact ⟨hrange, hcompact, hwide⟩

end Report

end Scriptlet
