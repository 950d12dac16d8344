import Scriptlet.Error
import Scriptlet.Json.Printer

/-!
# Error reports

What tools are told about an error: its code, its message and, for errors in the text, where it
stands. A report is written as JSON in one line or spread over several.
-/

namespace Scriptlet

structure Location where
  file : String
  line : Nat
  column : Nat
  /-- The column after the offending text, unless that is empty. -/
  endColumn : Option Nat
deriving DecidableEq, Repr

structure Report where
  code : String
  message : String
  location : Option Location
deriving DecidableEq, Repr

def Location.ofSpan (file : String) (span : Span) : Location :=
  ⟨file, span.line, span.column,
    if span.isEmpty then none else some (span.column + span.length)⟩

def Location.toJson (location : Location) : Json :=
  .object [("file", .string location.file), ("line", .ofNat location.line),
    ("column", .ofNat location.column), ("end_column", Json.ofOption Json.ofNat location.endColumn)]

namespace Report

def ofError (file : String) (error : Error) : Report :=
  ⟨error.code, error.message, error.span?.map (Location.ofSpan file)⟩

def toJson (report : Report) : Json :=
  .object [("code", .string report.code), ("severity", .string "error"),
    ("message", .string report.message),
    ("location", Json.ofOption Location.toJson report.location)]

/-- The report in one line. -/
def compact (report : Report) : String := report.toJson.compact

/-- The report spread over several lines. -/
def wide (report : Report) : String := report.toJson.wide

end Report

end Scriptlet
