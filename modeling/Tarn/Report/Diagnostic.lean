import Tarn.Report.Code
import Tarn.Source.Span

/-! A problem in a source text, as it is reported. -/
namespace Tarn

inductive Severity where
  | error | warning
deriving DecidableEq, Repr

def Severity.toString : Severity → String
  | error => "error"
  | warning => "warning"

/-- A place with a remark. The primary labels mark the problem, the others code related to it. -/
structure Label where
  span : Span
  message : String
  isPrimary : Bool
deriving DecidableEq, Repr

structure Diagnostic where
  code : ErrorCode
  severity : Severity := .error
  message : String := ""
  labels : List Label := []
  notes : List String := []
  help : List String := []
deriving DecidableEq, Repr

namespace Diagnostic

def label (d : Diagnostic) (span : Span) (message : String) : Diagnostic :=
  { d with labels := d.labels ++ [⟨span, message, true⟩] }

def secondaryLabel (d : Diagnostic) (span : Span) (message : String) : Diagnostic :=
  { d with labels := d.labels ++ [⟨span, message, false⟩] }

def note (d : Diagnostic) (text : String) : Diagnostic := { d with notes := d.notes ++ [text] }

def suggest (d : Diagnostic) (text : String) : Diagnostic := { d with help := d.help ++ [text] }

def isError (d : Diagnostic) : Bool := d.severity == .error

/-- The place of the first primary label. -/
def primarySpan? (d : Diagnostic) : Option Span := (d.labels.find? (·.isPrimary)).map (·.span)

/-- Where the problem starts; the start of the source if no label says it. -/
def offset (d : Diagnostic) : Nat := (d.primarySpan?.map (·.start)).getD 0

/-- How many bytes the problem covers, at least one. -/
def length (d : Diagnostic) : Nat := (d.primarySpan?.map fun s => max s.length 1).getD 1

section

variable {d : Diagnostic} {place : Span} (h : d.primarySpan? = some place)
include h

theorem offset_eq : d.offset = place.start := by
  rw [offset, h, Option.map_some, Option.getD_some]

theorem length_eq : d.length = max place.length 1 := by
  rw [length, h, Option.map_some, Option.getD_some]

end

/-- The mark in front of a label that is written without its source. -/
def marker (l : Label) : String := if l.isPrimary then "-->" else "   "

/-- The diagnostic without source text, one line for each part. -/
def toString (d : Diagnostic) : String :=
  let head := s!"{d.severity.toString} [{d.code.toString}]: {d.message}"
  let labels := d.labels.map fun l => s!"\n  {marker l} {l.span}: {l.message}"
  let notes := d.notes.map fun text => s!"\n  = note: {text}"
  let help := d.help.map fun text => s!"\n  = help: {text}"
  head ++ String.join (labels ++ notes ++ help)

end Diagnostic

end Tarn
