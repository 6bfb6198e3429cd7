import Tarn.Report.Diagnostic
import Tarn.Report.Snippet

/-! Diagnostics for people to read, in colour if wanted. With the source text at hand each label
shows the line that it points into. -/
namespace Tarn

inductive ColorMode where
  /-- In colour only on a terminal. -/
  | auto
  | always
  | never
deriving DecidableEq, Repr

namespace ColorMode

def ofString? : String → Option ColorMode
  | "auto" => some auto
  | "always" => some always
  | "never" => some never
  | _ => none

def invalidMessage (text : String) : String :=
  s!"invalid color mode `{text}` (expected auto, always or never)"

def usesColors (isTerminal : Bool) : ColorMode → Bool
  | auto => isTerminal
  | always => true
  | never => false

end ColorMode

inductive Style where
  | error | warning | note | help | bold | gutter
deriving DecidableEq, Repr

namespace Style

def code : Style → String
  | error => "\x1b[1;31m"
  | warning => "\x1b[1;33m"
  | note => "\x1b[1;36m"
  | help => "\x1b[1;32m"
  | bold => "\x1b[1m"
  | gutter => "\x1b[1;34m"

def reset : String := "\x1b[0m"

def ofSeverity : Severity → Style
  | .error => error
  | .warning => warning

def ofLabel (l : Label) : Style := if l.isPrimary then error else gutter

end Style

/-- How diagnostics are written. -/
structure Terminal where
  colors : Bool := false
  source : Option String := none
  path : Option String := none
  /-- How many characters to show on either side of a span; all if there is no limit. -/
  padding : Option Nat := none

namespace Terminal

def paint (t : Terminal) (style : Style) (text : String) : String :=
  if t.colors then style.code ++ text ++ Style.reset else text

def spaces (n : Nat) : String := "".pushn ' ' n

/-- A label without its source. -/
def bareLabel (t : Terminal) (l : Label) : String :=
  s!"  {Diagnostic.marker l} {l.span}: {t.paint (Style.ofLabel l) l.message}\n"

/-- The marks under the span and the message after them. -/
def pointer (l : Label) (length : Nat) : String :=
  let marks := "".pushn (if l.isPrimary then '^' else '-') length
  if l.message.isEmpty then marks else marks ++ " " ++ l.message

def snippetLabel (t : Terminal) (source : String) (table : LineTable) (l : Label) : String :=
  let snippet := Snippet.of source table l.span t.padding
  let number := toString snippet.line
  let gutter := spaces number.length
  let bar := t.paint .gutter (gutter ++ " |")
  let numbered := t.paint .gutter (number ++ " |")
  let arrow := if l.isPrimary then "-->" else ":::"
  let path := (t.path.map (· ++ ":")).getD ""
  let text := String.ofList snippet.text
  let marks := t.paint (Style.ofLabel l) (pointer l snippet.markerLength)
  s!"{gutter}{arrow} {path}{snippet.line}:{snippet.column}\n" ++
    s!"{bar}\n" ++
    s!"{numbered} {text}\n" ++
    s!"{bar} {spaces snippet.markerStart}{marks}\n"

def remark (t : Terminal) (style : Style) (head text : String) : String :=
  s!"  = {t.paint style head}: {text}\n"

/-- One diagnostic and an empty line. -/
def render (t : Terminal) (d : Diagnostic) : String :=
  let head := t.paint (Style.ofSeverity d.severity) d.severity.toString ++
    t.paint .bold ("[" ++ d.code.toString ++ "]") ++ ": " ++ d.message ++ "\n"
  let labels := match t.source with
    | some source => d.labels.map (t.snippetLabel source (LineTable.ofSource source))
    | none => d.labels.map t.bareLabel
  let notes := d.notes.map (t.remark .note "note")
  let help := d.help.map (t.remark .help "help")
  head ++ String.join (labels ++ notes ++ help) ++ "\n"

def renderAll (t : Terminal) (ds : List Diagnostic) : String := String.join (ds.map t.render)

/-- What closes a list of diagnostics, if there is anything to say. -/
def summary? (errors warnings : Nat) : Option (Severity × String) :=
  let warned := match warnings with
    | 0 => none
    | 1 => some "1 warning emitted"
    | n => some s!"{n} warnings emitted"
  match errors with
  | 0 => warned.map (Severity.warning, ·)
  | n + 1 =>
      let text := if n = 0 then "aborting due to previous error"
        else s!"aborting due to {n + 1} previous errors"
      some (.error, text ++ (warned.map ("; " ++ ·)).getD "")

def renderSummary (t : Terminal) (errors warnings : Nat) : String :=
  match summary? errors warnings with
  | some (severity, text) =>
      t.paint (Style.ofSeverity severity) severity.toString ++ ": " ++ text ++ "\n"
  | none => ""

end Terminal

end Tarn
