import Tarn.Source.Lines

/-! The line of source around a span. -/
namespace Tarn

structure Snippet where
  line : Nat
  column : Nat
  /-- The part of the line that is shown, with an ellipsis where it was cut. -/
  text : List Char
  /-- How many characters of `text` stand before the span. -/
  markerStart : Nat
  /-- How many characters to mark, at least one. -/
  markerLength : Nat
deriving DecidableEq, Repr

namespace Snippet

def ellipsis : List Char := ['.', '.', '.']

/-- The last `n` characters, and whether there were more. -/
def lastChars (n : Nat) (cs : List Char) : List Char × Bool :=
  (cs.drop (cs.length - n), n < cs.length)

/-- The first `n` characters, and whether there were more. -/
def firstChars (n : Nat) (cs : List Char) : List Char × Bool := (cs.take n, n < cs.length)

/-- The line on which `span` starts, cut down to the span and `padding` characters on either side,
or whole. -/
def of (source : String) (table : LineTable) (span : Span) (padding : Option Nat) : Snippet :=
  let cs := source.toList
  let length := source.utf8ByteSize
  let start := min span.start length
  let (line, column) := table.position source span.start
  let (lineStart, lineStop) := (table.range? source line).getD (start, length)
  let stop := max start (min span.stop (max lineStop start))
  let covered := Text.slice cs start stop
  let before := Text.slice cs lineStart start
  let after := Text.slice cs stop lineStop
  let (before, cutBefore) := match padding with
    | some n => lastChars n before
    | none => (before, false)
  let (after, cutAfter) := match padding with
    | some n => firstChars n after
    | none => (after, false)
  let lead := (if cutBefore then ellipsis else []) ++ before
  { line, column
    text := lead ++ covered ++ after ++ (if cutAfter then ellipsis else [])
    markerStart := lead.length
    markerLength := max covered.length 1 }

end Snippet

end Tarn
