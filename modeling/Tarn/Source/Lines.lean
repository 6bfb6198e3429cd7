import Tarn.Source.Span

/-! Lines and columns of a source text. Both count from one; a column counts characters. They are
words, as offsets are. -/
namespace Tarn

/-- The offsets at which the lines of a text start, in order. -/
structure LineTable where
  starts : Array Nat
  starts_le : ∀ start ∈ starts, start ≤ Span.maxOffset

namespace LineTable

/-- An offset as a word. One that is too large becomes the largest. -/
def clip (offset : Nat) : Nat := min offset Span.maxOffset

/-- The word after `n`. Behind the largest there is zero. -/
def next (n : Nat) : Nat := (n + 1) % Span.offsetBound

/-- The number, from one, of what comes after `index` others. An index that is no word is taken for
the last but one. -/
def ordinal (index : Nat) : Nat :=
  next (if index ≤ Span.maxOffset then index else Span.maxOffset - 1)

/-- The offsets just after each newline, for text that begins at `offset`. -/
def startsAfter : Nat → List Char → List Nat
  | _, [] => []
  | offset, c :: cs =>
      let stop := offset + c.utf8Size
      if c = '\n' then clip stop :: startsAfter stop cs else startsAfter stop cs

theorem le_of_mem_startsAfter {offset start : Nat} {cs : List Char}
    (h : start ∈ startsAfter offset cs) : start ≤ Span.maxOffset := by
  induction cs generalizing offset with
  | nil => cases h
  | cons c cs ih =>
    rw [startsAfter] at h
    split at h
    · obtain rfl | h := List.mem_cons.1 h
      · exact Nat.min_le_right ..
      · exact ih h
    · exact ih h

def ofSource (source : String) : LineTable where
  starts := (0 :: startsAfter 0 source.toList).toArray
  starts_le start h := by
    obtain rfl | h := List.mem_cons.1 (List.mem_toArray.1 h)
    · exact Nat.zero_le _
    · exact le_of_mem_startsAfter h

def count (t : LineTable) : Nat := t.starts.size

/-- How many of the sorted starts are at most `offset`, if it is known that at least `low` are and at
most `high`. Each step halves the doubt. -/
def countUpTo (starts : Array Nat) (offset : Nat) : Nat → Nat → Nat → Nat
  | 0, low, _ => low
  | fuel + 1, low, high =>
      if low < high then
        let middle := (low + high) / 2
        if starts.getD middle 0 ≤ offset then countUpTo starts offset fuel (middle + 1) high
        else countUpTo starts offset fuel low middle
      else low

/-- How many lines start at `offset` or before it. -/
def linesUpTo (t : LineTable) (offset : Nat) : Nat := countUpTo t.starts offset t.count 0 t.count

/-- The line that holds the byte at `offset`. Past the end it is the last line. -/
def lineAt (t : LineTable) (offset : Nat) : Nat := ordinal (t.linesUpTo offset - 1)

/-- Where a line starts, if there is such a line. -/
def start? (t : LineTable) (line : Nat) : Option Nat :=
  if line = 0 then none else t.starts[line - 1]?

/-- The offsets of a line's text, without its newline. -/
def range? (t : LineTable) (source : String) (line : Nat) : Option (Nat × Nat) :=
  (t.start? line).map fun start =>
    let stop := match t.start? (next line) with
      | some following => following - 1
      | none => source.utf8ByteSize
    (start, max stop start)

/-- What stands before `offset` on its line. There is nothing if that splits a character. -/
def before (t : LineTable) (source : String) (offset : Nat) : List Char :=
  let start := (t.start? (t.lineAt offset)).getD 0
  Text.slice source.toList start (min offset source.utf8ByteSize)

/-- The line and column of an offset. -/
def position (t : LineTable) (source : String) (offset : Nat) : Nat × Nat :=
  (t.lineAt offset, ordinal (t.before source offset).length)

end LineTable

end Tarn
