import Tarn.Text.Bytes

/-! Places in a source text, as half-open ranges of bytes. -/
namespace Tarn

structure Span where
  start : Nat
  stop : Nat
deriving DecidableEq, Repr, Inhabited

namespace Span

/-- Offsets are words of this many values. -/
def offsetBound : Nat := UInt32.size

/-- The largest offset that a span can hold. -/
def maxOffset : Nat := offsetBound - 1

def point (offset : Nat) : Span := ⟨offset, offset⟩

/-- The span of what has no text of its own. -/
def nowhere : Span := point 0

/-- The bytes covered, as a word: it wraps when the ends are out of order. -/
def length (s : Span) : Nat := (s.stop + offsetBound - s.start) % offsetBound

def isEmpty (s : Span) : Bool := s.start == s.stop

/-- The smallest span over both. -/
def merge (a b : Span) : Span := ⟨min a.start b.start, max a.stop b.stop⟩

def shift (s : Span) (n : Nat) : Span := ⟨s.start + n, s.stop + n⟩

/-- The characters covered. There are none if the span leaves the source or splits a character. -/
def charsIn (s : Span) (source : List Char) : List Char := Text.slice source s.start s.stop

def textIn (s : Span) (source : String) : String := String.ofList (s.charsIn source.toList)

def toString (s : Span) : String := s!"{s.start}..{s.stop}"

instance : ToString Span := ⟨toString⟩

/-- A span from offsets that may be too large; the error is the first that is. -/
def ofOffsets (start stop : Nat) : Except Nat Span :=
  if maxOffset < start then .error start
  else if maxOffset < stop then .error stop
  else .ok ⟨start, stop⟩

/-- What is said of an offset that is too large. -/
def overflowMessage (offset : Nat) : String :=
  s!"byte offset {offset} is past the {maxOffset}-byte source limit"

theorem length_le (s : Span) (h : s.start ≤ s.stop) : s.start + s.length ≤ s.stop := by
  have : s.stop + offsetBound - s.start = s.stop - s.start + offsetBound := by omega
  have := Nat.mod_le (s.stop - s.start) offsetBound
  simp only [length, *, Nat.add_mod_right]
  omega

/-- The span lies in a text of `n` bytes, and before its end even if the span is empty. -/
structure Inside (s : Span) (n : Nat) : Prop where
  start_lt : s.start < n
  start_le : s.start ≤ s.stop
  stop_le : s.stop ≤ n

namespace Inside

variable {a b : Span} {n : Nat}

theorem merge (ha : a.Inside n) (hb : b.Inside n) : (a.merge b).Inside n :=
  ⟨Nat.lt_of_le_of_lt (Nat.min_le_left ..) ha.start_lt,
    Nat.le_trans (Nat.min_le_left ..) (Nat.le_trans ha.start_le (Nat.le_max_left ..)),
    Nat.max_le.2 ⟨ha.stop_le, hb.stop_le⟩⟩

theorem point (h : a.Inside n) : (Span.point a.start).Inside n :=
  ⟨h.start_lt, Nat.le_refl _, Nat.le_of_lt h.start_lt⟩

end Inside

theorem length_eq {s : Span} (h : s.start ≤ s.stop) (hmax : s.stop ≤ maxOffset) :
    s.length = s.stop - s.start := by
  have hbound : s.stop - s.start < offsetBound := by
    rw [maxOffset, offsetBound, UInt32.size] at hmax
    rw [offsetBound, UInt32.size]
    omega
  rw [length, Nat.sub_add_comm h, Nat.add_mod_right, Nat.mod_eq_of_lt hbound]

/-- A span that is marked with at least one byte is inside just if its mark is. -/
theorem mark_le_iff {s : Span} {n : Nat} (h : s.start ≤ s.stop) (hmax : s.stop ≤ maxOffset) :
    s.start + max s.length 1 ≤ n ↔ s.Inside n := by
  rw [length_eq h hmax]
  constructor
  · intro hn
    exact ⟨by omega, h, by omega⟩
  · rintro ⟨hstart, -, hstop⟩
    omega

end Span

end Tarn
