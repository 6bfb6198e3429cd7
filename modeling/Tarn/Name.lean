/-! Spellings and the numbers that stand for them. Equal names are equal spellings. -/
namespace Tarn

structure Name where
  index : Nat
deriving DecidableEq, Repr, Inhabited

namespace Name

/-- The name of the empty text. -/
def empty : Name := ⟨0⟩

def toString (n : Name) : String := s!"Name({n.index})"

end Name

/-- The spellings seen so far, in the order in which they were first seen. The empty text comes
first, and none comes twice. -/
structure NameTable where
  spellings : Array String
  empty_first : spellings[0]? = some ""
  distinct : spellings.toList.Nodup

namespace NameTable

def empty : NameTable := ⟨#[""], rfl, by simp⟩

instance : Inhabited NameTable := ⟨empty⟩

def size (t : NameTable) : Nat := t.spellings.size

def find? (t : NameTable) (text : String) : Option Name := (t.spellings.idxOf? text).map Name.mk

theorem find?_eq_none (t : NameTable) (text : String) :
    t.find? text = none ↔ text ∉ t.spellings.toList := by
  simp [find?]

def add (t : NameTable) (text : String) (h : text ∉ t.spellings.toList) : NameTable where
  spellings := t.spellings.push text
  empty_first := by
    have hlt : 0 < t.spellings.size := by
      have := t.empty_first
      simp only [Array.getElem?_eq_some_iff] at this
      exact this.1
    rw [Array.getElem?_push_lt hlt, ← Array.getElem?_eq_getElem hlt]
    exact t.empty_first
  distinct := by
    simp only [Array.toList_push]
    exact List.nodup_append.2 ⟨t.distinct, by simp, by
      intro a ha b hb hab
      simp only [List.mem_singleton] at hb
      exact h (hb ▸ hab ▸ ha)⟩

/-- The name of a text, which is new if the text is. The table is taken to have room for it; what
happens otherwise is said by `tryIntern`. -/
def intern (t : NameTable) (text : String) : Name × NameTable :=
  match h : t.find? text with
  | some n => (n, t)
  | none => (⟨t.size⟩, t.add text ((t.find?_eq_none text).1 h))

/-- The text of a name; empty for a name that the table does not know. -/
def spelling (t : NameTable) (n : Name) : String := t.spellings.getD n.index ""

theorem spelling_of_find? {t : NameTable} {text : String} {n : Name}
    (h : t.find? text = some n) : t.spelling n = text := by
  obtain ⟨i, hi, rfl⟩ := Option.map_eq_some_iff.1 h
  rw [Array.idxOf?_eq_map_finIdxOf?_val] at hi
  obtain ⟨j, hj, rfl⟩ := Option.map_eq_some_iff.1 hi
  have := (Array.finIdxOf?_eq_some_iff.1 hj).1
  simpa [spelling] using this

@[simp] theorem spelling_intern (t : NameTable) (text : String) :
    (t.intern text).2.spelling (t.intern text).1 = text := by
  unfold intern
  split
  next n h => exact spelling_of_find? h
  next => simp [spelling, add, size]

/-- What is said when there are as many names as a word can number. -/
def fullMessage : String := s!"more than {UInt32.size - 1} distinct names in one session"

/-- The name of a text, unless it is new and there are as many names as a word can number. -/
def tryIntern (t : NameTable) (text : String) : Except String (Name × NameTable) :=
  if (t.find? text).isSome ∨ t.size < UInt32.size then .ok (t.intern text) else .error fullMessage

end NameTable

end Tarn
