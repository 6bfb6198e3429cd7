import Tarn.Name
import Tarn.Source.Span

/-! Names of different tables that stand for the same text. Which number a text has depends on what
was read before it, and nothing else may. -/
namespace Tarn

namespace NameTable

/-- Every text that `t` knows has the same name in `t'`. -/
def Extends (t t' : NameTable) : Prop := ∀ text n, t.find? text = some n → t'.find? text = some n

theorem Extends.refl (t : NameTable) : t.Extends t := fun _ _ h => h

theorem Extends.trans {t t' t'' : NameTable} (h : t.Extends t') (h' : t'.Extends t'') :
    t.Extends t'' := fun text n hn => h' text n (h text n hn)

theorem find?_add {t : NameTable} {text : String} (h : text ∉ t.spellings.toList)
    (other : String) : (t.add text h).find? other =
      (t.find? other).or (if text = other then some ⟨t.size⟩ else none) := by
  have hfind (u : NameTable) :
      u.find? other = (u.spellings.toList.findIdx? (· == other)).map Name.mk := by
    obtain ⟨⟨spellings⟩, _, _⟩ := u
    rw [find?, List.idxOf?_toArray]
    rfl
  rw [hfind, hfind, add, Array.toList_push, List.findIdx?_append]
  by_cases hother : text = other <;> cases List.findIdx? (· == other) t.spellings.toList <;>
    simp [hother, size]

theorem extends_add {t : NameTable} {text : String} (h : text ∉ t.spellings.toList) :
    t.Extends (t.add text h) := by
  intro other n hn
  rw [find?_add h, hn, Option.some_or]

/-- What was just interned is found under the name that it got. -/
@[simp] theorem find?_intern (t : NameTable) (text : String) :
    (t.intern text).2.find? text = some (t.intern text).1 := by
  unfold intern
  split
  next n h => exact h
  next h => simp [find?_add, h]

theorem intern_of_find? {t : NameTable} {text : String} {n : Name} (h : t.find? text = some n) :
    t.intern text = (n, t) := by
  unfold intern
  split
  next m hm => rw [Option.some.inj (hm.symm.trans h)]
  next hnone => cases hnone.symm.trans h

theorem extends_intern (t : NameTable) (text : String) : t.Extends (t.intern text).2 := by
  unfold intern
  split
  next => exact .refl t
  next h => exact extends_add ((t.find?_eq_none text).1 h)

/-- The two names are those of one text. -/
def SameSpelling (t t' : NameTable) (n n' : Name) : Prop :=
  ∃ text, t.find? text = some n ∧ t'.find? text = some n'

namespace SameSpelling

variable {t t' : NameTable} {a b a' b' : Name}

theorem spelling_eq (h : t.SameSpelling t' a a') : t.spelling a = t'.spelling a' := by
  obtain ⟨text, hn, hn'⟩ := h
  rw [spelling_of_find? hn, spelling_of_find? hn']

theorem symm (h : t.SameSpelling t' a a') : t'.SameSpelling t a' a := by
  obtain ⟨text, hn, hn'⟩ := h
  exact ⟨text, hn', hn⟩

theorem eq_right (h : t.SameSpelling t' a a') (h' : t.SameSpelling t' a b') : a' = b' := by
  obtain ⟨text, hn, hn'⟩ := h
  obtain ⟨text', hm, hm'⟩ := h'
  obtain rfl : text = text' := by rw [← spelling_of_find? hn, ← spelling_of_find? hm]
  exact Option.some.inj (hn'.symm.trans hm')

theorem eq_iff (h : t.SameSpelling t' a a') (h' : t.SameSpelling t' b b') : a = b ↔ a' = b' := by
  constructor
  · rintro rfl
    exact h.eq_right h'
  · rintro rfl
    exact h.symm.eq_right h'.symm

theorem mono {u u' : NameTable} (h : t.SameSpelling t' a a') (ht : t.Extends u)
    (ht' : t'.Extends u') : u.SameSpelling u' a a' := by
  obtain ⟨text, hn, hn'⟩ := h
  exact ⟨text, ht text a hn, ht' text a' hn'⟩

theorem intern (t t' : NameTable) (text : String) :
    (t.intern text).2.SameSpelling (t'.intern text).2 (t.intern text).1 (t'.intern text).1 :=
  ⟨text, t.find?_intern text, t'.find?_intern text⟩

end SameSpelling

end NameTable

/-- What two programs are compared by: the tables of their names, and which places stand for
which. -/
structure Likeness where
  left : NameTable
  right : NameTable
  place : Span → Span → Prop

namespace Likeness

/-- The names are those of one text. -/
def name (L : Likeness) (n n' : Name) : Prop := L.left.SameSpelling L.right n n'

/-- The same places. -/
abbrev inPlace (t t' : NameTable) : Likeness := ⟨t, t', Eq⟩

/-- Names that stand for each other in `L` do so in `L'`. -/
def NamesIn (L L' : Likeness) : Prop := ∀ ⦃n n'⦄, L.name n n' → L'.name n n'

/-- The tables may grow. -/
theorem namesIn_of_extends {L L' : Likeness} (h : L.left.Extends L'.left)
    (h' : L.right.Extends L'.right) : L.NamesIn L' := fun _ _ hn => hn.mono h h'

/-- The places do not matter. -/
theorem namesIn_of_tables (t t' : NameTable) (place place' : Span → Span → Prop) :
    NamesIn ⟨t, t', place⟩ ⟨t, t', place'⟩ := fun _ _ hn => hn

theorem name_iff {L : Likeness} {a b a' b' : Name} (h : L.name a a') (h' : L.name b b') :
    a = b ↔ a' = b' := h.eq_iff h'

end Likeness

end Tarn
