import Mathlib.Data.Finset.Card
import Mathlib.Tactic.Linarith
import Tarn.Proofs.Likeness.Names

/-! Calls of a new table of names, in any order. The names that the calls hand out number the texts
in the order in which they were first interned, and no later call changes what a name stands for.
The same holds of a table that finds its texts with a map beside the list of spellings. -/
namespace Tarn

namespace NameTable

variable {t : NameTable} {text : String} {n : Name}

/-- The way from a text to its name and the way back undo each other. -/
theorem find?_eq_some_iff : t.find? text = some n ↔ t.spellings[n.index]? = some text := by
  obtain ⟨⟨spellings⟩, first, distinct⟩ := t
  obtain ⟨i⟩ := n
  simp only [find?, List.idxOf?_toArray, Option.map_eq_some_iff, Name.mk.injEq, exists_eq_right,
    List.getElem?_toArray, List.idxOf?_eq_some_iff, List.getElem?_eq_some_iff]
  constructor
  · rintro ⟨hlt, htext, -⟩
    exact ⟨hlt, htext⟩
  · rintro ⟨hlt, htext⟩
    refine ⟨hlt, htext, ?_⟩
    intro j hj heq
    exact absurd (distinct.getElem_inj_iff.1 (heq.trans htext.symm)) (by omega)

theorem spellings_intern (t : NameTable) (text : String) : (t.intern text).2.spellings.toList =
    if text ∈ t.spellings.toList then t.spellings.toList else t.spellings.toList ++ [text] := by
  unfold intern
  split
  next n hfound =>
    have hmem : text ∈ t.spellings.toList := by
      by_contra hnot
      cases ((t.find?_eq_none text).2 hnot).symm.trans hfound
    rw [if_pos hmem]
  next hnone => rw [if_neg ((t.find?_eq_none text).1 hnone), add, Array.toList_push]

theorem intern_of_mem (h : text ∈ t.spellings.toList) : (t.intern text).2 = t := by
  cases hfound : t.find? text with
  | none => exact absurd h ((t.find?_eq_none text).1 hfound)
  | some n => rw [intern_of_find? hfound]

theorem tryIntern_of_room (h : text ∉ t.spellings.toList → t.size < UInt32.size) :
    t.tryIntern text = .ok (t.intern text) := by
  have hroom : (t.find? text).isSome ∨ t.size < UInt32.size := by
    cases hfound : t.find? text with
    | none => exact .inr (h ((t.find?_eq_none text).1 hfound))
    | some n => exact .inl rfl
  rw [tryIntern, if_pos hroom]

end NameTable

namespace Interning

/-- What may be asked of a table of names. -/
inductive Call where
  | intern (text : String)
  | tryIntern (text : String)
  | lookup (n : Name)

/-- The text that a call interns. -/
def Call.text? : Call → Option String
  | intern text | tryIntern text => some text
  | lookup _ => none

theorem Call.eq_lookup {call : Call} (h : call.text? = none) : ∃ n, call = .lookup n := by
  cases call with
  | intern text | tryIntern text => cases h
  | lookup n => exact ⟨n, rfl⟩

/-- A full table refuses a text, and halts where the caller counts on room. -/
inductive Answer where
  | name (n : Name)
  | text (text : String)
  | refused (message : String)
  | halted (message : String)

/-- How names are kept: how a text gets its name and a name its text. -/
structure Store (T : Type) where
  tryIntern : T → String → Except String (Name × T)
  spelling : T → Name → String

namespace Store

variable {T : Type} (store : Store T)

def serve (t : T) : Call → Answer × T
  | .intern text =>
      match store.tryIntern t text with
      | .ok (n, t') => (.name n, t')
      | .error message => (.halted message, t)
  | .tryIntern text =>
      match store.tryIntern t text with
      | .ok (n, t') => (.name n, t')
      | .error message => (.refused message, t)
  | .lookup n => (.text (store.spelling t n), t)

/-- What is kept after the calls. -/
def after (t : T) (calls : List Call) : T := calls.foldl (fun t call => (store.serve t call).2) t

@[simp] theorem after_append (t : T) (calls later : List Call) :
    store.after t (calls ++ later) = store.after (store.after t calls) later :=
  List.foldl_append ..

@[simp] theorem after_cons (t : T) (call : Call) (later : List Call) :
    store.after t (call :: later) = store.after (store.serve t call).2 later := rfl

@[simp] theorem after_nil (t : T) : store.after t [] = t := rfl

end Store

/-- Names as the table of spellings alone keeps them. -/
def plain : Store NameTable := ⟨NameTable.tryIntern, NameTable.spelling⟩

/-- The spellings in their order, and beside them the number of each. -/
structure IndexedTable where
  numbers : Std.HashMap String Nat
  spellings : Array String

namespace IndexedTable

def empty : IndexedTable := ⟨(∅ : Std.HashMap String Nat).insert "" 0, #[""]⟩

def find? (i : IndexedTable) (text : String) : Option Name := i.numbers[text]?.map Name.mk

def tryIntern (i : IndexedTable) (text : String) : Except String (Name × IndexedTable) :=
  match i.find? text with
  | some n => .ok (n, i)
  | none =>
      let number := i.spellings.size
      if number < UInt32.size then
        .ok (⟨number⟩, ⟨i.numbers.insert text number, i.spellings.push text⟩)
      else .error NameTable.fullMessage

def spelling (i : IndexedTable) (n : Name) : String := i.spellings.getD n.index ""

/-- The same spellings, and the map finds each where the list has it. -/
structure Tracks (i : IndexedTable) (t : NameTable) : Prop where
  spellings : i.spellings = t.spellings
  find? : ∀ text, i.find? text = t.find? text

theorem empty_tracks : empty.Tracks .empty := by
  refine ⟨rfl, fun text => ?_⟩
  by_cases htext : text = ""
  · subst htext
    have hfirst : NameTable.empty.find? "" = some ⟨0⟩ := NameTable.find?_eq_some_iff.2 rfl
    rw [hfirst]
    simp [find?, empty]
  · have hnone : NameTable.empty.find? text = none :=
      (NameTable.find?_eq_none _ _).2 (by simpa [NameTable.empty] using htext)
    rw [hnone]
    simp [find?, empty, Ne.symm htext]

end IndexedTable

/-- Names as the table with a map keeps them. -/
def indexed : Store IndexedTable := ⟨IndexedTable.tryIntern, IndexedTable.spelling⟩

namespace IndexedTable.Tracks

variable {i : IndexedTable} {t : NameTable} (h : i.Tracks t)
include h

theorem add {text : String} (hnew : text ∉ t.spellings.toList) :
    (⟨i.numbers.insert text t.size, i.spellings.push text⟩ : IndexedTable).Tracks
      (t.add text hnew) := by
  refine ⟨by rw [NameTable.add, h.spellings], fun other => ?_⟩
  have hother := h.find? other
  rw [NameTable.find?_add hnew, ← hother]
  by_cases heq : text = other
  · subst heq
    have hnone := (t.find?_eq_none text).2 hnew
    rw [hother, hnone]
    simp [IndexedTable.find?]
  · simp [IndexedTable.find?, Std.HashMap.getElem?_insert, heq]

/-- Both find the same name and go on alike, or both are full. -/
theorem tryIntern (text : String) :
    (∃ n i' t', i.tryIntern text = .ok (n, i') ∧ t.tryIntern text = .ok (n, t') ∧ i'.Tracks t') ∨
      i.tryIntern text = .error NameTable.fullMessage ∧
        t.tryIntern text = .error NameTable.fullMessage := by
  have hsize : i.spellings.size = t.size := congrArg Array.size h.spellings
  unfold IndexedTable.tryIntern
  rw [h.find?, hsize]
  cases hfound : t.find? text with
  | some n =>
    have hroom : text ∉ t.spellings.toList → t.size < UInt32.size := fun hnew => by
      cases ((t.find?_eq_none text).2 hnew).symm.trans hfound
    exact .inl ⟨n, i, t, rfl, by
      rw [NameTable.tryIntern_of_room hroom, NameTable.intern_of_find? hfound], h⟩
  | none =>
    have hnew := (t.find?_eq_none text).1 hfound
    by_cases hroom : t.size < UInt32.size
    · refine .inl ⟨⟨t.size⟩, _, t.add text hnew, if_pos hroom, ?_, h.add hnew⟩
      rw [NameTable.tryIntern_of_room fun _ => hroom, NameTable.intern]
      split
      next n hn => cases hn.symm.trans hfound
      next => rfl
    · exact .inr ⟨if_neg hroom, by simp [NameTable.tryIntern, hfound, hroom]⟩

theorem serve (call : Call) : (indexed.serve i call).1 = (plain.serve t call).1 ∧
    (indexed.serve i call).2.Tracks (plain.serve t call).2 := by
  cases call with
  | lookup n =>
    have hspelling : i.spelling n = t.spelling n := by
      rw [IndexedTable.spelling, NameTable.spelling, h.spellings]
    exact ⟨congrArg Answer.text hspelling, h⟩
  | intern text | tryIntern text =>
    obtain ⟨n, i', t', hi, ht, h'⟩ | ⟨hi, ht⟩ := h.tryIntern text
    · simp only [Store.serve, indexed, plain, hi, ht, true_and, h']
    · simp only [Store.serve, indexed, plain, hi, ht, true_and, h]

theorem after (calls : List Call) : (indexed.after i calls).Tracks (plain.after t calls) := by
  induction calls generalizing i t with
  | nil => exact h
  | cons call later ih => exact ih (h.serve call).2

end IndexedTable.Tracks

/-- The texts that the calls intern, in their order. -/
def texts (calls : List Call) : List String := calls.filterMap Call.text?

/-- The table that was new before the calls. -/
def tableAfter (calls : List Call) : NameTable := plain.after .empty calls

/-- The table with a map after the same calls. -/
def indexAfter (calls : List Call) : IndexedTable := indexed.after .empty calls

/-- One of the calls interns the text and is answered with the name. -/
def Gives (calls : List Call) (text : String) (n : Name) : Prop :=
  ∃ before call later, calls = before ++ call :: later ∧ call.text? = some text ∧
    (plain.serve (tableAfter before) call).1 = .name n

variable {calls : List Call} {text : String} {n : Name}

theorem extends_serve (t : NameTable) (call : Call) : t.Extends (plain.serve t call).2 := by
  have hintern (text : String) (n : Name) (t' : NameTable)
      (h : t.tryIntern text = .ok (n, t')) : t.Extends t' := by
    rw [NameTable.tryIntern] at h
    split at h
    next =>
      obtain rfl : (t.intern text).2 = t' := congrArg Prod.snd (Except.ok.inj h)
      exact t.extends_intern text
    next => cases h
  cases call with
  | lookup n => exact .refl t
  | intern text | tryIntern text =>
    simp only [Store.serve, plain]
    split
    next n t' h => exact hintern text n t' h
    next => exact .refl t

theorem extends_after (t : NameTable) (calls : List Call) : t.Extends (plain.after t calls) := by
  induction calls generalizing t with
  | nil => exact .refl t
  | cons call later ih => exact (extends_serve t call).trans (ih _)

/-- A call that interns does what interning without a limit does while there is room. -/
theorem serve_of_room {t : NameTable} {call : Call} (htext : call.text? = some text)
    (hroom : text ∉ t.spellings.toList → t.size < UInt32.size) :
    plain.serve t call = (.name (t.intern text).1, (t.intern text).2) := by
  have htry := NameTable.tryIntern_of_room hroom
  cases call with
  | lookup n => cases htext
  | intern text' | tryIntern text' =>
    obtain rfl : text' = text := Option.some.inj htext
    simp only [Store.serve, plain, htry]

/-- The number of texts that the calls intern stays below what a word can number. -/
def Room (calls : List Call) : Prop := (texts calls).toFinset.card < UInt32.size

instance (calls : List Call) : Decidable (Room calls) := inferInstanceAs (Decidable (_ < _))

theorem texts_append (calls later : List Call) : texts (calls ++ later) = texts calls ++ texts later :=
  List.filterMap_append

theorem texts_of_text? {call : Call} (h : call.text? = some text) : texts [call] = [text] := by
  rw [texts, List.filterMap_cons_some h, List.filterMap_nil]

theorem Room.of_append {later : List Call} (h : Room (calls ++ later)) : Room calls := by
  refine (Finset.card_le_card ?_).trans_lt h
  rw [texts_append, List.toFinset_append]
  exact Finset.subset_union_left

theorem size_of_spellings {t : NameTable} (h : t.spellings.toList = ("" :: texts calls).eraseDups) :
    t.size = 1 + ((texts calls).toFinset.erase "").card := by
  have hset : t.spellings.toList.toFinset = insert "" ((texts calls).toFinset.erase "") := by
    rw [h]
    ext text
    by_cases htext : text = "" <;> simp [htext]
  have hcard := List.toFinset_card_of_nodup t.distinct
  rw [hset, Finset.card_insert_of_notMem (Finset.notMem_erase _ _), Array.length_toList] at hcard
  rw [NameTable.size]
  omega

/-- A text that comes after the calls finds room unless the table has it. -/
theorem room_for {t : NameTable} (h : t.spellings.toList = ("" :: texts calls).eraseDups)
    {call : Call} (htext : call.text? = some text) (hroom : Room (calls ++ [call]))
    (hnew : text ∉ t.spellings.toList) : t.size < UInt32.size := by
  rw [h, List.mem_eraseDups, List.mem_cons, not_or] at hnew
  obtain ⟨hne, hnot⟩ := hnew
  rw [Room, texts_append, texts_of_text? htext, List.toFinset_append] at hroom
  have hcard : (insert text ((texts calls).toFinset.erase "")).card ≤
      ((texts calls).toFinset ∪ [text].toFinset).card := by
    refine Finset.card_le_card (Finset.insert_subset (by simp) ?_)
    exact (Finset.erase_subset _ _).trans Finset.subset_union_left
  rw [Finset.card_insert_of_notMem (by simp [hnot])] at hcard
  rw [size_of_spellings h]
  omega

theorem eraseDups_concat (l : List String) (text : String) : (l ++ [text]).eraseDups =
    if text ∈ l then l.eraseDups else l.eraseDups ++ [text] := by
  rw [List.eraseDups_append, List.removeAll]
  split
  next hmem => simp [hmem]
  next hnot => simp [hnot, List.eraseDups_cons]

/-- The spellings are the texts in the order in which they first came, behind the empty one. -/
theorem spellings_tableAfter (hroom : Room calls) :
    (tableAfter calls).spellings.toList = ("" :: texts calls).eraseDups := by
  induction calls using List.reverseRecOn with
  | nil => rfl
  | append_singleton calls call ih =>
    have h := ih hroom.of_append
    rw [tableAfter, Store.after_append] at *
    simp only [Store.after_cons, Store.after_nil]
    rw [texts_append]
    cases htext : call.text? with
    | none =>
      obtain ⟨n, rfl⟩ := Call.eq_lookup htext
      exact h.trans (by rw [texts, texts, List.filterMap_cons_none rfl, List.filterMap_nil,
        List.append_nil])
    | some text =>
      rw [serve_of_room htext (room_for h htext hroom), NameTable.spellings_intern, h,
        texts_of_text? htext, ← List.cons_append, eraseDups_concat]
      simp only [List.mem_eraseDups]

theorem mem_spellings_tableAfter (hroom : Room calls) :
    text ∈ (tableAfter calls).spellings.toList ↔ text = "" ∨ text ∈ texts calls := by
  rw [spellings_tableAfter hroom, List.mem_eraseDups, List.mem_cons]

/-- With room for all texts no call is refused. -/
theorem serve_tableAfter {before later : List Call} {call : Call}
    (hroom : Room (before ++ call :: later)) (htext : call.text? = some text) :
    plain.serve (tableAfter before) call =
      (.name ((tableAfter before).intern text).1, ((tableAfter before).intern text).2) := by
  rw [List.append_cons] at hroom
  have hprefix := hroom.of_append
  exact serve_of_room htext (room_for (spellings_tableAfter hprefix.of_append) htext hprefix)

/-- The name that a call got is the one under which the last table has the text. -/
theorem Gives.find? (hroom : Room calls) (h : Gives calls text n) :
    (tableAfter calls).find? text = some n := by
  obtain ⟨before, call, later, rfl, htext, hanswer⟩ := h
  have hserve := serve_tableAfter hroom htext
  rw [hserve] at hanswer
  rw [tableAfter, Store.after_append, Store.after_cons]
  refine extends_after _ later text n ?_
  rw [← tableAfter, hserve, ← Answer.name.inj hanswer]
  exact NameTable.find?_intern _ _

theorem gives_iff (hroom : Room calls) :
    Gives calls text n ↔ text ∈ texts calls ∧ (tableAfter calls).find? text = some n := by
  constructor
  · intro h
    refine ⟨?_, h.find? hroom⟩
    obtain ⟨before, call, later, rfl, htext, -⟩ := h
    exact List.mem_filterMap.2 ⟨call, by simp, htext⟩
  · rintro ⟨hmem, hfind⟩
    obtain ⟨call, hcall, htext⟩ := List.mem_filterMap.1 hmem
    obtain ⟨before, later, rfl⟩ := List.append_of_mem hcall
    have hgives : Gives (before ++ call :: later) text ((tableAfter before).intern text).1 :=
      ⟨before, call, later, rfl, htext, by rw [serve_tableAfter hroom htext]⟩
    obtain rfl := Option.some.inj ((hgives.find? hroom).symm.trans hfind)
    exact hgives

/-- The names that the calls of a new table get are a lasting numbering of their texts. -/
structure Lasting (calls : List Call) : Prop where
  /-- No text is refused. -/
  answered : ∀ before call later text, calls = before ++ call :: later → call.text? = some text →
    plain.serve (tableAfter before) call =
      (.name ((tableAfter before).intern text).1, ((tableAfter before).intern text).2)
  name_eq_iff : ∀ text text' n n', Gives calls text n → Gives calls text' n' →
    (n = n' ↔ text = text')
  /-- Whatever else is called, the text of a name stays what it was. -/
  lookup_later : ∀ text n, Gives calls text n → ∀ later,
    (plain.serve (tableAfter (calls ++ later)) (.lookup n)).1 = .text text
  /-- Names count the texts in the order in which they first came, from the empty one on. -/
  in_order : ∀ text n, Gives calls text n ↔
    text ∈ texts calls ∧ ("" :: texts calls).eraseDups[n.index]? = some text
  unchanged : ∀ call, (∀ text, call.text? = some text → text = "" ∨ text ∈ texts calls) →
    (plain.serve (tableAfter calls) call).2 = tableAfter calls
  size_eq : (tableAfter calls).size = 1 + ((texts calls).toFinset.erase "").card
  lookup_unknown : ∀ n, (∀ text, ¬ Gives calls text n) →
    (plain.serve (tableAfter calls) (.lookup n)).1 = .text ""
  /-- A map beside the list of spellings answers alike, and neither half knows more than the
  other. -/
  indexed : ∀ before later, calls = before ++ later →
    (∀ call, (indexed.serve (indexAfter before) call).1 =
      (plain.serve (tableAfter before) call).1) ∧
    (indexAfter before).spellings = (tableAfter before).spellings ∧
    ∀ (text : String) (i : Nat), (indexAfter before).numbers[text]? = some i ↔
      (indexAfter before).spellings[i]? = some text

theorem IndexedTable.Tracks.numbers_iff {i : IndexedTable} {t : NameTable} (h : i.Tracks t)
    (text : String) (k : Nat) : i.numbers[text]? = some k ↔ i.spellings[k]? = some text := by
  have hfind : i.find? text = some ⟨k⟩ ↔ t.find? text = some ⟨k⟩ := by rw [h.find?]
  rw [NameTable.find?_eq_some_iff, ← h.spellings] at hfind
  rw [← hfind]
  simp [IndexedTable.find?]

theorem names_last (hroom : Room calls) : Lasting calls where
  answered := by
    rintro before call later text rfl htext
    exact serve_tableAfter hroom htext
  name_eq_iff := by
    intro text text' n n' h h'
    have hfind := h.find? hroom
    have hfind' := h'.find? hroom
    constructor
    · rintro rfl
      rw [← NameTable.spelling_of_find? hfind, ← NameTable.spelling_of_find? hfind']
    · rintro rfl
      exact Option.some.inj (hfind.symm.trans hfind')
  lookup_later := by
    intro text n h later
    have hfind := extends_after (tableAfter calls) later text n (h.find? hroom)
    rw [tableAfter, Store.after_append]
    exact congrArg Answer.text (NameTable.spelling_of_find? hfind)
  in_order := by
    intro text n
    rw [gives_iff hroom, NameTable.find?_eq_some_iff, ← Array.getElem?_toList,
      spellings_tableAfter hroom]
  unchanged := by
    intro call hknown
    cases htext : call.text? with
    | none =>
      obtain ⟨n, rfl⟩ := Call.eq_lookup htext
      rfl
    | some text =>
      have hmem := (mem_spellings_tableAfter hroom).2 (hknown text htext)
      rw [serve_of_room htext fun hnew => absurd hmem hnew]
      exact NameTable.intern_of_mem hmem
  size_eq := size_of_spellings (spellings_tableAfter hroom)
  lookup_unknown := by
    intro n hnone
    refine congrArg Answer.text ?_
    change (tableAfter calls).spellings.getD n.index "" = ""
    rw [Array.getD_eq_getD_getElem?]
    cases hspelling : (tableAfter calls).spellings[n.index]? with
    | none => rfl
    | some text =>
      -- Only the empty text is there without being interned.
      by_contra hne
      have hmem : text ∈ (tableAfter calls).spellings.toList := by
        rw [← Array.getElem?_toList] at hspelling
        exact List.mem_of_getElem? hspelling
      have htext := ((mem_spellings_tableAfter hroom).1 hmem).resolve_left hne
      exact hnone text ((gives_iff hroom).2 ⟨htext, NameTable.find?_eq_some_iff.2 hspelling⟩)
  indexed := by
    rintro before later rfl
    have htracks := IndexedTable.empty_tracks.after before
    exact ⟨fun call => (htracks.serve call).1, htracks.spellings, htracks.numbers_iff⟩

/-- Texts that come again, a look-up of a name not given yet, and the empty text. -/
theorem names_last_again :
    Room [.intern "a", .lookup ⟨2⟩, .tryIntern "b", .intern "a", .intern ""] ∧
      Lasting [.intern "a", .lookup ⟨2⟩, .tryIntern "b", .intern "a", .intern ""] :=
  ⟨by decide +kernel, names_last (by decide +kernel)⟩

end Interning

end Tarn
