import Mathlib.Data.List.DropRight
import Mathlib.Data.Prod.Lex
import Tarn.Source.Lines

/-! Lines and columns, counted. A line table finds the line of an offset by halving its list of line
starts; what it finds is one more than the newlines in the bytes before, and a column is one more
than the characters since the last of them, as long as these numbers are words. Different places
between characters have different lines or columns, and later places come later. -/
namespace Tarn

namespace Text

/-- The bytes of the characters in UTF-8. -/
def bytes (cs : List Char) : List UInt8 := cs.flatMap String.utf8EncodeChar

/-- The byte of a newline. -/
def newlineByte : UInt8 := 0x0a

/-- How many of the bytes before an offset are newlines. -/
def newlinesBefore (source : String) (offset : Nat) : Nat :=
  (source.toUTF8.data.toList.take (min offset source.utf8ByteSize)).count newlineByte

/-- The offset lies between two characters, or at an end of the text. -/
def IsBoundary (cs : List Char) (offset : Nat) : Prop := ∃ a b, cs = a ++ b ∧ size a = offset

theorem IsBoundary.of_append {cs a b : List Char} (h : cs = a ++ b) : IsBoundary cs (size a) :=
  ⟨a, b, h, rfl⟩

/-- The characters after the last newline. -/
def lastLine (cs : List Char) : List Char := cs.rtakeWhile (· ≠ '\n')

/-- All up to the last newline, with it. -/
def fullLines (cs : List Char) : List Char := cs.rdropWhile (· ≠ '\n')

/-- The characters before the first newline. -/
def firstLine (cs : List Char) : List Char := cs.takeWhile (· ≠ '\n')

theorem fullLines_append_lastLine (cs : List Char) : fullLines cs ++ lastLine cs = cs :=
  List.rdropWhile_append_rtakeWhile

theorem ne_newline {cs : List Char} (h : '\n' ∉ cs) : ∀ c ∈ cs, decide (c ≠ '\n') = true := by
  intro c hc
  simp only [decide_eq_true_eq]
  rintro rfl
  exact h hc

theorem lastLine_append {a b : List Char} (h : '\n' ∉ b) : lastLine (a ++ b) = lastLine a ++ b := by
  have hall := ne_newline (mt List.mem_reverse.1 h)
  rw [lastLine, lastLine, List.rtakeWhile, List.reverse_append, List.takeWhile_append_of_pos hall,
    List.reverse_append, List.reverse_reverse, List.rtakeWhile]

theorem lastLine_eq_self {cs : List Char} (h : '\n' ∉ cs) : lastLine cs = cs := by
  rw [← List.nil_append cs, lastLine_append h]
  rfl

theorem firstLine_append_of_notMem {a : List Char} (h : '\n' ∉ a) (b : List Char) :
    firstLine (a ++ b) = a ++ firstLine b := List.takeWhile_append_of_pos (ne_newline h)

theorem firstLine_eq_self {cs : List Char} (h : '\n' ∉ cs) : firstLine cs = cs := by
  have happend := firstLine_append_of_notMem h []
  rwa [List.append_nil, show firstLine [] = [] from rfl, List.append_nil] at happend

theorem exists_eq_firstLine_append (cs : List Char) : ∃ rest, cs = firstLine cs ++ rest := by
  obtain ⟨rest, hrest⟩ := List.takeWhile_prefix (l := cs) (· ≠ '\n')
  exact ⟨rest, hrest.symm⟩

theorem size_fullLines_le (a : List Char) : size (fullLines a) ≤ size a := by
  conv_rhs => rw [← fullLines_append_lastLine a, size_append]
  exact Nat.le_add_right _ _

theorem fullLines_eq_self {cs : List Char} (h : lastLine cs = []) : fullLines cs = cs := by
  have happend := fullLines_append_lastLine cs
  rwa [h, List.append_nil] at happend

/-- Of two beginnings of a text the shorter one is a beginning of the longer one. -/
theorem exists_append_of_size_le {a b a' b' : List Char} (h : a ++ b = a' ++ b')
    (hle : size a ≤ size a') : ∃ d, a' = a ++ d := by
  rcases List.append_eq_append_iff.1 h with ⟨d, rfl, -⟩ | ⟨d, rfl, -⟩
  · exact ⟨d, rfl⟩
  · cases d with
    | nil => exact ⟨[], by simp⟩
    | cons c d =>
      have := c.utf8Size_pos
      simp only [size_append, size_cons] at hle
      omega

theorem length_le_size (cs : List Char) : cs.length ≤ size cs := by
  induction cs with
  | nil => exact le_rfl
  | cons c cs ih =>
    have := c.utf8Size_pos
    rw [List.length_cons, size_cons]
    omega

theorem length_slice_le (cs : List Char) (start stop : Nat) :
    (slice cs start stop).length ≤ size cs := by
  rw [slice]
  split
  · cases hdrop : drop? cs start with
    | none => exact Nat.zero_le _
    | some rest =>
      cases htake : take? rest (stop - start) with
      | none => simp [htake]
      | some taken =>
        obtain ⟨front, rfl, -⟩ := drop?_eq_some.1 hdrop
        obtain ⟨hinit, -⟩ := take?_eq_some.1 htake
        have := hinit.length_le
        have := length_le_size rest
        simp only [Option.bind_some, htake, Option.getD_some, size_append]
        omega
  · exact Nat.zero_le _

theorem bytes_toList (source : String) : bytes source.toList = source.toUTF8.data.toList := by
  rw [String.toUTF8_eq_toByteArray, ← String.utf8Encode_toList, List.utf8Encode,
    List.data_toByteArray, bytes]

theorem bytes_append (a b : List Char) : bytes (a ++ b) = bytes a ++ bytes b := List.flatMap_append

theorem length_bytes (cs : List Char) : (bytes cs).length = size cs := by
  induction cs with
  | nil => rfl
  | cons c cs ih =>
    simp only [bytes, List.flatMap_cons, List.length_append, String.length_utf8EncodeChar, size_cons]
    exact congrArg _ ih

/-- All bytes of a longer character are at least 128. -/
theorem newlineByte_notMem {c : Char} (hc : c ≠ '\n') :
    newlineByte ∉ String.utf8EncodeChar c := by
  have hval : c.val.toNat ≠ 10 := by
    intro h
    exact hc (Char.ext (UInt32.toNat_inj.1 h))
  have hvalid := c.valid
  simp only [UInt32.isValidChar, Nat.isValidChar] at hvalid
  simp only [String.utf8EncodeChar, newlineByte]
  split_ifs <;> simp only [List.mem_cons, List.not_mem_nil, or_false, not_or, ← UInt8.toNat_inj,
    UInt8.toNat_ofNat', UInt8.toNat_ofNat] <;> omega

theorem count_utf8EncodeChar (c : Char) :
    (String.utf8EncodeChar c).count newlineByte = if c = '\n' then 1 else 0 := by
  split
  next h => subst h; decide
  next h => exact List.count_eq_zero.2 (newlineByte_notMem h)

theorem count_bytes (cs : List Char) : (bytes cs).count newlineByte = cs.count '\n' := by
  induction cs with
  | nil => rfl
  | cons c cs ih =>
    simp only [bytes, List.flatMap_cons, List.count_append, count_utf8EncodeChar, List.count_cons]
    rw [← bytes, ih]
    simp only [beq_iff_eq]
    omega

theorem newlinesBefore_eq (source : String) (offset : Nat) :
    newlinesBefore source offset = ((bytes source.toList).take offset).count newlineByte := by
  rw [newlinesBefore, ← bytes_toList, ← size_toList, ← length_bytes]
  congr 1
  rcases Nat.le_total offset (bytes source.toList).length with h | h
  · rw [Nat.min_eq_left h]
  · rw [Nat.min_eq_right h, List.take_length, List.take_of_length_le h]

theorem newlinesBefore_size {source : String} {a b : List Char} (h : source.toList = a ++ b) :
    newlinesBefore source (size a) = a.count '\n' := by
  rw [newlinesBefore_eq, h, bytes_append, ← length_bytes, List.take_left, count_bytes]

theorem newlinesBefore_le (source : String) (offset : Nat) :
    newlinesBefore source offset ≤ source.utf8ByteSize := by
  refine Nat.le_trans List.count_le_length ?_
  rw [List.length_take]
  omega

theorem toList_append_newline (source : String) :
    (source ++ "\n").toList = source.toList ++ ['\n'] := by
  simp

theorem fill_eq_append (c : Char) {k n : Nat} (h : k ≤ n) :
    (fill c n).toList = (fill c k).toList ++ (fill c (n - k)).toList := by
  rw [toList_fill, toList_fill, toList_fill, List.replicate_append_replicate,
    Nat.add_sub_cancel' h]

theorem newline_notMem_fill {c : Char} (hc : '\n' ≠ c) (n : Nat) : '\n' ∉ (fill c n).toList := by
  rw [toList_fill]
  exact fun h => hc (List.eq_of_mem_replicate h)

theorem newlinesBefore_fill {k n : Nat} (h : k ≤ n) : newlinesBefore (fill '\n' n) k = k := by
  have hcount := newlinesBefore_size (fill_eq_append '\n' h)
  rwa [size_toList, size_fill _ rfl, toList_fill, List.count_replicate_self] at hcount

end Text

open Text

namespace LineTable

/-- The line starts at most `offset` are the first `n`. -/
structure Cuts (starts : Array Nat) (offset n : Nat) : Prop where
  le : n ≤ starts.size
  below : ∀ i < n, starts.getD i 0 ≤ offset
  above : ∀ i, n ≤ i → i < starts.size → offset < starts.getD i 0

theorem Cuts.eq {starts : Array Nat} {offset n n' : Nat} (h : Cuts starts offset n)
    (h' : Cuts starts offset n') : n = n' := by
  have hle {k k' : Nat} (hk : Cuts starts offset k) (hk' : Cuts starts offset k') : k ≤ k' := by
    by_contra hlt
    have hbelow := hk.below k' (by omega)
    have habove := hk'.above k' le_rfl (by have := hk.le; omega)
    omega
  have := hle h h'
  have := hle h' h
  omega

theorem getD_lt_getD {starts : Array Nat} (hsorted : starts.toList.Pairwise (· < ·)) {i j : Nat}
    (hij : i < j) (hj : j < starts.size) : starts.getD i 0 < starts.getD j 0 := by
  rw [← Array.getElem_eq_getD (h := hij.trans hj), ← Array.getElem_eq_getD (h := hj)]
  exact List.pairwise_iff_getElem.1 hsorted i j (hij.trans hj) hj hij

/-- Halving the doubt finds where the starts past the offset begin. -/
theorem cuts_countUpTo {starts : Array Nat} (hsorted : starts.toList.Pairwise (· < ·))
    (offset : Nat) {fuel low high : Nat} (hfuel : high - low ≤ fuel) (hle : low ≤ high)
    (hhigh : high ≤ starts.size) (hbelow : ∀ i < low, starts.getD i 0 ≤ offset)
    (habove : ∀ i, high ≤ i → i < starts.size → offset < starts.getD i 0) :
    Cuts starts offset (countUpTo starts offset fuel low high) := by
  induction fuel generalizing low high with
  | zero =>
    obtain rfl : low = high := by omega
    exact ⟨hhigh, hbelow, habove⟩
  | succ fuel ih =>
    rw [countUpTo]
    split
    next hlt =>
      dsimp only
      split
      next hmiddle =>
        refine ih (by omega) (by omega) hhigh ?_ habove
        intro i hi
        rcases Nat.lt_succ_iff_lt_or_eq.1 hi with hi | rfl
        · exact (getD_lt_getD hsorted hi (by omega)).le.trans hmiddle
        · exact hmiddle
      next hmiddle =>
        refine ih (by omega) (by omega) (by omega) hbelow ?_
        intro i hi hsize
        rcases Nat.eq_or_lt_of_le hi with rfl | hi
        · omega
        · have := getD_lt_getD hsorted hi hsize
          omega
    next hge =>
      obtain rfl : low = high := by omega
      exact ⟨hhigh, hbelow, habove⟩

theorem Cuts.countP_eq {starts : Array Nat} {offset n : Nat} (h : Cuts starts offset n) :
    starts.toList.countP (· ≤ offset) = n := by
  have hget {i : Nat} (hi : i < starts.size) : starts.getD i 0 = starts.toList[i] := by
    rw [← Array.getElem_eq_getD (h := hi), Array.getElem_toList]
  have hlength := h.le
  rw [← Array.length_toList] at hlength
  rw [← List.take_append_drop n starts.toList, List.countP_append]
  have htaken : (starts.toList.take n).countP (· ≤ offset) = n := by
    rw [List.countP_eq_length.2, List.length_take_of_le hlength]
    intro x hx
    obtain ⟨i, hi, rfl⟩ := List.mem_take_iff_getElem.1 hx
    have := h.below i (by omega)
    rw [hget (by have := h.le; omega)] at this
    exact decide_eq_true this
  have hdropped : (starts.toList.drop n).countP (· ≤ offset) = 0 := by
    rw [List.countP_eq_zero]
    intro x hx
    obtain ⟨i, hi, rfl⟩ := List.mem_drop_iff_getElem.1 hx
    have hsize : n + i < starts.size := by rw [← Array.length_toList]; omega
    have := h.above (n + i) (by omega) hsize
    rw [hget hsize] at this
    simp only [decide_eq_true_eq, not_le]
    exact this
  rw [htaken, hdropped, Nat.add_zero]

/-- What a search of the sorted starts may answer: a place at which the offset stands, or where it
would have to be inserted. -/
inductive Found (t : LineTable) (offset : Nat) : Except Nat Nat → Prop where
  | exact {i} (h : t.starts[i]? = some offset) : Found t offset (.ok i)
  | insertion {i} (hle : i ≤ t.count) (below : ∀ j < i, t.starts.getD j 0 < offset)
      (above : ∀ j, i ≤ j → j < t.count → offset < t.starts.getD j 0) : Found t offset (.error i)

/-- The line that an answer of the search stands for. -/
def lineOf : Except Nat Nat → Nat
  | .ok i => ordinal i
  | .error i => ordinal (i - 1)

/-! Numbers that are words, and additions that fail where a word is too small. -/

theorem next_of_lt {n : Nat} (h : n < Span.maxOffset) : next n = n + 1 := by
  rw [Span.maxOffset] at h
  exact Nat.mod_eq_of_lt (Nat.add_lt_of_lt_sub h)

theorem next_maxOffset : next Span.maxOffset = 0 := by decide

theorem ordinal_of_lt {index : Nat} (h : index < Span.maxOffset) : ordinal index = 1 + index := by
  rw [ordinal, if_pos h.le, next_of_lt h, Nat.add_comm]

theorem ordinal_maxOffset : ordinal Span.maxOffset = 0 := by decide

theorem ordinal_of_gt {index : Nat} (h : Span.maxOffset < index) :
    ordinal index = Span.maxOffset := by
  rw [ordinal, if_neg (Nat.not_le.2 h)]
  decide

/-- The word after `n`, if there is one. -/
def checkedNext (n : Nat) : Option Nat := if n < Span.maxOffset then some (next n) else none

def checkedOrdinal (index : Nat) : Option Nat :=
  checkedNext (if index ≤ Span.maxOffset then index else Span.maxOffset - 1)

/-- The addition fails for the largest word only. -/
theorem checkedOrdinal_eq (index : Nat) :
    checkedOrdinal index = if index = Span.maxOffset then none else some (ordinal index) := by
  rw [checkedOrdinal, ordinal, checkedNext]
  rcases Nat.lt_trichotomy index Span.maxOffset with h | rfl | h
  · rw [if_pos h.le, if_pos h, if_neg h.ne]
  · rw [if_pos le_rfl, if_neg (Nat.lt_irrefl _), if_pos rfl]
  · rw [if_neg (Nat.not_le.2 h), if_pos (by decide), if_neg h.ne']

/-- The line of an offset, if it has a number. -/
def checkedLine (t : LineTable) (offset : Nat) : Option Nat :=
  checkedOrdinal (t.linesUpTo offset - 1)

/-- The line and column of an offset, if they have numbers. -/
def checkedPosition (t : LineTable) (source : String) (offset : Nat) : Option (Nat × Nat) := do
  let line ← t.checkedLine offset
  let start := (t.start? line).getD 0
  let before := Text.slice source.toList start (min offset source.utf8ByteSize)
  let column ← checkedOrdinal before.length
  return (line, column)

theorem checkedPosition_eq (t : LineTable) (source : String) (offset : Nat) :
    t.checkedPosition source offset = if t.linesUpTo offset - 1 = Span.maxOffset ∨
        (t.before source offset).length = Span.maxOffset then none
      else some (t.position source offset) := by
  rw [checkedPosition, checkedLine, checkedOrdinal_eq]
  by_cases hline : t.linesUpTo offset - 1 = Span.maxOffset
  · simp [hline]
  · simp only [if_neg hline, Option.bind_eq_bind, Option.bind_some, checkedOrdinal_eq]
    have hbefore : Text.slice source.toList ((t.start? (ordinal (t.linesUpTo offset - 1))).getD 0)
        (min offset source.utf8ByteSize) = t.before source offset := rfl
    rw [hbefore]
    by_cases hcolumn : (t.before source offset).length = Span.maxOffset
    · simp [hcolumn]
    · simp only [hline, hcolumn, if_false, or_self]
      rfl

/-! The starts of a text, and what they would be if there were no largest word. -/

/-- The offsets just after each newline, words or not, for text that begins at `offset`. -/
def newlineEnds : Nat → List Char → List Nat
  | _, [] => []
  | offset, c :: cs =>
      let stop := offset + c.utf8Size
      if c = '\n' then stop :: newlineEnds stop cs else newlineEnds stop cs

section

variable (k : Nat) (a b cs : List Char)

theorem length_newlineEnds : (newlineEnds k cs).length = cs.count '\n' := by
  induction cs generalizing k with
  | nil => rfl
  | cons c cs ih =>
    simp only [newlineEnds, List.count_cons, beq_iff_eq]
    split <;> simp [ih]

theorem newlineEnds_append :
    newlineEnds k (a ++ b) = newlineEnds k a ++ newlineEnds (k + size a) b := by
  induction a generalizing k with
  | nil => rfl
  | cons c a ih =>
    simp only [List.cons_append, newlineEnds, ih, size_cons, Nat.add_assoc]
    split <;> rfl

theorem lt_of_mem_newlineEnds {k n : Nat} {cs : List Char} (h : n ∈ newlineEnds k cs) : k < n := by
  induction cs generalizing k with
  | nil => cases h
  | cons c cs ih =>
    have hc := c.utf8Size_pos
    rw [newlineEnds] at h
    split at h
    · rcases List.mem_cons.1 h with rfl | h
      · omega
      · have := ih h
        omega
    · have := ih h
      omega

theorem sorted_starts : (k :: newlineEnds k cs).Pairwise (· < ·) := by
  refine List.pairwise_cons.2 ⟨fun n => lt_of_mem_newlineEnds, ?_⟩
  induction cs generalizing k with
  | nil => exact .nil
  | cons c cs ih =>
    rw [newlineEnds]
    split
    · exact List.pairwise_cons.2 ⟨fun n => lt_of_mem_newlineEnds, ih _⟩
    · exact ih _

/-- The starts up to an offset are counted by the newlines among the bytes before it. -/
theorem countP_newlineEnds (offset : Nat) :
    (newlineEnds k cs).countP (· ≤ offset) = ((bytes cs).take (offset - k)).count newlineByte := by
  induction cs generalizing k with
  | nil => simp [newlineEnds, bytes]
  | cons c cs ih =>
    have hrest : ((bytes cs).take (offset - k - c.utf8Size)).count newlineByte =
        (newlineEnds (k + c.utf8Size) cs).countP (· ≤ offset) := by
      rw [ih, Nat.sub_sub]
    have hbytes : bytes (c :: cs) = String.utf8EncodeChar c ++ bytes cs := rfl
    rw [hbytes, List.take_append, List.count_append, String.length_utf8EncodeChar, hrest, newlineEnds]
    by_cases hc : c = '\n'
    · subst hc
      have hone : '\n'.utf8Size = 1 := rfl
      have hnewline : String.utf8EncodeChar '\n' = [newlineByte] := rfl
      rw [if_pos rfl, List.countP_cons, hone, hnewline]
      by_cases hle : k + 1 ≤ offset
      · rw [List.take_of_length_le (by simp; omega)]
        simp [hle]
        omega
      · obtain hzero : offset - k = 0 := by omega
        simp [hle, hzero]
    · have hnone : ((String.utf8EncodeChar c).take (offset - k)).count newlineByte = 0 :=
        List.count_eq_zero.2 fun h => newlineByte_notMem hc (List.mem_of_mem_take h)
      rw [if_neg hc, hnone, Nat.zero_add]

/-- The start with the number of the newlines in `a` is where the last line of `a` begins. -/
theorem getElem?_starts : (k :: newlineEnds k (a ++ b))[a.count '\n']? = some (k + size (fullLines a)) := by
  induction a using List.reverseRecOn generalizing b with
  | nil => simp [fullLines]
  | append_singleton a c ih =>
    rw [List.append_assoc, List.singleton_append, fullLines]
    by_cases hc : c = '\n'
    · subst hc
      rw [List.rdropWhile_concat_neg _ _ _ (by simp), List.count_append, List.count_singleton_self,
        List.getElem?_cons_succ, newlineEnds_append, ← length_newlineEnds k a,
        List.getElem?_append_right le_rfl, Nat.sub_self]
      simp [newlineEnds, Nat.add_assoc]
    · rw [List.rdropWhile_concat_pos _ _ _ (by simp [hc]), List.count_append,
        List.count_singleton, if_neg (by simpa using hc), Nat.add_zero]
      exact ih _

/-- The first start is behind the first line and its newline. -/
theorem head?_newlineEnds : (newlineEnds k cs).head? =
    if '\n' ∈ cs then some (k + size (firstLine cs) + 1) else none := by
  induction cs generalizing k with
  | nil => rfl
  | cons c cs ih =>
    rw [newlineEnds, firstLine]
    by_cases hc : c = '\n'
    · subst hc
      simp [show '\n'.utf8Size = 1 from rfl]
    · have hmem : '\n' ∈ c :: cs ↔ '\n' ∈ cs := by
        rw [List.mem_cons, or_iff_right (Ne.symm hc)]
      rw [List.takeWhile_cons_of_pos (by simp [hc]), size_cons, if_neg hc, ih]
      simp only [hmem, firstLine, Nat.add_assoc]

theorem startsAfter_eq_map : startsAfter k cs = (newlineEnds k cs).map clip := by
  induction cs generalizing k with
  | nil => rfl
  | cons c cs ih =>
    rw [startsAfter, newlineEnds]
    split
    · rw [List.map_cons, ih]
    · exact ih _

theorem le_of_mem_newlineEnds {k n : Nat} {cs : List Char} (h : n ∈ newlineEnds k cs) :
    n ≤ k + size cs := by
  induction cs generalizing k with
  | nil => cases h
  | cons c cs ih =>
    have hrest {k : Nat} (h : n ∈ newlineEnds (k + c.utf8Size) cs) : n ≤ k + size (c :: cs) := by
      rw [size_cons, ← Nat.add_assoc]
      exact ih h
    rw [newlineEnds] at h
    split at h
    · obtain rfl | h := List.mem_cons.1 h
      · rw [size_cons]
        omega
      · exact hrest h
    · exact hrest h

end

/-! The table of a text. -/

theorem starts_eq (source : String) :
    (ofSource source).starts = (0 :: startsAfter 0 source.toList).toArray := rfl

theorem count_ofSource (source : String) :
    (ofSource source).count = 1 + source.toList.count '\n' := by
  rw [count, ofSource, List.size_toArray, List.length_cons, startsAfter_eq_map, List.length_map,
    length_newlineEnds, Nat.add_comm]

/-- The place behind `a` has a line and a column with numbers that are words. -/
structure Numbered (a : List Char) : Prop where
  line : a.count '\n' < Span.maxOffset
  column : (lastLine a).length < Span.maxOffset

theorem length_lastLine_le (a : List Char) : (lastLine a).length ≤ size a := by
  have hsize := congrArg size (fullLines_append_lastLine a)
  have hlength := length_le_size (lastLine a)
  rw [size_append] at hsize
  omega

/-- Short of the largest word every place has. -/
theorem Numbered.of_lt {a : List Char} (h : size a < Span.maxOffset) : Numbered a :=
  ⟨(List.count_le_length.trans (length_le_size a)).trans_lt h,
    (length_lastLine_le a).trans_lt h⟩

section

variable {source : String} {a b : List Char} (hsize : source.utf8ByteSize ≤ Span.maxOffset)
include hsize

/-- The starts of a text within the limit are what they should be. -/
theorem starts_ofSource :
    (ofSource source).starts = (0 :: newlineEnds 0 source.toList).toArray := by
  have hclip : ∀ n ∈ newlineEnds 0 source.toList, clip n = n := by
    intro n hn
    have hle := le_of_mem_newlineEnds hn
    rw [size_toList, Nat.zero_add] at hle
    exact Nat.min_eq_left (hle.trans hsize)
  rw [starts_eq, startsAfter_eq_map, List.map_congr_left hclip, List.map_id']

theorem sorted_ofSource : (ofSource source).starts.toList.Pairwise (· < ·) := by
  rw [starts_ofSource hsize]
  exact sorted_starts 0 source.toList

variable (offset : Nat)

theorem cuts_linesUpTo :
    Cuts (ofSource source).starts offset ((ofSource source).linesUpTo offset) := by
  refine cuts_countUpTo (sorted_ofSource hsize) offset le_rfl (Nat.zero_le _) le_rfl ?_ ?_
  · intro i hi
    omega
  · intro i hi hsize
    exact absurd hsize (Nat.not_lt.2 hi)

theorem linesUpTo_eq : (ofSource source).linesUpTo offset = 1 + newlinesBefore source offset := by
  rw [← (cuts_linesUpTo hsize offset).countP_eq, starts_ofSource hsize, List.countP_cons,
    countP_newlineEnds, newlinesBefore_eq]
  simp
  omega

theorem lineAt_eq : (ofSource source).lineAt offset = ordinal (newlinesBefore source offset) := by
  rw [lineAt, linesUpTo_eq hsize, Nat.add_sub_cancel_left]

theorem checkedLine_eq (h : newlinesBefore source offset < Span.maxOffset) :
    (ofSource source).checkedLine offset = some (1 + newlinesBefore source offset) := by
  rw [checkedLine, linesUpTo_eq hsize, Nat.add_sub_cancel_left, checkedOrdinal_eq, if_neg h.ne,
    ordinal_of_lt h]

/-- Every search that answers as it should finds this line. -/
theorem lineOf_found {r : Except Nat Nat} (h : (ofSource source).Found offset r) :
    lineOf r = (ofSource source).lineAt offset := by
  have hsorted := sorted_ofSource hsize
  have hlines := cuts_linesUpTo hsize offset
  cases h with
  | @exact i h =>
    obtain ⟨hi, hget⟩ := Array.getElem?_eq_some_iff.1 h
    have hoffset : (ofSource source).starts.getD i 0 = offset := by
      rw [← Array.getElem_eq_getD (h := hi), hget]
    have hcuts : Cuts (ofSource source).starts offset (i + 1) := by
      refine ⟨hi, ?_, ?_⟩
      · intro j hj
        rcases Nat.lt_succ_iff_lt_or_eq.1 hj with hj | rfl
        · rw [← hoffset]
          exact (getD_lt_getD hsorted hj hi).le
        · exact hoffset.le
      · intro j hj hsize
        rw [← hoffset]
        exact getD_lt_getD hsorted hj hsize
    rw [lineOf, lineAt, ← hcuts.eq hlines, Nat.add_sub_cancel]
  | @insertion i hle below above =>
    have hcuts : Cuts (ofSource source).starts offset i :=
      ⟨hle, fun j hj => (below j hj).le, above⟩
    rw [lineOf, lineAt, hcuts.eq hlines]

theorem linesUpTo_size (h : source.toList = a ++ b) :
    (ofSource source).linesUpTo (size a) = 1 + a.count '\n' := by
  rw [linesUpTo_eq hsize, newlinesBefore_size h]

theorem lineAt_size (h : source.toList = a ++ b) (hline : a.count '\n' < Span.maxOffset) :
    (ofSource source).lineAt (size a) = 1 + a.count '\n' := by
  rw [lineAt_eq hsize, newlinesBefore_size h, ordinal_of_lt hline]

end

theorem start?_succ (t : LineTable) (n : Nat) : t.start? (n + 1) = t.starts[n]? := by
  rw [start?, if_neg (Nat.succ_ne_zero n), Nat.add_sub_cancel]

section

variable {source : String} {a b : List Char} (hsize : source.utf8ByteSize ≤ Span.maxOffset)
  (h : source.toList = a ++ b)
include hsize h

/-- The line with the place behind `a` begins where the last line of `a` begins. -/
theorem start?_eq : (ofSource source).start? (1 + a.count '\n') = some (size (fullLines a)) := by
  have hget := getElem?_starts 0 a b
  rw [Nat.zero_add, ← h] at hget
  rw [Nat.add_comm, start?_succ, starts_ofSource hsize, List.getElem?_toArray, hget]

/-- The next line begins behind the next newline, if there is one. -/
theorem start?_next : (ofSource source).start? (1 + a.count '\n' + 1) =
    if '\n' ∈ b then some (size (a ++ firstLine b) + 1) else none := by
  rw [Nat.add_comm 1, start?_succ, starts_ofSource hsize, List.getElem?_toArray,
    List.getElem?_cons_succ, h, newlineEnds_append, ← length_newlineEnds 0 a,
    List.getElem?_append_right le_rfl, Nat.sub_self, ← List.head?_eq_getElem?, head?_newlineEnds,
    Nat.zero_add, size_append]

/-- The line with the place between `a` and `b` ends where the first line of `b` ends, if the next
line has a number or there is none. -/
theorem range?_eq (hnext : 1 + a.count '\n' < Span.maxOffset ∨
      1 + a.count '\n' = Span.maxOffset ∧ '\n' ∉ b) :
    (ofSource source).range? source (1 + a.count '\n') =
      some (size (fullLines a), size (a ++ firstLine b)) := by
  have hle := size_fullLines_le a
  have hfollowing : (ofSource source).start? (next (1 + a.count '\n')) =
      if '\n' ∈ b then some (size (a ++ firstLine b) + 1) else none := by
    obtain hlt | ⟨hlast, hnone⟩ := hnext
    · rw [next_of_lt hlt, start?_next hsize h]
    · rw [hlast, next_maxOffset, if_neg hnone]
      rfl
  rw [range?, start?_eq hsize h, hfollowing, Option.map_some]
  by_cases hmem : '\n' ∈ b
  · have hstop : size (fullLines a) ≤ size (a ++ firstLine b) := by
      rw [size_append]
      omega
    simp only [if_pos hmem, Nat.add_sub_cancel, Nat.max_eq_left hstop]
  · have hstop : size (fullLines a) ≤ source.utf8ByteSize := by
      rw [← size_toList, h, size_append]
      omega
    simp only [if_neg hmem, Nat.max_eq_left hstop, firstLine_eq_self hmem, ← h, size_toList]

/-- Before a place on its line stands the last line of the text before. -/
theorem before_eq (hline : a.count '\n' < Span.maxOffset) :
    (ofSource source).before source (size a) = lastLine a := by
  have hle : size a ≤ source.utf8ByteSize := by
    rw [← size_toList, h, size_append]
    omega
  have hfull : size a = size (fullLines a) + size (lastLine a) := by
    rw [← size_append, fullLines_append_lastLine]
  have hsplit : source.toList = fullLines a ++ lastLine a ++ b := by
    rw [fullLines_append_lastLine, h]
  rw [before, lineAt_size hsize h hline, start?_eq hsize h, Option.getD_some, Nat.min_eq_left hle,
    hsplit, hfull, slice_append]

theorem position_eq (hnumbered : Numbered a) :
    (ofSource source).position source (size a) = (1 + a.count '\n', 1 + (lastLine a).length) := by
  rw [position, lineAt_size hsize h hnumbered.line, before_eq hsize h hnumbered.line,
    ordinal_of_lt hnumbered.column]

theorem checkedPosition_size (hnumbered : Numbered a) :
    (ofSource source).checkedPosition source (size a) =
      some ((ofSource source).position source (size a)) := by
  have hline := hnumbered.line.ne
  have hcolumn := hnumbered.column.ne
  rw [checkedPosition_eq, if_neg]
  rw [linesUpTo_size hsize h, Nat.add_sub_cancel_left, before_eq hsize h hnumbered.line]
  exact not_or.2 ⟨hline, hcolumn⟩

/-- Places between characters are in the order of the texts before them. -/
theorem position_lt {a' b' : List Char} (h' : source.toList = a' ++ b') (hnumbered : Numbered a')
    (hlt : size a < size a') : toLex ((ofSource source).position source (size a)) <
      toLex ((ofSource source).position source (size a')) := by
  have hfirst : Numbered a := by
    refine .of_lt (hlt.trans_le (le_trans ?_ hsize))
    rw [← size_toList, h', size_append]
    omega
  obtain ⟨d, rfl⟩ := exists_append_of_size_le (h.symm.trans h') hlt.le
  have hd : d ≠ [] := by
    rintro rfl
    simp at hlt
  rw [position_eq hsize h hfirst, position_eq hsize h' hnumbered, Prod.Lex.toLex_lt_toLex]
  by_cases hmem : '\n' ∈ d
  · left
    have := List.count_pos_iff.2 hmem
    simp only [List.count_append]
    omega
  · right
    have := List.length_pos_of_ne_nil hd
    simp only [List.count_append, List.count_eq_zero.2 hmem, Nat.add_zero, lastLine_append hmem,
      List.length_append, true_and]
    omega

end

/-- In a text within the limit the line of an offset is one more than the newlines in the bytes
before it, whichever way the sorted starts are searched, if that is a word. Between two characters,
the column is one more than the characters since the last newline, if that is a word too, and such
places come in the order of their lines and columns, so that no two have the same. Every place short
of the largest word has such numbers. -/
theorem locations_count {source : String} (hsize : source.utf8ByteSize ≤ Span.maxOffset) :
    (∀ offset, newlinesBefore source offset < Span.maxOffset →
      (ofSource source).lineAt offset = 1 + newlinesBefore source offset ∧
      (ofSource source).checkedLine offset = some ((ofSource source).lineAt offset) ∧
      ∀ r, (ofSource source).Found offset r → lineOf r = (ofSource source).lineAt offset) ∧
    (∀ a b, source.toList = a ++ b → Numbered a →
      (ofSource source).position source (size a) =
        (1 + newlinesBefore source (size a), 1 + (lastLine a).length) ∧
      (ofSource source).checkedPosition source (size a) =
        some ((ofSource source).position source (size a))) ∧
    (∀ a b a' b', source.toList = a ++ b → source.toList = a' ++ b' → Numbered a → Numbered a' →
      (size a < size a' → toLex ((ofSource source).position source (size a)) <
        toLex ((ofSource source).position source (size a'))) ∧
      ((ofSource source).position source (size a) = (ofSource source).position source (size a') →
        size a = size a')) ∧
    ∀ a, size a < Span.maxOffset → Numbered a := by
  refine ⟨?_, ?_, ?_, fun a => Numbered.of_lt⟩
  · intro offset hline
    have hlineAt := (lineAt_eq hsize offset).trans (ordinal_of_lt hline)
    rw [checkedLine_eq hsize offset hline, hlineAt]
    exact ⟨rfl, rfl, fun r hr => (lineOf_found hsize offset hr).trans hlineAt⟩
  · intro a b h hnumbered
    refine ⟨?_, checkedPosition_size hsize h hnumbered⟩
    rw [position_eq hsize h hnumbered, newlinesBefore_size h]
  · intro a b a' b' h h' hnumbered hnumbered'
    refine ⟨position_lt hsize h h' hnumbered', ?_⟩
    intro heq
    rcases Nat.lt_trichotomy (size a) (size a') with hless | hsame | hless
    · exact absurd (congrArg toLex heq) (position_lt hsize h h' hnumbered' hless).ne
    · exact hsame
    · exact absurd (congrArg toLex heq.symm) (position_lt hsize h' h hnumbered hless).ne

/-- The column counts characters, of which one has two bytes here. -/
theorem locations_count_accented :
    let source := "a\né+"
    source.utf8ByteSize ≤ Span.maxOffset ∧
      (ofSource source).position source 4 = (1 + newlinesBefore source 4, 2) := by
  have hsize : "a\né+".utf8ByteSize ≤ Span.maxOffset := by decide
  have hnumbered : Numbered "a\né".toList := .of_lt (by decide)
  obtain ⟨-, hposition, -, -⟩ := locations_count hsize
  exact ⟨hsize, (hposition "a\né".toList ['+'] (by decide) hnumbered).1⟩

/-- A column behind as many characters as the largest word counts has no number. -/
theorem position_of_full {source : String} (hsize : source.utf8ByteSize = Span.maxOffset)
    (hnone : '\n' ∉ source.toList) (hlength : source.toList.length = Span.maxOffset) :
    (ofSource source).checkedPosition source Span.maxOffset = none ∧
      ((ofSource source).position source Span.maxOffset).2 = 0 := by
  have hbefore := before_eq hsize.le (List.append_nil source.toList).symm
    (by rw [List.count_eq_zero.2 hnone]; decide)
  rw [size_toList, hsize, lastLine_eq_self hnone] at hbefore
  constructor
  · rw [checkedPosition_eq, hbefore, if_pos (.inr hlength)]
  · rw [position, hbefore, hlength, ordinal_maxOffset]

/-- Behind as many newlines as the limit allows the line has no number: it would have to be one more
than the largest word. So it is with the column behind as many letters. -/
theorem not_locations_count :
    let newlines := fill '\n' Span.maxOffset
    let letters := fill 'x' Span.maxOffset
    (newlines.utf8ByteSize ≤ Span.maxOffset ∧
      (ofSource newlines).checkedLine Span.maxOffset = none ∧
      (ofSource newlines).lineAt Span.maxOffset ≠ 1 + newlinesBefore newlines Span.maxOffset) ∧
    letters.utf8ByteSize ≤ Span.maxOffset ∧
      (ofSource letters).checkedPosition letters Span.maxOffset = none ∧
      ((ofSource letters).position letters Span.maxOffset).2 ≠
        1 + (lastLine letters.toList).length := by
  dsimp only
  constructor
  · have hsize := (size_fill '\n' rfl Span.maxOffset).le
    refine ⟨hsize, ?_, ?_⟩
    · rw [checkedLine, linesUpTo_eq hsize, newlinesBefore_fill le_rfl, Nat.add_sub_cancel_left,
        checkedOrdinal_eq, if_pos rfl]
    · rw [lineAt_eq hsize, newlinesBefore_fill le_rfl, ordinal_maxOffset]
      omega
  · have hsize := size_fill 'x' rfl Span.maxOffset
    have hlength : (fill 'x' Span.maxOffset).toList.length = Span.maxOffset := by
      rw [toList_fill, List.length_replicate]
    obtain ⟨hchecked, hcolumn⟩ :=
      position_of_full hsize (newline_notMem_fill (by decide) _) hlength
    refine ⟨hsize.le, hchecked, ?_⟩
    rw [hcolumn]
    omega

end LineTable

end Tarn
