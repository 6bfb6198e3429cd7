import Tarn.Proofs.Lines.Ranges
import Tarn.Report.Snippet

/-! Snippets of source text. A snippet marks what a span covers of the line on which it starts, and
shows what fits of that line before and after. Whatever the span, nothing on the way to it can fail
but an addition to the largest word. -/
namespace Tarn

open Text

namespace Text

/-- What is left of a line behind `b`, if `c` follows. -/
def restOfLine (b c : List Char) : List Char := if '\n' ∈ b then [] else firstLine c

theorem firstLine_append (b c : List Char) : firstLine (b ++ c) = firstLine b ++ restOfLine b c := by
  rw [restOfLine]
  split
  next h =>
    obtain ⟨rest, hrest⟩ := exists_eq_firstLine h
    conv_lhs =>
      rw [hrest, List.append_assoc, firstLine_append_of_notMem (newline_notMem_firstLine b)]
    simp [firstLine]
  next h => rw [firstLine_eq_self h, firstLine_append_of_notMem h]

theorem newline_notMem_restOfLine (b c : List Char) : '\n' ∉ restOfLine b c := by
  rw [restOfLine]
  split
  · exact List.not_mem_nil
  · exact newline_notMem_firstLine c

/-- The offsets at which characters begin, the first of them at `k`. -/
def offsets : Nat → List Char → List Nat
  | _, [] => []
  | k, c :: cs => k :: offsets (k + c.utf8Size) cs

theorem length_offsets (k : Nat) (cs : List Char) : (offsets k cs).length = cs.length := by
  induction cs generalizing k with
  | nil => rfl
  | cons c cs ih => rw [offsets, List.length_cons, ih, List.length_cons]

theorem getElem?_offsets (k : Nat) {cs : List Char} {i : Nat} (hi : i < cs.length) :
    (offsets k cs)[i]? = some (k + size (cs.take i)) := by
  induction cs generalizing k i with
  | nil => simp at hi
  | cons c cs ih =>
    cases i with
    | zero => simp [offsets]
    | succ i =>
      rw [offsets, List.getElem?_cons_succ, ih _ (by simpa using hi), List.take_succ_cons, size_cons,
        Nat.add_assoc]

theorem drop?_take (cs : List Char) (i : Nat) : drop? cs (size (cs.take i)) = some (cs.drop i) := by
  conv_lhs => rw [← List.take_append_drop i cs]
  rw [List.take_append_drop]
  exact drop?_eq_some.2 ⟨cs.take i, (List.take_append_drop i cs).symm, rfl⟩

theorem take?_take (cs : List Char) (i : Nat) : take? cs (size (cs.take i)) = some (cs.take i) :=
  take?_eq_some.2 ⟨List.take_prefix i cs, rfl⟩

end Text

namespace Snippet

/-- How many of the characters beside a span are shown. -/
def shown : Option Nat → List Char → Nat
  | some n, cs => min n cs.length
  | none, cs => cs.length

/-- An ellipsis, if `part` is not all there is. -/
def cutMark (part all : List Char) : List Char := if part.length < all.length then ellipsis else []

/-- The snippet marks `covered` and shows as much beside it on its line as the padding allows, with
an ellipsis on the side where something is left out. -/
structure Shows (s : Snippet) (padding : Option Nat) (before covered after : List Char) : Prop where
  newline_notMem : '\n' ∉ s.text
  /-- What is marked begins with what is covered. -/
  covered_prefix : covered <+: s.text.drop s.markerStart
  markerLength_eq : s.markerLength = max covered.length 1
  window : ∃ left right, s.text = cutMark left before ++ left ++ covered ++ right ++ cutMark right after ∧
    left ++ covered ++ right <:+: before ++ covered ++ after ∧
    left <:+ before ∧ left.length = shown padding before ∧
    right <+: after ∧ right.length = shown padding after

/-- What is kept of the text before a span, and whether something was cut. -/
def keptBefore (padding : Option Nat) (before : List Char) : List Char × Bool :=
  match padding with
  | some n => lastChars n before
  | none => (before, false)

/-- What is kept of the text after a span, and whether something was cut. -/
def keptAfter (padding : Option Nat) (after : List Char) : List Char × Bool :=
  match padding with
  | some n => firstChars n after
  | none => (after, false)

variable {padding : Option Nat} {before covered after : List Char}

theorem keptBefore_suffix (padding : Option Nat) (before : List Char) :
    ∃ left, keptBefore padding before = (left, decide (left.length < before.length)) ∧
      left <:+ before ∧ left.length = shown padding before := by
  cases padding with
  | none => exact ⟨before, by simp [keptBefore], List.suffix_refl _, rfl⟩
  | some n =>
    refine ⟨before.drop (before.length - n), ?_, List.drop_suffix .., ?_⟩
    · simp only [keptBefore, lastChars, List.length_drop, Prod.mk.injEq, true_and, decide_eq_decide]
      omega
    · rw [List.length_drop, shown]
      omega

theorem keptAfter_prefix (padding : Option Nat) (after : List Char) :
    ∃ right, keptAfter padding after = (right, decide (right.length < after.length)) ∧
      right <+: after ∧ right.length = shown padding after := by
  cases padding with
  | none => exact ⟨after, by simp [keptAfter], List.prefix_refl _, rfl⟩
  | some n =>
    refine ⟨after.take n, ?_, List.take_prefix .., ?_⟩
    · simp only [keptAfter, firstChars, List.length_take, Prod.mk.injEq, true_and, decide_eq_decide]
      omega
    · rw [List.length_take, shown]

theorem newline_notMem_cutMark (part all : List Char) : '\n' ∉ cutMark part all := by
  rw [cutMark]
  split <;> simp [ellipsis]

/-- The snippet of a line, from the parts of it that are shown. -/
def assemble (line column : Nat) (padding : Option Nat) (before covered after : List Char) :
    Snippet :=
  let lead := (if (keptBefore padding before).2 then ellipsis else []) ++ (keptBefore padding before).1
  { line, column
    text := lead ++ covered ++ (keptAfter padding after).1 ++
      (if (keptAfter padding after).2 then ellipsis else [])
    markerStart := lead.length
    markerLength := max covered.length 1 }

theorem shows_assemble (line column : Nat) (padding : Option Nat) (hbefore : '\n' ∉ before)
    (hcovered : '\n' ∉ covered) (hafter : '\n' ∉ after) :
    (assemble line column padding before covered after).Shows padding before covered after := by
  obtain ⟨left, hleft, hends, hleftLength⟩ := keptBefore_suffix padding before
  obtain ⟨right, hright, hbegins, hrightLength⟩ := keptAfter_prefix padding after
  have htext : (assemble line column padding before covered after).text =
      cutMark left before ++ left ++ covered ++ right ++ cutMark right after := by
    simp only [assemble, hleft, hright, cutMark, decide_eq_true_eq]
  have hstart : (assemble line column padding before covered after).markerStart =
      (cutMark left before ++ left).length := by
    simp only [assemble, hleft, cutMark, decide_eq_true_eq]
  refine ⟨?_, ?_, rfl, left, right, htext, ?_, hends, hleftLength, hbegins, hrightLength⟩
  · have hnoLeft := mt (hends.subset ·) hbefore
    have hnoRight := mt (hbegins.subset ·) hafter
    simp only [htext, List.mem_append, not_or]
    exact ⟨⟨⟨⟨newline_notMem_cutMark _ _, hnoLeft⟩, hcovered⟩, hnoRight⟩,
      newline_notMem_cutMark _ _⟩
  · rw [htext, hstart, List.append_assoc, List.append_assoc, List.drop_left]
    exact List.prefix_append ..
  · obtain ⟨front, rfl⟩ := hends
    obtain ⟨back, rfl⟩ := hbegins
    exact ⟨front, back, by simp⟩

/-- A snippet is put together from three pieces of the text. -/
theorem of_eq_assemble (source : String) (table : LineTable) (span : Span) (padding : Option Nat) :
    let start := min span.start source.utf8ByteSize
    let place := table.position source span.start
    let line := (table.range? source place.1).getD (start, source.utf8ByteSize)
    let stop := max start (min span.stop (max line.2 start))
    Snippet.of source table span padding = assemble place.1 place.2 padding
      (slice source.toList line.1 start) (slice source.toList start stop)
      (slice source.toList stop line.2) := by
  cases padding <;> rfl

/-- The pieces are those of the line on which the span starts. -/
theorem of_eq {source : String} (hsize : source.utf8ByteSize ≤ Span.maxOffset) {a b c : List Char}
    (h : source.toList = a ++ b ++ c) (hnext : 1 + a.count '\n' < Span.maxOffset)
    (hcolumn : (lastLine a).length < Span.maxOffset) (padding : Option Nat) :
    Snippet.of source (LineTable.ofSource source) ⟨size a, size (a ++ b)⟩ padding =
      assemble (1 + a.count '\n') (1 + (lastLine a).length) padding (lastLine a) (firstLine b)
        (restOfLine b c) := by
  have hab : source.toList = a ++ (b ++ c) := by rw [h, List.append_assoc]
  have hstart : min (size a) source.utf8ByteSize = size a := by
    refine Nat.min_eq_left ?_
    rw [← size_toList, hab, size_append]
    omega
  obtain ⟨tail, htail⟩ := exists_eq_firstLine_append (b ++ c)
  have hline : source.toList =
      fullLines a ++ lastLine a ++ (firstLine b ++ restOfLine b c ++ tail) := by
    rw [fullLines_append_lastLine, ← firstLine_append, ← htail, hab]
  have hfull : size (fullLines a) + size (lastLine a) = size a := by
    rw [← size_append, fullLines_append_lastLine]
  -- The span ends on its first line, or the line ends first and nothing of it is left.
  have hstop : max (size a) (min (size (a ++ b))
      (max (size (a ++ firstLine (b ++ c))) (size a))) = size a + size (firstLine b) := by
    simp only [firstLine_append, size_append]
    by_cases hmem : '\n' ∈ b
    · obtain ⟨rest, hrest⟩ := exists_eq_firstLine_append b
      have hsize : size (firstLine b) ≤ size b := by
        conv_rhs => rw [hrest, size_append]
        omega
      rw [restOfLine, if_pos hmem, size_nil]
      omega
    · rw [firstLine_eq_self hmem]
      omega
  have hposition := LineTable.position_eq hsize hab ⟨by omega, hcolumn⟩
  have hrange := LineTable.range?_eq hsize hab (.inl hnext)
  have hof := of_eq_assemble source (LineTable.ofSource source) ⟨size a, size (a ++ b)⟩ padding
  dsimp only at hof
  rw [hstart, hposition] at hof
  simp only [hrange, Option.getD_some, hstop] at hof
  rw [hof]
  congr 1
  · rw [hline, ← hfull, slice_append]
  · rw [hline, ← List.append_assoc, ← List.append_assoc, fullLines_append_lastLine,
      List.append_assoc, List.append_assoc, ← List.append_assoc, slice_append]
  · rw [hline, ← List.append_assoc, ← List.append_assoc, fullLines_append_lastLine,
      firstLine_append, ← size_append, ← List.append_assoc, size_append (a ++ firstLine b),
      slice_append]

/-! The same with operations that can fail. -/

/-- The nearest number between two bounds, which have to be in order. -/
def clamp? (n low high : Nat) : Option Nat :=
  if low ≤ high then some (max low (min n high)) else none

/-- The last `n` characters, cut off where the last but `n - 1` begins. -/
def lastChars? (n : Nat) (cs : List Char) : Option (List Char × Bool) :=
  match (offsets 0 cs).reverse[n - 1]? with
  | some i =>
      if 0 < n then (drop? cs i).map fun rest => (rest, decide (0 < i)) else some ([], !cs.isEmpty)
  | none => if n = 0 then some ([], !cs.isEmpty) else some (cs, false)

/-- The first `n` characters, cut off where the next one begins. -/
def firstChars? (n : Nat) (cs : List Char) : Option (List Char × Bool) :=
  match (offsets 0 cs)[n]? with
  | some i => (take? cs i).map fun front => (front, true)
  | none => some (cs, false)

/-- A snippet, if lines and columns have numbers, bounds are in order and texts are cut between
characters wherever they have to. -/
def of? (source : String) (table : LineTable) (span : Span) (padding : Option Nat) :
    Option Snippet := do
  let cs := source.toList
  let length := source.utf8ByteSize
  let start := min span.start length
  let (line, column) ← table.checkedPosition source span.start
  let (lineStart, lineStop) := (← table.checkedRange source line).getD (start, length)
  let stop ← clamp? span.stop start (max lineStop start)
  let covered := slice cs start stop
  let before := slice cs lineStart start
  let after := slice cs stop lineStop
  let (before, cutBefore) ← match padding with
    | some n => lastChars? n before
    | none => some (before, false)
  let (after, cutAfter) ← match padding with
    | some n => firstChars? n after
    | none => some (after, false)
  let lead := (if cutBefore then ellipsis else []) ++ before
  return { line, column
           text := lead ++ covered ++ after ++ (if cutAfter then ellipsis else [])
           markerStart := lead.length
           markerLength := max covered.length 1 }

theorem clamp?_eq {low high : Nat} (h : low ≤ high) (n : Nat) :
    clamp? n low high = some (max low (min n high)) := if_pos h

theorem lastChars?_eq (n : Nat) (cs : List Char) : lastChars? n cs = some (lastChars n cs) := by
  have hlength := length_offsets 0 cs
  rw [lastChars?, lastChars]
  cases n with
  | zero =>
    have hempty : (!cs.isEmpty) = decide (0 < cs.length) := by cases cs <;> rfl
    rw [Nat.sub_zero, List.drop_length, hempty]
    split <;> simp
  | succ n =>
    rcases Nat.lt_or_ge n cs.length with hn | hn
    · have hplace : cs.length - (n + 1) < cs.length := by omega
      have hget := getElem?_offsets 0 hplace
      rw [Nat.zero_add] at hget
      rw [Nat.add_sub_cancel, List.getElem?_reverse (by omega), hlength,
        show cs.length - 1 - n = cs.length - (n + 1) by omega, hget]
      have hcut : 0 < size (cs.take (cs.length - (n + 1))) ↔ n + 1 < cs.length := by
        have := length_le_size (cs.take (cs.length - (n + 1)))
        rw [List.length_take] at this
        constructor
        · intro hsize
          by_contra hge
          rw [show cs.length - (n + 1) = 0 by omega, List.take_zero, size_nil] at hsize
          omega
        · intro hlt
          omega
      simp [drop?_take, hcut]
    · have hall : cs.length - (n + 1) = 0 := by omega
      have hwhole : ¬ n + 1 < cs.length := by omega
      rw [Nat.add_sub_cancel, List.getElem?_eq_none (by rw [List.length_reverse]; omega)]
      simp [hall, hwhole]

theorem firstChars?_eq (n : Nat) (cs : List Char) : firstChars? n cs = some (firstChars n cs) := by
  rw [firstChars?, firstChars]
  rcases Nat.lt_or_ge n cs.length with hn | hn
  · rw [getElem?_offsets 0 hn, Nat.zero_add]
    simp [take?_take, hn]
  · rw [List.getElem?_eq_none (by rw [length_offsets]; exact hn)]
    simp [List.take_of_length_le hn]
    omega

end Snippet

namespace LineTable

/-- The line of the offset, the next line and the column have numbers that are words. -/
structure Counts (t : LineTable) (source : String) (offset : Nat) : Prop where
  line : t.linesUpTo offset < Span.maxOffset
  column : (t.before source offset).length ≠ Span.maxOffset

theorem countUpTo_le (starts : Array Nat) (offset fuel : Nat) {low high : Nat} (h : low ≤ high) :
    countUpTo starts offset fuel low high ≤ high := by
  induction fuel generalizing low high with
  | zero => exact h
  | succ fuel ih =>
    rw [countUpTo]
    split
    · dsimp only
      split
      · exact ih (by omega)
      · exact (ih (by omega)).trans (by omega)
    · exact h

theorem linesUpTo_le (t : LineTable) (offset : Nat) : t.linesUpTo offset ≤ t.count :=
  countUpTo_le _ _ _ (Nat.zero_le _)

variable {t : LineTable} {source : String} {offset : Nat}

theorem Counts.checkedPosition_eq (h : t.Counts source offset) :
    t.checkedPosition source offset = some (t.position source offset) := by
  have hline := h.line
  rw [LineTable.checkedPosition_eq, if_neg]
  exact not_or.2 ⟨by omega, h.column⟩

theorem Counts.checkedRange_eq (h : t.Counts source offset) :
    t.checkedRange source (t.position source offset).1 =
      some (t.range? source (t.position source offset).1) := by
  have hline := h.line
  have hone : 1 < Span.maxOffset := by decide
  rw [LineTable.checkedRange_eq, if_neg]
  rintro ⟨-, hlast⟩
  rw [position, lineAt, ordinal_of_lt (by omega)] at hlast
  omega

/-- Otherwise the next line is asked for behind the line with the largest number. -/
theorem checkedRange_eq_none (t : LineTable) (source : String) {offset : Nat}
    (h : Span.maxOffset ≤ t.linesUpTo offset)
    (hindex : t.linesUpTo offset - 1 ≠ Span.maxOffset) :
    t.checkedRange source (t.position source offset).1 = none := by
  have hline : (t.position source offset).1 = Span.maxOffset := by
    rw [position, lineAt]
    obtain hlt | hgt := Nat.lt_or_gt_of_ne hindex
    · rw [ordinal_of_lt hlt]
      have hone : 1 < Span.maxOffset := by decide
      omega
    · exact ordinal_of_gt hgt
  rw [hline, LineTable.checkedRange_eq, if_pos]
  exact ⟨(isSome_start? t _).2 ⟨by decide, h.trans (linesUpTo_le t offset)⟩, le_rfl⟩

/-- In a text that could be a little larger all places have such numbers. -/
theorem Counts.of_size (hsize : source.utf8ByteSize + 1 < Span.maxOffset) (offset : Nat) :
    (ofSource source).Counts source offset := by
  have hnewlines := newlinesBefore_le source offset
  have hlength := length_slice_le source.toList
    (((ofSource source).start? ((ofSource source).lineAt offset)).getD 0)
    (min offset source.utf8ByteSize)
  rw [size_toList] at hlength
  refine ⟨?_, ?_⟩
  · rw [linesUpTo_eq (by omega)]
    omega
  · rw [before]
    omega

end LineTable

namespace Snippet

theorem of?_eq {source : String} {table : LineTable} {span : Span}
    (h : table.Counts source span.start) (padding : Option Nat) :
    of? source table span padding = some (Snippet.of source table span padding) := by
  have hbounds (n m : Nat) : n ≤ max m n := Nat.le_max_right m n
  have hposition := h.checkedPosition_eq
  have hrange := h.checkedRange_eq
  cases padding with
  | none =>
    simp only [of?, hposition, hrange, Option.bind_eq_bind, Option.bind_some, clamp?_eq (hbounds _ _)]
    rfl
  | some n =>
    simp only [of?, hposition, hrange, Option.bind_eq_bind, Option.bind_some,
      clamp?_eq (hbounds _ _), lastChars?_eq, firstChars?_eq]
    rfl

theorem of?_eq_none {source : String} {table : LineTable} {span : Span}
    (h : ¬ table.Counts source span.start) (padding : Option Nat) :
    of? source table span padding = none := by
  rw [of?]
  by_cases hposition : table.linesUpTo span.start - 1 = Span.maxOffset ∨
      (table.before source span.start).length = Span.maxOffset
  · rw [LineTable.checkedPosition_eq, if_pos hposition]
    rfl
  · obtain ⟨hindex, hcolumn⟩ := not_or.1 hposition
    have hline : Span.maxOffset ≤ table.linesUpTo span.start :=
      Nat.not_lt.1 fun hlt => h ⟨hlt, hcolumn⟩
    have hrange := table.checkedRange_eq_none source hline hindex
    simp only [LineTable.checkedPosition_eq, if_neg hposition, Option.bind_eq_bind,
      Option.bind_some, hrange, Option.bind_none]

/-- Whatever the text and the span, in order or not, a snippet is made of it: no bounds are out of
order, and no text is cut within a character or past its end. Only the number of the next line or
of the column can be too large, which takes all but as many bytes as the limit allows. A span
between characters of a text within the limit starts on the line that the snippet tells, and the
snippet shows of this line what the padding allows. -/
theorem snippet_marks_line (source : String) (span : Span) (padding : Option Nat) :
    let table := LineTable.ofSource source
    let s := Snippet.of source table span padding
    (table.Counts source span.start → of? source table span padding = some s) ∧
    (¬ table.Counts source span.start → of? source table span padding = none) ∧
    (source.utf8ByteSize + 1 < Span.maxOffset → table.Counts source span.start) ∧
    (source.utf8ByteSize ≤ Span.maxOffset → table.Counts source span.start →
      span.start ≤ span.stop → IsBoundary source.toList span.start →
      IsBoundary source.toList span.stop → ∃ a b c, source.toList = a ++ b ++ c ∧
        span = ⟨size a, size (a ++ b)⟩ ∧
        (table.text source s.line).toList = lastLine a ++ firstLine b ++ restOfLine b c ∧
        s.line = 1 + a.count '\n' ∧ s.column = 1 + (lastLine a).length ∧
        s.Shows padding (lastLine a) (firstLine b) (restOfLine b c)) := by
  dsimp only
  refine ⟨fun h => of?_eq h padding, fun h => of?_eq_none h padding,
    fun hsize => .of_size hsize _, ?_⟩
  intro hsize hcounts hle hstart hstop
  obtain ⟨start, stop⟩ := span
  obtain ⟨a, b', hab, rfl⟩ := hstart
  obtain ⟨ab, c, habc, rfl⟩ := hstop
  obtain ⟨b, rfl⟩ := exists_append_of_size_le (hab.symm.trans habc) hle
  have hnext := hcounts.line
  have hcolumn := hcounts.column
  dsimp only at hnext hcolumn
  rw [LineTable.linesUpTo_size hsize hab] at hnext
  rw [LineTable.before_eq hsize hab (by omega)] at hcolumn
  have hlength : (lastLine a).length < Span.maxOffset := by
    have hfits := LineTable.length_lastLine_le a
    have hwhole := congrArg size hab
    rw [size_toList, size_append] at hwhole
    omega
  have hof := of_eq hsize habc hnext hlength padding
  refine ⟨a, b, c, habc, rfl, ?_, ?_⟩
  · rw [hof]
    rw [List.append_assoc] at habc ⊢
    rw [← firstLine_append]
    exact LineTable.text_eq hsize habc (.inl hnext)
  · rw [hof]
    exact ⟨rfl, rfl, shows_assemble _ _ padding (newline_notMem_lastLine a)
      (newline_notMem_firstLine b) (newline_notMem_restOfLine b c)⟩

/-- A string that goes on in the next line is marked up to the end of its first line. -/
theorem snippet_marks_line_string :
    let source := "1;\nvar é = \"a\nb\";"
    let s := Snippet.of source (LineTable.ofSource source) ⟨12, 17⟩ (some 2)
    IsBoundary source.toList 12 ∧ IsBoundary source.toList 17 ∧
      s = ⟨2, 9, "...= \"a".toList, 5, 2⟩ ∧
      ∃ a b c, source.toList = a ++ b ++ c ∧ (⟨12, 17⟩ : Span) = ⟨size a, size (a ++ b)⟩ ∧
        ((LineTable.ofSource source).text source s.line).toList =
          lastLine a ++ firstLine b ++ restOfLine b c ∧
        s.line = 1 + a.count '\n' ∧ s.column = 1 + (lastLine a).length ∧
        s.Shows (some 2) (lastLine a) (firstLine b) (restOfLine b c) := by
  have hstart : IsBoundary "1;\nvar é = \"a\nb\";".toList 12 :=
    ⟨"1;\nvar é = ".toList, "\"a\nb\";".toList, by decide +kernel, by decide +kernel⟩
  have hstop : IsBoundary "1;\nvar é = \"a\nb\";".toList 17 :=
    ⟨"1;\nvar é = \"a\nb\"".toList, ";".toList, by decide +kernel, by decide +kernel⟩
  refine ⟨hstart, hstop, by decide +kernel, ?_⟩
  obtain ⟨-, -, hcounts, hshows⟩ :=
    snippet_marks_line "1;\nvar é = \"a\nb\";" ⟨12, 17⟩ (some 2)
  exact hshows (by decide) (hcounts (by decide)) (by decide) hstart hstop

/-- Behind the line with the largest number the next line is not found, and its newline is shown. -/
theorem of_last_newline {source : String} {a : List Char} (h : source.toList = a ++ ['\n'])
    (hsize : source.utf8ByteSize = Span.maxOffset) (hline : 1 + a.count '\n' = Span.maxOffset) :
    of? source (LineTable.ofSource source) ⟨size a, Span.maxOffset⟩ none = none ∧
      '\n' ∈ (of source (LineTable.ofSource source) ⟨size a, Span.maxOffset⟩ none).text := by
  have hlines := LineTable.linesUpTo_size hsize.le h
  rw [hline] at hlines
  refine ⟨of?_eq_none (fun hcounts => absurd hlines hcounts.line.ne) none, ?_⟩
  have hstart : min (size a) source.utf8ByteSize = size a := by
    rw [← size_toList, h, size_append]
    omega
  have hwhole : Span.maxOffset = size a + size ['\n'] := by
    rw [← hsize, ← size_toList, h, size_append]
  have hposition : ((LineTable.ofSource source).position source (size a)).1 = Span.maxOffset := by
    rw [LineTable.position, LineTable.lineAt_size hsize.le h (by omega), hline]
  have hrange : (LineTable.ofSource source).range? source Span.maxOffset =
      some (size (fullLines a), max Span.maxOffset (size (fullLines a))) := by
    have hfound := LineTable.start?_eq hsize.le h
    rw [hline] at hfound
    have hnext : (LineTable.ofSource source).start? (LineTable.next Span.maxOffset) = none := by
      rw [LineTable.next_maxOffset]
      rfl
    rw [LineTable.range?, hfound, Option.map_some, hnext, hsize]
  have hcovered : slice source.toList (size a) Span.maxOffset = ['\n'] := by
    rw [hwhole, h]
    exact (congrArg (slice · _ _) (List.append_nil _)).symm.trans (slice_append a ['\n'] [])
  have hstop (n : Nat) : max (size a) (min Span.maxOffset (max (max Span.maxOffset n) (size a))) =
      Span.maxOffset := by
    omega
  have hof := of_eq_assemble source (LineTable.ofSource source) ⟨size a, Span.maxOffset⟩ none
  dsimp only at hof
  rw [hstart, hposition, hrange, Option.getD_some, hstop, hcovered] at hof
  rw [hof, assemble]
  simp

/-- Where a line starts before the newline in front of it, that newline is shown. -/
theorem of_clipped {source : String} {a : List Char} (h : source.toList = a ++ ['\n'])
    (hnone : '\n' ∉ a) (hsize : size a = Span.maxOffset) :
    (of source (LineTable.ofSource source) (Span.point Span.maxOffset) none).text = ['\n'] := by
  obtain ⟨hstarts, hrange⟩ := LineTable.starts_clipped h hnone hsize
  have hwhole : source.utf8ByteSize = Span.maxOffset + 1 := by
    rw [← size_toList, h, size_append, hsize]
    rfl
  have hlines : (LineTable.ofSource source).linesUpTo Span.maxOffset = 2 := by
    rw [LineTable.linesUpTo, LineTable.count, hstarts]
    decide
  have hline : ((LineTable.ofSource source).position source Span.maxOffset).1 = 2 := by
    rw [LineTable.position, LineTable.lineAt, hlines, LineTable.ordinal_of_lt (by decide)]
  have hempty : slice source.toList Span.maxOffset Span.maxOffset = [] := by
    have hslice := slice_append a [] ['\n']
    rwa [List.append_nil, ← h, hsize] at hslice
  have hafter : slice source.toList Span.maxOffset (Span.maxOffset + 1) = ['\n'] := by
    have hslice := slice_append a ['\n'] []
    rwa [List.append_nil, ← h, hsize] at hslice
  have hof := of_eq_assemble source (LineTable.ofSource source) (Span.point Span.maxOffset) none
  dsimp only [Span.point] at hof
  rw [hline, hrange, hwhole, Option.getD_some, Nat.min_eq_left (Nat.le_succ _),
    Nat.max_eq_left (Nat.le_succ _), Nat.min_eq_left (Nat.le_succ _), Nat.max_self, hempty,
    hafter] at hof
  rw [Span.point, hof]
  rfl

/-- The last of as many newlines as the limit allows stands on the line with the largest number. The
next line has none, and where additions wrap the line does not end before it. In front of a newline
that stands at the largest offset the snippet shows that newline. -/
theorem not_snippet_marks_line :
    let newlines := fill '\n' Span.maxOffset
    let span : Span := ⟨Span.maxOffset - 1, Span.maxOffset⟩
    let letters := fill 'x' Span.maxOffset ++ "\n"
    ((IsBoundary newlines.toList span.start ∧ IsBoundary newlines.toList span.stop) ∧
      of? newlines (LineTable.ofSource newlines) span none = none ∧
      '\n' ∈ (of newlines (LineTable.ofSource newlines) span none).text) ∧
    IsBoundary letters.toList Span.maxOffset ∧
      '\n' ∈ (of letters (LineTable.ofSource letters) (Span.point Span.maxOffset) none).text := by
  dsimp only
  constructor
  · have hsize := size_fill '\n' rfl Span.maxOffset
    have hfront : size (fill '\n' (Span.maxOffset - 1)).toList = Span.maxOffset - 1 := by
      rw [size_toList, size_fill _ rfl]
    have hlast := fill_eq_append '\n' (Nat.sub_le Span.maxOffset 1)
    rw [show Span.maxOffset - (Span.maxOffset - 1) = 1 from by decide, toList_fill _ 1,
      List.replicate_one] at hlast
    have hcount : 1 + (fill '\n' (Span.maxOffset - 1)).toList.count '\n' = Span.maxOffset := by
      rw [toList_fill, List.count_replicate_self]
      decide
    have hstop := IsBoundary.of_append (List.append_nil (fill '\n' Span.maxOffset).toList).symm
    rw [size_toList, hsize] at hstop
    rw [← hfront]
    exact ⟨⟨.of_append hlast, hstop⟩, of_last_newline hlast hsize hcount⟩
  · have hletters : size (fill 'x' Span.maxOffset).toList = Span.maxOffset := by
      rw [size_toList, size_fill _ rfl]
    have happend := toList_append_newline (fill 'x' Span.maxOffset)
    have hboundary := IsBoundary.of_append happend
    rw [hletters] at hboundary
    rw [of_clipped happend (newline_notMem_fill (by decide) _) hletters]
    exact ⟨hboundary, List.mem_singleton_self _⟩

end Snippet

end Tarn
