import Tarn.Proofs.Lines.Table

/-! The lines of a text. The table gives each of them as a range of the text, one behind the other
with a newline between them, and nothing of the text is lost. -/
namespace Tarn

open Text

namespace Text

theorem newline_notMem_firstLine (cs : List Char) : '\n' ∉ firstLine cs := by
  intro h
  have := List.mem_takeWhile_imp h
  simp at this

theorem newline_notMem_lastLine (cs : List Char) : '\n' ∉ lastLine cs := by
  intro h
  have := List.mem_rtakeWhile_imp h
  simp at this

/-- Behind the first line there is a newline, unless the text ends with it. -/
theorem exists_eq_firstLine {cs : List Char} (h : '\n' ∈ cs) :
    ∃ rest, cs = firstLine cs ++ '\n' :: rest := by
  induction cs with
  | nil => cases h
  | cons c cs ih =>
    by_cases hc : c = '\n'
    · subst hc
      exact ⟨cs, by simp [firstLine]⟩
    · obtain ⟨rest, hrest⟩ := ih ((List.mem_cons.1 h).resolve_left (Ne.symm hc))
      refine ⟨rest, ?_⟩
      rw [firstLine, List.takeWhile_cons_of_pos (by simp [hc]), List.cons_append]
      exact congrArg _ hrest

theorem intercalate_concat (ls : List (List Char)) (l : List Char) :
    ['\n'].intercalate (ls ++ [l]) = ls.flatMap (· ++ ['\n']) ++ l := by
  induction ls with
  | nil => simp
  | cons l' ls ih =>
    rw [List.cons_append, List.intercalate_cons_of_ne_nil (by simp), ih, List.flatMap_cons]
    simp

end Text

namespace LineTable

/-- What stands on a line, without its newline. -/
def text (t : LineTable) (source : String) (line : Nat) : String :=
  match t.range? source line with
  | some (start, stop) => String.ofList (slice source.toList start stop)
  | none => ""

/-- The range of a line, if the next line has a number wherever one is asked for. -/
def checkedRange (t : LineTable) (source : String) (line : Nat) : Option (Option (Nat × Nat)) :=
  match t.start? line with
  | none => some none
  | some start => do
      let stop := match t.start? (← checkedNext line) with
        | some following => following - 1
        | none => source.utf8ByteSize
      return some (start, max stop start)

theorem checkedRange_eq (t : LineTable) (source : String) (line : Nat) :
    t.checkedRange source line = if (t.start? line).isSome ∧ Span.maxOffset ≤ line then none
      else some (t.range? source line) := by
  rw [checkedRange, range?]
  cases hstart : t.start? line with
  | none => simp
  | some start =>
    rcases Nat.lt_or_ge line Span.maxOffset with hline | hline
    · simp only [checkedNext, hline, Nat.not_le.2 hline, and_false, if_true, if_false]
      rfl
    · simp [checkedNext, hline, Nat.not_lt.2 hline]

theorem isSome_start? (t : LineTable) (line : Nat) :
    (t.start? line).isSome ↔ 1 ≤ line ∧ line ≤ t.count := by
  cases line with
  | zero => simp [start?]
  | succ n =>
    simp only [start?_succ, count, isSome_getElem?]
    omega

theorem isSome_range? (t : LineTable) (source : String) (line : Nat) :
    (t.range? source line).isSome ↔ 1 ≤ line ∧ line ≤ t.count := by
  rw [range?, Option.isSome_map, isSome_start?]

theorem getD_starts {t : LineTable} {n start : Nat} (h : t.start? (n + 1) = some start) :
    n < t.starts.size ∧ t.starts.getD n 0 = start := by
  rw [start?_succ] at h
  obtain ⟨hn, hget⟩ := Array.getElem?_eq_some_iff.1 h
  exact ⟨hn, by rw [← Array.getElem_eq_getD (h := hn), hget]⟩

theorem start?_of_lt {t : LineTable} {n : Nat} (h : n < t.starts.size) :
    t.start? (n + 1) = some (t.starts.getD n 0) := by
  rw [start?_succ, ← Array.getElem_eq_getD (h := h), Array.getElem?_eq_getElem]

/-- If all lines have numbers, the next line is looked up in vain only behind the last one. -/
theorem start?_next_of_le {t : LineTable} (hcount : t.count ≤ Span.maxOffset) {line : Nat}
    (hline : line ≤ t.count) : t.start? (next line) = t.start? (line + 1) := by
  obtain hlt | hlast := Nat.lt_or_eq_of_le (hline.trans hcount)
  · rw [next_of_lt hlt]
  · have hnone : t.start? (line + 1) = none := by
      rw [start?_succ]
      exact Array.getElem?_eq_none (hcount.trans hlast.ge)
    rw [hnone, hlast, next_maxOffset]
    rfl

section

variable {source : String} {a b : List Char} (hsize : source.utf8ByteSize ≤ Span.maxOffset)
include hsize

/-- The line with the place between `a` and `b` is made of the last line of `a` and the first one
of `b`. -/
theorem text_eq (h : source.toList = a ++ b) (hnext : 1 + a.count '\n' < Span.maxOffset ∨
      1 + a.count '\n' = Span.maxOffset ∧ '\n' ∉ b) :
    ((ofSource source).text source (1 + a.count '\n')).toList = lastLine a ++ firstLine b := by
  obtain ⟨rest, hrest⟩ := exists_eq_firstLine_append b
  have hsplit : source.toList = fullLines a ++ (lastLine a ++ firstLine b) ++ rest := by
    rw [← List.append_assoc, fullLines_append_lastLine, h, List.append_assoc, ← hrest]
  have hstop : size (a ++ firstLine b) =
      size (fullLines a) + size (lastLine a ++ firstLine b) := by
    rw [← size_append, ← List.append_assoc, fullLines_append_lastLine]
  rw [text, range?_eq hsize h hnext]
  simp only [String.toList_ofList]
  rw [hsplit, hstop, slice_append]

variable (hlines : source.toList.count '\n' < Span.maxOffset)
include hlines

omit hsize in
theorem count_le : (ofSource source).count ≤ Span.maxOffset := by
  rw [count_ofSource, Nat.add_comm]
  exact hlines

omit hsize in
/-- No line number is too large. -/
theorem next_or_last (h : source.toList = a ++ b) : 1 + a.count '\n' < Span.maxOffset ∨
    1 + a.count '\n' = Span.maxOffset ∧ '\n' ∉ b := by
  rw [h, List.count_append] at hlines
  by_cases hmem : '\n' ∈ b
  · have := List.count_pos_iff.2 hmem
    exact .inl (by omega)
  · rcases Nat.lt_or_eq_of_le (show 1 + a.count '\n' ≤ Span.maxOffset by omega) with hlt | heq
    · exact .inl hlt
    · exact .inr ⟨heq, hmem⟩

/-- The text up to a line is made of the lines before, each with its newline. -/
theorem exists_lines {n : Nat} (hn : n ≤ source.toList.count '\n') :
    ∃ a b, source.toList = a ++ b ∧ a.count '\n' = n ∧ lastLine a = [] ∧
      ((List.range n).map fun i => ((ofSource source).text source (i + 1)).toList).flatMap
        (· ++ ['\n']) = a := by
  induction n with
  | zero => exact ⟨[], source.toList, rfl, rfl, rfl, rfl⟩
  | succ n ih =>
    obtain ⟨a, b, h, hcount, hlast, hbefore⟩ := ih (by omega)
    have hmem : '\n' ∈ b := by
      rw [h, List.count_append] at hn
      exact List.count_pos_iff.1 (by omega)
    obtain ⟨rest, hrest⟩ := exists_eq_firstLine hmem
    have hnone := List.count_eq_zero.2 (newline_notMem_firstLine b)
    refine ⟨a ++ firstLine b ++ ['\n'], rest, ?_, ?_, ?_, ?_⟩
    · conv_lhs => rw [h, hrest]
      simp
    · simp [hcount, hnone]
    · rw [lastLine, List.rtakeWhile_concat_neg _ _ _ (by simp)]
    · have htext := text_eq hsize h (next_or_last hlines h)
      rw [hcount, Nat.add_comm, hlast, List.nil_append] at htext
      rw [List.range_succ, List.map_append, List.flatMap_append, hbefore]
      simp [htext]

/-- Every line of the table is a piece of the text with no newline in it. -/
theorem exists_line {line : Nat} (h : 1 ≤ line ∧ line ≤ (ofSource source).count) :
    ∃ a l b, source.toList = a ++ l ++ b ∧ '\n' ∉ l ∧
      (ofSource source).range? source line = some (size a, size (a ++ l)) ∧
      (ofSource source).text source line = String.ofList l := by
  rw [count_ofSource] at h
  obtain ⟨a, b, hab, hcount, hlast, -⟩ := exists_lines hsize hlines (n := line - 1) (by omega)
  obtain ⟨rest, hrest⟩ := exists_eq_firstLine_append b
  have hnext := next_or_last hlines hab
  obtain rfl : line = 1 + a.count '\n' := by omega
  refine ⟨a, firstLine b, rest, ?_, newline_notMem_firstLine b, ?_, ?_⟩
  · rw [hab, List.append_assoc, ← hrest]
  · rw [range?_eq hsize hab hnext, fullLines_eq_self hlast]
  · have htext := text_eq hsize hab hnext
    rw [hlast, List.nil_append] at htext
    rw [← htext, String.ofList_toList]

theorem intercalate_text : "\n".intercalate ((List.range (ofSource source).count).map fun i =>
    (ofSource source).text source (i + 1)) = source := by
  obtain ⟨a, b, hab, hcount, hlast, hbefore⟩ :=
    exists_lines hsize hlines (n := source.toList.count '\n') le_rfl
  have hnone : '\n' ∉ b := by
    rw [hab, List.count_append] at hcount
    exact List.count_eq_zero.1 (by omega)
  have htext := text_eq hsize hab (next_or_last hlines hab)
  rw [hcount, Nat.add_comm, hlast, List.nil_append, firstLine_eq_self hnone] at htext
  refine String.toList_inj.1 ?_
  rw [String.toList_intercalate, count_ofSource, Nat.add_comm 1, List.range_succ, List.map_append,
    List.map_append, List.map_map, List.map_singleton, List.map_singleton]
  have hnewline : "\n".toList = ['\n'] := by decide
  rw [hnewline, intercalate_concat, htext]
  conv_rhs => rw [hab]
  exact congrArg (· ++ b) hbefore

/-- A line ends before the next one begins. -/
theorem range?_lt {line line' : Nat} {r r' : Nat × Nat} (hline : line < line')
    (h : (ofSource source).range? source line = some r)
    (h' : (ofSource source).range? source line' = some r') : r.2 < r'.1 := by
  have hsorted := sorted_ofSource hsize
  obtain ⟨-, hlast⟩ := (isSome_range? _ source line').1 (by rw [h']; rfl)
  have hlt : line < Span.maxOffset := (hline.trans_le hlast).trans_le (count_le hlines)
  obtain ⟨start, hstart, rfl⟩ := Option.map_eq_some_iff.1 h
  obtain ⟨start', hstart', rfl⟩ := Option.map_eq_some_iff.1 h'
  obtain ⟨hpositive, -⟩ := (isSome_start? _ line).1 (by rw [hstart]; rfl)
  obtain ⟨n, rfl⟩ := Nat.exists_eq_add_of_le' hpositive
  obtain ⟨n', rfl⟩ := Nat.exists_eq_add_of_le' (hpositive.trans hline.le)
  obtain ⟨-, rfl⟩ := getD_starts hstart
  obtain ⟨hn', rfl⟩ := getD_starts hstart'
  have hnext : n + 1 < (ofSource source).starts.size := by omega
  have hle : (ofSource source).starts.getD (n + 1) 0 ≤ (ofSource source).starts.getD n' 0 := by
    rcases Nat.eq_or_lt_of_le (show n + 1 ≤ n' by omega) with rfl | hlt
    · exact le_rfl
    · exact (getD_lt_getD hsorted hlt hn').le
  have hless : (ofSource source).starts.getD n 0 < (ofSource source).starts.getD (n + 1) 0 :=
    getD_lt_getD hsorted (Nat.lt_succ_self n) hnext
  simp only [next_of_lt hlt, start?_of_lt hnext, Nat.max_lt]
  exact ⟨(Nat.sub_one_lt (Nat.ne_zero_of_lt hless)).trans_le hle, hless.trans_le hle⟩

/-- No more lines start up to an offset than there are. -/
theorem lineAt_eq_linesUpTo (offset : Nat) :
    (ofSource source).lineAt offset = (ofSource source).linesUpTo offset := by
  have hle := (cuts_linesUpTo hsize offset).le.trans (count_le hlines)
  rw [linesUpTo_eq hsize] at hle ⊢
  rw [lineAt_eq hsize, ordinal_of_lt (by omega)]

/-- An offset in the text lies on its line, or just behind it. -/
theorem exists_range?_lineAt {offset : Nat} (h : offset ≤ source.utf8ByteSize) :
    ∃ start stop, (ofSource source).range? source ((ofSource source).lineAt offset) =
      some (start, stop) ∧ start ≤ offset ∧ offset ≤ stop := by
  have hcuts := cuts_linesUpTo hsize offset
  obtain ⟨n, hn⟩ : ∃ n, (ofSource source).linesUpTo offset = n + 1 :=
    ⟨_, (linesUpTo_eq hsize offset).trans (Nat.add_comm ..)⟩
  rw [lineAt_eq_linesUpTo hsize hlines, hn]
  rw [hn] at hcuts
  have hbelow := hcuts.below n (Nat.lt_succ_self n)
  rw [range?, start?_next_of_le (count_le hlines) hcuts.le, start?_of_lt hcuts.le, Option.map_some]
  refine ⟨_, _, rfl, hbelow, ?_⟩
  rcases Nat.lt_or_ge (n + 1) (ofSource source).starts.size with hnext | hlast
  · have habove := hcuts.above (n + 1) le_rfl hnext
    rw [start?_of_lt hnext]
    exact (Nat.le_sub_one_of_lt habove).trans (Nat.le_max_left ..)
  · have hnone : (ofSource source).start? (n + 1 + 1) = none := by
      rw [start?_succ, Array.getElem?_eq_none hlast]
    rw [hnone]
    exact h.trans (Nat.le_max_left ..)

end

/-- In a text within the limit whose lines all have numbers there is a range for every line that is
counted, and for no other. The ranges lie in the text in order, no line has a newline in it, and the
lines with newlines between them are the text. An offset in the text lies on its line, or just
behind it. If there could be one line more, no addition on the way is too large. -/
theorem lines_partition {source : String} (hsize : source.utf8ByteSize ≤ Span.maxOffset)
    (hlines : source.toList.count '\n' < Span.maxOffset) :
    (∀ line, ((ofSource source).range? source line).isSome ↔
      1 ≤ line ∧ line ≤ (ofSource source).count) ∧
    (∀ line start stop, (ofSource source).range? source line = some (start, stop) →
      start ≤ stop ∧ stop ≤ source.utf8ByteSize ∧
        '\n' ∉ ((ofSource source).text source line).toList) ∧
    (∀ line line' r r', (ofSource source).range? source line = some r →
      (ofSource source).range? source line' = some r' → line < line' → r.2 < r'.1) ∧
    "\n".intercalate ((List.range (ofSource source).count).map fun i =>
      (ofSource source).text source (i + 1)) = source ∧
    (∀ offset ≤ source.utf8ByteSize, ∃ start stop,
      (ofSource source).range? source ((ofSource source).lineAt offset) = some (start, stop) ∧
        start ≤ offset ∧ offset ≤ stop) ∧
    (source.toList.count '\n' + 1 < Span.maxOffset →
      (∀ offset, (ofSource source).checkedLine offset = some ((ofSource source).lineAt offset)) ∧
      ∀ line, (ofSource source).checkedRange source line =
        some ((ofSource source).range? source line)) := by
  refine ⟨isSome_range? _ source, ?_, ?_, intercalate_text hsize hlines, ?_, ?_⟩
  · intro line start stop h
    obtain ⟨a, l, b, hsplit, hnone, hrange, htext⟩ :=
      exists_line hsize hlines ((isSome_range? _ source line).1 (by rw [h]; rfl))
    obtain ⟨rfl, rfl⟩ := Prod.mk.inj (Option.some.inj (h.symm.trans hrange))
    rw [htext, String.toList_ofList, ← size_toList, hsplit]
    simp only [size_append]
    exact ⟨by omega, by omega, hnone⟩
  · intro line line' r r' h h' hline
    exact range?_lt hsize hlines hline h h'
  · intro offset h
    exact exists_range?_lineAt hsize hlines h
  · intro hmore
    refine ⟨fun offset => ?_, fun line => ?_⟩
    · have hle := (cuts_linesUpTo hsize offset).le.trans (count_le hlines)
      rw [checkedLine, checkedOrdinal_eq, if_neg (by omega)]
      rfl
    · rw [checkedRange_eq, if_neg]
      rintro ⟨hsome, hline⟩
      obtain ⟨-, hlast⟩ := (isSome_start? _ line).1 hsome
      rw [count_ofSource] at hlast
      omega

/-- Three lines, of which the last is empty. -/
theorem lines_partition_three :
    let source := "a\né\n"
    source.utf8ByteSize ≤ Span.maxOffset ∧ source.toList.count '\n' < Span.maxOffset ∧
      (ofSource source).count = 3 ∧
      "\n".intercalate ((List.range (ofSource source).count).map fun i =>
        (ofSource source).text source (i + 1)) = source := by
  have hsize : "a\né\n".utf8ByteSize ≤ Span.maxOffset := by decide
  have hlines : "a\né\n".toList.count '\n' < Span.maxOffset := by decide
  obtain ⟨-, -, -, hjoined, -, -⟩ := lines_partition hsize hlines
  exact ⟨hsize, hlines, by decide +kernel, hjoined⟩

/-- Behind as many bytes as the limit allows and a newline, the next line starts in front of that
newline, for want of a larger word. -/
theorem starts_clipped {source : String} {a : List Char} (h : source.toList = a ++ ['\n'])
    (hnone : '\n' ∉ a) (hsize : size a = Span.maxOffset) :
    (ofSource source).starts = #[0, Span.maxOffset] ∧
      (ofSource source).range? source 2 = some (Span.maxOffset, Span.maxOffset + 1) := by
  have hends : newlineEnds 0 a = [] := by
    rw [← List.length_eq_zero_iff, length_newlineEnds, List.count_eq_zero.2 hnone]
  have hclip : startsAfter 0 source.toList = [Span.maxOffset] := by
    rw [startsAfter_eq_map, h, newlineEnds_append, hends, List.nil_append, Nat.zero_add, hsize]
    decide
  have hstarts : (ofSource source).starts = #[0, Span.maxOffset] := by
    rw [starts_eq, hclip]
  have hwhole : source.utf8ByteSize = Span.maxOffset + 1 := by
    rw [← size_toList, h, size_append, hsize]
    rfl
  have hstart : (ofSource source).start? 2 = some Span.maxOffset := by
    rw [start?_succ _ 1, hstarts]
    rfl
  have hnext : (ofSource source).start? (next 2) = none := by
    rw [next_of_lt (by decide), start?_succ _ 2, hstarts]
    rfl
  refine ⟨hstarts, ?_⟩
  rw [range?, hstart, hnext, Option.map_some, hwhole]
  exact congrArg (fun stop => some (_, stop)) (Nat.max_eq_left (Nat.le_succ _))

theorem text_clipped {source : String} {a : List Char} (h : source.toList = a ++ ['\n'])
    (hnone : '\n' ∉ a) (hsize : size a = Span.maxOffset) :
    (ofSource source).text source 2 = String.ofList ['\n'] := by
  have hslice := slice_append a ['\n'] []
  rw [List.append_nil, ← h, hsize] at hslice
  rw [text, (starts_clipped h hnone hsize).2]
  exact congrArg String.ofList hslice

/-- Behind as many newlines as the limit allows there is no line to be found. Behind as many letters
and one newline the line has a newline in it. -/
theorem not_lines_partition :
    let newlines := fill '\n' Span.maxOffset
    let letters := fill 'x' Span.maxOffset ++ "\n"
    (Span.maxOffset ≤ newlines.utf8ByteSize ∧
      ¬ ∃ start stop, (ofSource newlines).range? newlines
          ((ofSource newlines).lineAt Span.maxOffset) = some (start, stop) ∧
        start ≤ Span.maxOffset ∧ Span.maxOffset ≤ stop) ∧
    '\n' ∈ ((ofSource letters).text letters 2).toList := by
  dsimp only
  refine ⟨⟨(size_fill '\n' rfl Span.maxOffset).ge, ?_⟩, ?_⟩
  · rintro ⟨start, stop, hrange, -, -⟩
    rw [lineAt_eq (size_fill '\n' rfl Span.maxOffset).le, newlinesBefore_fill le_rfl,
      ordinal_maxOffset] at hrange
    cases hrange
  · have hletters : size (fill 'x' Span.maxOffset).toList = Span.maxOffset := by
      rw [size_toList, size_fill 'x' rfl]
    have hnone : '\n' ∉ (fill 'x' Span.maxOffset).toList := newline_notMem_fill (by decide) _
    rw [text_clipped (toList_append_newline _) hnone hletters, String.toList_ofList]
    exact List.mem_singleton_self _

end LineTable

end Tarn
