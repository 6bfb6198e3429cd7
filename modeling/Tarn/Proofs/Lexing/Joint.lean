import Tarn.Proofs.Lexing.Scan

/-! Texts that are joined by a line break. No token goes on across it, so the joined text has the
tokens of the one and then those of the other, further on. -/
namespace Tarn

namespace Lexeme

/-- A rule that matches a line break is that of blanks or of strings. -/
theorem eq_of_newline_mem {l : Lexeme} {p : List Char} (h : l.Matches p) (hmem : '\n' ∈ p) :
    l = blank ∨ l = string ∨ l = openString := by
  cases l with
  | blank => exact .inl rfl
  | string => exact .inr (.inl rfl)
  | openString => exact .inr (.inr rfl)
  | comment =>
    obtain ⟨cs, rfl, hcs⟩ := h
    simp [hcs] at hmem
  | symbol s =>
    obtain rfl := h
    revert hmem
    cases s <;> decide
  | word =>
    obtain ⟨c, cs, rfl, hc, hcs⟩ := h
    obtain rfl | hmem := List.mem_cons.1 hmem
    · revert hc
      decide
    · exact absurd (hcs _ hmem) (by decide)
  | number =>
    have hdigits {text : List Char} (h : Digits text) : '\n' ∉ text :=
      fun hmem => absurd (h.2 _ hmem) (by decide)
    obtain h | ⟨whole, fraction, rfl, hwhole, hfraction⟩ := h
    · exact absurd hmem (hdigits h)
    · simp [hdigits hwhole, hdigits hfraction] at hmem
  | stray c => exact h.elim

/-- What is matched across a line break is blank before it, or a string that is not closed. -/
theorem matches_across_newline {l : Lexeme} {p cs rest : List Char} (h : l.Matches p)
    (hp : p <+: cs ++ '\n' :: rest) (hcs : cs ≠ []) :
    p <+: cs ∨ blank.Matches cs ∨ openString.Matches cs := by
  obtain ⟨more, hmore⟩ := hp
  obtain ⟨q, rfl, -⟩ | ⟨q, rfl, hq⟩ := List.append_eq_append_iff.1 hmore
  · exact .inl (List.prefix_append p q)
  obtain _ | ⟨d, q⟩ := q
  · exact .inl (by simp)
  obtain ⟨rfl, -⟩ := List.cons.inj hq
  refine .inr ?_
  obtain ⟨c, cs, rfl⟩ := List.exists_cons_of_ne_nil hcs
  have hopen {inside : List Char} (hinside : '"' ∉ inside) (hcs : cs <+: inside) :
      openString.Matches ('"' :: cs) := ⟨cs, rfl, fun hmem => hinside (hcs.subset hmem)⟩
  obtain rfl | rfl | rfl := eq_of_newline_mem h (by simp)
  · exact .inl ⟨hcs, fun c hc => h.2 c (List.mem_append_left _ hc)⟩
  · obtain ⟨inside, heq, hinside⟩ := h
    rw [List.cons_append] at heq
    obtain ⟨rfl, htail⟩ := List.cons.inj heq
    have hdrop := congrArg List.dropLast htail
    rw [List.dropLast_concat, List.dropLast_append_of_ne_nil (List.cons_ne_nil _ _)] at hdrop
    exact .inr (hopen hinside ⟨_, hdrop⟩)
  · obtain ⟨inside, heq, hinside⟩ := h
    obtain ⟨rfl, htail⟩ := List.cons.inj heq
    exact .inr (hopen hinside ⟨_, htail⟩)

variable {l : Lexeme} {text rest : List Char}

/-- A lexeme that ends before a line break, or before the end, ends there in any case. -/
theorem Longest.append_newline (h : l.Matches text) (hlongest : Longest text rest)
    (hblank : l ≠ blank) (hopen : l ≠ openString) (more : List Char) :
    Longest text (rest ++ '\n' :: more) := by
  obtain ⟨c, cs, rfl⟩ := List.exists_cons_of_ne_nil h.ne_nil
  -- Another rule that matches all there is before the line break would have been the longest.
  have hwhole {l' : Lexeme} (h' : l'.Matches (c :: cs ++ rest)) : l = l' := by
    have hlength := hlongest _ _ h' (List.prefix_refl _)
    obtain rfl : rest = [] := by
      rw [List.length_append] at hlength
      exact List.eq_nil_of_length_eq_zero (by omega)
    rw [List.append_nil] at h'
    have hsame := (first_of_longest h hlongest).symm.trans (first_of_longest h' hlongest)
    exact congrArg Prod.fst hsame
  intro l' p hp hprefix
  rw [← List.append_assoc] at hprefix
  obtain hbefore | hbefore | hbefore := matches_across_newline hp hprefix (by simp)
  · exact hlongest l' p hp hbefore
  · exact absurd (hwhole hbefore) hblank
  · exact absurd (hwhole hbefore) hopen

theorem Unmatched.append_newline {c : Char} (h : Unmatched c rest) (more : List Char) :
    Unmatched c (rest ++ '\n' :: more) := by
  intro l p hp hprefix
  have hne : c :: rest ≠ [] := List.cons_ne_nil _ _
  obtain hbefore | hbefore | hbefore := matches_across_newline hp hprefix hne
  · exact h l p hp hbefore
  · exact h _ _ hbefore (List.prefix_refl _)
  · exact h _ _ hbefore (List.prefix_refl _)

/-- Blanks go on as far as they can. -/
theorem longest_blank_iff (h : blank.Matches text) :
    Longest text rest ↔ ∀ c ∈ rest.head?, isBlank c = false := by
  constructor
  · intro hlongest c hc
    obtain ⟨rest, rfl⟩ := List.head?_eq_some_iff.1 hc
    refine Bool.eq_false_iff.2 fun hblank => ?_
    have hlonger : blank.Matches (text ++ [c]) :=
      ⟨by simp, List.forall_mem_append.2 ⟨h.2, List.forall_mem_singleton.2 hblank⟩⟩
    have hlength := hlongest _ _ hlonger ⟨rest, by simp⟩
    simp only [List.length_append, List.length_singleton] at hlength
    omega
  · intro hrest
    obtain ⟨c, cs, rfl⟩ := List.exists_cons_of_ne_nil h.1
    obtain ⟨hc, hcs⟩ := List.forall_mem_cons.1 h.2
    refine longest_of_first (l := blank) ?_
    rw [first_of_isBlank hc, takeWhile_append_stop hcs hrest]

/-- What is no blank does not begin with one. -/
theorem isBlank_head_of_longest {c : Char} {cs : List Char} (h : l.Matches (c :: cs))
    (hlongest : Longest (c :: cs) rest) (hblank : l ≠ blank) : isBlank c = false := by
  refine Bool.eq_false_iff.2 fun hc => ?_
  have hfirst := (first_of_longest h hlongest).symm.trans (first_of_isBlank hc)
  exact hblank (congrArg Prod.fst hfirst)

end Lexeme

/-- The two texts on lines of their own. -/
def joined (first second : String) : String := first ++ "\n" ++ second

theorem toList_joined (first second : String) :
    (joined first second).toList = first.toList ++ '\n' :: second.toList := by
  simp [joined]

theorem size_joined (first second : String) :
    (joined first second).utf8ByteSize = second.utf8ByteSize + (first.utf8ByteSize + 1) := by
  rw [← Text.size_toList, toList_joined, Text.size_append, Text.size_cons, Text.size_toList,
    Text.size_toList]
  have hnewline : '\n'.utf8Size = 1 := rfl
  omega

def Token.shift (t : Token) (n : Nat) : Token := ⟨t.kind, t.span.shift n⟩

def LexError.shift (e : LexError) (n : Nat) : LexError := ⟨e.fault, e.span.shift n⟩

open Lexeme

namespace Scan

variable {drops : Char → Bool} {t t' u : NameTable} {offset : Nat} {a b cs : List Char}
  {tokens more : List Token} {errors errors' : List LexError}

/-- Blanks in front of a text make no difference but to its place. -/
theorem blank_append {text : List Char} (h : Lexeme.blank.Matches text)
    (hscan : Scan drops t (offset + Text.size text) cs tokens errors t') :
    Scan drops t offset (text ++ cs) tokens errors t' := by
  have hstop (hhead : ∀ c ∈ cs.head?, isBlank c = false) :
      Scan drops t offset (text ++ cs) tokens errors t' :=
    .blank h ((longest_blank_iff h).2 hhead) hscan
  have hlexeme {l : Lexeme} {p rest : List Char} (hl : l.Matches p) (hlongest : Longest p rest)
      (hblank : l ≠ .blank) : ∀ c ∈ (p ++ rest).head?, isBlank c = false := by
    obtain ⟨c, p, rfl⟩ := List.exists_cons_of_ne_nil hl.ne_nil
    rintro _ ⟨⟩
    exact isBlank_head_of_longest hl hlongest hblank
  have hunmatched {c : Char} {rest : List Char} (hc : Unmatched c rest) :
      ∀ d ∈ (c :: rest).head?, isBlank d = false := by
    rintro _ ⟨⟩
    refine Bool.eq_false_iff.2 fun hblank => ?_
    exact hc .blank [c] ⟨by simp, by simpa using hblank⟩ ⟨rest, rfl⟩
  cases hscan with
  | done => exact hstop nofun
  | token hs hlongest hrest =>
    obtain ⟨l, hl, hkind⟩ := hs.kind?
    refine hstop (hlexeme hl hlongest ?_)
    rintro rfl
    cases (hkind Span.nowhere).1
  | comment hl hlongest hrest => exact hstop (hlexeme hl hlongest nofun)
  | openString hl =>
    obtain ⟨inside, rfl, -⟩ := hl
    refine hstop ?_
    rintro _ ⟨⟩
    rfl
  | unexpected hc _ hrest => exact hstop (hunmatched hc)
  | dropped hc _ hrest => exact hstop (hunmatched hc)
  | @blank _ _ _ text' rest _ _ h' hlongest hrest =>
    have hboth : Lexeme.blank.Matches (text ++ text') :=
      ⟨by simp [h.1], List.forall_mem_append.2 ⟨h.2, h'.2⟩⟩
    rw [← List.append_assoc]
    refine .blank hboth ((longest_blank_iff hboth).2 ((longest_blank_iff h').1 hlongest)) ?_
    rwa [Text.size_append, ← Nat.add_assoc]

/-- The same text further on. -/
theorem shift (h : Scan drops t offset cs tokens errors t') (n : Nat) :
    Scan drops t (offset + n) cs (tokens.map (·.shift n)) (errors.map (·.shift n)) t' := by
  induction h with
  | done => exact .done
  | token hs hlongest _ ih =>
    rw [Nat.add_right_comm] at ih
    rw [List.map_cons, Token.shift, Span.shift, Nat.add_right_comm]
    exact .token hs hlongest ih
  | blank h hlongest _ ih =>
    rw [Nat.add_right_comm] at ih
    exact .blank h hlongest ih
  | comment h hlongest _ ih =>
    rw [Nat.add_right_comm] at ih
    exact .comment h hlongest ih
  | openString h =>
    rw [List.map_singleton, LexError.shift, Span.shift, Nat.add_right_comm]
    exact .openString h
  | unexpected h hc _ ih =>
    rw [Nat.add_right_comm] at ih
    rw [List.map_cons, LexError.shift, Span.shift, Nat.add_right_comm]
    exact .unexpected h hc ih
  | dropped h hc _ ih =>
    rw [Nat.add_right_comm] at ih
    exact .dropped h hc ih

/-- A text in which no string is left open, a line break and another text. -/
theorem append_newline (ha : Scan drops t offset a tokens errors u)
    (hclosed : ∀ e ∈ errors, e.fault ≠ .unterminatedString)
    (hb : Scan drops u (offset + Text.size a + 1) b more errors' t') :
    Scan drops t offset (a ++ '\n' :: b) (tokens ++ more) (errors ++ errors') t' := by
  induction ha with
  | done =>
    have hnewline : Lexeme.blank.Matches ['\n'] := ⟨by simp, by simp [isBlank]⟩
    have hscan : Scan drops _ _ (['\n'] ++ b) more errors' t' := blank_append hnewline hb
    exact hscan
  | token hs hlongest _ ih =>
    obtain ⟨l, hl, hkind⟩ := hs.kind?
    have hkind := (hkind Span.nowhere).1
    rw [Text.size_append, ← Nat.add_assoc] at hb
    rw [List.append_assoc]
    refine .token hs (hlongest.append_newline hl ?_ ?_ b) (ih hclosed hb)
    all_goals
      rintro rfl
      cases hkind
  | blank h _ _ ih =>
    rw [Text.size_append, ← Nat.add_assoc] at hb
    rw [List.append_assoc]
    exact blank_append h (ih hclosed hb)
  | comment h hlongest _ ih =>
    rw [Text.size_append, ← Nat.add_assoc] at hb
    rw [List.append_assoc]
    exact .comment h (hlongest.append_newline h (by decide) (by decide) b) (ih hclosed hb)
  | openString => exact absurd rfl (hclosed _ List.mem_cons_self)
  | unexpected hc hdrops _ ih =>
    rw [Text.size_cons, ← Nat.add_assoc] at hb
    exact .unexpected (hc.append_newline b) hdrops (ih (List.forall_mem_cons.1 hclosed).2 hb)
  | dropped hc hdrops _ ih =>
    rw [Text.size_cons, ← Nat.add_assoc] at hb
    exact .dropped (hc.append_newline b) hdrops (ih hclosed hb)

end Scan

/-- Two texts on lines of their own are lexed in turn, if no string of the first is left open. The
tokens and errors of the second stand further on, and its names are numbered after those of the
first. Together the texts have to be within the limit of size; past it nothing is read. -/
theorem lex_joined (first second : String) (names : NameTable)
    (hclosed : ∀ e ∈ (lex first names).errors, e.fault ≠ .unterminatedString) :
    let left := lex first names
    let right := lex second left.names
    let n := first.utf8ByteSize + 1
    ((joined first second).utf8ByteSize ≤ Span.maxOffset →
      ∃ tokens, left.tokens = tokens ++ [⟨.eof, Span.point first.utf8ByteSize⟩] ∧
        lex (joined first second) names = ⟨tokens ++ right.tokens.map (·.shift n),
          left.errors ++ right.errors.map (·.shift n), right.names⟩) ∧
      (Span.maxOffset < (joined first second).utf8ByteSize →
        lex (joined first second) names = ⟨[⟨.eof, Span.point 0⟩],
          [⟨.sourceTooLarge (joined first second).utf8ByteSize, Span.nowhere⟩], names⟩) := by
  dsimp only
  refine ⟨fun hsize => ?_, fun hlarge => lex_tooLarge hlarge names⟩
  have hlength := size_joined first second
  obtain ⟨tokens, errors, names₁, hfirst⟩ := Scan.exists_scan Text.isBlank names 0 first.toList
  have hleft := hfirst.lex_eq (show first.utf8ByteSize ≤ Span.maxOffset by omega)
  rw [hleft] at hclosed ⊢
  obtain ⟨more, errors', names₂, hsecond⟩ :=
    Scan.exists_scan Text.isBlank names₁ 0 second.toList
  have hright := hsecond.lex_eq (show second.utf8ByteSize ≤ Span.maxOffset by omega)
  have hshifted := hsecond.shift (first.utf8ByteSize + 1)
  rw [← Text.size_toList first, ← Nat.add_assoc] at hshifted
  have hscan := hfirst.append_newline hclosed hshifted
  rw [← toList_joined] at hscan
  refine ⟨tokens, rfl, ?_⟩
  rw [hright, hscan.lex_eq hsize, Text.size_toList, hlength, List.map_append, List.append_assoc]
  rfl

/-- A comment with a quote in it ends at the line break. What is no token before it does not stop
the lexer, and the string after it is not closed. -/
theorem lex_joined_comment : ∃ tokens,
    (lex "~x // \"" .empty).tokens = tokens ++ [⟨.eof, Span.point 7⟩] ∧
      (lex (joined "~x // \"" "x\"y") .empty).tokens =
        tokens ++ [⟨.identifier ⟨1⟩, ⟨8, 9⟩⟩, ⟨.eof, ⟨11, 11⟩⟩] ∧
      (lex (joined "~x // \"" "x\"y") .empty).errors =
        [⟨.unexpectedChar '~', ⟨0, 1⟩⟩, ⟨.unterminatedString, ⟨9, 11⟩⟩] := by
  obtain ⟨tokens, htokens, hlex⟩ :=
    (lex_joined "~x // \"" "x\"y" .empty (by decide +kernel)).1 (by decide +kernel)
  have hmore : (lex "x\"y" (lex "~x // \"" .empty).names).tokens.map (·.shift 8) =
      [⟨.identifier ⟨1⟩, ⟨8, 9⟩⟩, ⟨.eof, ⟨11, 11⟩⟩] := by
    decide +kernel
  have herrors : (lex "~x // \"" .empty).errors ++
      (lex "x\"y" (lex "~x // \"" .empty).names).errors.map (·.shift 8) =
        [⟨.unexpectedChar '~', ⟨0, 1⟩⟩, ⟨.unterminatedString, ⟨9, 11⟩⟩] := by
    decide +kernel
  rw [hlex]
  exact ⟨tokens, htokens, congrArg (tokens ++ ·) hmore, herrors⟩

/-- Of two texts that are too large together nothing is left, not even the token of the first. -/
theorem not_lex_joined :
    let second := Text.fill '\n' Span.maxOffset
    let left := lex "x" .empty
    let right := lex second left.names
    left.errors = [] ∧ second.utf8ByteSize ≤ Span.maxOffset ∧
      ¬ ∃ tokens, left.tokens = tokens ++ [⟨.eof, Span.point "x".utf8ByteSize⟩] ∧
        (lex (joined "x" second) .empty).tokens = tokens ++ right.tokens.map (·.shift 2) := by
  dsimp only
  have hsize := Text.size_fill '\n' rfl Span.maxOffset
  have hlarge : Span.maxOffset < (joined "x" (Text.fill '\n' Span.maxOffset)).utf8ByteSize := by
    rw [size_joined, hsize]
    exact Nat.lt_add_of_pos_right (Nat.succ_pos _)
  have herrors : (lex "x" .empty).errors = [] := by decide +kernel
  refine ⟨herrors, Nat.le_of_eq hsize, ?_⟩
  rintro ⟨tokens, hleft, hjoined⟩
  have hone : (lex "x" .empty).tokens =
      [⟨.identifier ⟨1⟩, ⟨0, 1⟩⟩] ++ [⟨.eof, Span.point "x".utf8ByteSize⟩] := by
    decide +kernel
  obtain rfl := List.append_cancel_right (hleft.symm.trans hone)
  rw [lex_tooLarge hlarge, List.singleton_append] at hjoined
  obtain ⟨hhead, -⟩ := List.cons.inj hjoined
  cases hhead

end Tarn
