import Tarn.Proofs.Lexing.Joint
import Tarn.Proofs.Lexing.Stream

/-! Texts made of the spellings of tokens with separators between them. Lexing finds the same tokens
again, unless a comment is put right after a slash, which then belongs to the comment. -/
namespace Tarn

open Lexeme

/-- What makes a token, as it is written. -/
inductive Spelling where
  | symbol (s : Symbol)
  | keyword (k : Keyword)
  | identifier (text : List Char) (hword : Lexeme.word.Matches text)
      (hkeyword : ∀ k : Keyword, text ≠ k.spelling.toList)
  | number (text : List Char) (hnumber : Lexeme.number.Matches text)
  | string (inside : List Char) (hclosed : '"' ∉ inside)

namespace Spelling

def text : Spelling → List Char
  | symbol s => s.spelling.toList
  | keyword k => k.spelling.toList
  | identifier text _ _ | number text _ => text
  | string inside _ => '"' :: (inside ++ ['"'])

/-- The text that gets a name. -/
def named? : Spelling → Option String
  | identifier text _ _ => some (String.ofList text)
  | string inside _ => some (String.ofList inside)
  | symbol _ | keyword _ | number _ _ => none

/-- The names after those of the spellings, in their order. -/
def learn (names : NameTable) (spellings : List Spelling) : NameTable :=
  (spellings.filterMap named?).foldl (fun names text => (names.intern text).2) names

theorem spells (s : Spelling) (names : NameTable) :
    ∃ kind, Spells names s.text kind (learn names [s]) := by
  cases s with
  | symbol s => exact ⟨_, .symbol s⟩
  | keyword k => exact ⟨_, .keyword k⟩
  | identifier text hword hkeyword => exact ⟨_, .identifier hword hkeyword⟩
  | number text hnumber => exact ⟨_, .number hnumber⟩
  | string inside hclosed => exact ⟨_, .string hclosed⟩

theorem learn_cons (names : NameTable) (s : Spelling) (spellings : List Spelling) :
    learn names (s :: spellings) = learn (learn names [s]) spellings := by
  rw [learn, learn, learn, ← List.foldl_append, ← List.filterMap_append, List.singleton_append]

end Spelling

/-- A blank, or a comment with the line break that ends it. -/
inductive Gap where
  | blank (c : Char) (hblank : isBlank c = true)
  | comment (inside : List Char) (hline : '\n' ∉ inside)

namespace Gap

def text : Gap → List Char
  | blank c _ => [c]
  | comment inside _ => '/' :: '/' :: (inside ++ ['\n'])

def isComment : Gap → Bool
  | blank _ _ => false
  | comment _ _ => true

end Gap

/-- One gap or more. -/
structure Separator where
  first : Gap
  more : List Gap

def Separator.text (s : Separator) : List Char := (s.first :: s.more).flatMap Gap.text

/-- Spellings with a separator behind each, and perhaps a last one. -/
structure Spaced where
  separated : List (Spelling × Separator)
  last : Option Spelling

namespace Spaced

def spellings (s : Spaced) : List Spelling := s.separated.map (·.1) ++ s.last.toList

def text (s : Spaced) : List Char :=
  s.separated.flatMap (fun p => p.1.text ++ p.2.text) ++ s.last.toList.flatMap Spelling.text

theorem text_last (s : Spelling) : text ⟨[], some s⟩ = s.text := by
  simp [text]

theorem text_cons (s : Spelling) (gap : Separator) (rest : List (Spelling × Separator))
    (last : Option Spelling) :
    text ⟨(s, gap) :: rest, last⟩ = s.text ++ (gap.text ++ text ⟨rest, last⟩) := by
  simp [text]

/-- No comment begins right after a slash. -/
def SlashesApart (s : Spaced) : Prop :=
  ∀ p ∈ s.separated, p.1 = .symbol .slash → p.2.first.isComment = false

end Spaced

namespace Lexeme

variable {c : Char} {cs rest : List Char}

/-- Only a blank or a slash follows, if anything does. -/
def Stops (rest : List Char) : Prop := ∀ c ∈ rest.head?, isBlank c = true ∨ c = '/'

namespace Stops

theorem not_class (h : Stops rest) {p : Char → Bool}
    (hp : ∀ c, p c = true → isBlank c = false ∧ c ≠ '/') : ∀ c ∈ rest.head?, p c = false := by
  intro c hc
  refine Bool.eq_false_iff.2 fun hpc => ?_
  obtain ⟨hblank, hslash⟩ := hp c hpc
  rcases h c hc with h | h
  · exact absurd (hblank.symm.trans h) Bool.false_ne_true
  · exact hslash h

theorem not_isDigit (h : Stops rest) : ∀ c ∈ rest.head?, isDigit c = false :=
  h.not_class fun _ hc => ⟨not_isBlank_of_isDigit hc, by rintro rfl; revert hc; decide⟩

theorem not_isWordPart (h : Stops rest) : ∀ c ∈ rest.head?, isWordPart c = false := by
  refine h.not_class fun c hc => ⟨?_, by rintro rfl; revert hc; decide⟩
  rcases Bool.or_eq_true_iff.1 hc with hc | hc
  · exact not_isBlank_of_isWordStart hc
  · exact not_isBlank_of_isDigit hc

theorem head?_ne (h : Stops rest) (hblank : isBlank c = false) (hslash : c ≠ '/') :
    rest.head? ≠ some c := by
  intro hc
  rcases h c hc with h | h
  · exact absurd (hblank.symm.trans h) Bool.false_ne_true
  · exact hslash h

end Stops

theorem longest_word (h : word.Matches cs) (hstop : Stops rest) : Longest cs rest := by
  obtain ⟨c, cs, rfl, hc, hcs⟩ := h
  refine longest_of_first (l := word) ?_
  rw [first_of_isWordStart hc, takeWhile_append_stop hcs hstop.not_isWordPart]

theorem fractionLength_of_ne (h : rest.head? ≠ some '.') : fractionLength rest = 0 := by
  unfold fractionLength
  split
  · exact absurd rfl h
  · rfl

theorem longest_number (h : number.Matches cs) (hstop : Stops rest) : Longest cs rest := by
  have hpoint : rest.head? ≠ some '.' := hstop.head?_ne rfl (by decide)
  obtain h | ⟨whole, fraction, rfl, hwhole, hfraction⟩ := h
  · obtain ⟨c, cs, rfl⟩ := List.exists_cons_of_ne_nil h.1
    obtain ⟨hc, hcs⟩ := List.forall_mem_cons.1 h.2
    refine longest_of_first (l := number) ?_
    rw [first_of_isDigit hc, takeWhile_append_stop hcs hstop.not_isDigit,
      dropWhile_append_stop hcs hstop.not_isDigit, fractionLength_of_ne hpoint, Nat.add_zero]
  · obtain ⟨c, whole, rfl⟩ := List.exists_cons_of_ne_nil hwhole.1
    obtain ⟨hc, hcs⟩ := List.forall_mem_cons.1 hwhole.2
    have hlength : fractionLength ('.' :: (fraction ++ rest)) = fraction.length + 1 := by
      have hpos := List.length_pos_iff.2 hfraction.1
      rw [fractionLength_point, takeWhile_append_stop hfraction.2 hstop.not_isDigit]
      split
      · omega
      next n hn =>
        show n + 1 + 1 = fraction.length + 1
        omega
    rw [List.cons_append]
    refine longest_of_first (l := number) ?_
    rw [first_of_isDigit hc, List.append_assoc, List.cons_append, takeWhile_append_cons hcs rfl,
      dropWhile_append_cons hcs rfl, hlength, List.length_append, List.length_cons]

/-- A string ends at its second quote, whatever follows. -/
theorem longest_string (h : '"' ∉ cs) (rest : List Char) :
    Longest ('"' :: (cs ++ ['"'])) rest := by
  refine longest_of_first (l := string) ?_
  rw [first_quote, List.append_assoc, List.singleton_append,
    takeWhile_append_cons (ne_quote h) rfl, dropWhile_append_cons (ne_quote h) rfl,
    List.length_append]
  rfl

/-- A symbol does not go on in what follows, but two slashes start a comment. -/
theorem longest_symbol (s : Symbol) (hstop : Stops rest)
    (hslash : s = .slash → rest.head? ≠ some '/') : Longest s.spelling.toList rest := by
  have hequal : rest.head? ≠ some '=' := hstop.head?_ne rfl (by decide)
  obtain ⟨c, htext, hs⟩ | ⟨c, htext, hs⟩ := spelling_cases s
  · have hcomment : ¬ (c = '/' ∧ rest.head? = some '/') := by
      rintro ⟨rfl, hhead⟩
      exact hslash (Option.some.inj hs).symm hhead
    have hone : symbol? c rest = some (s, [c]) := by
      unfold symbol?
      split
      · exact absurd rfl hequal
      · rw [hs]
        rfl
    obtain ⟨s', text, hsymbol, hfirst⟩ := first_of_single? hs hcomment
    obtain ⟨rfl, rfl⟩ := Prod.mk.inj (Option.some.inj (hone.symm.trans hsymbol))
    rw [htext]
    exact longest_of_first hfirst
  · obtain ⟨s', hs'⟩ := single?_of_withEqual? hs
    have htwo : symbol? c (['='] ++ rest) = some (s, [c, '=']) := by
      simp [symbol?, hs]
    have hcomment : ¬ (c = '/' ∧ (['='] ++ rest).head? = some '/') := by simp
    obtain ⟨s'', text, hsymbol, hfirst⟩ := first_of_single? hs' hcomment
    obtain ⟨rfl, rfl⟩ := Prod.mk.inj (Option.some.inj (htwo.symm.trans hsymbol))
    rw [htext]
    exact longest_of_first hfirst

theorem longest_comment (h : '\n' ∉ cs) (rest : List Char) :
    Longest ('/' :: '/' :: cs) ('\n' :: rest) := by
  have hinside : ∀ c ∈ '/' :: cs, (c != '\n') = true := by
    refine List.forall_mem_cons.2 ⟨by decide, fun c hc => bne_iff_ne.2 ?_⟩
    rintro rfl
    exact h hc
  refine longest_of_first (l := comment) ?_
  rw [List.cons_append, first_comment rfl, ← List.cons_append,
    takeWhile_append_cons hinside (by decide)]

end Lexeme

/-- A spelling ends where a separator or the end of the text comes. -/
theorem Spelling.longest (s : Spelling) {rest : List Char} (hstop : Stops rest)
    (hslash : s = .symbol .slash → rest.head? ≠ some '/') : Longest s.text rest := by
  cases s with
  | symbol s => exact longest_symbol s hstop fun hs => hslash (congrArg _ hs)
  | keyword k => exact longest_word k.matches_spelling hstop
  | identifier text hword _ => exact longest_word hword hstop
  | number text hnumber => exact longest_number hnumber hstop
  | string inside hclosed => exact longest_string hclosed rest

theorem Separator.stops (gap : Separator) (rest : List Char) : Stops (gap.text ++ rest) := by
  obtain ⟨_ | _, more⟩ := gap
  next c hblank =>
    rintro _ ⟨⟩
    exact .inl hblank
  next inside hline =>
    rintro _ ⟨⟩
    exact .inr rfl

/-- A separator that does not begin with a comment begins with a blank. -/
theorem Separator.head?_ne_slash {gap : Separator} (h : gap.first.isComment = false)
    (rest : List Char) : (gap.text ++ rest).head? ≠ some '/' := by
  obtain ⟨_ | _, more⟩ := gap
  next c hblank =>
    rintro ⟨⟩
    cases hblank
  next inside hline => cases h

namespace Scan

variable {drops : Char → Bool} {names names' : NameTable} {offset : Nat} {cs : List Char}
  {tokens : List Token} {errors : List LexError}

theorem gap_append (gap : Gap)
    (h : Scan drops names (offset + Text.size gap.text) cs tokens errors names') :
    Scan drops names offset (gap.text ++ cs) tokens errors names' := by
  cases gap with
  | blank c hblank =>
    exact blank_append ⟨List.cons_ne_nil c [], List.forall_mem_singleton.2 hblank⟩ h
  | comment inside hline =>
    have hnewline : Lexeme.blank.Matches ['\n'] := ⟨by simp, by simp [isBlank]⟩
    have hline' : Lexeme.comment.Matches ('/' :: '/' :: inside) := ⟨inside, rfl, hline⟩
    have hsize : Text.size (Gap.comment inside hline).text =
        Text.size ('/' :: '/' :: inside) + Text.size ['\n'] := by
      rw [← Text.size_append]
      rfl
    rw [hsize, ← Nat.add_assoc] at h
    have hscan := Scan.comment hline' (longest_comment hline cs) (blank_append hnewline h)
    rwa [show (Gap.comment inside hline).text ++ cs = ('/' :: '/' :: inside) ++ ('\n' :: cs) by
      simp [Gap.text]]

theorem gaps_append (gaps : List Gap)
    (h : Scan drops names (offset + Text.size (gaps.flatMap Gap.text)) cs tokens errors names') :
    Scan drops names offset (gaps.flatMap Gap.text ++ cs) tokens errors names' := by
  induction gaps generalizing offset with
  | nil => exact h
  | cons gap gaps ih =>
    rw [List.flatMap_cons, Text.size_append, ← Nat.add_assoc] at h
    rw [List.flatMap_cons, List.append_assoc]
    exact gap_append gap (ih h)

/-- Separators make no difference but to the places of what follows. -/
theorem separator_append (gap : Separator)
    (h : Scan drops names (offset + Text.size gap.text) cs tokens errors names') :
    Scan drops names offset (gap.text ++ cs) tokens errors names' := gaps_append _ h

/-- A spelling before what does not go on with it is one token. -/
theorem spelling_append (s : Spelling) (hstop : Stops cs)
    (hslash : s = .symbol .slash → cs.head? ≠ some '/')
    (h : Scan drops (Spelling.learn names [s]) (offset + Text.size s.text) cs tokens errors
      names') :
    ∃ kind : TokenKind, kind.Written names' s.text ∧ Scan drops names offset (s.text ++ cs)
      (⟨kind, ⟨offset, offset + Text.size s.text⟩⟩ :: tokens) errors names' := by
  obtain ⟨kind, hspells⟩ := s.spells names
  exact ⟨kind, hspells.written.mono h.extends_names,
    .token hspells (s.longest hstop hslash) h⟩

end Scan

/-- The token is what is written in the text, and stands there. -/
structure Spelling.ReadAs (cs : List Char) (names : NameTable) (s : Spelling) (t : Token) :
    Prop where
  lexeme : t.span.charsIn cs = s.text
  written : t.kind.Written names s.text

theorem Spelling.readAs (s : Spelling) {names : NameTable} {kind : TokenKind}
    (h : kind.Written names s.text) (before after : List Char) :
    s.ReadAs (before ++ (s.text ++ after)) names
      ⟨kind, ⟨Text.size before, Text.size before + Text.size s.text⟩⟩ where
  lexeme := by
    rw [← List.append_assoc]
    exact Text.slice_append before s.text after
  written := h

/-- Spaced spellings are scanned without errors, each as one token. -/
theorem Spaced.scan (drops : Char → Bool) {s : Spaced} (hslash : s.SlashesApart)
    (names : NameTable) (before : List Char) :
    ∃ tokens, Scan drops names (Text.size before) s.text tokens []
        (Spelling.learn names s.spellings) ∧
      List.Forall₂ (Spelling.ReadAs (before ++ s.text) (Spelling.learn names s.spellings))
        s.spellings tokens := by
  obtain ⟨separated, last⟩ := s
  induction separated generalizing names before with
  | nil =>
    cases last with
    | none => exact ⟨[], .done, .nil⟩
    | some s =>
      have hdone : Scan drops (Spelling.learn names [s]) (Text.size before + Text.size s.text) []
        [] [] (Spelling.learn names [s]) := .done
      have hend : Stops [] := nofun
      obtain ⟨kind, hkind, hscan⟩ := Scan.spelling_append s hend (fun _ h => nomatch h) hdone
      rw [text_last, ← List.append_nil s.text]
      exact ⟨_, hscan, .cons (s.readAs hkind before []) .nil⟩
  | cons p separated ih =>
    obtain ⟨s, gap⟩ := p
    obtain ⟨hs, hrest⟩ := List.forall_mem_cons.1 hslash
    obtain ⟨tokens, hscan, hreads⟩ :=
      ih (Spelling.learn names [s]) (before ++ (s.text ++ gap.text)) hrest
    rw [Text.size_append, Text.size_append, ← Nat.add_assoc] at hscan
    obtain ⟨kind, hkind, hscan⟩ := Scan.spelling_append s (gap.stops _)
      (fun h => Separator.head?_ne_slash (hs h) _) (Scan.separator_append gap hscan)
    rw [text_cons, show spellings ⟨(s, gap) :: separated, last⟩ =
      s :: spellings ⟨separated, last⟩ from rfl, Spelling.learn_cons]
    rw [List.append_assoc, List.append_assoc] at hreads
    exact ⟨_, hscan, .cons (s.readAs hkind before _) hreads⟩

/-- The spellings of tokens with separators between them are lexed to these tokens, each with its
text and its name or value, if no comment begins right after a slash. Together they have to be within
the limit of size; past it nothing is read. -/
theorem lex_spaced {s : Spaced} (hslash : s.SlashesApart) (names : NameTable) :
    let source := String.ofList s.text
    (source.utf8ByteSize ≤ Span.maxOffset → ∃ tokens, lex source names =
        ⟨tokens ++ [⟨.eof, Span.point source.utf8ByteSize⟩], [],
          Spelling.learn names s.spellings⟩ ∧
        List.Forall₂ (Spelling.ReadAs source.toList (Spelling.learn names s.spellings))
          s.spellings tokens) ∧
      (Span.maxOffset < source.utf8ByteSize → lex source names = ⟨[⟨.eof, Span.point 0⟩],
        [⟨.sourceTooLarge source.utf8ByteSize, Span.nowhere⟩], names⟩) := by
  refine ⟨fun hsize => ?_, fun hlarge => lex_tooLarge hlarge names⟩
  obtain ⟨tokens, hscan, hreads⟩ := s.scan Text.isBlank hslash names []
  have htext : (String.ofList s.text).toList = s.text := String.toList_ofList
  rw [← htext] at hscan hreads
  exact ⟨tokens, hscan.lex_eq hsize, hreads⟩

def letterX : Spelling :=
  .identifier ['x'] ⟨'x', [], rfl, rfl, nofun⟩ fun k => by cases k <;> decide

/-- A division over several lines. The comments hold a quote and a slash, the string looks like a
comment, and the comment next to the division comes behind a line break. -/
def spacedDivision : Spaced where
  separated := [(.keyword .printKw, ⟨.blank ' ' rfl, []⟩),
    (.string ['/', '/', '\n'] (by decide), ⟨.comment ['"'] (by decide), [.blank '\t' rfl]⟩),
    (.symbol .slash, ⟨.blank '\n' rfl, [.comment ['/'] (by decide)]⟩)]
  last := some letterX

theorem lex_spaced_division :
    String.ofList spacedDivision.text = "print \"//\n\"//\"\n\t/\n///\nx" ∧
      spacedDivision.SlashesApart ∧ ∃ tokens,
        lex "print \"//\n\"//\"\n\t/\n///\nx" .empty = ⟨tokens ++ [⟨.eof, Span.point 23⟩], [],
          Spelling.learn .empty spacedDivision.spellings⟩ ∧
        List.Forall₂ (Spelling.ReadAs "print \"//\n\"//\"\n\t/\n///\nx".toList
          (Spelling.learn .empty spacedDivision.spellings)) spacedDivision.spellings tokens := by
  have htext : String.ofList spacedDivision.text = "print \"//\n\"//\"\n\t/\n///\nx" := rfl
  have hslash : spacedDivision.SlashesApart := by
    simp [Spaced.SlashesApart, spacedDivision, Gap.isComment]
  have hlex := (lex_spaced hslash .empty).1 (by decide +kernel)
  rw [htext] at hlex
  exact ⟨htext, hslash, hlex⟩

/-- A comment between a slash and a name. -/
def slashComment : Spaced where
  separated := [(.symbol .slash, ⟨.comment [] (by decide), []⟩)]
  last := some letterX

/-- A comment right after a slash has the slash in it, so there is no token for the slash. -/
theorem not_lex_slashComment : String.ofList slashComment.text = "///\nx" ∧
    ¬ ∃ tokens, lex "///\nx" .empty = ⟨tokens ++ [⟨.eof, Span.point 5⟩], [],
        Spelling.learn .empty slashComment.spellings⟩ ∧
      List.Forall₂ (Spelling.ReadAs "///\nx".toList
        (Spelling.learn .empty slashComment.spellings)) slashComment.spellings tokens := by
  refine ⟨rfl, ?_⟩
  rintro ⟨tokens, hlex, hreads⟩
  have hlength : (lex "///\nx" .empty).tokens.length = 2 := by decide +kernel
  rw [hlex, List.length_append, ← hreads.length_eq] at hlength
  cases hlength

end Tarn
