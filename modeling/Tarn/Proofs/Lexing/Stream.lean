import Tarn.Proofs.Likeness.Lexing

/-! The stream of tokens of a text. Every token is the longest match at its place, and the tokens
stand in the order of the text, each behind the end of the one before. -/
namespace Tarn

open Lexeme

/-- The place is a piece of the text `cs` that is not empty. It begins and ends between
characters. -/
def Span.Covers (place : Span) (cs : List Char) : Prop :=
  ∃ before text after, cs = before ++ (text ++ after) ∧ text ≠ [] ∧
    place = ⟨Text.size before, Text.size before + Text.size text⟩

namespace Span.Covers

variable {place : Span} {cs : List Char}

theorem start_lt (h : place.Covers cs) : place.start < place.stop := by
  obtain ⟨before, text, after, -, htext, rfl⟩ := h
  have hpos := Text.size_pos htext
  exact Nat.lt_add_of_pos_right hpos

theorem inside (h : place.Covers cs) : place.Inside (Text.size cs) := by
  obtain ⟨before, text, after, rfl, htext, rfl⟩ := h
  have hpos := Text.size_pos htext
  rw [Text.size_append, Text.size_append]
  exact ⟨by simp only; omega, by simp only; omega, by simp only; omega⟩

/-- What is marked of the piece is not more than the piece. -/
theorem mark_le (h : place.Covers cs) (hsize : Text.size cs ≤ Span.maxOffset) :
    place.start + max place.length 1 ≤ Text.size cs :=
  (Span.mark_le_iff h.inside.start_le (Nat.le_trans h.inside.stop_le hsize)).2 h.inside

end Span.Covers

/-- How a token of this kind is written. The text of its name, if it has one, is in `names`. -/
def TokenKind.Written (names : NameTable) : TokenKind → List Char → Prop
  | .symbol s, text => text = s.spelling.toList
  | .keyword k, text => text = k.spelling.toList
  | .identifier n, text => Lexeme.word.Matches text ∧ (∀ k : Keyword, text ≠ k.spelling.toList) ∧
      names.find? (String.ofList text) = some n
  | .number bits, text => Lexeme.number.Matches text ∧ Decimal.read text = bits
  | .string n, text => ∃ cs, text = '"' :: (cs ++ ['"']) ∧ '"' ∉ cs ∧
      names.find? (String.ofList cs) = some n
  | .eof, _ => False

namespace TokenKind.Written

variable {names names' : NameTable} {kind : TokenKind} {text : List Char}

theorem kind_ne_eof (h : kind.Written names text) : kind ≠ .eof := by
  rintro rfl
  exact h

theorem mono (h : kind.Written names text) (hnames : names.Extends names') :
    kind.Written names' text := by
  cases kind with
  | identifier n =>
    obtain ⟨hword, hkeyword, hn⟩ := h
    exact ⟨hword, hkeyword, hnames _ _ hn⟩
  | string n =>
    obtain ⟨cs, htext, hquote, hn⟩ := h
    exact ⟨cs, htext, hquote, hnames _ _ hn⟩
  | symbol | keyword | number | eof => exact h

theorem ne_nil (h : kind.Written names text) : text ≠ [] := by
  cases kind with
  | symbol s =>
    obtain rfl := h
    exact Matches.ne_nil (l := .symbol s) rfl
  | keyword k =>
    obtain rfl := h
    exact k.matches_spelling.ne_nil
  | identifier n => exact h.1.ne_nil
  | number bits => exact h.1.ne_nil
  | string n =>
    obtain ⟨cs, rfl, -⟩ := h
    exact List.cons_ne_nil _ _
  | eof => exact h.elim

end TokenKind.Written

theorem Spells.written {names names' : NameTable} {text : List Char} {kind : TokenKind}
    (h : Spells names text kind names') : kind.Written names' text := by
  cases h with
  | symbol s => rfl
  | keyword k => rfl
  | identifier h hk => exact ⟨h, hk, names.find?_intern _⟩
  | number h => exact ⟨h, rfl⟩
  | string h => exact ⟨_, rfl, h, names.find?_intern _⟩

/-- The token stands in the text `cs` where it is written, and no rule matches more there. -/
def Token.Stands (cs : List Char) (names : NameTable) (t : Token) : Prop :=
  ∃ before text rest, cs = before ++ (text ++ rest) ∧
    t.span = ⟨Text.size before, Text.size before + Text.size text⟩ ∧
    t.kind.Written names text ∧ Longest text rest

/-- The tokens stand in the text `cs` one behind the other, between two offsets. -/
def Token.Row (cs : List Char) (names : NameTable) : Nat → List Token → Nat → Prop
  | start, [], stop => start ≤ stop
  | start, t :: ts, stop => start ≤ t.span.start ∧ t.Stands cs names ∧
      Token.Row cs names t.span.stop ts stop

namespace Token

variable {cs : List Char} {names : NameTable} {start stop : Nat} {t : Token} {ts ts' : List Token}

theorem Stands.covers (h : t.Stands cs names) : t.span.Covers cs := by
  obtain ⟨before, text, rest, hcs, hspan, hwritten, -⟩ := h
  exact ⟨before, text, rest, hcs, hwritten.ne_nil, hspan⟩

theorem Stands.kind_ne_eof (h : t.Stands cs names) : t.kind ≠ .eof := by
  obtain ⟨_, _, _, _, _, hwritten, _⟩ := h
  exact hwritten.kind_ne_eof

namespace Row

theorem mono {start' : Nat} (h : Row cs names start ts stop) (hle : start' ≤ start) :
    Row cs names start' ts stop := by
  cases ts with
  | nil => exact Nat.le_trans hle h
  | cons t ts => exact ⟨Nat.le_trans hle h.1, h.2⟩

theorem append : Row cs names start (ts ++ ts') stop ↔
    ∃ middle, Row cs names start ts middle ∧ Row cs names middle ts' stop := by
  induction ts generalizing start with
  | nil =>
    constructor
    · intro h
      exact ⟨start, Nat.le_refl start, h⟩
    · rintro ⟨middle, hle, h⟩
      exact h.mono hle
  | cons t ts ih => simp only [List.cons_append, Row, ih, and_assoc, exists_and_left]

theorem stands (h : Row cs names start ts stop) :
    ∀ t ∈ ts, start ≤ t.span.start ∧ t.Stands cs names := by
  induction ts generalizing start with
  | nil => exact nofun
  | cons t ts ih =>
    obtain ⟨hle, ht, hts⟩ := h
    have hlt := ht.covers.start_lt
    refine List.forall_mem_cons.2 ⟨⟨hle, ht⟩, fun t' ht' => ?_⟩
    obtain ⟨hle', hstands⟩ := ih hts t' ht'
    exact ⟨by omega, hstands⟩

/-- No two tokens have a character in common. -/
theorem pairwise (h : Row cs names start ts stop) :
    ts.Pairwise fun t t' => t.span.stop ≤ t'.span.start := by
  induction ts generalizing start with
  | nil => exact .nil
  | cons t ts ih =>
    obtain ⟨-, -, hts⟩ := h
    exact .cons (fun t' ht' => (hts.stands t' ht').1) (ih hts)

end Row

end Token

namespace Scan

variable {drops : Char → Bool} {names names' known : NameTable} {offset : Nat} {cs : List Char}
  {tokens : List Token} {errors : List LexError}

/-- No name is lost. -/
theorem extends_names (h : Scan drops names offset cs tokens errors names') :
    names.Extends names' := (h.transport names).1

/-- The tokens of a text stand in a row, in any larger text and with any larger table. -/
theorem row (h : Scan drops names offset cs tokens errors names') (hknown : names'.Extends known)
    (before : List Char) (hbefore : Text.size before = offset) :
    Token.Row (before ++ cs) known offset tokens (offset + Text.size cs) := by
  induction h generalizing before with
  | done | openString => exact Nat.le_add_right ..
  | @token _ _ _ _ text rest _ _ _ h hlongest hrest ih =>
    subst hbefore
    have hlater := ih hknown (before ++ text) (Text.size_append ..)
    rw [List.append_assoc, Nat.add_assoc, ← Text.size_append text] at hlater
    have hwritten := h.written.mono (hrest.extends_names.trans hknown)
    exact ⟨Nat.le_refl _, ⟨before, text, rest, rfl, rfl, hwritten, hlongest⟩, hlater⟩
  | @blank _ _ _ text _ _ _ _ _ _ ih | @comment _ _ _ text _ _ _ _ _ _ ih =>
    subst hbefore
    have hlater := ih hknown (before ++ text) (Text.size_append ..)
    rw [List.append_assoc, Nat.add_assoc, ← Text.size_append text] at hlater
    exact hlater.mono (Nat.le_add_right ..)
  | @unexpected _ _ _ c _ _ _ _ _ _ ih | @dropped _ _ _ c _ _ _ _ _ _ ih =>
    subst hbefore
    have hlater := ih hknown (before ++ [c]) (by simp)
    rw [List.append_assoc, Nat.add_assoc] at hlater
    exact hlater.mono (Nat.le_add_right ..)

/-- Errors are put on pieces of the text. -/
theorem errors_covers (h : Scan drops names offset cs tokens errors names') (before : List Char)
    (hbefore : Text.size before = offset) : ∀ e ∈ errors, e.span.Covers (before ++ cs) := by
  induction h generalizing before with
  | done => exact nofun
  | @token _ _ _ _ text _ _ _ _ _ _ _ ih | @blank _ _ _ text _ _ _ _ _ _ ih
  | @comment _ _ _ text _ _ _ _ _ _ ih =>
    subst hbefore
    have hrest := ih (before ++ text) (Text.size_append ..)
    rwa [List.append_assoc] at hrest
  | @openString _ _ text h =>
    subst hbefore
    refine List.forall_mem_singleton.2 ⟨before, text, [], ?_, h.ne_nil, rfl⟩
    rw [List.append_nil]
  | @unexpected _ _ _ c rest _ _ _ _ _ ih =>
    subst hbefore
    have hrest := ih (before ++ [c]) (by simp)
    rw [List.append_assoc] at hrest
    have hspan : Span.Covers ⟨Text.size before, Text.size before + c.utf8Size⟩
        (before ++ (c :: rest)) := ⟨before, [c], rest, rfl, List.cons_ne_nil c [], rfl⟩
    exact List.forall_mem_cons.2 ⟨hspan, hrest⟩
  | @dropped _ _ _ c _ _ _ _ _ _ ih =>
    subst hbefore
    have hrest := ih (before ++ [c]) (by simp)
    rwa [List.append_assoc] at hrest

end Scan

/-- Before the end of file the tokens stand in a row. -/
theorem lex_row (source : String) (names : NameTable) : ∃ tokens stop,
    (lex source names).tokens = tokens ++ [⟨.eof, Span.point stop⟩] ∧
      Token.Row source.toList (lex source names).names 0 tokens source.utf8ByteSize ∧
      (source.utf8ByteSize ≤ Span.maxOffset → stop = source.utf8ByteSize ∧
        Scan Text.isBlank names 0 source.toList tokens (lex source names).errors
          (lex source names).names) ∧
      (Span.maxOffset < source.utf8ByteSize → tokens = [] ∧ stop = 0) := by
  by_cases hsize : source.utf8ByteSize ≤ Span.maxOffset
  · obtain ⟨tokens, errors, names', h⟩ := Scan.exists_scan Text.isBlank names 0 source.toList
    have hrow := h.row (.refl names') [] rfl
    rw [Nat.zero_add, Text.size_toList] at hrow
    rw [h.lex_eq hsize]
    exact ⟨tokens, _, rfl, hrow, fun _ => ⟨rfl, h⟩, fun hlarge => absurd hsize (Nat.not_le.2 hlarge)⟩
  · rw [lex_tooLarge (Nat.not_le.1 hsize)]
    exact ⟨[], 0, rfl, Nat.zero_le _, fun hle => absurd hle hsize, fun _ => ⟨rfl, rfl⟩⟩

/-- The tokens of every text are its longest matches, each after the other, and one end of file
behind them. A text within the limit of size is scanned to its end. Of any other nothing is read,
and the end of file is put at its start. -/
theorem lex_longest (source : String) (names : NameTable) :
    ∃ tokens stop, (lex source names).tokens = tokens ++ [⟨.eof, Span.point stop⟩] ∧
      (∀ t ∈ tokens, t.kind ≠ .eof ∧ t.span.Covers source.toList ∧
        t.Stands source.toList (lex source names).names) ∧
      tokens.Pairwise (fun t t' => t.span.stop ≤ t'.span.start) ∧
      (source.utf8ByteSize ≤ Span.maxOffset → stop = source.utf8ByteSize ∧
        Scan Text.isBlank names 0 source.toList tokens (lex source names).errors
          (lex source names).names) ∧
      (Span.maxOffset < source.utf8ByteSize → tokens = [] ∧ stop = 0) := by
  obtain ⟨tokens, stop, htokens, hrow, hends⟩ := lex_row source names
  refine ⟨tokens, stop, htokens, fun t ht => ?_, hrow.pairwise, hends⟩
  have hstands := (hrow.stands t ht).2
  exact ⟨hstands.kind_ne_eof, hstands.covers, hstands⟩

/-- A keyword before symbols that could be cut up otherwise. -/
theorem lex_longest_symbols : ∃ tokens : List Token,
    tokens.map (·.kind) = [.keyword .orKw, .symbol .bangEqual, .symbol .equal, .symbol .slash] ∧
      (lex "or!==/" NameTable.empty).tokens = tokens ++ [⟨.eof, ⟨6, 6⟩⟩] ∧
      ∀ t ∈ tokens, t.Stands "or!==/".toList (lex "or!==/" NameTable.empty).names := by
  have hkinds : (lex "or!==/" NameTable.empty).tokens.map (·.kind) =
      [.keyword .orKw, .symbol .bangEqual, .symbol .equal, .symbol .slash] ++ [.eof] := by
    decide +kernel
  obtain ⟨tokens, stop, htokens, hstands, -, hscans, -⟩ := lex_longest "or!==/" NameTable.empty
  obtain ⟨hstop, -⟩ := hscans (by decide)
  obtain rfl : stop = 6 := hstop
  rw [htokens, List.map_append] at hkinds
  exact ⟨tokens, List.append_cancel_right hkinds, htokens, fun t ht => (hstands t ht).2.2⟩

/-- The end of file of a text that is too large is not at the end of the text. -/
theorem not_lex_longest :
    let source := Text.fill '\n' (Span.maxOffset + 1)
    ¬ ∃ tokens, (lex source .empty).tokens =
      tokens ++ [⟨.eof, Span.point source.utf8ByteSize⟩] := by
  dsimp only
  have hsize := Text.size_fill '\n' rfl (Span.maxOffset + 1)
  have hlarge : Span.maxOffset < (Text.fill '\n' (Span.maxOffset + 1)).utf8ByteSize := by
    rw [hsize]
    exact Nat.lt_succ_self _
  rintro ⟨tokens, htokens⟩
  rw [lex_tooLarge hlarge, hsize] at htokens
  have hlast := List.append_inj_right' (show [] ++ [_] = tokens ++ [_] from htokens) rfl
  cases hlast

end Tarn
