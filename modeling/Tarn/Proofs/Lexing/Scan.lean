import Tarn.Proofs.Lexing.Rules
import Tarn.Token.Lexer

/-! What lexing makes of a whole text. Every character is accounted for once. -/
namespace Tarn

open Lexeme

/-- `Spells names text kind names'`: a token of this kind is written `text`, and the table `names`
becomes `names'` by it. -/
inductive Spells (names : NameTable) : List Char → TokenKind → NameTable → Prop where
  | symbol (s : Symbol) : Spells names s.spelling.toList (.symbol s) names
  | keyword (k : Keyword) : Spells names k.spelling.toList (.keyword k) names
  | identifier {text} (h : word.Matches text)
      (hk : ∀ k : Keyword, text ≠ k.spelling.toList) :
      Spells names text (.identifier (names.intern (String.ofList text)).1)
        (names.intern (String.ofList text)).2
  | number {text} (h : Lexeme.number.Matches text) :
      Spells names text (.number (Decimal.read text)) names
  | string {cs} (h : '"' ∉ cs) :
      Spells names ('"' :: (cs ++ ['"'])) (.string (names.intern (String.ofList cs)).1)
        (names.intern (String.ofList cs)).2

/-- `Scan drops names offset cs tokens errors names'`: the text `cs`, which starts at byte `offset`,
falls apart into tokens, runs of blanks, comments, a string that is not closed, and single
characters that no rule matches. Each of these is one error, unless it is among those that are
dropped. The tokens and errors come in the order of the text. -/
inductive Scan (drops : Char → Bool) :
    NameTable → Nat → List Char → List Token → List LexError → NameTable → Prop where
  | done {names offset} : Scan drops names offset [] [] [] names
  | token {names names₁ names' offset text rest kind tokens errors}
      (h : Spells names text kind names₁) (hlongest : Longest text rest)
      (hrest : Scan drops names₁ (offset + Text.size text) rest tokens errors names') :
      Scan drops names offset (text ++ rest)
        (⟨kind, ⟨offset, offset + Text.size text⟩⟩ :: tokens) errors names'
  | blank {names names' offset text rest tokens errors} (h : Lexeme.blank.Matches text)
      (hlongest : Longest text rest)
      (hrest : Scan drops names (offset + Text.size text) rest tokens errors names') :
      Scan drops names offset (text ++ rest) tokens errors names'
  | comment {names names' offset text rest tokens errors} (h : Lexeme.comment.Matches text)
      (hlongest : Longest text rest)
      (hrest : Scan drops names (offset + Text.size text) rest tokens errors names') :
      Scan drops names offset (text ++ rest) tokens errors names'
  | openString {names offset text} (h : Lexeme.openString.Matches text) :
      Scan drops names offset text []
        [⟨.unterminatedString, ⟨offset, offset + Text.size text⟩⟩] names
  | unexpected {names names' offset c rest tokens errors} (h : Unmatched c rest)
      (hc : drops c = false)
      (hrest : Scan drops names (offset + c.utf8Size) rest tokens errors names') :
      Scan drops names offset (c :: rest) tokens
        (⟨.unexpectedChar c, ⟨offset, offset + c.utf8Size⟩⟩ :: errors) names'
  | dropped {names names' offset c rest tokens errors} (h : Unmatched c rest)
      (hc : drops c = true)
      (hrest : Scan drops names (offset + c.utf8Size) rest tokens errors names') :
      Scan drops names offset (c :: rest) tokens errors names'

namespace Keyword

theorem ofSpelling?_spelling (k : Keyword) : ofSpelling? k.spelling = some k := by
  cases k <;> decide

theorem ofSpelling?_eq_some {text : String} {k : Keyword} (h : ofSpelling? text = some k) :
    text = k.spelling := by
  have hk := List.find?_some h
  exact (eq_of_beq hk).symm

end Keyword

/-- A keyword is written as a word. -/
theorem Keyword.matches_spelling (k : Keyword) : word.Matches k.spelling.toList := by
  cases k <;> exact ⟨_, _, rfl, rfl, List.all_eq_true.1 rfl⟩

/-- The pieces that make a token are those that spell it. -/
theorem Spells.of_kind? {p : Lexeme.Piece} {names names' : NameTable} {kind : TokenKind}
    (hp : p.lexeme.Matches p.text) (h : p.kind? names = (some kind, names')) :
    Spells names p.text kind names' := by
  obtain ⟨l, span, text⟩ := p
  unfold Lexeme.Piece.kind? at h
  cases l with
  | symbol s =>
    obtain ⟨rfl, rfl⟩ : TokenKind.symbol s = kind ∧ names = names' := by simpa using h
    rw [show text = s.spelling.toList from hp]
    exact .symbol s
  | number =>
    obtain ⟨rfl, rfl⟩ : TokenKind.number (Decimal.read text) = kind ∧ names = names' := by
      simpa using h
    exact .number hp
  | string =>
    obtain ⟨cs, rfl, hcs⟩ := hp
    obtain ⟨rfl, rfl⟩ : TokenKind.string (names.intern (String.ofList cs)).1 = kind ∧
        (names.intern (String.ofList cs)).2 = names' := by simpa using h
    exact .string hcs
  | word =>
    dsimp only at h
    split at h
    next k hk =>
      obtain ⟨rfl, rfl⟩ : TokenKind.keyword k = kind ∧ names = names' := by simpa using h
      have htext : text = k.spelling.toList := by
        rw [← Keyword.ofSpelling?_eq_some hk, String.toList_ofList]
      rw [htext]
      exact .keyword k
    next hk =>
      obtain ⟨rfl, rfl⟩ : TokenKind.identifier (names.intern (String.ofList text)).1 = kind ∧
        (names.intern (String.ofList text)).2 = names' := by simpa using h
      refine .identifier hp fun k heq => ?_
      rw [show text = k.spelling.toList from heq, String.ofList_toList,
        Keyword.ofSpelling?_spelling] at hk
      cases hk
  | blank | comment | openString | stray => cases h

/-- What spells a token is matched by a rule whose pieces make that token. -/
theorem Spells.kind? {names names' : NameTable} {text : List Char} {kind : TokenKind}
    (h : Spells names text kind names') : ∃ l : Lexeme, l.Matches text ∧ ∀ span,
      (⟨l, span, text⟩ : Lexeme.Piece).kind? names = (some kind, names') ∧
      (⟨l, span, text⟩ : Lexeme.Piece).error? = none := by
  cases h with
  | symbol s => exact ⟨.symbol s, rfl, fun _ => ⟨rfl, rfl⟩⟩
  | keyword k =>
    refine ⟨.word, k.matches_spelling, fun _ => ⟨?_, rfl⟩⟩
    simp [Lexeme.Piece.kind?, Keyword.ofSpelling?_spelling]
  | identifier h hk =>
    refine ⟨.word, h, fun _ => ⟨?_, rfl⟩⟩
    have hnone : Keyword.ofSpelling? (String.ofList text) = none := by
      rcases hfound : Keyword.ofSpelling? (String.ofList text) with _ | k
      · rfl
      · refine absurd ?_ (hk k)
        rw [← Keyword.ofSpelling?_eq_some hfound, String.toList_ofList]
    simp [Lexeme.Piece.kind?, hnone]
  | number h => exact ⟨.number, h, fun _ => ⟨rfl, rfl⟩⟩
  | @string cs h =>
    refine ⟨.string, ⟨cs, rfl, h⟩, fun _ => ⟨?_, rfl⟩⟩
    simp [Lexeme.Piece.kind?]

theorem Spells.kind_ne_eof {names names' : NameTable} {text : List Char} {kind : TokenKind}
    (h : Spells names text kind names') : kind ≠ .eof := by
  cases h <;> exact nofun

theorem Spells.size_pos {names names' : NameTable} {text : List Char} {kind : TokenKind}
    (h : Spells names text kind names') : 0 < Text.size text := by
  obtain ⟨l, hl, -⟩ := h.kind?
  exact Text.size_pos hl.ne_nil

/-- A string that is not closed runs to the end. -/
theorem Lexeme.rest_eq_nil {text rest : List Char} (h : openString.Matches text)
    (hlongest : Longest text rest) : rest = [] := by
  obtain ⟨cs, rfl, hcs⟩ := h
  cases rest with
  | nil => rfl
  | cons d rest =>
    have hlonger (l : Lexeme) (hl : l.Matches ('"' :: (cs ++ [d]))) : False := by
      have hle := hlongest l _ hl ⟨rest, by simp⟩
      simp only [List.length_cons, List.length_append, List.length_nil] at hle
      omega
    by_cases hd : d = '"'
    · subst hd
      exact (hlonger .string ⟨cs, rfl, hcs⟩).elim
    · refine (hlonger .openString ⟨_, rfl, ?_⟩).elim
      simp [hcs, Ne.symm hd]

namespace Scan

variable {drops : Char → Bool}

/-- Every text can be scanned. -/
theorem exists_scan (drops : Char → Bool) (names : NameTable) (offset : Nat) (cs : List Char) :
    ∃ tokens errors names', Scan drops names offset cs tokens errors names' := by
  induction hn : cs.length using Nat.strongRecOn generalizing names offset cs with
  | _ n ih =>
    cases cs with
    | nil => exact ⟨_, _, _, .done⟩
    | cons c rest =>
      obtain h | ⟨l, cs, rest', rfl, h, hlongest⟩ := first_cases c rest
      · obtain ⟨tokens, errors, names', hrest⟩ :=
          ih rest.length (by simp at hn; omega) names (offset + c.utf8Size) rest rfl
        rcases hc : drops c with _ | _
        · exact ⟨_, _, _, .unexpected h hc hrest⟩
        · exact ⟨_, _, _, .dropped h hc hrest⟩
      · have hlen : rest'.length < n := by
          simp at hn
          omega
        have hscan (names : NameTable) :=
          ih rest'.length hlen names (offset + Text.size (c :: cs)) rest' rfl
        have hmade {kind : TokenKind} {names₁ : NameTable}
            (hkind : (⟨l, ⟨0, 0⟩, c :: cs⟩ : Piece).kind? names = (some kind, names₁)) :
            ∃ tokens errors names', Scan drops names offset (c :: (cs ++ rest')) tokens errors
              names' := by
          obtain ⟨tokens, errors, names', hrest⟩ := hscan names₁
          have htoken := Scan.token (.of_kind? h hkind) hlongest hrest
          exact ⟨_, _, _, htoken⟩
        cases l with
        | blank =>
          obtain ⟨tokens, errors, names', hrest⟩ := hscan names
          have hblank := Scan.blank h hlongest hrest
          exact ⟨_, _, _, hblank⟩
        | comment =>
          obtain ⟨tokens, errors, names', hrest⟩ := hscan names
          have hcomment := Scan.comment h hlongest hrest
          exact ⟨_, _, _, hcomment⟩
        | openString =>
          obtain rfl := rest_eq_nil h hlongest
          rw [List.append_nil]
          exact ⟨_, _, _, .openString h⟩
        | stray d => exact h.elim
        | symbol s => exact hmade rfl
        | number => exact hmade rfl
        | string => exact hmade rfl
        | word =>
          rcases hk : Keyword.ofSpelling? (String.ofList (c :: cs)) with _ | k
          · exact hmade (by simp only [Piece.kind?, hk]; rfl)
          · exact hmade (by simp only [Piece.kind?, hk]; rfl)

/-- The pieces of a text begin with the longest match. -/
theorem piecesUpTo_append {l : Lexeme} {text rest : List Char} (h : l.Matches text)
    (hlongest : Longest text rest) {fuel : Nat} (hfuel : (text ++ rest).length ≤ fuel)
    (offset : Nat) : ∃ fuel', rest.length ≤ fuel' ∧ piecesUpTo fuel offset (text ++ rest) =
      ⟨l, ⟨offset, offset + Text.size text⟩, text⟩ ::
        piecesUpTo fuel' (offset + Text.size text) rest := by
  cases text with
  | nil => exact absurd rfl h.ne_nil
  | cons c cs =>
    rw [List.cons_append, List.length_cons, List.length_append] at hfuel
    obtain ⟨fuel, rfl⟩ : ∃ fuel', fuel = fuel' + 1 := ⟨fuel - 1, by omega⟩
    refine ⟨fuel, by omega, ?_⟩
    rw [List.cons_append, piecesUpTo, first_of_longest h hlongest]
    simp

/-- The pieces of a text begin with a stray character if nothing matches. -/
theorem piecesUpTo_unmatched {c : Char} {rest : List Char} (h : Unmatched c rest) {fuel : Nat}
    (hfuel : (c :: rest).length ≤ fuel) (offset : Nat) : ∃ fuel', rest.length ≤ fuel' ∧
      piecesUpTo fuel offset (c :: rest) =
        ⟨stray c, ⟨offset, offset + c.utf8Size⟩, [c]⟩ ::
          piecesUpTo fuel' (offset + c.utf8Size) rest := by
  rw [List.length_cons] at hfuel
  obtain ⟨fuel, rfl⟩ : ∃ fuel', fuel = fuel' + 1 := ⟨fuel - 1, by omega⟩
  refine ⟨fuel, by omega, ?_⟩
  rw [piecesUpTo, first_of_unmatched h]
  simp

/-- Reading the pieces of a text goes along with its scan. -/
theorem drain {names names' : NameTable} {offset : Nat} {cs : List Char} {ts : List Token}
    {es : List LexError} (h : Scan Text.isBlank names offset cs ts es names') {fuel : Nat}
    (hfuel : cs.length ≤ fuel) {l : Lexer} (hl : l.names = names) (tokens : Array Token) :
    Lexer.drain (piecesUpTo fuel offset cs) l tokens =
      ⟨tokens.toList ++ (ts ++ l.final?.toList), l.errors.toList ++ es, names'⟩ := by
  induction h generalizing fuel l tokens with
  | done => cases fuel <;> simp [piecesUpTo, Lexer.drain, hl]
  | token h hlongest hrest ih =>
    obtain ⟨lexeme, hmatches, hkind⟩ := h.kind?
    obtain ⟨fuel', hfuel', hpieces⟩ := piecesUpTo_append hmatches hlongest hfuel _
    rw [hpieces, Lexer.drain, Lexer.take, hl, (hkind _).1, (hkind _).2]
    dsimp only [Option.map]
    rw [ih hfuel' rfl]
    simp
  | blank h hlongest hrest ih | comment h hlongest hrest ih =>
    obtain ⟨fuel', hfuel', hpieces⟩ := piecesUpTo_append h hlongest hfuel _
    rw [hpieces, Lexer.drain]
    exact ih hfuel' hl tokens
  | @openString _ _ text h =>
    have hlongest : Longest text [] := fun _ p _ hp => by simpa using hp.length_le
    obtain ⟨fuel', -, hpieces⟩ := piecesUpTo_append h hlongest (by simpa using hfuel) _
    rw [List.append_nil] at hpieces
    rw [hpieces]
    cases fuel' <;> simp [piecesUpTo, Lexer.drain, Lexer.take, Piece.kind?, Piece.error?, hl]
  | unexpected h hc hrest ih =>
    obtain ⟨fuel', hfuel', hpieces⟩ := piecesUpTo_unmatched h hfuel _
    rw [hpieces, Lexer.drain, Lexer.take, Piece.error?]
    dsimp only [Piece.kind?, Option.map]
    simp only [hc, Bool.false_eq_true, if_false]
    have hdrain (e : LexError) := ih hfuel' (l := { l with errors := l.errors.push e }) hl tokens
    rw [hdrain]
    simp
  | dropped h hc hrest ih =>
    obtain ⟨fuel', hfuel', hpieces⟩ := piecesUpTo_unmatched h hfuel _
    rw [hpieces, Lexer.drain, Lexer.take, Piece.error?]
    dsimp only [Piece.kind?, Option.map]
    rw [hc]
    exact ih hfuel' hl tokens

/-- Where nothing matches, what is not dropped is the next error. -/
theorem errors_of_unmatched {names names' : NameTable} {offset : Nat} {c : Char}
    {rest : List Char} {tokens : List Token} {errors : List LexError}
    (h : Scan drops names offset (c :: rest) tokens errors names') (hc : Unmatched c rest)
    (hdrops : drops c = false) :
    ∃ errors', errors = ⟨.unexpectedChar c, ⟨offset, offset + c.utf8Size⟩⟩ :: errors' := by
  generalize hcs : c :: rest = cs at h
  have himpossible {l : Lexeme} {text rest' : List Char} (hl : l.Matches text)
      (heq : c :: rest = text ++ rest') : False := hc l text hl ⟨rest', heq.symm⟩
  cases h with
  | done => cases hcs
  | token h =>
    obtain ⟨l, hl, -⟩ := h.kind?
    exact (himpossible hl hcs).elim
  | blank h | comment h => exact (himpossible h hcs).elim
  | openString h => exact (himpossible h (hcs.trans (List.append_nil _).symm)).elim
  | unexpected =>
    obtain ⟨rfl, rfl⟩ := List.cons.inj hcs
    exact ⟨_, rfl⟩
  | dropped _ hc' =>
    obtain ⟨rfl, rfl⟩ := List.cons.inj hcs
    cases hdrops.symm.trans hc'

/-- Every token lies in the text, and none is the end of file. -/
theorem mem_tokens {names names' : NameTable} {offset : Nat} {cs : List Char}
    {tokens : List Token} {errors : List LexError}
    (h : Scan drops names offset cs tokens errors names') :
    ∀ t ∈ tokens, t.span.Inside (offset + Text.size cs) ∧ t.kind ≠ .eof := by
  induction h with
  | done | openString => exact nofun
  | token h _ _ ih =>
    rw [Text.size_append, ← Nat.add_assoc]
    refine List.forall_mem_cons.2 ⟨⟨?_, h.kind_ne_eof⟩, ih⟩
    exact ⟨Nat.lt_of_lt_of_le (Nat.lt_add_of_pos_right h.size_pos) (Nat.le_add_right ..),
      Nat.le_add_right .., Nat.le_add_right ..⟩
  | blank _ _ _ ih | comment _ _ _ ih =>
    rw [Text.size_append, ← Nat.add_assoc]
    exact ih
  | unexpected _ _ _ ih | dropped _ _ _ ih =>
    rw [Text.size_cons, ← Nat.add_assoc]
    exact ih

/-- Lexing a text within the limit of size gives what its scan gives, and the end of file. -/
theorem lex_eq {source : String} {names names' : NameTable} {tokens : List Token}
    {errors : List LexError} (hsize : source.utf8ByteSize ≤ Span.maxOffset)
    (h : Scan Text.isBlank names 0 source.toList tokens errors names') : lex source names =
      ⟨tokens ++ [⟨.eof, Span.point source.utf8ByteSize⟩], errors, names'⟩ := by
  rw [lex, Lexer.start, if_neg (Nat.not_lt.2 hsize)]
  dsimp only [pieces]
  rw [h.drain (Nat.le_refl _) rfl]
  simp

end Scan

/-- Lexing a text within the limit of size scans all of it, in the only way there is. What is
dropped are the white space characters that no rule matches. -/
theorem lex_scan (source : String) (names : NameTable)
    (hsize : source.utf8ByteSize ≤ Span.maxOffset) :
    (∃ tokens, (lex source names).tokens = tokens ++ [⟨.eof, Span.point source.utf8ByteSize⟩]) ∧
      ∀ tokens errors names', Scan Text.isBlank names 0 source.toList tokens errors names' ↔
        lex source names =
          ⟨tokens ++ [⟨.eof, Span.point source.utf8ByteSize⟩], errors, names'⟩ := by
  obtain ⟨tokens, errors, names', h⟩ := Scan.exists_scan Text.isBlank names 0 source.toList
  refine ⟨⟨tokens, by rw [h.lex_eq hsize]⟩, fun ts es ns => ⟨Scan.lex_eq hsize, fun heq => ?_⟩⟩
  obtain ⟨htokens, rfl, rfl⟩ := LexOutput.mk.inj ((h.lex_eq hsize).symm.trans heq)
  obtain rfl := List.append_cancel_right htokens
  exact h

/-- A token, a form feed, which is dropped, a character that is an error, a blank and a comment. -/
theorem lex_scan_mixed : ∃ names, names.spelling ⟨1⟩ = "x" ∧
    Scan Text.isBlank NameTable.empty 0 "x\x0c~ // y".toList [⟨.identifier ⟨1⟩, ⟨0, 1⟩⟩]
      [⟨.unexpectedChar '~', ⟨2, 3⟩⟩] names := by
  have htokens : (lex "x\x0c~ // y" .empty).tokens =
      [⟨.identifier ⟨1⟩, ⟨0, 1⟩⟩] ++ [⟨.eof, ⟨8, 8⟩⟩] := by decide +kernel
  have herrors : (lex "x\x0c~ // y" .empty).errors = [⟨.unexpectedChar '~', ⟨2, 3⟩⟩] := by
    decide +kernel
  obtain ⟨-, hscans⟩ := lex_scan "x\x0c~ // y" NameTable.empty (by decide)
  refine ⟨(lex "x\x0c~ // y" .empty).names, by decide +kernel, (hscans _ _ _).2 ?_⟩
  rw [← herrors]
  exact congrArg (LexOutput.mk · _ _) htokens

/-- If nothing were dropped, a form feed would be an error. -/
theorem not_scan_formFeed : ¬ ∃ tokens names', Scan (fun _ => false) NameTable.empty 0
    "\x0c".toList tokens (lex "\x0c" NameTable.empty).errors names' := by
  rintro ⟨tokens, names', h⟩
  have hunmatched : Unmatched '\x0c' [] := unmatched_of_first (d := '\x0c') rfl
  obtain ⟨errors, heq⟩ := Scan.errors_of_unmatched h hunmatched rfl
  have hnone : (lex "\x0c" NameTable.empty).errors = [] := rfl
  rw [hnone] at heq
  cases heq

end Tarn
