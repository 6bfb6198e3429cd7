import Tarn.Token.Lexer

/-! Lexing of texts that differ in white space and comments only. -/
namespace Tarn

open Lexeme

namespace Lexeme.Piece

/-- Nothing is made of white space and comments. -/
def isSilent (p : Piece) : Bool :=
  match p.lexeme with
  | .blank | .comment => true
  | .stray c => Text.isBlank c
  | _ => false

/-- What counts of a piece: what it is and how it is written, but not where. -/
def content (p : Piece) : Lexeme × List Char := (p.lexeme, p.text)

theorem kind?_of_isSilent {p : Piece} (h : p.isSilent) (names : NameTable) :
    p.kind? names = (none, names) := by
  obtain ⟨l, span, text⟩ := p
  cases l <;> first | rfl | cases h

theorem error?_of_isSilent {p : Piece} (h : p.isSilent) : p.error? = none := by
  obtain ⟨l, span, text⟩ := p
  cases l
  case stray c => exact if_pos h
  all_goals first | rfl | cases h

end Lexeme.Piece

/-- The error with its place forgotten. -/
def LexError.bare (e : LexError) : LexError := ⟨e.fault, .nowhere⟩

/-- The kinds of the tokens, the errors but for their places, and the names. -/
def LexOutput.bare (o : LexOutput) : List TokenKind × List LexError × NameTable :=
  (o.tokens.map (·.kind), o.errors.map LexError.bare, o.names)

/-- The content of a text: its pieces in order, without those that nothing is made of. -/
def Text.content (source : String) : List (Lexeme × List Char) :=
  ((Lexeme.pieces 0 source.toList).filter fun p => !p.isSilent).map Lexeme.Piece.content

namespace Lexer

theorem take_of_isSilent {p : Piece} (h : p.isSilent) (l : Lexer) : l.take p = (none, l) := by
  rw [take, Piece.kind?_of_isSilent h, Piece.error?_of_isSilent h]
  rfl

/-- Silent pieces are passed over. -/
theorem drain_filter (ps : List Piece) (l : Lexer) (tokens : Array Token) :
    drain (ps.filter fun p => !p.isSilent) l tokens = drain ps l tokens := by
  induction ps generalizing l tokens with
  | nil => rfl
  | cons p ps ih =>
    rcases h : p.isSilent with _ | _
    · rw [List.filter_cons_of_pos (by simp [h]), drain, drain]
      split <;> exact ih _ _
    · rw [List.filter_cons_of_neg (by simp [h]), ih, drain, take_of_isSilent h]

/-- The lexers know the same names and have found the same errors, but for their places. -/
structure SameBare (l l' : Lexer) : Prop where
  names : l.names = l'.names
  errors : l.errors.toList.map LexError.bare = l'.errors.toList.map LexError.bare
  final : l.final?.map (·.kind) = l'.final?.map (·.kind)

theorem error?_bare {p p' : Piece} (h : p.content = p'.content) :
    p.error?.map LexError.bare = p'.error?.map LexError.bare := by
  obtain ⟨lexeme, span, text⟩ := p
  obtain ⟨lexeme', span', text'⟩ := p'
  obtain ⟨rfl, rfl⟩ := Prod.mk.inj h
  cases lexeme
  case stray c =>
    unfold Piece.error?
    dsimp only
    split <;> rfl
  all_goals rfl

theorem SameBare.take {l l' : Lexer} (h : SameBare l l') {p p' : Piece}
    (hp : p.content = p'.content) :
    (l.take p).1.map (·.kind) = (l'.take p').1.map (·.kind) ∧
      SameBare (l.take p).2 (l'.take p').2 := by
  have hkind : p.kind? l.names = p'.kind? l'.names := by
    obtain ⟨hlexeme, htext⟩ := Prod.mk.inj hp
    rw [h.names, Piece.kind?, Piece.kind?, hlexeme, htext]
  have herror := error?_bare hp
  simp only [Lexer.take, hkind]
  refine ⟨by cases (p'.kind? l'.names).1 <;> rfl, rfl, ?_, h.final⟩
  generalize p.error? = x at herror ⊢
  generalize p'.error? = y at herror ⊢
  cases x with
  | none =>
    obtain rfl := Option.map_eq_none_iff.1 herror.symm
    exact h.errors
  | some e =>
    obtain ⟨e', rfl, he⟩ := Option.map_eq_some_iff.1 herror.symm
    simp [h.errors, he]

theorem drain_bare {ps ps' : List Piece} (hps : ps.map Piece.content = ps'.map Piece.content)
    {l l' : Lexer} (hl : SameBare l l') {tokens tokens' : Array Token}
    (htokens : tokens.toList.map (·.kind) = tokens'.toList.map (·.kind)) :
    (drain ps l tokens).bare = (drain ps' l' tokens').bare := by
  induction ps generalizing ps' l l' tokens tokens' with
  | nil =>
    obtain rfl := List.map_eq_nil_iff.1 hps.symm
    have hfinal : l.final?.toList.map (·.kind) = l'.final?.toList.map (·.kind) := by
      rw [← Option.toList_map, ← Option.toList_map, hl.final]
    simp only [drain, LexOutput.bare, List.map_append, htokens, hfinal, hl.errors, hl.names]
  | cons p ps ih =>
    obtain ⟨p', ps', rfl, hp, hps⟩ := List.map_eq_cons_iff.1 hps.symm
    obtain ⟨hkind, hl⟩ := hl.take hp.symm
    rw [drain, drain]
    rcases hrun : l.take p with ⟨token, l₁⟩
    rcases hrun' : l'.take p' with ⟨token', l₁'⟩
    rw [hrun, hrun'] at hkind hl
    rcases token with _ | token <;> rcases token' with _ | token'
    · exact ih hps.symm hl htokens
    · cases hkind
    · cases hkind
    · refine ih hps.symm hl ?_
      rw [Array.toList_push, Array.toList_push, List.map_append, List.map_append, htokens]
      exact congrArg (_ ++ [·]) (Option.some.inj hkind)

end Lexer

/-- White space and comments do not matter for what is lexed. -/
theorem lex_respaced {source source' : String} (h : Text.content source = Text.content source')
    (hsize : source.utf8ByteSize ≤ Span.maxOffset) (hsize' : source'.utf8ByteSize ≤ Span.maxOffset)
    (names : NameTable) : (lex source names).bare = (lex source' names).bare := by
  rw [lex, lex, Lexer.start, Lexer.start, if_neg (Nat.not_lt.2 hsize),
    if_neg (Nat.not_lt.2 hsize')]
  dsimp only
  rw [← Lexer.drain_filter (pieces 0 source.toList), ← Lexer.drain_filter (pieces 0 source'.toList)]
  have hstart : Lexer.SameBare
      ⟨pieces 0 source.toList, names, #[], some ⟨.eof, Span.point source.utf8ByteSize⟩⟩
      ⟨pieces 0 source'.toList, names, #[], some ⟨.eof, Span.point source'.utf8ByteSize⟩⟩ :=
    ⟨rfl, rfl, rfl⟩
  exact Lexer.drain_bare h hstart rfl

end Tarn
