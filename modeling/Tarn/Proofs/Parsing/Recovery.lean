import Mathlib.Order.Bounds.Basic
import Tarn.Proofs.Parsing.Steps

/-! Where parsing goes on after an error. Skipping ends at the first place that can be gone on from:
in front of a token of the recovery set, behind a semicolon, or at the end of the input. -/
namespace Tarn

/-- The kind of token at a place of a list. Behind its last token a list has the end of file. -/
def Token.kindAt (tokens : List Token) (p : Nat) : TokenKind :=
  (tokens[p]?.getD (Token.ofKind .eof)).kind

namespace Cursor

/-- All tokens, those before the cursor and those after it. -/
def tokens (c : Cursor) : List Token := c.consumed.reverse ++ c.ahead

theorem kindAt_position (c : Cursor) : Token.kindAt c.tokens c.position = c.current.kind := by
  have hposition : c.position = c.consumed.reverse.length := List.length_reverse.symm
  rw [Token.kindAt, tokens, hposition, List.getElem?_append_right (Nat.le_refl _), Nat.sub_self,
    ← List.head?_eq_getElem?]
  rfl

section Advance

variable {c : Cursor} (h : c.current.kind ≠ .eof)
include h

theorem tokens_advance : c.advance.tokens = c.tokens := by
  obtain ⟨hahead, hconsumed, -⟩ := advance_of_ne_eof h
  simp [tokens, hahead, hconsumed]

theorem position_advance : c.advance.position = c.position + 1 := by
  rw [position, (advance_of_ne_eof h).2.1]
  rfl

theorem kindAt_advance : Token.kindAt c.tokens (c.advance.position - 1) = c.current.kind := by
  rw [position_advance h, Nat.add_sub_cancel, kindAt_position]

end Advance

/-- A place where skipping from `first` on has to end. A semicolon that stands before `first` is not
one that was skipped. -/
def IsRecoveryPoint (recovery : KindSet) (tokens : List Token) (first p : Nat) : Prop :=
  recovery.contains (Token.kindAt tokens p) = true ∨ Token.kindAt tokens p = .eof ∨
    first < p ∧ Token.kindAt tokens (p - 1) = .symbol .semicolon

/-- Skipping from `first` on has come from `c` to `c'` and has met no recovery point. -/
structure Skips (recovery : KindSet) (first : Nat) (c c' : Cursor) : Prop where
  names : c'.names = c.names
  tokens : c'.tokens = c.tokens
  first_le : first ≤ c'.position
  passed : ∀ p, first ≤ p → p < c'.position → ¬ IsRecoveryPoint recovery c.tokens first p
  last : c.position < c'.position →
    Token.kindAt c.tokens (c'.position - 1) ≠ .symbol .semicolon

/-- Skipping from `first` on has led from `c` to `c'`, the first recovery point. `found` tells
whether there is something to go on with. -/
structure Stops (recovery : KindSet) (first : Nat) (c : Cursor) (found : Bool) (c' : Cursor) :
    Prop where
  names : c'.names = c.names
  tokens : c'.tokens = c.tokens
  least : IsLeast {p | first ≤ p ∧ IsRecoveryPoint recovery c.tokens first p} c'.position
  found_iff : found = true ↔
    c.position < c'.position ∧ Token.kindAt c.tokens (c'.position - 1) = .symbol .semicolon ∨
      Token.kindAt c.tokens c'.position ≠ .eof ∧
        recovery.contains (Token.kindAt c.tokens c'.position) = true
  atEnd : found = false → Token.kindAt c.tokens c'.position = .eof

namespace Skips

variable {recovery : KindSet} {first : Nat} {c c' : Cursor}

theorem refl (recovery : KindSet) (c : Cursor) : Skips recovery c.position c c where
  names := rfl
  tokens := rfl
  first_le := Nat.le_refl _
  passed _ hp hlt := absurd hlt (Nat.not_lt.2 hp)
  last hlt := absurd hlt (Nat.lt_irrefl _)

/-- A token is dropped before the search. -/
theorem advance (recovery : KindSet) (heof : c.current.kind ≠ .eof)
    (hsemicolon : c.current.kind ≠ .symbol .semicolon) :
    Skips recovery (c.position + 1) c c.advance where
  names := (advance_of_ne_eof heof).2.2
  tokens := tokens_advance heof
  first_le := (position_advance heof).ge
  passed _ hp hlt := absurd hlt (Nat.not_lt.2 ((position_advance heof).le.trans hp))
  last _ := by rwa [kindAt_advance heof]

theorem kindAt_eq (h : Skips recovery first c c') :
    Token.kindAt c.tokens c'.position = c'.current.kind := by
  rw [← h.tokens, kindAt_position]

/-- The place of the cursor is a recovery point only through its token. -/
theorem not_isRecoveryPoint (h : Skips recovery first c c') (hfirst : c.position ≤ first)
    (heof : c'.current.kind ≠ .eof) (hrecovery : recovery.contains c'.current.kind = false) :
    ¬ IsRecoveryPoint recovery c.tokens first c'.position := by
  rintro (hc | he | ⟨hlt, hs⟩)
  · rw [h.kindAt_eq, hrecovery] at hc
    cases hc
  · exact heof (h.kindAt_eq ▸ he)
  · exact h.last (Nat.lt_of_le_of_lt hfirst hlt) hs

section Advance

variable (h : Skips recovery first c c') (hfirst : c.position ≤ first)
  (heof : c'.current.kind ≠ .eof) (hrecovery : recovery.contains c'.current.kind = false)
include h hfirst heof hrecovery

theorem passed_advance (p : Nat) (hp : first ≤ p) (hlt : p < c'.position + 1) :
    ¬ IsRecoveryPoint recovery c.tokens first p := by
  obtain hlt | rfl := Nat.lt_succ_iff_lt_or_eq.1 hlt
  · exact h.passed p hp hlt
  · exact h.not_isRecoveryPoint hfirst heof hrecovery

/-- One token more, unless it ends the skipping. -/
theorem step (hsemicolon : c'.current.kind ≠ .symbol .semicolon) :
    Skips recovery first c c'.advance where
  names := (advance_of_ne_eof heof).2.2.trans h.names
  tokens := (tokens_advance heof).trans h.tokens
  first_le := by
    rw [position_advance heof]
    exact Nat.le_succ_of_le h.first_le
  passed p hp hlt :=
    h.passed_advance hfirst heof hrecovery p hp (hlt.trans_eq (position_advance heof))
  last _ := by rwa [← h.tokens, kindAt_advance heof]

/-- Skipping ends behind a semicolon. -/
theorem stops_behind (hsemicolon : c'.current.kind = .symbol .semicolon) :
    Stops recovery first c true c'.advance := by
  have hlast : Token.kindAt c.tokens (c'.advance.position - 1) = .symbol .semicolon := by
    rw [← h.tokens, kindAt_advance heof, hsemicolon]
  have hlt : first < c'.advance.position := by
    rw [position_advance heof]
    exact Nat.lt_succ_of_le h.first_le
  refine ⟨(advance_of_ne_eof heof).2.2.trans h.names, (tokens_advance heof).trans h.tokens,
    ⟨⟨hlt.le, .inr (.inr ⟨hlt, hlast⟩)⟩, fun p ⟨hp, hpoint⟩ => Nat.not_lt.1 fun hless => ?_⟩,
    iff_of_true rfl (.inl ⟨Nat.lt_of_le_of_lt hfirst hlt, hlast⟩), nofun⟩
  rw [position_advance heof] at hless
  exact h.passed_advance hfirst heof hrecovery p hp hless hpoint

end Advance

/-- Skipping ends where the current token ends it. -/
theorem stops_here (h : Skips recovery first c c')
    (hpoint : recovery.contains c'.current.kind = true ∨ c'.current.kind = .eof) :
    Stops recovery first c (!c'.atEnd) c' := by
  have hat : IsRecoveryPoint recovery c.tokens first c'.position := by
    rw [IsRecoveryPoint, h.kindAt_eq]
    exact hpoint.imp_right .inl
  refine ⟨h.names, h.tokens, ⟨⟨h.first_le, hat⟩, fun p ⟨hp, hp'⟩ => ?_⟩, ?_, fun hfound => ?_⟩
  · exact Nat.not_lt.1 fun hlt => h.passed p hp hlt hp'
  · rw [h.kindAt_eq, Bool.not_eq_true', ← Bool.not_eq_true, atEnd_iff]
    constructor
    · exact fun heof => .inr ⟨heof, hpoint.resolve_right heof⟩
    · rintro (⟨hlt, hs⟩ | ⟨heof, -⟩)
      · exact absurd hs (h.last hlt)
      · exact heof
  · rw [h.kindAt_eq, ← atEnd_iff]
    simpa using hfound

/-- Skipping goes on to the first recovery point. -/
theorem skip (h : Skips recovery first c c') (hfirst : c.position ≤ first) :
    Stops recovery first c (Cursor.skip recovery c'.names c'.consumed c'.ahead).1
      (Cursor.skip recovery c'.names c'.consumed c'.ahead).2 := by
  rcases c' with ⟨names, consumed, ahead⟩
  induction ahead generalizing consumed with
  | nil => exact h.stops_here (.inr rfl)
  | cons t rest ih =>
    unfold Cursor.skip
    split
    next heof =>
      have hend : atEnd ⟨names, consumed, t :: rest⟩ = true := (atEnd_iff _).2 heof
      have hstops := h.stops_here (.inr heof)
      rwa [hend] at hstops
    next heof =>
      have hadvance : Cursor.advance ⟨names, consumed, t :: rest⟩ =
          ⟨names, t :: consumed, rest⟩ := if_neg heof
      split
      next hrecovery =>
        have hend : atEnd ⟨names, consumed, t :: rest⟩ = false :=
          Bool.eq_false_iff.2 fun h => heof ((atEnd_iff _).1 h)
        have hstops := h.stops_here (.inl hrecovery)
        rwa [hend] at hstops
      next hrecovery =>
        have hrecovery := Bool.eq_false_iff.2 hrecovery
        split
        next hsemicolon =>
          have hstops := h.stops_behind hfirst heof hrecovery hsemicolon
          rwa [hadvance] at hstops
        next hsemicolon =>
          have hstep := h.step hfirst heof hrecovery hsemicolon
          rw [hadvance] at hstep
          exact ih _ hstep

end Skips

/-- Where the search for a recovery point begins after a declaration from `start` on has failed. One
that failed at its first token loses that token. -/
def searchFrom (c : Cursor) (start : Nat) : Nat :=
  if c.position = start ∧ c.atEnd = false then c.position + 1 else c.position

/-- Unless a semicolon is dropped as the first token, the search ends at a recovery point. -/
theorem synchronize_stops {c : Cursor} {start : Nat} (recovery : KindSet)
    (h : ¬ (c.position = start ∧ c.current.kind = .symbol .semicolon)) :
    Stops recovery (c.searchFrom start) c (c.synchronize recovery start).1
      (c.synchronize recovery start).2 := by
  by_cases hdrop : c.position = start ∧ c.atEnd = false
  · obtain ⟨hstart, hend⟩ := hdrop
    have heof : c.current.kind ≠ .eof := fun heof => by simp [(atEnd_iff c).2 heof] at hend
    have hsemicolon : c.current.kind ≠ .symbol .semicolon := fun hs => h ⟨hstart, hs⟩
    have hskips := Skips.advance recovery heof hsemicolon
    have hstops := hskips.skip (Nat.le_succ _)
    rw [hskips.names] at hstops
    rw [searchFrom, if_pos ⟨hstart, hend⟩, synchronize, if_pos ⟨hstart, by simp [hend]⟩]
    simpa only [if_neg hsemicolon] using hstops
  · rw [searchFrom, if_neg hdrop, synchronize, if_neg (by simpa using hdrop)]
    exact (Skips.refl recovery c).skip (Nat.le_refl _)

theorem synchronize_of_semicolon {c : Cursor} {start : Nat} (recovery : KindSet)
    (hstart : c.position = start) (hsemicolon : c.current.kind = .symbol .semicolon) :
    c.synchronize recovery start = (true, c.advance) ∧ c.searchFrom start = c.position + 1 := by
  have hend : c.atEnd = false := by simp [atEnd, hsemicolon]
  exact ⟨by simp [synchronize, hstart, hend, hsemicolon], if_pos ⟨hstart, hend⟩⟩

/-- Synchronizing stops at the first recovery point, wherever in whatever list of tokens the cursor
is. Only a semicolon that is dropped as the first token of the declaration ends it at once. It tells
whether it has consumed a semicolon last or has stopped in front of a token of the recovery set,
and if not, it has come to the end. -/
theorem synchronize_stops_first (c : Cursor) (recovery : KindSet) (start : Nat) :
    let found := (c.synchronize recovery start).1
    let c' := (c.synchronize recovery start).2
    c'.names = c.names ∧ c'.tokens = c.tokens ∧
    (if c.position = start ∧ c.current.kind = .symbol .semicolon then
        c'.position = c.searchFrom start
      else
        IsLeast {p | c.searchFrom start ≤ p ∧
          IsRecoveryPoint recovery c.tokens (c.searchFrom start) p} c'.position) ∧
    (found = true ↔
      c.position < c'.position ∧ Token.kindAt c.tokens (c'.position - 1) = .symbol .semicolon ∨
        Token.kindAt c.tokens c'.position ≠ .eof ∧
          recovery.contains (Token.kindAt c.tokens c'.position) = true) ∧
    (found = false → Token.kindAt c.tokens c'.position = .eof) := by
  intro found c'
  by_cases h : c.position = start ∧ c.current.kind = .symbol .semicolon
  · have heof : c.current.kind ≠ .eof := by simp [h.2]
    obtain ⟨hsync, hfirst⟩ := synchronize_of_semicolon recovery h.1 h.2
    rw [if_pos h, hfirst]
    simp only [found, c', hsync]
    refine ⟨(advance_of_ne_eof heof).2.2, tokens_advance heof, position_advance heof,
      iff_of_true trivial (.inl ⟨?_, ?_⟩), nofun⟩
    · exact (Nat.lt_succ_self _).trans_eq (position_advance heof).symm
    · exact (kindAt_advance heof).trans h.2
  · have hstops := synchronize_stops recovery h
    rw [if_neg h]
    exact ⟨hstops.names, hstops.tokens, hstops.least, hstops.found_iff, hstops.atEnd⟩

/-- A `print` that is dropped, and a semicolon just before `var`. Both are reasons to stop at one
place. -/
theorem synchronize_stops_first_coinciding :
    let tokens : List Token := [⟨.keyword .printKw, ⟨0, 5⟩⟩, ⟨.symbol .semicolon, ⟨6, 7⟩⟩,
      ⟨.keyword .varKw, ⟨8, 11⟩⟩]
    IsLeast {p | 1 ≤ p ∧ IsRecoveryPoint .declarationStart tokens 1 p}
      ((ofTokens NameTable.empty tokens).synchronize .declarationStart 0).2.position ∧
    ((ofTokens NameTable.empty tokens).synchronize .declarationStart 0).2.position = 2 := by
  intro tokens
  obtain ⟨-, -, hleast, -⟩ :=
    synchronize_stops_first (ofTokens NameTable.empty tokens) .declarationStart 0
  rw [if_neg (by decide)] at hleast
  exact ⟨hleast, rfl⟩

end Cursor

end Tarn
