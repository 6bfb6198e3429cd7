import Mathlib.Data.List.Basic
import Tarn.Syntax.Program
import Tarn.Proofs.Grammar.Productions

/-! The steps of a parser as equations, and what a run of steps reads. -/
namespace Tarn

namespace TokenKind

theorem sameShape_symbol (k : TokenKind) (x : Symbol) :
    k.sameShape (.symbol x) = true ↔ k = .symbol x := by
  have hx : Symbol.all.idxOf x < 19 := List.idxOf_lt_length_iff.2 x.mem_all
  cases k with
  | symbol y => simp [sameShape, index, List.idxOf_inj y.mem_all]
  | keyword y => simp [sameShape, index]; omega
  | _ => simp [sameShape, index]; omega

theorem sameShape_keyword (k : TokenKind) (x : Keyword) :
    k.sameShape (.keyword x) = true ↔ k = .keyword x := by
  have hx : Keyword.all.idxOf x < 16 := List.idxOf_lt_length_iff.2 x.mem_all
  cases k with
  | symbol y =>
    have hy : Symbol.all.idxOf y < 19 := List.idxOf_lt_length_iff.2 y.mem_all
    simp [sameShape, index]; omega
  | keyword y => simp [sameShape, index, List.idxOf_inj y.mem_all]
  | _ => simp [sameShape, index]; omega

end TokenKind

namespace Cursor

@[simp] theorem check_symbol (c : Cursor) (x : Symbol) :
    c.check (.symbol x) = true ↔ c.current.kind = .symbol x := TokenKind.sameShape_symbol _ x

@[simp] theorem check_keyword (c : Cursor) (x : Keyword) :
    c.check (.keyword x) = true ↔ c.current.kind = .keyword x := TokenKind.sameShape_keyword _ x

theorem atEnd_iff (c : Cursor) : c.atEnd = true ↔ c.current.kind = .eof := by simp [atEnd]

@[simp] theorem current_of_ahead {c : Cursor} {t : Token} {rest : List Token}
    (h : c.ahead = t :: rest) : c.current = t := by simp [current, h]

/-- Where the end is not reached there is a current token, which a step consumes. -/
theorem advance_of_ne_eof {c : Cursor} (h : c.current.kind ≠ .eof) :
    c.ahead = c.current :: c.advance.ahead ∧ c.advance.consumed = c.current :: c.consumed ∧
      c.advance.names = c.names := by
  rcases hc : c.ahead with _ | ⟨t, rest⟩
  · simp [current, hc, Token.ofKind] at h
  · simp only [current, hc, List.head?_cons, Option.getD_some] at h ⊢
    simp [advance, hc, h]

end Cursor

/-- From `s` to `s'` the tokens `ts` are consumed and the errors `rs` are reported. The depths are
the same before and after. -/
structure ParseState.Reads (s : ParseState) (ts : List Token) (rs : List Remark)
    (s' : ParseState) : Prop where
  ahead : s.cursor.ahead = ts ++ s'.cursor.ahead
  consumed : s'.cursor.consumed = ts.reverse ++ s.cursor.consumed
  real : ∀ t ∈ ts, t.kind ≠ .eof
  names : s'.cursor.names = s.cursor.names
  errors : ∃ es, s'.errors.toList = s.errors.toList ++ es ∧
    es.map (fun e => ⟨e.code, e.span⟩) = rs
  functionDepth : s'.functionDepth = s.functionDepth
  blockDepth : s'.blockDepth = s.blockDepth

namespace ParseState.Reads

variable {s s' s'' : ParseState} {ts ts' : List Token} {rs rs' : List Remark}

theorem refl (s : ParseState) : s.Reads [] [] s :=
  ⟨rfl, rfl, by simp, rfl, ⟨[], by simp⟩, rfl, rfl⟩

theorem trans (h : s.Reads ts rs s') (h' : s'.Reads ts' rs' s'') :
    s.Reads (ts ++ ts') (rs ++ rs') s'' where
  ahead := by rw [h.ahead, h'.ahead, List.append_assoc]
  consumed := by rw [h'.consumed, h.consumed, List.reverse_append, List.append_assoc]
  real t ht := (List.mem_append.1 ht).elim (h.real t) (h'.real t)
  names := h'.names.trans h.names
  errors := by
    obtain ⟨es, hes, rfl⟩ := h.errors
    obtain ⟨es', hes', rfl⟩ := h'.errors
    exact ⟨es ++ es', by rw [hes', hes, List.append_assoc], by simp⟩
  functionDepth := h'.functionDepth.trans h.functionDepth
  blockDepth := h'.blockDepth.trans h.blockDepth

theorem length (h : s.Reads ts rs s') :
    s.cursor.ahead.length = ts.length + s'.cursor.ahead.length := by
  rw [h.ahead, List.length_append]

/-- One step consumes the current token. -/
theorem advance (h : s.cursor.current.kind ≠ .eof) :
    s.Reads [s.cursor.current] [] { s with cursor := s.cursor.advance } where
  ahead := (Cursor.advance_of_ne_eof h).1
  consumed := (Cursor.advance_of_ne_eof h).2.1
  real t ht := by rw [List.mem_singleton.1 ht]; exact h
  names := (Cursor.advance_of_ne_eof h).2.2
  errors := ⟨[], by simp⟩
  functionDepth := rfl
  blockDepth := rfl

theorem report (s : ParseState) (e : ParseError) :
    s.Reads [] [⟨e.code, e.span⟩] { s with errors := s.errors.push e } :=
  ⟨rfl, rfl, by simp, rfl, ⟨[e], by simp⟩, rfl, rfl⟩

theorem log (s : ParseState) (e : ParseEvent) :
    s.Reads [] [] { s with events := s.events.push e } :=
  ⟨rfl, rfl, by simp, rfl, ⟨[], by simp⟩, rfl, rfl⟩

/-- What is read in braces, from outside. -/
theorem leaveBraces (h : Reads { s with blockDepth := s.blockDepth + 1 } ts rs s') :
    s.Reads ts rs { s' with blockDepth := s'.blockDepth - 1 } :=
  ⟨h.ahead, h.consumed, h.real, h.names, h.errors, h.functionDepth, by simp [h.blockDepth]⟩

/-- What is read in a function, from outside. -/
theorem leaveFunction (h : Reads { s with functionDepth := s.functionDepth + 1 } ts rs s') :
    s.Reads ts rs { s' with functionDepth := s'.functionDepth - 1 } :=
  ⟨h.ahead, h.consumed, h.real, h.names, h.errors, by simp [h.functionDepth], h.blockDepth⟩

end ParseState.Reads

/-- From `s` to `s'` the tokens `ts` are consumed and the errors `es` are reported. -/
structure ParseState.Passes (s : ParseState) (ts : List Token) (es : List ParseError)
    (s' : ParseState) : Prop where
  reads : s.Reads ts (es.map fun e => ⟨e.code, e.span⟩) s'
  errors : s'.errors.toList = s.errors.toList ++ es

theorem ParseState.Reads.exists_passes {s s' : ParseState} {ts : List Token} {rs : List Remark}
    (h : s.Reads ts rs s') :
    ∃ es, s.Passes ts es s' ∧ es.map (fun e => ⟨e.code, e.span⟩) = rs := by
  obtain ⟨es, hes, rfl⟩ := h.errors
  exact ⟨es, ⟨h, hes⟩, rfl⟩

theorem ParseState.Reads.passes {s s' : ParseState} {ts : List Token} (h : s.Reads ts [] s') :
    s.Passes ts [] s' := by
  obtain ⟨es, hp, hes⟩ := h.exists_passes
  rwa [List.map_eq_nil_iff.1 hes] at hp

namespace ParseState.Passes

variable {s s' s'' : ParseState} {ts ts' : List Token} {es es' : List ParseError}

theorem refl (s : ParseState) : s.Passes [] [] s := ⟨.refl s, by simp⟩

theorem trans (h : s.Passes ts es s') (h' : s'.Passes ts' es' s'') :
    s.Passes (ts ++ ts') (es ++ es') s'' :=
  ⟨by simpa using h.reads.trans h'.reads, by rw [h'.errors, h.errors, List.append_assoc]⟩

theorem advance (h : s.cursor.current.kind ≠ .eof) :
    s.Passes [s.cursor.current] [] { s with cursor := s.cursor.advance } := ⟨.advance h, by simp⟩

theorem advance_of_ahead {t : Token} {rest : List Token} (h : s.cursor.ahead = t :: rest)
    (ht : t.kind ≠ .eof) : s.Passes [t] [] { s with cursor := s.cursor.advance } := by
  obtain rfl := Cursor.current_of_ahead h
  exact advance ht

theorem report (s : ParseState) (e : ParseError) :
    s.Passes [] [e] { s with errors := s.errors.push e } := ⟨.report s e, by simp⟩

theorem log (s : ParseState) (e : ParseEvent) :
    s.Passes [] [] { s with events := s.events.push e } := ⟨.log s e, by simp⟩

theorem leaveBraces (h : Passes { s with blockDepth := s.blockDepth + 1 } ts es s') :
    s.Passes ts es { s' with blockDepth := s'.blockDepth - 1 } := ⟨h.reads.leaveBraces, h.errors⟩

theorem leaveFunction (h : Passes { s with functionDepth := s.functionDepth + 1 } ts es s') :
    s.Passes ts es { s' with functionDepth := s'.functionDepth - 1 } :=
  ⟨h.reads.leaveFunction, h.errors⟩

end ParseState.Passes

namespace Parser

variable {α β : Type}

/-- What a parser answers, with the state that it leaves. -/
abbrev Answer (α : Type) := Except ParseError α × ParseState

/-- Runs a parser from a state. -/
def answer (p : Parser α) (s : ParseState) : Answer α := p s

@[simp] theorem answer_bind (p : Parser α) (f : α → Parser β) (s : ParseState) :
    answer (p >>= f) s = match answer p s with
      | (.ok a, s') => answer (f a) s'
      | (.error e, s') => (.error e, s') := by
  simp only [answer, bind, ExceptT.bind, ExceptT.mk, StateT.bind]
  rcases p s with ⟨_ | _, s'⟩ <;> rfl

@[simp] theorem answer_pure (a : α) (s : ParseState) :
    answer (pure a) s = (.ok a, s) := rfl

@[simp] theorem answer_cursor (s : ParseState) : answer cursor s = (.ok s.cursor, s) := rfl

@[simp] theorem answer_current (s : ParseState) :
    answer current s = (.ok s.cursor.current, s) := rfl

@[simp] theorem answer_check (kind : TokenKind) (s : ParseState) :
    answer (check kind) s = (.ok (s.cursor.check kind), s) := rfl

@[simp] theorem answer_remaining (s : ParseState) :
    answer remaining s = (.ok s.cursor.ahead.length, s) := rfl

@[simp] theorem answer_get (s : ParseState) : answer get s = (.ok s, s) := rfl

@[simp] theorem answer_advance (s : ParseState) :
    answer advance s = (.ok s.cursor.current.span, { s with cursor := s.cursor.advance }) := rfl

@[simp] theorem answer_report (e : ParseError) (s : ParseState) :
    answer (report e) s = (.ok (), { s with errors := s.errors.push e }) := rfl

@[simp] theorem answer_log (e : ParseEvent) (s : ParseState) :
    answer (log e) s = (.ok (), { s with events := s.events.push e }) := rfl

@[simp] theorem answer_failHere (code : ErrorCode) (message : String) (s : ParseState) :
    answer (failHere code message : Parser α) s =
      (.error (s.cursor.errorHere code message), s) := rfl

theorem answer_reportIf (p : Prop) [Decidable p] (e : ParseError) (s : ParseState) :
    answer (reportIf p e) s =
      (.ok (), if p then { s with errors := s.errors.push e } else s) := by
  unfold reportIf
  split <;> rfl

theorem answer_expect (kind : TokenKind) (message : String) (s : ParseState) :
    answer (expect kind message) s = if s.cursor.check kind then
      (.ok s.cursor.current.span, { s with cursor := s.cursor.advance })
      else (.error (s.cursor.errorHere (Cursor.missingCode kind) message), s) := by
  simp only [expect, answer_bind, answer_cursor, Cursor.expect]
  by_cases h : s.cursor.check kind = true
  · simp only [h, ↓reduceIte]; rfl
  · simp only [h]; rfl

/-- The symbol that opens what `kind` closes. -/
def opener (kind : TokenKind) : Symbol :=
  if kind = .symbol .rightBrace then .leftBrace else .leftParen

theorem answer_expectClosing (kind : TokenKind) (opening : Span) (message : String)
    (s : ParseState) :
    answer (expectClosing kind opening message) s = if s.cursor.check kind then
      (.ok s.cursor.current.span, { s with cursor := s.cursor.advance })
      else (.error { s.cursor.errorHere (Cursor.missingCode kind) message with
        related := some (opening, s!"unclosed `{(opener kind).spelling}` opened here") }, s) := by
  simp only [expectClosing, answer_bind, answer_cursor, Cursor.expect]
  by_cases h : s.cursor.check kind = true
  · simp only [h, ↓reduceIte]; rfl
  · simp only [h]; rfl

theorem answer_expectIdentifier (message : String) (s : ParseState) :
    answer (expectIdentifier message) s = match s.cursor.current.kind with
      | .identifier name =>
          (.ok (name, s.cursor.current.span), { s with cursor := s.cursor.advance })
      | _ => (.error (s.cursor.errorHere .missingIdentifier message), s) := by
  simp only [expectIdentifier, answer_bind, answer_cursor, Cursor.expectIdentifier]
  cases s.cursor.current.kind <;> rfl

end Parser

end Tarn
