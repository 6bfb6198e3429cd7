import Tarn.Proofs.Parsing.Forward

/-! Accounts of the errors of a parser. Every error is put on a token, which is the last one at the
end of the input, and every fatal error is paid for by a token that is consumed. -/
namespace Tarn

/-- The message asks for this closing delimiter. -/
def Symbol.AskedIn (closer : Symbol) (message : String) : Prop :=
  ∃ rest, message = "expected `" ++ closer.spelling ++ "` " ++ rest

namespace ParseError

/-- The error is put on a token of the list. Just if a delimiter is not closed, it also points to
the one that was opened, which stands no later. -/
def Sited (tokens : List Token) (e : ParseError) : Prop :=
  ∃ before t after, tokens = before ++ t :: after ∧ t.kind ≠ .eof ∧ e.span = t.span ∧
    (e.related.isSome = true ↔ e.code = .unclosedDelimiter) ∧
    ∀ place ∈ e.related, ∃ opening ∈ before ++ [t], opening.span = place.1 ∧
      (opening.kind = .symbol .leftParen ∧ Symbol.rightParen.AskedIn e.message ∨
        opening.kind = .symbol .leftBrace ∧ Symbol.rightBrace.AskedIn e.message)

/-- How many of the errors are fatal. -/
def fatals (es : List ParseError) : Nat := es.countP (·.code.isFatal)

@[simp] theorem fatals_nil : fatals [] = 0 := rfl

@[simp] theorem fatals_append (es es' : List ParseError) :
    fatals (es ++ es') = fatals es + fatals es' := List.countP_append

theorem fatals_singleton {e : ParseError} (h : e.code.isFatal = true) : fatals [e] = 1 := by
  simp [fatals, h]

theorem fatals_singleton_of_not {e : ParseError} (h : e.code.isFatal = false) :
    fatals [e] = 0 := by
  simp [fatals, h]

end ParseError

open ParseError Tarn.Parser

namespace ParseState

/-- All tokens, those before the cursor and those after it. -/
def tokens (s : ParseState) : List Token := s.cursor.consumed.reverse ++ s.cursor.ahead

theorem Reads.tokens_eq {s s' : ParseState} {ts rs} (h : s.Reads ts rs s') :
    s'.tokens = s.tokens := by
  simp [tokens, h.consumed, h.ahead]

/-- The cursor has not passed the end of file, there is a token to put an error on, and the tokens
`known` were consumed. -/
structure Knows (s : ParseState) (known : List Token) : Prop where
  real : ∀ t ∈ s.cursor.consumed, t.kind ≠ .eof
  some : s.cursor.consumed ≠ [] ∨ s.cursor.atEnd = false
  consumed : ∀ t ∈ known, t ∈ s.cursor.consumed

namespace Knows

variable {s s' : ParseState} {known : List Token}

theorem passes (h : s.Knows known) {ts es} (hp : s.Passes ts es s') : s'.Knows known := by
  have hconsumed := hp.reads.consumed
  refine ⟨?_, ?_, ?_⟩
  · intro t ht
    rw [hconsumed] at ht
    obtain ht | ht := List.mem_append.1 ht
    · exact hp.reads.real t (List.mem_reverse.1 ht)
    · exact h.real t ht
  · cases ts with
    | nil =>
      have hcurrent : s'.cursor.atEnd = s.cursor.atEnd := by
        simp [Cursor.atEnd, Cursor.current, hp.reads.ahead]
      rw [hcurrent, hconsumed]
      exact h.some
    | cons t ts => exact .inl (by simp [hconsumed])
  · intro t ht
    rw [hconsumed]
    exact List.mem_append_right _ (h.consumed t ht)

theorem advance (h : s.Knows known) (hk : s.cursor.current.kind ≠ .eof) :
    { s with cursor := s.cursor.advance }.Knows (s.cursor.current :: known) := by
  have hs := h.passes (.advance hk)
  refine ⟨hs.real, hs.some, List.forall_mem_cons.2 ⟨?_, hs.consumed⟩⟩
  show _ ∈ s.cursor.advance.consumed
  rw [(Cursor.advance_of_ne_eof hk).2.1]
  exact List.mem_cons_self

/-- The token that an error at the cursor is put on. What was consumed comes no later. -/
theorem site (h : s.Knows known) : ∃ before t after, s.tokens = before ++ t :: after ∧
    t.kind ≠ .eof ∧ s.cursor.errorSpan = t.span ∧ ∀ o ∈ known, o ∈ before ++ [t] := by
  rcases hend : s.cursor.atEnd with _ | _
  · have heof : s.cursor.current.kind ≠ .eof := by
      intro heof
      rw [(Cursor.atEnd_iff _).2 heof] at hend
      cases hend
    refine ⟨s.cursor.consumed.reverse, s.cursor.current, s.cursor.advance.ahead, ?_, heof, ?_, ?_⟩
    · rw [tokens, (Cursor.advance_of_ne_eof heof).1]
    · simp [Cursor.errorSpan, hend]
    · intro o ho
      exact List.mem_append_left _ (List.mem_reverse.2 (h.consumed o ho))
  · obtain ⟨t, rest, hconsumed⟩ :=
      List.exists_cons_of_ne_nil (h.some.resolve_right (by simp [hend]))
    refine ⟨rest.reverse, t, s.cursor.ahead, ?_, ?_, ?_, ?_⟩
    · simp [tokens, hconsumed]
    · exact h.real t (by simp [hconsumed])
    · simp [Cursor.errorSpan, Cursor.previousSpan, hend, hconsumed]
    · intro o ho
      have hmem := h.consumed o ho
      rw [hconsumed] at hmem
      simpa [or_comm] using hmem

theorem sited_here (h : s.Knows known) {code : ErrorCode} (hcode : code ≠ .unclosedDelimiter)
    (message : String) : (s.cursor.errorHere code message).Sited s.tokens := by
  obtain ⟨before, t, after, htokens, ht, hspan, -⟩ := h.site
  refine ⟨before, t, after, htokens, ht, hspan, ?_, nofun⟩
  exact ⟨nofun, fun hc => absurd hc hcode⟩

theorem sited_known (h : s.Knows known) {t : Token} (ht : t ∈ known) {e : ParseError}
    (hspan : e.span = t.span) (hrelated : e.related = none)
    (hcode : e.code ≠ .unclosedDelimiter) : e.Sited s.tokens := by
  have hmem := h.consumed t ht
  obtain ⟨before, after, htokens⟩ :=
    List.append_of_mem (List.mem_append_left s.cursor.ahead (List.mem_reverse.2 hmem))
  refine ⟨before, t, after, htokens, h.real t hmem, hspan, ?_, ?_⟩
  · simpa [hrelated] using hcode
  · simp [hrelated]

end Knows

end ParseState

namespace Parser

variable {α β : Type} {opened : Bool} {known : List Token} {s : ParseState}

/-- Every fatal error has a token of its own, and one token is left if there are errors at all,
unless a brace was opened before. -/
def Spent (opened : Bool) (ts : List Token) (es : List ParseError) : Prop :=
  fatals es = 0 ∨ fatals es < ts.length + opened.toNat

theorem Spent.append {ts ts' : List Token} {es es' : List ParseError} (h : Spent opened ts es)
    (h' : Spent opened ts' es') : Spent opened (ts ++ ts') (es ++ es') := by
  unfold Spent at *
  rw [fatals_append, List.length_append]
  have := opened.toNat_le
  omega

/-- From `s`, however `p` ends, its errors are put on tokens and are paid for by tokens. -/
def Accounts (opened : Bool) (p : Parser α) (s : ParseState) : Prop :=
  (∃ ts es, s.Passes ts es (answer p s).2 ∧ (∀ e ∈ es, e.Sited s.tokens) ∧ Spent opened ts es) ∧
    ∀ e, (answer p s).1 = .error e → e.Sited s.tokens ∧ e.code.isFatal = true

/-- Wherever the tokens `known` were consumed, the errors of `p` are accounted for. -/
def Accounted (opened : Bool) (known : List Token) (p : Parser α) : Prop :=
  ∀ s, s.Knows known → Accounts opened p s

namespace Accounts

theorem of_ok {p : Parser α} {a : α} {s' : ParseState} {ts : List Token}
    (ha : answer p s = (.ok a, s')) (hp : s.Passes ts [] s') : Accounts opened p s := by
  rw [Accounts, ha]
  exact ⟨⟨ts, [], hp, by simp, .inl rfl⟩, nofun⟩

theorem of_error {p : Parser α} {e : ParseError} (ha : answer p s = (.error e, s))
    (hsited : e.Sited s.tokens) (hfatal : e.code.isFatal = true) : Accounts opened p s := by
  rw [Accounts, ha]
  refine ⟨⟨[], [], .refl s, by simp, .inl rfl⟩, ?_⟩
  rintro _ ⟨⟩
  exact ⟨hsited, hfatal⟩

theorem pure (a : α) : Accounts opened (Pure.pure a) s := of_ok rfl (.refl s)

theorem bind {p : Parser α} {f : α → Parser β} (hs : s.Knows known) (hp : Accounts opened p s)
    (hf : ∀ a, Accounted opened known (f a)) : Accounts opened (p >>= f) s := by
  obtain ⟨⟨ts, es, hpasses, hsited, hspent⟩, herror⟩ := hp
  rw [Accounts, answer_bind]
  rcases ha : answer p s with ⟨e | a, s'⟩
  · rw [ha] at hpasses herror
    refine ⟨⟨ts, es, hpasses, hsited, hspent⟩, ?_⟩
    rintro _ ⟨⟩
    exact herror e rfl
  · rw [ha] at hpasses
    obtain ⟨⟨ts', es', hpasses', hsited', hspent'⟩, herror'⟩ := hf a s' (hs.passes hpasses)
    rw [hpasses.reads.tokens_eq] at hsited' herror'
    exact ⟨⟨_, _, hpasses.trans hpasses', List.forall_mem_append.2 ⟨hsited, hsited'⟩,
      hspent.append hspent'⟩, herror'⟩

theorem map {p : Parser α} (f : α → β) (hs : s.Knows known) (h : Accounts opened p s) :
    Accounts opened (f <$> p) s := by
  rw [map_eq_pure_bind]
  exact bind hs h fun a _ _ => pure (f a)

/-- What follows a token may also use the token. -/
theorem spend {p q : Parser α} {s' : ParseState} {t : Token}
    (ha : answer q s = answer p s') (hp : s.Passes [t] [] s') (h : Accounts true p s') :
    Accounts opened q s := by
  obtain ⟨⟨ts, es, hpasses, hsited, hspent⟩, herror⟩ := h
  rw [hp.reads.tokens_eq] at hsited herror
  rw [Accounts, ha]
  refine ⟨⟨_, _, hp.trans hpasses, by simpa using hsited, ?_⟩, herror⟩
  simp only [Spent, List.nil_append, List.length_append, List.length_singleton,
    Bool.toNat_true] at hspent ⊢
  omega

theorem mono {p : Parser α} (h : Accounts false p s) : Accounts opened p s := by
  obtain ⟨⟨ts, es, hpasses, hsited, hspent⟩, herror⟩ := h
  refine ⟨⟨ts, es, hpasses, hsited, ?_⟩, herror⟩
  simp only [Spent, Bool.toNat_false] at hspent ⊢
  omega

/-- Consuming the current token. What follows knows it. -/
theorem advance_bind {f : Span → Parser α} (hs : s.Knows known)
    (hk : s.cursor.current.kind ≠ .eof)
    (hf : Accounted true (s.cursor.current :: known) (f s.cursor.current.span)) :
    Accounts opened (Parser.advance >>= f) s :=
  spend (answer_bind _ _ s) (.advance hk) (hf _ (hs.advance hk))

theorem report {e : ParseError} (hsited : e.Sited s.tokens) (hfatal : e.code.isFatal = false) :
    Accounts opened (Parser.report e) s := by
  rw [Accounts, answer_report]
  refine ⟨⟨[], [e], .report s e, by simpa using hsited, .inl ?_⟩, nofun⟩
  exact fatals_singleton_of_not hfatal

theorem reportIf {c : Prop} [Decidable c] {e : ParseError} (hsited : e.Sited s.tokens)
    (hfatal : e.code.isFatal = false) : Accounts opened (Parser.reportIf c e) s := by
  unfold Parser.reportIf
  split
  · exact report hsited hfatal
  · exact pure ()

end Accounts

namespace Accounted

theorem pure (a : α) : Accounted opened known (Pure.pure a) := fun _ _ => .pure a

theorem bind {p : Parser α} {f : α → Parser β} (hp : Accounted opened known p)
    (hf : ∀ a, Accounted opened known (f a)) : Accounted opened known (p >>= f) :=
  fun s hs => .bind hs (hp s hs) hf

theorem map {p : Parser α} (f : α → β) (hp : Accounted opened known p) :
    Accounted opened known (f <$> p) := by
  rw [map_eq_pure_bind]
  exact hp.bind fun a => pure (f a)

theorem log (e : ParseEvent) : Accounted opened known (Parser.log e) :=
  fun s _ => .of_ok (answer_log e s) (.log s e)

theorem ite {c : Prop} [Decidable c] {p q : Parser α} (hp : Accounted opened known p)
    (hq : Accounted opened known q) : Accounted opened known (if c then p else q) := by
  split
  · exact hp
  · exact hq

theorem mono {p : Parser α} (hp : Accounted false [] p) : Accounted opened known p :=
  fun s hs => (hp s ⟨hs.real, hs.some, nofun⟩).mono

theorem cursor_bind {f : Cursor → Parser α}
    (h : ∀ s, s.Knows known → Accounts opened (f s.cursor) s) :
    Accounted opened known (Parser.cursor >>= f) := h

theorem current_bind {f : Token → Parser α}
    (h : ∀ s, s.Knows known → Accounts opened (f s.cursor.current) s) :
    Accounted opened known (Parser.current >>= f) := h

theorem check_bind {kind : TokenKind} {f : Bool → Parser α}
    (h : ∀ s, s.Knows known → Accounts opened (f (s.cursor.check kind)) s) :
    Accounted opened known (Parser.check kind >>= f) := h

theorem remaining_bind {f : Nat → Parser α} (h : ∀ n, Accounted opened known (f n)) :
    Accounted opened known (Parser.remaining >>= f) := fun s hs => h _ s hs

theorem get_bind {f : ParseState → Parser α}
    (h : ∀ s, s.Knows known → Accounts opened (f s) s) :
    Accounted opened known (MonadState.get >>= f) := h

/-- Consuming a symbol if it is there. -/
theorem check_symbol {x : Symbol} {f : Span → Parser α} {q : Parser α}
    (hf : ∀ t, t.kind = .symbol x → Accounted true (t :: known) (f t.span))
    (hq : Accounted opened known q) : Accounted opened known
      (Parser.check (.symbol x) >>= fun b => if b = true then Parser.advance >>= f else q) := by
  refine check_bind fun s hs => ?_
  split
  next hk =>
    rw [Cursor.check_symbol] at hk
    exact .advance_bind hs (by simp [hk]) (hf _ hk)
  next => exact hq s hs

theorem failHere {code : ErrorCode} (message : String) (hfatal : code.isFatal = true)
    (hcode : code ≠ .unclosedDelimiter) :
    Accounted opened known (Parser.failHere code message : Parser α) :=
  fun s hs => .of_error (answer_failHere code message s) (hs.sited_here hcode message) hfatal

/-- Consuming a symbol that must be there. What follows knows it. -/
theorem expect_bind {x : Symbol} {message : String} {f : Span → Parser α}
    (hcode : Cursor.missingCode (.symbol x) ≠ .unclosedDelimiter)
    (hf : ∀ t, t.kind = .symbol x → Accounted true (t :: known) (f t.span)) :
    Accounted opened known (Parser.expect (.symbol x) message >>= f) := by
  intro s hs
  by_cases hk : s.cursor.check (.symbol x) = true
  · have hk' := (Cursor.check_symbol _ _).1 hk
    have hkind : s.cursor.current.kind ≠ .eof := by simp [hk']
    refine .spend ?_ (.advance hkind) (hf _ hk' _ (hs.advance hkind))
    simp [answer_bind, answer_expect, hk]
  · refine .of_error ?_ (hs.sited_here hcode message) (Forward.missingCode_isFatal _)
    simp [answer_bind, answer_expect, hk]

theorem expectIdentifier_bind {message : String} {f : Name × Span → Parser α}
    (hf : ∀ t name, Accounted true (t :: known) (f (name, t.span))) :
    Accounted opened known (Parser.expectIdentifier message >>= f) := by
  intro s hs
  cases hk : s.cursor.current.kind with
  | identifier name =>
    have hkind : s.cursor.current.kind ≠ .eof := by simp [hk]
    refine .spend ?_ (.advance hkind) (hf _ name _ (hs.advance hkind))
    simp [answer_bind, answer_expectIdentifier, hk]
  | _ =>
    have hsited := hs.sited_here (show ErrorCode.missingIdentifier ≠ _ by decide) message
    refine .of_error ?_ hsited rfl
    simp [answer_bind, answer_expectIdentifier, hk]

/-- The delimiters that belong together. -/
def Closes (closer opener : Symbol) : Prop :=
  opener = .leftParen ∧ closer = .rightParen ∨ opener = .leftBrace ∧ closer = .rightBrace

/-- An unclosed delimiter is known where its closing one is missing. -/
theorem expectClosing {x o : Symbol} {opening : Token} {message : String} (rest : String)
    (hx : Closes x o) (hmessage : message = "expected `" ++ x.spelling ++ "` " ++ rest)
    (ho : opening.kind = .symbol o) (hmem : opening ∈ known) :
    Accounted opened known (Parser.expectClosing (.symbol x) opening.span message) := by
  intro s hs
  by_cases hk : s.cursor.check (.symbol x) = true
  · have hkind : s.cursor.current.kind ≠ .eof := by simp [(Cursor.check_symbol _ _).1 hk]
    exact .of_ok (answer_expectClosing _ _ _ s ▸ if_pos hk) (.advance hkind)
  · obtain ⟨before, t, after, htokens, ht, hspan, hbefore⟩ := hs.site
    have hcode : Cursor.missingCode (.symbol x) = .unclosedDelimiter := by
      obtain ⟨-, rfl⟩ | ⟨-, rfl⟩ := hx <;> rfl
    refine .of_error (answer_expectClosing _ _ _ s ▸ if_neg hk) ?_ (Forward.missingCode_isFatal _)
    refine ⟨before, t, after, htokens, ht, hspan, by simp [Cursor.errorHere, hcode], ?_⟩
    rintro _ ⟨⟩
    refine ⟨opening, hbefore _ hmem, rfl, ?_⟩
    obtain ⟨rfl, rfl⟩ | ⟨rfl, rfl⟩ := hx
    · exact .inl ⟨ho, rest, hmessage⟩
    · exact .inr ⟨ho, rest, hmessage⟩

end Accounted

end Parser

end Tarn
