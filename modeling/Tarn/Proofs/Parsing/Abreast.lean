import Tarn.Proofs.Parsing.Acceptance
import Tarn.Proofs.Parsing.Accounting

/-! Two runs of a parser before the same tokens. They do the same there, whatever comes behind, and
whatever the bounds of loops and nestings are, as long as they are not less than the number of
tokens. -/
namespace Tarn

open ParseError Grammar

/-- A statement that starts before these tokens ends among them: there is a semicolon, and nothing
that takes a statement past one. -/
structure Token.Fenced (us : List Token) : Prop where
  semicolon : ∃ t ∈ us, t.kind = .symbol .semicolon
  simple : ∀ t ∈ us, t.kind ≠ .symbol .leftBrace ∧ t.kind ≠ .keyword .forKw

/-- Two states before the same tokens `us`. Either the input `ends` behind them, or they are
fenced. -/
structure ParseState.Abreast (ends : Bool) (us : List Token) (s s' : ParseState) : Prop where
  names : s.cursor.names = s'.cursor.names
  functionDepth : s.functionDepth = s'.functionDepth
  real : ∀ t ∈ us, t.kind ≠ .eof
  left : ∃ rest, s.cursor.ahead = us ++ rest ∧ (ends = true → AtEnd rest)
  right : ∃ rest, s'.cursor.ahead = us ++ rest ∧ (ends = true → AtEnd rest)
  /-- At the end both have the same token to put errors on. -/
  place : us = [] → s.cursor.errorSpan = s'.cursor.errorSpan
  blockDepth : ends = true → (0 < s.blockDepth ↔ 0 < s'.blockDepth)
  fenced : ends = false → Token.Fenced us

theorem Grammar.AtEnd.current {rest : List Token} (h : AtEnd rest) {c : Cursor}
    (hc : c.ahead = rest) : c.current.kind = .eof := by
  cases rest with
  | nil => simp [Cursor.current, hc, Token.ofKind]
  | cons t rest =>
    rw [Cursor.current_of_ahead hc]
    exact h t rest rfl

/-- Behind consumed tokens, an error at the end is put on the last of them. -/
theorem ParseState.Passes.errorSpan {s s₁ : ParseState} {ts : List Token} {es : List ParseError}
    (h : s.Passes ts es s₁) {t : Token} (hlast : ts.getLast? = some t)
    (hend : s₁.cursor.current.kind = .eof) : s₁.cursor.errorSpan = t.span := by
  obtain ⟨ts, rfl⟩ := List.getLast?_eq_some_iff.1 hlast
  have hconsumed := h.reads.consumed
  rw [List.reverse_append, List.reverse_singleton, List.singleton_append] at hconsumed
  simp [Cursor.errorSpan, Cursor.previousSpan, (Cursor.atEnd_iff _).2 hend, hconsumed]

namespace ParseState.Abreast

variable {ends : Bool} {us us' ts : List Token} {es : List ParseError} {s s' s₁ s₁' : ParseState}
  {t : Token}

/-- With no token left both are at the end. -/
theorem nil (h : Abreast ends [] s s') : ends = true ∧ s.cursor.current.kind = .eof ∧
    s'.cursor.current.kind = .eof := by
  cases ends with
  | false =>
    obtain ⟨t, ht, -⟩ := (h.fenced rfl).semicolon
    cases ht
  | true =>
    obtain ⟨rest, hrest, hend⟩ := h.left
    obtain ⟨rest', hrest', hend'⟩ := h.right
    exact ⟨rfl, (hend rfl).current hrest, (hend' rfl).current hrest'⟩

theorem current (h : Abreast ends (t :: us) s s') :
    s.cursor.current = t ∧ s'.cursor.current = t := by
  obtain ⟨rest, hrest, -⟩ := h.left
  obtain ⟨rest', hrest', -⟩ := h.right
  exact ⟨Cursor.current_of_ahead hrest, Cursor.current_of_ahead hrest'⟩

theorem kind_eq (h : Abreast ends us s s') : s.cursor.current.kind = s'.cursor.current.kind := by
  cases us with
  | nil => rw [h.nil.2.1, h.nil.2.2]
  | cons t us => rw [h.current.1, h.current.2]

theorem check_eq (h : Abreast ends us s s') (kind : TokenKind) :
    s.cursor.check kind = s'.cursor.check kind := by
  rw [Cursor.check, Cursor.check, h.kind_eq]

theorem atEnd_iff (h : Abreast ends us s s') : s.cursor.atEnd = true ↔ us = [] := by
  rw [Cursor.atEnd_iff]
  cases us with
  | nil => simp [h.nil.2.1]
  | cons t us => simp [h.current.1, h.real t List.mem_cons_self]

theorem atEnd_eq (h : Abreast ends us s s') : s.cursor.atEnd = s'.cursor.atEnd := by
  rw [Cursor.atEnd, Cursor.atEnd, h.kind_eq]

theorem length_le (h : Abreast ends us s s') :
    us.length ≤ s.cursor.ahead.length ∧ us.length ≤ s'.cursor.ahead.length := by
  obtain ⟨rest, hrest, -⟩ := h.left
  obtain ⟨rest', hrest', -⟩ := h.right
  simp [hrest, hrest']

/-- An error at the cursor is the same for both. -/
theorem errorHere_eq (h : Abreast ends us s s') (code : ErrorCode) (message : String) :
    s.cursor.errorHere code message = s'.cursor.errorHere code message := by
  have hspan : s.cursor.errorSpan = s'.cursor.errorSpan := by
    cases us with
    | nil => exact h.place rfl
    | cons t us =>
      have hreal := h.real t List.mem_cons_self
      simp [Cursor.errorSpan, Cursor.atEnd, h.current.1, h.current.2, hreal]
  have hdescribe : s.cursor.describe = s'.cursor.describe := by
    rw [Cursor.describe, Cursor.describe, h.kind_eq, h.names]
  rw [Cursor.errorHere, Cursor.errorHere, hspan, hdescribe]

/-- Both stay abreast if they consume the same, as long as the semicolon is there. -/
theorem passes (h : Abreast ends (ts ++ us') s s') (hp : s.Passes ts es s₁)
    (hp' : s'.Passes ts es s₁')
    (hkept : ends = false → ∃ t ∈ us', t.kind = .symbol .semicolon) :
    Abreast ends us' s₁ s₁' := by
  obtain ⟨rest, hrest, hend⟩ := h.left
  obtain ⟨rest', hrest', hend'⟩ := h.right
  rw [hp.reads.ahead, List.append_assoc, List.append_cancel_left_eq] at hrest
  rw [hp'.reads.ahead, List.append_assoc, List.append_cancel_left_eq] at hrest'
  refine ⟨by rw [hp.reads.names, hp'.reads.names, h.names],
    by rw [hp.reads.functionDepth, hp'.reads.functionDepth, h.functionDepth],
    fun t ht => h.real t (List.mem_append_right _ ht), ⟨rest, hrest, hend⟩,
    ⟨rest', hrest', hend'⟩, fun hnil => ?_, fun hends => ?_, fun hends => ⟨hkept hends, ?_⟩⟩
  · subst hnil
    rcases hlast : ts.getLast? with _ | t
    · obtain rfl := List.getLast?_eq_none_iff.1 hlast
      have hcursor {s s₁ : ParseState} (hp : s.Passes [] es s₁) :
          s₁.cursor.errorSpan = s.cursor.errorSpan := by
        have hahead : s.cursor.ahead = s₁.cursor.ahead := hp.reads.ahead
        have hconsumed : s₁.cursor.consumed = s.cursor.consumed := hp.reads.consumed
        simp only [Cursor.errorSpan, Cursor.previousSpan, Cursor.atEnd, Cursor.current, hahead,
          hconsumed]
      rw [hcursor hp, hcursor hp', h.place rfl]
    · have hends : ends = true := by
        by_contra hfalse
        obtain ⟨t, ht, -⟩ := hkept (Bool.eq_false_iff.2 hfalse)
        cases ht
      rw [hp.errorSpan hlast ((hend hends).current hrest),
        hp'.errorSpan hlast ((hend' hends).current hrest')]
  · rw [hp.reads.blockDepth, hp'.reads.blockDepth]
    exact h.blockDepth hends
  · exact fun t ht => (h.fenced hends).simple t (List.mem_append_right _ ht)

/-- One step of both consumes the same token. -/
theorem passes_advance (h : Abreast ends (t :: us) s s') :
    s.Passes [t] [] { s with cursor := s.cursor.advance } ∧
      s'.Passes [t] [] { s' with cursor := s'.cursor.advance } := by
  have hreal := h.real t List.mem_cons_self
  have hleft := ParseState.Passes.advance (s := s) (by rwa [h.current.1])
  have hright := ParseState.Passes.advance (s := s') (by rwa [h.current.2])
  rw [h.current.1] at hleft
  rw [h.current.2] at hright
  exact ⟨hleft, hright⟩

end ParseState.Abreast

namespace Parser

variable {α β : Type} {ends last : Bool} {n : Nat}

/-- Before the tokens `us` both parsers end the same; they consume the same and report the same. If
the input does not end behind `us`, then nothing fatal is reported, and the semicolon stays, unless
it is the `last` token of what succeeds. -/
def Together (ends last : Bool) (us : List Token) (s s' : ParseState) (p q : Parser α) : Prop :=
  ∃ ts us' es, us = ts ++ us' ∧ s.Passes ts es (answer p s).2 ∧ s'.Passes ts es (answer q s').2 ∧
    (answer p s).1 = (answer q s').1 ∧
    (ends = false → fatals es = 0 ∧ ((∃ t ∈ us', t.kind = .symbol .semicolon) ∨
      last = true ∧ ∃ a, (answer p s).1 = .ok a))

/-- Before any `n` tokens both parsers do the same. -/
def Alike (ends last : Bool) (n : Nat) (p q : Parser α) : Prop :=
  ∀ us s s', us.length ≤ n → s.Abreast ends us s' → Together ends last us s s' p q

/-- Where the first of the tokens is `t`, both parsers do the same. -/
def AlikeAt (ends last : Bool) (n : Nat) (t : Token) (p q : Parser α) : Prop :=
  ∀ us s s', us.length < n → s.Abreast ends (t :: us) s' → Together ends last (t :: us) s s' p q

section Together

variable {us us' : List Token} {s s' s₁ s₁' : ParseState} {p q : Parser α}

namespace Together

/-- The answer of both, which is the same, with the states that they leave. -/
theorem exists_answers (h : Together ends last us s s' p q) :
    ∃ r s₁ s₁' ts us' es, answer p s = (r, s₁) ∧ answer q s' = (r, s₁') ∧ us = ts ++ us' ∧
      s.Passes ts es s₁ ∧ s'.Passes ts es s₁' ∧
      (ends = false → fatals es = 0 ∧ ((∃ t ∈ us', t.kind = .symbol .semicolon) ∨
        last = true ∧ ∃ a, r = .ok a)) := by
  obtain ⟨ts, us', es, hsplit, hp, hq, hsame, hkept⟩ := h
  exact ⟨(answer p s).1, (answer p s).2, (answer q s').2, ts, us', es, rfl,
    Prod.ext hsame.symm rfl, hsplit, hp, hq, hkept⟩

/-- Where the input ends behind the tokens no semicolon has to stay. -/
theorem of_ends {last' : Bool} (h : Together true last us s s' p q) :
    Together true last' us s s' p q := by
  obtain ⟨ts, us', es, hsplit, hp, hq, hsame, -⟩ := h
  exact ⟨ts, us', es, hsplit, hp, hq, hsame, nofun⟩

/-- A step that succeeds for both and consumes nothing. -/
theorem of_ok {a : α} {es : List ParseError} (hs : s.Abreast ends us s')
    (hp : answer p s = (.ok a, s₁)) (hq : answer q s' = (.ok a, s₁')) (hes : fatals es = 0)
    (hpasses : s.Passes [] es s₁) (hpasses' : s'.Passes [] es s₁') :
    Together ends last us s s' p q := by
  rw [Together, hp, hq]
  exact ⟨[], us, es, rfl, hpasses, hpasses', rfl, fun hends =>
    ⟨hes, .inl (hs.fenced hends).semicolon⟩⟩

theorem pure (a : α) (hs : s.Abreast ends us s') :
    Together ends last us s s' (Pure.pure a) (Pure.pure a) :=
  of_ok hs rfl rfl rfl (.refl s) (.refl s')

/-- Both fail at once. -/
theorem of_error {e : ParseError} (hs : s.Abreast ends us s') (hp : answer p s = (.error e, s))
    (hq : answer q s' = (.error e, s')) : Together ends last us s s' p q := by
  rw [Together, hp, hq]
  exact ⟨[], us, [], rfl, .refl s, .refl s', rfl, fun hends =>
    ⟨rfl, .inl (hs.fenced hends).semicolon⟩⟩

theorem bind {f g : α → Parser β} (hs : s.Abreast ends us s')
    (hp : Together ends false us s s' p q) (hf : ∀ a, Alike ends last us.length (f a) (g a)) :
    Together ends last us s s' (p >>= f) (q >>= g) := by
  obtain ⟨r, s₁, s₁', ts, us', es, ha, ha', rfl, hpasses, hpasses', hkept⟩ := hp.exists_answers
  rw [Together, answer_bind, answer_bind, ha, ha']
  have hsemicolon (hends : ends = false) : ∃ t ∈ us', t.kind = .symbol .semicolon :=
    (hkept hends).2.resolve_right (by simp)
  cases r with
  | error e =>
    exact ⟨ts, us', es, rfl, hpasses, hpasses', rfl, fun hends =>
      ⟨(hkept hends).1, .inl (hsemicolon hends)⟩⟩
  | ok a =>
    obtain ⟨ts', us'', es', rfl, hpasses₁, hpasses₁', hsame', hkept'⟩ :=
      hf a us' s₁ s₁' (by simp) (hs.passes hpasses hpasses' hsemicolon)
    refine ⟨ts ++ ts', us'', es ++ es', by simp, hpasses.trans hpasses₁, hpasses'.trans hpasses₁',
      hsame', fun hends => ⟨?_, (hkept' hends).2⟩⟩
    rw [fatals_append, (hkept hends).1, (hkept' hends).1]

theorem expect_missing {f g : Span → Parser α} {kind : TokenKind} {message : String}
    (hs : s.Abreast ends us s') (hk : ¬ s.cursor.check kind = true) :
    Together ends last us s s' (expect kind message >>= f) (expect kind message >>= g) := by
  refine of_error hs ?_ ?_ (e := s.cursor.errorHere (Cursor.missingCode kind) message)
  · simp [answer_expect, hk]
  · simp [answer_expect, ← hs.check_eq, hk, hs.errorHere_eq]

/-- A token that both consume first. -/
theorem advance {f g : Span → Parser α} (hs : s.Abreast ends us s')
    (hreal : s.cursor.current.kind ≠ .eof)
    (hkind : ends = false → s.cursor.current.kind ≠ .symbol .semicolon)
    (hp : answer p s = answer (f s.cursor.current.span) { s with cursor := s.cursor.advance })
    (hq : answer q s' = answer (g s'.cursor.current.span) { s' with cursor := s'.cursor.advance })
    (h : ∀ span, Alike ends last (us.length - 1) (f span) (g span)) :
    Together ends last us s s' p q := by
  cases us with
  | nil => exact absurd hs.nil.2.1 hreal
  | cons t us =>
    rw [hs.current.1] at hkind hp
    rw [hs.current.2] at hq
    obtain ⟨hpasses, hpasses'⟩ := hs.passes_advance
    have hsemicolon (hends : ends = false) : ∃ t ∈ us, t.kind = .symbol .semicolon := by
      obtain ⟨u, hu, hsymbol⟩ := (hs.fenced hends).semicolon
      obtain rfl | hu := List.mem_cons.1 hu
      · exact absurd hsymbol (hkind hends)
      · exact ⟨u, hu, hsymbol⟩
    have hboth : s.Abreast ends ([t] ++ us) s' := hs
    obtain ⟨ts, us', es, rfl, hafter, hafter', hsame, hkept⟩ :=
      h t.span us _ _ (Nat.le_refl _) (hboth.passes hpasses hpasses' hsemicolon)
    rw [Together, hp, hq]
    exact ⟨t :: ts, us', es, rfl, hpasses.trans hafter, hpasses'.trans hafter', hsame, hkept⟩

end Together

end Together

namespace Alike

variable {p p' q q' : Parser α}

theorem mono {m : Nat} (h : Alike ends last n p q) (hm : m ≤ n) : Alike ends last m p q :=
  fun us s s' hlen hs => h us s s' (Nat.le_trans hlen hm) hs

theorem of_ends {last' : Bool} (h : Alike true last n p q) : Alike true last' n p q :=
  fun us s s' hlen hs => (h us s s' hlen hs).of_ends

theorem pure (a : α) : Alike ends last n (Pure.pure a) (Pure.pure a) :=
  fun _ _ _ _ hs => .pure a hs

theorem bind {f g : α → Parser β} (h : Alike ends false n p q)
    (hf : ∀ a, Alike ends last n (f a) (g a)) : Alike ends last n (p >>= f) (q >>= g) :=
  fun us s s' hlen hs => .bind hs (h us s s' hlen hs) fun a => (hf a).mono hlen

theorem map (f : α → β) (h : Alike ends false n p q) :
    Alike ends last n (f <$> p) (f <$> q) := by
  rw [map_eq_pure_bind, map_eq_pure_bind]
  exact h.bind fun a => pure (f a)

theorem ite {c : Prop} [Decidable c] (h : Alike ends last n p q) (h' : Alike ends last n p' q') :
    Alike ends last n (if c then p else p') (if c then q else q') := by
  split
  · exact h
  · exact h'

theorem check_bind {kind : TokenKind} {f g : Bool → Parser α}
    (h : ∀ b, Alike ends last n (f b) (g b)) :
    Alike ends last n (Parser.check kind >>= f) (Parser.check kind >>= g) := by
  intro us s s' hlen hs
  have hrun := h (s.cursor.check kind) us s s' hlen hs
  rw [Together] at hrun ⊢
  simpa only [answer_bind, answer_check, ← hs.check_eq kind] using hrun

/-- The number of tokens left is enough for a bound. -/
theorem remaining_bind {f g : Nat → Parser α}
    (h : ∀ k m m', k ≤ n → k ≤ m → k ≤ m' → Alike ends last k (f m) (g m')) :
    Alike ends last n (Parser.remaining >>= f) (Parser.remaining >>= g) := fun us s s' hlen hs =>
  h us.length _ _ hlen hs.length_le.1 hs.length_le.2 us s s' (Nat.le_refl _) hs

theorem cursor_bind {f g : Cursor → Parser α}
    (h : ∀ us s s', us.length ≤ n → s.Abreast ends us s' →
      Together ends last us s s' (f s.cursor) (g s'.cursor)) :
    Alike ends last n (Parser.cursor >>= f) (Parser.cursor >>= g) := h

theorem failHere (code : ErrorCode) (message : String) :
    Alike ends last n (Parser.failHere code message : Parser α)
      (Parser.failHere code message) := by
  intro us s s' _ hs
  refine .of_error hs (answer_failHere code message s) ?_
  rw [answer_failHere, hs.errorHere_eq]

theorem report {e : ParseError} (h : e.code.isFatal = false) :
    Alike ends last n (Parser.report e) (Parser.report e) := fun _ s s' _ hs =>
  .of_ok hs (answer_report e s) (answer_report e s') (fatals_singleton_of_not h) (.report s e)
    (.report s' e)

theorem reportIf {c : Prop} [Decidable c] {e : ParseError} (h : e.code.isFatal = false) :
    Alike ends last n (Parser.reportIf c e) (Parser.reportIf c e) := ite (report h) (pure ())

theorem log (e : ParseEvent) : Alike ends last n (Parser.log e) (Parser.log e) :=
  fun _ s s' _ hs => .of_ok hs (answer_log e s) (answer_log e s') rfl (.log s e) (.log s' e)

theorem alikeAt (h : Alike ends last n p q) (t : Token) : AlikeAt ends last n t p q :=
  fun _ _ _ hlen hs => h _ _ _ hlen hs

/-- A look at the current token. -/
theorem current_bind {f g : Token → Parser α}
    (hnil : ∀ place place', Alike ends last 0 (f ⟨.eof, place⟩) (g ⟨.eof, place'⟩))
    (hcons : ∀ t, AlikeAt ends last n t (f t) (g t)) :
    Alike ends last n (Parser.current >>= f) (Parser.current >>= g) := by
  intro us s s' hlen hs
  have hrun : Together ends last us s s' (f s.cursor.current) (g s'.cursor.current) := by
    cases us with
    | nil =>
      obtain ⟨-, hend, hend'⟩ := hs.nil
      have heof {t : Token} (ht : t.kind = .eof) : t = ⟨.eof, t.span⟩ := by rw [← ht]
      rw [heof hend, heof hend']
      exact hnil _ _ [] s s' (Nat.le_refl _) hs
    | cons t us =>
      rw [hs.current.1, hs.current.2]
      exact hcons t us s s' hlen hs
  exact hrun

/-- Consuming a token of a certain kind if it is there. -/
theorem check_kind {kind : TokenKind} (hcheck : ∀ c : Cursor, c.check kind = true ↔
      c.current.kind = kind) (heof : kind ≠ .eof) (hsemicolon : kind ≠ .symbol .semicolon)
    {f g : Span → Parser α} (hf : ∀ span, Alike ends last n (f span) (g span))
    (hq : Alike ends last (n + 1) q q') :
    Alike ends last (n + 1)
      (Parser.check kind >>= fun b => if b = true then Parser.advance >>= f else q)
      (Parser.check kind >>= fun b => if b = true then Parser.advance >>= g else q') := by
  intro us s s' hlen hs
  by_cases hk : s.cursor.check kind = true
  · have hkind := (hcheck _).1 hk
    refine .advance hs (by rwa [hkind]) (fun _ => by rwa [hkind]) ?_ ?_ fun span =>
      (hf span).mono (Nat.sub_le_of_le_add hlen)
    · simp [hk]
    · simp [← hs.check_eq, hk]
  · have hrun := hq us s s' hlen hs
    rw [Together] at hrun ⊢
    simpa [← hs.check_eq, hk] using hrun

theorem check_symbol {x : Symbol} (hx : x ≠ .semicolon) {f g : Span → Parser α}
    (hf : ∀ span, Alike ends last n (f span) (g span)) (hq : Alike ends last (n + 1) q q') :
    Alike ends last (n + 1)
      (Parser.check (.symbol x) >>= fun b => if b = true then Parser.advance >>= f else q)
      (Parser.check (.symbol x) >>= fun b => if b = true then Parser.advance >>= g else q') :=
  check_kind (fun c => c.check_symbol x) nofun (by simpa using hx) hf hq

theorem check_keyword {x : Keyword} {f g : Span → Parser α}
    (hf : ∀ span, Alike ends last n (f span) (g span)) (hq : Alike ends last (n + 1) q q') :
    Alike ends last (n + 1)
      (Parser.check (.keyword x) >>= fun b => if b = true then Parser.advance >>= f else q)
      (Parser.check (.keyword x) >>= fun b => if b = true then Parser.advance >>= g else q') :=
  check_kind (fun c => c.check_keyword x) nofun nofun hf hq

/-- Consuming a symbol that must be there. Behind an opening brace the input ends. -/
theorem expect_bind {x : Symbol} (hx : ends = false → x ≠ .semicolon) {message : String}
    {f g : Span → Parser α}
    (hf : (ends = false → x ≠ .leftBrace) → ∀ span, Alike ends last n (f span) (g span)) :
    Alike ends last (n + 1) (Parser.expect (.symbol x) message >>= f)
      (Parser.expect (.symbol x) message >>= g) := by
  intro us s s' hlen hs
  by_cases hk : s.cursor.check (.symbol x) = true
  · have hkind := (Cursor.check_symbol _ _).1 hk
    have hbrace (hends : ends = false) : x ≠ .leftBrace := by
      rintro rfl
      cases us with
      | nil => simp [hs.nil.1] at hends
      | cons t us =>
        rw [hs.current.1] at hkind
        exact ((hs.fenced hends).simple t List.mem_cons_self).1 hkind
    refine .advance hs (by simp [hkind]) (by simpa [hkind] using hx) ?_ ?_ fun span =>
      (hf hbrace span).mono (Nat.sub_le_of_le_add hlen)
    · simp [answer_expect, hk]
    · simp [answer_expect, ← hs.check_eq, hk]
  · exact .expect_missing hs hk

/-- Consuming the semicolon at the end of a statement. -/
theorem semicolon_pure {message : String} (f : Span → α) :
    Alike ends true n
      (Parser.expect (.symbol .semicolon) message >>= fun span => Pure.pure (f span))
      (Parser.expect (.symbol .semicolon) message >>= fun span => Pure.pure (f span)) := by
  intro us s s' _ hs
  by_cases hk : s.cursor.check (.symbol .semicolon) = true
  · cases us with
    | nil => simp [hs.nil.2.1] at hk
    | cons t us =>
      have hp : answer (Parser.expect (.symbol .semicolon) message >>= fun span =>
          Pure.pure (f span)) s = (.ok (f t.span), { s with cursor := s.cursor.advance }) := by
        rw [answer_bind, answer_expect, if_pos hk, hs.current.1]
        rfl
      have hq : answer (Parser.expect (.symbol .semicolon) message >>= fun span =>
          Pure.pure (f span)) s' = (.ok (f t.span), { s' with cursor := s'.cursor.advance }) := by
        rw [answer_bind, answer_expect, ← hs.check_eq, if_pos hk, hs.current.2]
        rfl
      rw [Together, hp, hq]
      exact ⟨[t], us, [], rfl, hs.passes_advance.1, hs.passes_advance.2, rfl, fun _ =>
        ⟨rfl, .inr ⟨rfl, _, rfl⟩⟩⟩
  · exact .expect_missing hs hk

theorem expectClosing {x : Symbol} (hx : x ≠ .semicolon) (opening : Span) (message : String) :
    Alike ends last n (Parser.expectClosing (.symbol x) opening message)
      (Parser.expectClosing (.symbol x) opening message) := by
  intro us s s' _ hs
  by_cases hk : s.cursor.check (.symbol x) = true
  · have hkind := (Cursor.check_symbol _ _).1 hk
    refine .advance hs (by simp [hkind]) (by simp [hkind, hx]) ?_ ?_ fun span => pure span
    · simp [answer_expectClosing, hk]
    · simp [answer_expectClosing, ← hs.check_eq, hk]
  · refine .of_error hs ((answer_expectClosing _ _ _ s).trans (if_neg hk)) ?_
    rw [answer_expectClosing, ← hs.check_eq, if_neg hk, hs.errorHere_eq]

theorem expectIdentifier (message : String) :
    Alike ends last n (Parser.expectIdentifier message) (Parser.expectIdentifier message) := by
  intro us s s' _ hs
  have hkind := hs.kind_eq
  cases hk : s.cursor.current.kind with
  | identifier name =>
    rw [hk] at hkind
    refine .advance hs (by simp [hk]) (by simp [hk]) ?_ ?_ fun span => pure (name, span)
    · simp [answer_expectIdentifier, hk]
    · simp [answer_expectIdentifier, ← hkind]
  | _ =>
    rw [hk] at hkind
    refine .of_error hs (e := s.cursor.errorHere .missingIdentifier message) ?_ ?_
    · simp [answer_expectIdentifier, hk]
    · simp [answer_expectIdentifier, ← hkind, hs.errorHere_eq]

theorem get_bind {f g : ParseState → Parser α}
    (h : ∀ us s s', us.length ≤ n → s.Abreast ends us s' →
      Together ends last us s s' (f s) (g s')) :
    Alike ends last n (MonadState.get >>= f) (MonadState.get >>= g) := h

/-- At the end of the input, where a parser is as good as another one. -/
theorem zero (h : Alike ends last 0 p q)
    (hp : ∀ s, s.cursor.current.kind = .eof → answer p' s = answer p s)
    (hq : ∀ s, s.cursor.current.kind = .eof → answer q' s = answer q s) :
    Alike ends last 0 p' q' := by
  intro us s s' hlen hs
  obtain rfl := List.eq_nil_of_length_eq_zero (Nat.le_zero.1 hlen)
  obtain ⟨-, hend, hend'⟩ := hs.nil
  rw [Together, hp s hend, hq s' hend']
  exact h [] s s' hlen hs

end Alike

namespace AlikeAt

variable {t : Token} {p q : Parser α}

/-- Consuming the token. -/
theorem advance_bind {f g : Span → Parser α}
    (ht : ends = false → t.kind ≠ .symbol .semicolon)
    (hf : ∀ span, Alike ends last n (f span) (g span)) :
    AlikeAt ends last (n + 1) t (Parser.advance >>= f) (Parser.advance >>= g) := by
  intro us s s' hlen hs
  refine .advance hs ?_ ?_ (answer_bind _ _ s) (answer_bind _ _ s') fun span =>
    (hf span).mono (Nat.le_of_lt_succ hlen)
  · rw [hs.current.1]
    exact hs.real t List.mem_cons_self
  · rwa [hs.current.1]

theorem of_ends {last' : Bool} (h : AlikeAt true last n t p q) : AlikeAt true last' n t p q :=
  fun us s s' hlen hs => (h us s s' hlen hs).of_ends

/-- Behind a `for` the input ends. -/
theorem of_for (ht : t.kind = .keyword .forKw) (h : ends = true → AlikeAt true last n t p q) :
    AlikeAt ends last n t p q := by
  cases ends with
  | false =>
    intro us s s' _ hs
    exact absurd ht ((hs.fenced rfl).simple t List.mem_cons_self).2
  | true => exact h rfl

theorem map (f : α → β) (h : AlikeAt ends false n t p q) :
    AlikeAt ends last n t (f <$> p) (f <$> q) := by
  rw [map_eq_pure_bind, map_eq_pure_bind]
  exact fun us s s' hlen hs => .bind hs (h us s s' hlen hs) fun a => .pure (f a)

end AlikeAt

end Parser

end Tarn
