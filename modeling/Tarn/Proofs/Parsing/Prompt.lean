import Tarn.Proofs.Parsing.Locality

/-! Parsers that stop in time. Whatever such a parser has consumed can be completed to a phrase that
it reads, and at the first token with which no phrase goes on it meets its first fatal error. -/
namespace Tarn

open ParseError Grammar Tarn.Parser

namespace Parser

variable {α β : Type}

/-- What a parser reads, with the tokens of it. -/
abbrev Phrase (α : Type) := α → List Token → Prop

/-- All errors at the end of a run, the one that ends it included. -/
def Answer.errors : Answer α → List ParseError
  | (.ok _, s) => s.errors.toList
  | (.error e, s) => s.errors.toList ++ [e]

/-- The errors of a parser come behind those before it. -/
theorem Forward.errors {p : Parser α} (h : Forward p) (s : ParseState) :
    ∃ more, (answer p s).errors = s.errors.toList ++ more := by
  obtain ⟨⟨ts, rs, hr⟩, -⟩ := h s
  obtain ⟨es, hes, -⟩ := hr.errors
  rcases ha : answer p s with ⟨e | a, s'⟩
  · rw [ha] at hes
    exact ⟨es ++ [e], by rw [Answer.errors, hes, List.append_assoc]⟩
  · rw [ha] at hes
    exact ⟨es, hes⟩

end Parser

namespace ParseState

variable {α β : Type} {s s' s₁ s₁' : ParseState} {ts ts' : List Token}

/-- Both states stand before the tokens `ts` and the same token behind them, which is not the end of
the file. -/
def Shares (ts : List Token) (s s' : ParseState) : Prop :=
  ∃ t rest rest', t.kind ≠ .eof ∧ s.cursor.ahead = ts ++ t :: rest ∧
    s'.cursor.ahead = ts ++ t :: rest'

namespace Shares

theorem left (h : Shares (ts ++ ts') s s') (hts' : ∀ t ∈ ts', t.kind ≠ .eof) : Shares ts s s' := by
  obtain ⟨t, rest, rest', ht, hs, hs'⟩ := h
  cases ts' with
  | nil => exact ⟨t, rest, rest', ht, by simpa using hs, by simpa using hs'⟩
  | cons u us =>
    exact ⟨u, us ++ t :: rest, us ++ t :: rest', hts' u List.mem_cons_self, by simpa using hs,
      by simpa using hs'⟩

theorem passes {es es' : List ParseError} (h : Shares (ts ++ ts') s s') (hp : s.Passes ts es s₁)
    (hp' : s'.Passes ts es' s₁') : Shares ts' s₁ s₁' := by
  obtain ⟨t, rest, rest', ht, hs, hs'⟩ := h
  rw [hp.reads.ahead, List.append_assoc, List.append_cancel_left_eq] at hs
  rw [hp'.reads.ahead, List.append_assoc, List.append_cancel_left_eq] at hs'
  exact ⟨t, rest, rest', ht, hs, hs'⟩

/-- Both look at the same token. -/
theorem current (h : Shares ts s s') (hts : ∀ t ∈ ts, t.kind ≠ .eof) :
    s'.cursor.current = s.cursor.current ∧ s.cursor.current.kind ≠ .eof := by
  obtain ⟨t, rest, rest', ht, hs, hs'⟩ := (show Shares ([] ++ ts) s s' from h).left hts
  rw [Cursor.current_of_ahead hs, Cursor.current_of_ahead hs']
  exact ⟨rfl, ht⟩

theorem length_lt (h : Shares ts s s') :
    ts.length < s.cursor.ahead.length ∧ ts.length < s'.cursor.ahead.length := by
  obtain ⟨t, rest, rest', -, hs, hs'⟩ := h
  simp [hs, hs']

end Shares

/-- The run from `s` has read `a` from the tokens `ts` without a fatal error. -/
def Clears (s : ParseState) (r : Answer α) (a : α) (ts : List Token) : Prop :=
  r.1 = .ok a ∧ ∃ es, s.Passes ts es r.2 ∧ fatals es = 0

/-- The run from `s` has come behind the tokens `ts` when it meets `e`, its first fatal error, at
the token there. Only if it `goesOn` may it end without an error all the same. -/
def Meets (goesOn : Bool) (s : ParseState) (r : Answer α) (ts : List Token) (e : ParseError) :
    Prop :=
  (goesOn = false → ∃ e', r.1 = .error e') ∧ e.code.isFatal = true ∧
    ∃ s₁ es more, s.Passes ts es s₁ ∧ fatals es = 0 ∧ r.errors = s₁.errors.toList ++ e :: more ∧
      e.span = s₁.cursor.errorSpan ∧ e.context = some ("found " ++ s₁.cursor.describe)

variable {goesOn goesOn' : Bool} {e : ParseError} {es : List ParseError}

section

variable {p : Parser α} {f : α → Parser β} {a : α}

theorem Clears.answer_bind (h : s.Clears (answer p s) a ts) :
    answer (p >>= f) s = answer (f a) (answer p s).2 := by
  rw [Parser.answer_bind, ← Prod.eta (answer p s), h.1]

theorem Clears.bind {b : β} (h : s.Clears (answer p s) a ts)
    (h' : (answer p s).2.Clears (answer (f a) (answer p s).2) b ts') :
    s.Clears (answer (p >>= f) s) b (ts ++ ts') := by
  rw [h.answer_bind]
  obtain ⟨-, es, hp, hes⟩ := h
  obtain ⟨hb, es', hp', hes'⟩ := h'
  exact ⟨hb, es ++ es', hp.trans hp', by rw [fatals_append, hes, hes']⟩

/-- A fatal error that comes after something was read. -/
theorem Clears.bind_meets (h : s.Clears (answer p s) a ts)
    (h' : (answer p s).2.Meets goesOn (answer (f a) (answer p s).2) ts' e) :
    s.Meets goesOn (answer (p >>= f) s) (ts ++ ts') e := by
  rw [h.answer_bind]
  obtain ⟨-, es, hp, hes⟩ := h
  obtain ⟨hends, hfatal, s₂, es', more, hp', hes', herrors, hplace⟩ := h'
  exact ⟨hends, hfatal, s₂, es ++ es', more, hp.trans hp', by rw [fatals_append, hes, hes'],
    herrors, hplace⟩

end

theorem Meets.bind {p : Parser α} {f : α → Parser β} (h : s.Meets goesOn (answer p s) ts e)
    (hf : goesOn = true → ∀ a, Composed (f a)) : s.Meets goesOn (answer (p >>= f) s) ts e := by
  obtain ⟨hends, hfatal, s₁, es, more, hp, hes, herrors, hplace⟩ := h
  rw [answer_bind]
  rcases ha : answer p s with ⟨e' | a, s'⟩
  · rw [ha] at herrors
    exact ⟨fun _ => ⟨e', rfl⟩, hfatal, s₁, es, more, hp, hes, herrors, hplace⟩
  · rw [ha] at hends herrors
    have hgoes : goesOn = true := by
      by_contra hstops
      obtain ⟨e', he'⟩ := hends (Bool.eq_false_iff.2 hstops)
      cases he'
    obtain ⟨more', hmore'⟩ := (hf hgoes a).forward.errors s'
    refine ⟨fun hstops => ?_, hfatal, s₁, es, more ++ more', hp, hes, ?_, hplace⟩
    · rw [hgoes] at hstops
      cases hstops
    · have herrors : s'.errors.toList = s₁.errors.toList ++ e :: more := herrors
      rw [hmore', herrors]
      simp

theorem Meets.weaken {r : Answer α} (h : s.Meets goesOn r ts e)
    (hgoes : goesOn = true → goesOn' = true) : s.Meets goesOn' r ts e :=
  ⟨fun hstops => h.1 (by cases goesOn <;> simp_all), h.2⟩

end ParseState

namespace Parser

variable {α β : Type} {goesOn : Bool} {n n' : Nat}

/-- The parser reads no token and reports nothing fatal. -/
def Silent (p : Parser Unit) : Prop :=
  ∀ s, ∃ es s₁, answer p s = (.ok (), s₁) ∧ s.Passes [] es s₁ ∧ fatals es = 0

namespace Silent

theorem report {e : ParseError} (he : e.code.isFatal = false) : Silent (Parser.report e) :=
  fun s => ⟨_, _, answer_report e s, .report s e, fatals_singleton_of_not he⟩

theorem reportIf {c : Prop} [Decidable c] {e : ParseError} (he : e.code.isFatal = false) :
    Silent (Parser.reportIf c e) := by
  intro s
  rw [answer_reportIf]
  split
  · exact ⟨_, _, rfl, .report s e, fatals_singleton_of_not he⟩
  · exact ⟨_, _, rfl, .refl s, rfl⟩

theorem log (e : ParseEvent) : Silent (Parser.log e) :=
  fun s => ⟨_, _, answer_log e s, .log s e, rfl⟩

end Silent

/-- From `s` the parser reads a phrase, or it meets a fatal error as soon as no phrase goes on. If
the same tokens stand there, up to the one that was looked at last, so does `q` from `s'`. -/
def PromptAt (goesOn : Bool) (s s' : ParseState) (p q : Parser α) (L : Phrase α) : Prop :=
  (∃ a ts, s.Clears (answer p s) a ts ∧ L a ts ∧
    (s.Shares ts s' → s'.Clears (answer q s') a ts)) ∨
  ∃ ts, (∃ e, s.Meets goesOn (answer p s) ts e) ∧ (∃ a us, L a (ts ++ us)) ∧
    (s.Shares ts s' → ∃ e, s'.Meets goesOn (answer q s') ts e)

/-- Before at most `n` tokens, and `n'` tokens for the other run. -/
def Prompt (goesOn : Bool) (n n' : Nat) (p q : Parser α) (L : Phrase α) : Prop :=
  ∀ s s', s.cursor.ahead.length ≤ n → s'.cursor.ahead.length ≤ n' → PromptAt goesOn s s' p q L

/-- At the end of the tokens a parser still knows of a phrase. -/
theorem Prompt.inhabited {p q : Parser α} {L : Phrase α} (h : Prompt goesOn n n' p q L) :
    ∃ a ts, L a ts := by
  obtain ⟨a, ts, -, hL, -⟩ | ⟨ts, -, ⟨a, us, hL⟩, -⟩ :=
    h (start .empty []) (start .empty []) (Nat.zero_le n) (Nat.zero_le n')
  · exact ⟨a, ts, hL⟩
  · exact ⟨a, ts ++ us, hL⟩

section

variable {s s' : ParseState} {p q p' q' : Parser α} {L : Phrase α}

namespace PromptAt

/-- A step that succeeds for both and consumes nothing. -/
theorem of_ok {a : α} (hL : L a [])
    (hp : ∃ es s₁, answer p s = (.ok a, s₁) ∧ s.Passes [] es s₁ ∧ fatals es = 0)
    (hq : s.Shares [] s' →
      ∃ es s₁, answer q s' = (.ok a, s₁) ∧ s'.Passes [] es s₁ ∧ fatals es = 0) :
    PromptAt goesOn s s' p q L := by
  refine .inl ⟨a, [], ?_, hL, fun hs' => ?_⟩
  · obtain ⟨es, s₁, ha, hpasses, hes⟩ := hp
    rw [ha]
    exact ⟨rfl, es, hpasses, hes⟩
  · obtain ⟨es, s₁, ha, hpasses, hes⟩ := hq hs'
    rw [ha]
    exact ⟨rfl, es, hpasses, hes⟩

theorem pure {a : α} (hL : L a []) : PromptAt goesOn s s' (Pure.pure a) (Pure.pure a) L :=
  of_ok hL ⟨[], s, rfl, .refl s, rfl⟩ fun _ => ⟨[], s', rfl, .refl s', rfl⟩

/-- Both fail at the current token. -/
theorem of_error (hL : ∃ a ts, L a ts)
    (hp : ∃ code message related, answer p s =
      (.error { s.cursor.errorHere code message with related }, s) ∧ code.isFatal)
    (hq : s.Shares [] s' → ∃ code message related, answer q s' =
      (.error { s'.cursor.errorHere code message with related }, s') ∧ code.isFatal) :
    PromptAt goesOn s s' p q L := by
  have hmeets {s : ParseState} {p : Parser α} (h : ∃ code message related, answer p s =
      (.error { s.cursor.errorHere code message with related }, s) ∧ code.isFatal) :
      ∃ e, s.Meets goesOn (answer p s) [] e := by
    obtain ⟨code, message, related, ha, hfatal⟩ := h
    rw [ha]
    exact ⟨_, fun _ => ⟨_, rfl⟩, hfatal, s, [], [], .refl s, rfl, rfl, rfl, rfl⟩
  obtain ⟨a, ts, hL⟩ := hL
  exact .inr ⟨[], hmeets hp, ⟨a, ts, hL⟩, fun hs' => hmeets (hq hs')⟩

/-- Where the two runs share no token, anything stands for the other one. -/
theorem alone {s'' : ParseState} (h : PromptAt goesOn s s'' p q' L)
    (hnone : ∀ ts, ¬ s.Shares ts s') : PromptAt goesOn s s' p q L := by
  obtain ⟨a, ts, hclears, hL, -⟩ | ⟨ts, hmeets, hL, -⟩ := h
  · exact .inl ⟨a, ts, hclears, hL, fun h => absurd h (hnone ts)⟩
  · exact .inr ⟨ts, hmeets, hL, fun h => absurd h (hnone ts)⟩

theorem weaken {L' : Phrase α} (h : PromptAt goesOn s s' p q L) (hL : ∀ a ts, L a ts → L' a ts) :
    PromptAt goesOn s s' p q L' := by
  obtain ⟨a, ts, hclears, ha, hq⟩ | ⟨ts, hmeets, ⟨a, us, ha⟩, hq⟩ := h
  · exact .inl ⟨a, ts, hclears, hL a ts ha, hq⟩
  · exact .inr ⟨ts, hmeets, ⟨a, us, hL a _ ha⟩, hq⟩

/-- Only what the parsers answer in these states matters, and the other one only before the same
token. -/
theorem congr (h : PromptAt goesOn s s' p' q' L) (hp : answer p s = answer p' s)
    (hq : s'.cursor.current = s.cursor.current → s.cursor.current.kind ≠ .eof →
      answer q s' = answer q' s') : PromptAt goesOn s s' p q L := by
  have hsame {ts : List Token} (hts : ∀ t ∈ ts, t.kind ≠ .eof) (hs' : s.Shares ts s') :
      answer q s' = answer q' s' := hq (hs'.current hts).1 (hs'.current hts).2
  rw [PromptAt, hp]
  obtain ⟨a, ts, hclears, hL, hq'⟩ | ⟨ts, hmeets, hL, hq'⟩ := h
  · obtain ⟨es, hpasses, -⟩ := hclears.2
    exact .inl ⟨a, ts, hclears, hL, fun hs' => by rw [hsame hpasses.reads.real hs']; exact hq' hs'⟩
  · obtain ⟨e, -, -, s₁, es, -, hpasses, -⟩ := id hmeets
    exact .inr ⟨ts, hmeets, hL, fun hs' => by rw [hsame hpasses.reads.real hs']; exact hq' hs'⟩

theorem check_bind {kind : TokenKind} {f g : Bool → Parser α}
    (h : PromptAt goesOn s s' (f (s.cursor.check kind)) (g (s.cursor.check kind)) L) :
    PromptAt goesOn s s' (check kind >>= f) (check kind >>= g) L := by
  refine h.congr rfl fun hcurrent _ => ?_
  rw [answer_bind, answer_check, Cursor.check, hcurrent]
  rfl

/-- What is read first can be completed by what is read next, and that is prompt behind it. -/
theorem bind_of {goesOn' : Bool} {L' : Phrase β} {f g : α → Parser β}
    (h : PromptAt goesOn s s' p q L) (hgoes : goesOn = true → goesOn' = true)
    (hcomposed : goesOn = true → ∀ a, Composed (f a) ∧ Composed (g a))
    (hf : ∀ a ts, L a ts → ∃ k k', s.cursor.ahead.length ≤ ts.length + k ∧
      s'.cursor.ahead.length ≤ ts.length + k' ∧
      Prompt goesOn' k k' (f a) (g a) fun b us => L' b (ts ++ us)) :
    PromptAt goesOn' s s' (p >>= f) (q >>= g) L' := by
  obtain ⟨a, ts, hclears, hL, hq⟩ | ⟨ts, ⟨e, hmeets⟩, ⟨a, us, hL⟩, hq⟩ := h
  · obtain ⟨es, hpasses, hes⟩ := hclears.2
    obtain ⟨k, k', hk, hk', hnext⟩ := hf a ts hL
    have hlen := hpasses.reads.length
    -- The other run matters only if the first part is the same for both.
    obtain ⟨s₁', hs₁', hsame⟩ : ∃ s₁' : ParseState, s₁'.cursor.ahead.length ≤ k' ∧
        ∀ us, (∀ t ∈ us, t.kind ≠ .eof) → s.Shares (ts ++ us) s' →
          s'.Clears (answer q s') a ts ∧ (answer q s').2 = s₁' ∧ (answer p s).2.Shares us s₁' := by
      by_cases hshares : s.Shares ts s'
      · obtain ⟨es', hpasses', -⟩ := (hq hshares).2
        have hlen' := hpasses'.reads.length
        exact ⟨(answer q s').2, by omega, fun us _ hs' =>
          ⟨hq hshares, rfl, hs'.passes hpasses hpasses'⟩⟩
      · exact ⟨start .empty [], Nat.zero_le k', fun us hus hs' => absurd (hs'.left hus) hshares⟩
    obtain ⟨b, us, hclears₁, hL', hq'⟩ | ⟨us, ⟨e, hmeets⟩, ⟨b, vs, hL'⟩, hq'⟩ :=
      hnext (answer p s).2 s₁' (by omega) hs₁'
    · refine .inl ⟨b, ts ++ us, hclears.bind hclears₁, hL', fun hs' => ?_⟩
      obtain ⟨es₁, hpasses₁, -⟩ := hclears₁.2
      obtain ⟨hclears', rfl, hshares⟩ := hsame us hpasses₁.reads.real hs'
      exact hclears'.bind (hq' hshares)
    · refine .inr ⟨ts ++ us, ⟨e, hclears.bind_meets hmeets⟩, ⟨b, vs, ?_⟩, fun hs' => ?_⟩
      · rw [List.append_assoc]
        exact hL'
      · obtain ⟨-, -, s₂, es₂, -, hpasses₂, -⟩ := hmeets
        obtain ⟨hclears', rfl, hshares⟩ := hsame us hpasses₂.reads.real hs'
        obtain ⟨e', hmeets'⟩ := hq' hshares
        exact ⟨e', hclears'.bind_meets hmeets'⟩
  · obtain ⟨k, k', -, -, hnext⟩ := hf a (ts ++ us) hL
    obtain ⟨b, vs, hL'⟩ := hnext.inhabited
    refine .inr ⟨ts, ⟨e, ?_⟩, ⟨b, us ++ vs, ?_⟩, fun hs' => ?_⟩
    · exact (hmeets.bind fun hgoes a => (hcomposed hgoes a).1).weaken hgoes
    · rw [← List.append_assoc]
      exact hL'
    · obtain ⟨e', hmeets'⟩ := hq hs'
      exact ⟨e', (hmeets'.bind fun hgoes a => (hcomposed hgoes a).2).weaken hgoes⟩

theorem map {L' : Phrase β} (f : α → β) (h : PromptAt goesOn s s' p q L)
    (hL : ∀ a ts, L a ts → L' (f a) ts) : PromptAt goesOn s s' (f <$> p) (f <$> q) L' := by
  rw [map_eq_pure_bind, map_eq_pure_bind]
  refine h.bind_of id (fun _ a => ⟨.pure _, .pure _⟩) fun a ts ha =>
    ⟨_, _, Nat.le_add_left _ _, Nat.le_add_left _ _, fun _ _ _ _ => pure ?_⟩
  rw [List.append_nil]
  exact hL a ts ha

/-- The current token may tell more about the phrases that it starts. -/
theorem strengthen {L' : Phrase α} (h : PromptAt goesOn s s' p q L) (hsome : ∃ a ts, L' a ts)
    (hnil : ∀ a, L a [] → L' a [])
    (hcons : ∀ a ts, L a (s.cursor.current :: ts) → L' a (s.cursor.current :: ts)) :
    PromptAt goesOn s s' p q L' := by
  have hfirst {ts es} {s₁ : ParseState} (hp : s.Passes ts es s₁) :
      ts = [] ∨ ∃ us, ts = s.cursor.current :: us := by
    cases ts with
    | nil => exact .inl rfl
    | cons t us => exact .inr ⟨us, by rw [Cursor.current_of_ahead hp.reads.ahead]⟩
  obtain ⟨a, ts, hclears, hL, hq⟩ | ⟨ts, ⟨e, hmeets⟩, ⟨a, us, hL⟩, hq⟩ := h
  · refine .inl ⟨a, ts, hclears, ?_, hq⟩
    obtain ⟨es, hpasses, -⟩ := hclears.2
    obtain rfl | ⟨us, rfl⟩ := hfirst hpasses
    · exact hnil a hL
    · exact hcons a us hL
  · refine .inr ⟨ts, ⟨e, hmeets⟩, ?_, hq⟩
    obtain ⟨-, -, s₁, es, -, hpasses, -⟩ := hmeets
    obtain rfl | ⟨vs, rfl⟩ := hfirst hpasses
    · exact hsome
    · exact ⟨a, us, hcons a _ hL⟩

/-- A token that both consume. -/
theorem advance_bind {f g : Span → Parser α} (hs : s.cursor.ahead.length ≤ n + 1)
    (hs' : s'.cursor.ahead.length ≤ n' + 1) (ht : s.cursor.current.kind ≠ .eof)
    (hf : Prompt goesOn n n' (f s.cursor.current.span) (g s.cursor.current.span)
      fun a ts => L a (s.cursor.current :: ts)) :
    PromptAt goesOn s s' (advance >>= f) (advance >>= g) L := by
  have hclears {s : ParseState} (ht : s.cursor.current.kind ≠ .eof) :
      s.Clears (answer advance s) s.cursor.current.span [s.cursor.current] :=
    ⟨rfl, [], .advance ht, rfl⟩
  have hadvance : PromptAt false s s' advance advance fun span ts =>
      ts = [s.cursor.current] ∧ span = s.cursor.current.span := by
    refine .inl ⟨_, _, hclears ht, ⟨rfl, rfl⟩, fun hshares => ?_⟩
    have hnone : s.Shares [] s' := hshares.left (by simpa using ht)
    have hcurrent := hnone.current nofun
    rw [← hcurrent.1] at ht ⊢
    exact hclears ht
  refine hadvance.bind_of nofun nofun ?_
  rintro _ _ ⟨rfl, rfl⟩
  exact ⟨n, n', by simpa [Nat.add_comm] using hs, by simpa [Nat.add_comm] using hs', hf⟩

end PromptAt

namespace Prompt

theorem mono {m m' : Nat} (h : Prompt goesOn n n' p q L) (hm : m ≤ n) (hm' : m' ≤ n') :
    Prompt goesOn m m' p q L :=
  fun s s' hs hs' => h s s' (Nat.le_trans hs hm) (Nat.le_trans hs' hm')

theorem weaken {L' : Phrase α} (h : Prompt goesOn n n' p q L) (hL : ∀ a ts, L a ts → L' a ts) :
    Prompt goesOn n n' p q L' := fun s s' hs hs' => (h s s' hs hs').weaken hL

/-- Where the other run has no token, anything stands for it. -/
theorem anything (h : Prompt goesOn n n' p q L) (q' : Parser α) : Prompt goesOn n 0 p q' L := by
  intro s s' hs hs'
  refine (h s (start .empty []) hs (Nat.zero_le n')).alone fun ts hshares => ?_
  have hlen := hshares.length_lt.2
  omega

/-- A bound not less than the number of tokens allows one round more, if there is a token. -/
theorem rounds {m : Nat} {q : Nat → Parser α} (hm : n' ≤ m)
    (h : ∀ i j, i ≤ j → n' ≤ i + 1 → i ≤ n' - 1 → Prompt goesOn n n' p (q (j + 1)) L) :
    Prompt goesOn n n' p (q m) L := by
  cases n' with
  | zero => exact (h 0 0 (Nat.le_refl 0) (Nat.zero_le _) (Nat.zero_le _)).anything (q m)
  | succ i =>
    obtain ⟨j, rfl⟩ := Nat.exists_eq_succ_of_ne_zero (n := m) (by omega)
    exact h i j (by omega) (Nat.le_refl _) (Nat.le_refl _)

/-- With no token left, what the parser does at the end decides. -/
theorem zero (h : Prompt goesOn 0 n' p' q' L)
    (hp : ∀ s : ParseState, s.cursor.current.kind = .eof → answer p s = answer p' s) :
    Prompt goesOn 0 n' p q L := by
  intro s s' hs hs'
  have hahead := List.eq_nil_of_length_eq_zero (Nat.le_zero.1 hs)
  have hrun := h s s' hs hs'
  rw [PromptAt, ← hp s (by simp [Cursor.current, hahead, Token.ofKind])] at hrun
  refine PromptAt.alone hrun fun ts hshares => ?_
  have hlen := hshares.length_lt.1
  omega

theorem pure {a : α} (hL : L a []) : Prompt goesOn n n' (Pure.pure a) (Pure.pure a) L :=
  fun _ _ _ _ => .pure hL

theorem bind {L' : Phrase β} {f g : α → Parser β} (h : Prompt false n n' p q L)
    (hf : ∀ a ts, L a ts → Prompt goesOn n n' (f a) (g a) fun b us => L' b (ts ++ us)) :
    Prompt goesOn n n' (p >>= f) (q >>= g) L' := fun s s' hs hs' =>
  (h s s' hs hs').bind_of nofun nofun fun a ts hL => ⟨n, n', by omega, by omega, hf a ts hL⟩

/-- A parser that may go on after a fatal error, before what only goes forward. -/
theorem bind_forward {L' : Phrase β} {f g : α → Parser β} (h : Prompt true n n' p q L)
    (hf : ∀ a ts, L a ts → Prompt true n n' (f a) (g a) fun b us => L' b (ts ++ us))
    (hcomposed : ∀ a, Composed (f a)) (hcomposed' : ∀ a, Composed (g a)) :
    Prompt true n n' (p >>= f) (q >>= g) L' := fun s s' hs hs' =>
  (h s s' hs hs').bind_of id (fun _ a => ⟨hcomposed a, hcomposed' a⟩) fun a ts hL =>
    ⟨n, n', by omega, by omega, hf a ts hL⟩

theorem map {L' : Phrase β} (f : α → β) (h : Prompt goesOn n n' p q L)
    (hL : ∀ a ts, L a ts → L' (f a) ts) : Prompt goesOn n n' (f <$> p) (f <$> q) L' :=
  fun s s' hs hs' => (h s s' hs hs').map f hL

theorem ite {c : Prop} [Decidable c] (h : Prompt goesOn n n' p q L)
    (h' : Prompt goesOn n n' p' q' L) :
    Prompt goesOn n n' (if c then p else p') (if c then q else q') L := by
  split
  · exact h
  · exact h'

/-- The number of tokens left is enough for a bound. -/
theorem remaining_bind {f g : Nat → Parser α}
    (h : ∀ k k' m m', k ≤ n → k' ≤ n' → k ≤ m → k' ≤ m' → Prompt goesOn k k' (f m) (g m') L) :
    Prompt goesOn n n' (remaining >>= f) (remaining >>= g) L := fun s s' hs hs' =>
  h _ _ s.cursor.ahead.length s'.cursor.ahead.length hs hs' (Nat.le_refl _) (Nat.le_refl _) s s'
    (Nat.le_refl _) (Nat.le_refl _)

/-- A look at the cursor, for what does not matter for fatal errors. -/
theorem cursor_bind {f g : Cursor → Parser α} (h : ∀ c c', Prompt goesOn n n' (f c) (g c') L) :
    Prompt goesOn n n' (cursor >>= f) (cursor >>= g) L :=
  fun s s' hs hs' => h s.cursor s'.cursor s s' hs hs'

theorem get_bind {f g : ParseState → Parser α} (h : ∀ s s', Prompt goesOn n n' (f s) (g s') L) :
    Prompt goesOn n n' (MonadState.get >>= f) (MonadState.get >>= g) L :=
  fun s s' hs hs' => h s s' s s' hs hs'

/-- A look at the current token. -/
theorem current_bind {f g : Token → Parser α}
    (h : ∀ s s' : ParseState, s.cursor.ahead.length ≤ n → s'.cursor.ahead.length ≤ n' →
      PromptAt goesOn s s' (f s.cursor.current) (g s.cursor.current) L) :
    Prompt goesOn n n' (current >>= f) (current >>= g) L := by
  refine fun s s' hs hs' => (h s s' hs hs').congr rfl fun hcurrent _ => ?_
  rw [answer_bind, answer_current, hcurrent]

theorem check_bind {kind : TokenKind} {f g : Bool → Parser α}
    (h : ∀ b, Prompt goesOn n n' (f b) (g b) L) :
    Prompt goesOn n n' (check kind >>= f) (check kind >>= g) L :=
  fun s s' hs hs' => .check_bind (h _ s s' hs hs')

/-- Consuming a token of a certain kind if it is there. -/
theorem check_kind {kind : TokenKind}
    (hcheck : ∀ c : Cursor, c.check kind = true ↔ c.current.kind = kind) (heof : kind ≠ .eof)
    {f g : Span → Parser α}
    (hf : ∀ t : Token, t.kind = kind →
      Prompt goesOn n n' (f t.span) (g t.span) fun a ts => L a (t :: ts))
    (hq : Prompt goesOn (n + 1) (n' + 1) p q L) :
    Prompt goesOn (n + 1) (n' + 1)
      (check kind >>= fun b => if b = true then advance >>= f else p)
      (check kind >>= fun b => if b = true then advance >>= g else q) L := by
  intro s s' hs hs'
  refine .check_bind ?_
  split
  next hk =>
    have hkind := (hcheck _).1 hk
    exact .advance_bind hs hs' (by rwa [hkind]) (hf _ hkind)
  next => exact hq s s' hs hs'

theorem check_symbol {x : Symbol} {f g : Span → Parser α}
    (hf : ∀ t : Token, t.kind = .symbol x →
      Prompt goesOn n n' (f t.span) (g t.span) fun a ts => L a (t :: ts))
    (hq : Prompt goesOn (n + 1) (n' + 1) p q L) :
    Prompt goesOn (n + 1) (n' + 1)
      (check (.symbol x) >>= fun b => if b = true then advance >>= f else p)
      (check (.symbol x) >>= fun b => if b = true then advance >>= g else q) L :=
  check_kind (fun c => c.check_symbol x) nofun hf hq

theorem check_keyword {x : Keyword} {f g : Span → Parser α}
    (hf : ∀ t : Token, t.kind = .keyword x →
      Prompt goesOn n n' (f t.span) (g t.span) fun a ts => L a (t :: ts))
    (hq : Prompt goesOn (n + 1) (n' + 1) p q L) :
    Prompt goesOn (n + 1) (n' + 1)
      (check (.keyword x) >>= fun b => if b = true then advance >>= f else p)
      (check (.keyword x) >>= fun b => if b = true then advance >>= g else q) L :=
  check_kind (fun c => c.check_keyword x) nofun hf hq

/-- A token that must be there, and gives a value. Without it, one that gives a value would still go
on. -/
theorem token_bind {γ : Type} {step : Parser γ} (gives : Token → γ → Prop) {f g : γ → Parser α}
    (hsome : ∃ t v, gives t v)
    (hok : ∀ (s : ParseState) v, gives s.cursor.current v → s.cursor.current.kind ≠ .eof ∧
      answer step s = (.ok v, { s with cursor := s.cursor.advance }))
    (herror : ∀ s : ParseState, (∀ v, ¬ gives s.cursor.current v) →
      ∃ code message related, answer step s =
        (.error { s.cursor.errorHere code message with related }, s) ∧ code.isFatal)
    (hf : ∀ t v, gives t v → Prompt goesOn n n' (f v) (g v) fun a ts => L a (t :: ts)) :
    Prompt goesOn (n + 1) (n' + 1) (step >>= f) (step >>= g) L := by
  intro s s' hs hs'
  by_cases hk : ∃ v, gives s.cursor.current v
  · obtain ⟨v, hv⟩ := hk
    obtain ⟨ht, ha⟩ := hok s v hv
    have hrun : PromptAt goesOn s s' (advance >>= fun _ => f v) (advance >>= fun _ => g v) L :=
      .advance_bind hs hs' ht (hf _ v hv)
    refine hrun.congr ?_ fun hcurrent _ => ?_
    · simp [ha]
    · simp [(hok s' v (hcurrent ▸ hv)).2]
  · have hfails {s : ParseState} {f : γ → Parser α} (hk : ∀ v, ¬ gives s.cursor.current v) :
        ∃ code message related, answer (step >>= f) s =
          (.error { s.cursor.errorHere code message with related }, s) ∧ code.isFatal := by
      obtain ⟨code, message, related, ha, hfatal⟩ := herror s hk
      exact ⟨code, message, related, by rw [answer_bind, ha], hfatal⟩
    have hnone := not_exists.1 hk
    obtain ⟨t, v, hv⟩ := hsome
    obtain ⟨a, ts, hL⟩ := (hf t v hv).inhabited
    refine .of_error ⟨a, t :: ts, hL⟩ (hfails hnone) fun hs' => hfails ?_
    rwa [(hs'.current nofun).1]

theorem symbol_bind {x : Symbol} {step : Parser Span} {message : String}
    {related : Option (Span × String)}
    (hstep : ∀ s, answer step s = if s.cursor.check (.symbol x) then
      (.ok s.cursor.current.span, { s with cursor := s.cursor.advance })
      else (.error { s.cursor.errorHere (Cursor.missingCode (.symbol x)) message with related }, s))
    {f g : Span → Parser α}
    (hf : ∀ t : Token, t.kind = .symbol x →
      Prompt goesOn n n' (f t.span) (g t.span) fun a ts => L a (t :: ts)) :
    Prompt goesOn (n + 1) (n' + 1) (step >>= f) (step >>= g) L := by
  refine token_bind (fun t span => t.kind = .symbol x ∧ t.span = span)
    ⟨⟨.symbol x, .nowhere⟩, _, rfl, rfl⟩ ?_ ?_ ?_
  · rintro s _ ⟨hk, rfl⟩
    exact ⟨by simp [hk], by rw [hstep, if_pos ((Cursor.check_symbol _ _).2 hk)]⟩
  · intro s hnone
    have hk : ¬ s.cursor.check (.symbol x) = true := fun hk =>
      hnone _ ⟨(Cursor.check_symbol _ _).1 hk, rfl⟩
    exact ⟨_, message, related, (hstep s).trans (if_neg hk), Forward.missingCode_isFatal _⟩
  · rintro t _ ⟨hk, rfl⟩
    exact hf t hk

/-- The token is consumed, so one fewer is left. -/
theorem expect_step {x : Symbol} {message : String} {f g : Span → Parser α}
    (hf : ∀ t : Token, t.kind = .symbol x →
      Prompt goesOn n n' (f t.span) (g t.span) fun a ts => L a (t :: ts)) :
    Prompt goesOn (n + 1) (n' + 1) (expect (.symbol x) message >>= f)
      (expect (.symbol x) message >>= g) L :=
  symbol_bind (answer_expect _ message) hf

theorem expect_bind {x : Symbol} {message : String} {f g : Span → Parser α}
    (hf : ∀ t : Token, t.kind = .symbol x →
      Prompt goesOn n n' (f t.span) (g t.span) fun a ts => L a (t :: ts)) :
    Prompt goesOn n n' (expect (.symbol x) message >>= f) (expect (.symbol x) message >>= g) L :=
  (expect_step hf).mono (Nat.le_succ n) (Nat.le_succ n')

theorem expectClosing_bind {x : Symbol} {opening : Span} {message : String} {f g : Span → Parser α}
    (hf : ∀ t : Token, t.kind = .symbol x →
      Prompt goesOn n n' (f t.span) (g t.span) fun a ts => L a (t :: ts)) :
    Prompt goesOn n n' (expectClosing (.symbol x) opening message >>= f)
      (expectClosing (.symbol x) opening message >>= g) L :=
  (symbol_bind (answer_expectClosing _ opening message) hf).mono (Nat.le_succ n) (Nat.le_succ n')

theorem expectIdentifier_bind {message : String} {f g : Name × Span → Parser α}
    (hf : ∀ (t : Token) (name : Name), t.kind = .identifier name →
      Prompt goesOn n n' (f (name, t.span)) (g (name, t.span)) fun a ts => L a (t :: ts)) :
    Prompt goesOn n n' (expectIdentifier message >>= f) (expectIdentifier message >>= g) L := by
  refine (token_bind (fun t found => t.kind = .identifier found.1 ∧ t.span = found.2)
    ⟨⟨.identifier ⟨0⟩, .nowhere⟩, (_, _), rfl, rfl⟩ ?_ ?_ ?_).mono (Nat.le_succ n) (Nat.le_succ n')
  · rintro s ⟨name, _⟩ ⟨hk, rfl⟩
    exact ⟨by simp [hk], by rw [answer_expectIdentifier, hk]⟩
  · intro s hnone
    refine ⟨.missingIdentifier, message, none, ?_, rfl⟩
    rw [answer_expectIdentifier]
    split
    next name hk => exact absurd ⟨hk, rfl⟩ (hnone (name, _))
    next => rfl
  · rintro t ⟨name, _⟩ ⟨hk, rfl⟩
    exact hf t name hk

theorem failHere {code : ErrorCode} {message : String} (hcode : code.isFatal)
    (hL : ∃ a ts, L a ts) : Prompt goesOn n n' (failHere code message) (failHere code message) L :=
  fun _ _ _ _ => .of_error hL ⟨code, message, none, rfl, hcode⟩ fun _ =>
    ⟨code, message, none, rfl, hcode⟩

/-- A step that reads no token and reports nothing fatal does not matter. -/
theorem silent_bind {p q : Parser Unit} (hp : Silent p) (hq : Silent q) {f g : Unit → Parser α}
    (h : Prompt goesOn n n' (f ()) (g ()) L) : Prompt goesOn n n' (p >>= f) (q >>= g) L := by
  have hboth : Prompt false n n' p q fun _ ts => ts = [] :=
    fun s s' _ _ => .of_ok rfl (hp s) fun _ => hq s'
  refine hboth.bind ?_
  rintro _ _ rfl
  exact h

theorem report_bind {e e' : ParseError} (he : e.code.isFatal = false)
    (he' : e'.code.isFatal = false) {f g : Unit → Parser α}
    (h : Prompt goesOn n n' (f ()) (g ()) L) :
    Prompt goesOn n n' (report e >>= f) (report e' >>= g) L :=
  silent_bind (.report he) (.report he') h

theorem reportIf_bind {c c' : Prop} [Decidable c] [Decidable c'] {e e' : ParseError}
    (he : e.code.isFatal = false) (he' : e'.code.isFatal = false) {f g : Unit → Parser α}
    (h : Prompt goesOn n n' (f ()) (g ()) L) :
    Prompt goesOn n n' (reportIf c e >>= f) (reportIf c' e' >>= g) L :=
  silent_bind (.reportIf he) (.reportIf he') h

theorem log_bind {e e' : ParseEvent} {f g : Unit → Parser α}
    (h : Prompt goesOn n n' (f ()) (g ()) L) :
    Prompt goesOn n n' (log e >>= f) (log e' >>= g) L :=
  silent_bind (.log e) (.log e') h

end Prompt

end

end Parser

end Tarn
