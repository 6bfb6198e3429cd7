import Tarn.Proofs.Parsing.Soundness

/-! Every expression of the grammar is accepted, with its own tree and remarks, if the token behind
it does not carry it on. -/
namespace Tarn

open Grammar

/-- A token that carries an expression on does so at a level looser than `l`. -/
def Grammar.Ends (l : Level) (rest : List Token) : Prop :=
  ∀ t rest', rest = t :: rest' → ∀ k, t.kind.level? = some k → k.rank < l.rank

theorem Grammar.Ends.mono {l l' : Level} {rest : List Token} (h : Ends l rest)
    (hl : l.rank ≤ l'.rank) : Ends l' rest :=
  fun t rest' hrest k hk => Nat.lt_of_lt_of_le (h t rest' hrest k hk) hl

theorem Grammar.ends_cons {l k : Level} {t : Token} {rest : List Token}
    (hk : t.kind.level? = some k) (hl : k.rank < l.rank) : Ends l (t :: rest) := by
  intro t' rest' heq k' hk'
  obtain ⟨rfl, rfl⟩ := List.cons.inj heq
  obtain rfl := Option.some.inj (hk.symm.trans hk')
  exact hl

theorem Grammar.ends_of_level?_eq_none {l : Level} {t : Token} {rest : List Token}
    (ht : t.kind.level? = none) : Ends l (t :: rest) := by
  intro t' rest' heq k hk
  obtain ⟨rfl, rfl⟩ := List.cons.inj heq
  cases ht.symm.trans hk

/-- A primary expression is one of every level up to the operands of `or`. -/
theorem Grammar.Expression.disjunction {mode : Mode} {ts e rs}
    (h : Expression mode .primary ts e rs) : Expression mode .disjunction ts e rs :=
  .tighter rfl <| .tighter rfl <| .tighter rfl <| .tighter rfl <| .tighter rfl <| .tighter rfl <|
    .tighter rfl <| .tighter rfl h

theorem Level.rank_le_of_tighter? {l l' : Level} (h : l.tighter? = some l') :
    l.rank ≤ l'.rank := by
  rw [Level.rank_tighter? h]
  omega

/-- What ends an expression is no operator of its level. -/
theorem Cursor.level?_ne {c : Cursor} {l : Level} (h : Ends l c.ahead) :
    c.current.kind.level? ≠ some l := by
  intro hk
  rcases hc : c.ahead with _ | ⟨t, rest⟩
  · simp [current, hc, Token.ofKind, TokenKind.level?] at hk
  · rw [Cursor.current_of_ahead hc] at hk
    exact absurd (h t rest hc l hk) (Nat.lt_irrefl _)

theorem ParseState.Reads.rest {s s' : ParseState} {ts rest rs} (h : s.Reads ts rs s')
    (hs : s.cursor.ahead = ts ++ rest) : s'.cursor.ahead = rest :=
  List.append_cancel_left (h.ahead.symm.trans hs)

/-- What bounds the tokens left allows one round more than what is left after some are read. -/
theorem ParseState.Reads.exists_rounds {s s' : ParseState} {t ts rs} (h : s.Reads (t :: ts) rs s')
    {m : Nat} (hm : s.cursor.ahead.length ≤ m) :
    ∃ m', m = m' + 1 ∧ s'.cursor.ahead.length ≤ m' := by
  have hlen := h.length
  rw [List.length_cons] at hlen
  exact ⟨m - 1, by omega, by omega⟩

namespace Parser

variable {α β : Type} {s s' s'' : ParseState}

namespace Succeeds

theorem bind {p : Parser α} {f : α → Parser β} {a : α} {b : β} (h : Succeeds p s a s')
    (h' : Succeeds (f a) s' b s'') : Succeeds (p >>= f) s b s'' := succeeds_bind.2 ⟨a, s', h, h'⟩

theorem answer_bind {p : Parser α} {a : α} (h : Succeeds p s a s') (f : α → Parser β) :
    answer (p >>= f) s = answer (f a) s' := by
  rw [Parser.answer_bind, show answer p s = _ from h]

theorem pure (a : α) (s : ParseState) : Succeeds (Pure.pure a) s a s := succeeds_pure.2 ⟨rfl, rfl⟩

theorem map {p : Parser α} {a : α} (f : α → β) (h : Succeeds p s a s') :
    Succeeds (f <$> p) s (f a) s' := succeeds_map.2 ⟨a, h, rfl⟩

theorem cursor (s : ParseState) : Succeeds Parser.cursor s s.cursor s := rfl

theorem current (s : ParseState) : Succeeds Parser.current s s.cursor.current s := rfl

theorem check (kind : TokenKind) (s : ParseState) :
    Succeeds (Parser.check kind) s (s.cursor.check kind) s := rfl

theorem remaining (s : ParseState) : Succeeds Parser.remaining s s.cursor.ahead.length s := rfl

theorem get (s : ParseState) : Succeeds MonadState.get s s s := rfl

theorem ite_pos {c : Prop} [Decidable c] {p q : Parser α} {a : α} (hc : c)
    (h : Succeeds p s a s') : Succeeds (if c then p else q) s a s' := by rwa [if_pos hc]

theorem ite_neg {c : Prop} [Decidable c] {p q : Parser α} {a : α} (hc : ¬ c)
    (h : Succeeds q s a s') : Succeeds (if c then p else q) s a s' := by rwa [if_neg hc]

end Succeeds

section Steps

variable {t : Token} {rest : List Token} (hs : s.cursor.ahead = t :: rest)
include hs

theorem check_symbol_of_ahead (x : Symbol) :
    s.cursor.check (.symbol x) = true ↔ t.kind = .symbol x := by
  rw [Cursor.check_symbol, Cursor.current_of_ahead hs]

theorem check_keyword_of_ahead (x : Keyword) :
    s.cursor.check (.keyword x) = true ↔ t.kind = .keyword x := by
  rw [Cursor.check_keyword, Cursor.current_of_ahead hs]

theorem succeeds_advance (ht : t.kind ≠ .eof) :
    ∃ s', Succeeds advance s t.span s' ∧ s.Reads [t] [] s' := by
  obtain rfl := Cursor.current_of_ahead hs
  exact ⟨_, rfl, .advance ht⟩

theorem succeeds_expect {x : Symbol} (ht : t.kind = .symbol x) (message : String) :
    ∃ s', Succeeds (expect (.symbol x) message) s t.span s' ∧ s.Reads [t] [] s' := by
  obtain ⟨s', ha, hr⟩ := succeeds_advance hs (by simp [ht])
  refine ⟨s', ?_, hr⟩
  rw [Succeeds, answer_expect, if_pos ((check_symbol_of_ahead hs x).2 ht)]
  exact ha

theorem succeeds_expectClosing {x : Symbol} (ht : t.kind = .symbol x) (opening : Span)
    (message : String) :
    ∃ s', Succeeds (expectClosing (.symbol x) opening message) s t.span s' ∧
      s.Reads [t] [] s' := by
  obtain ⟨s', ha, hr⟩ := succeeds_advance hs (by simp [ht])
  refine ⟨s', ?_, hr⟩
  rw [Succeeds, answer_expectClosing, if_pos ((check_symbol_of_ahead hs x).2 ht)]
  exact ha

theorem succeeds_expectIdentifier {name : Name} (ht : t.kind = .identifier name)
    (message : String) :
    ∃ s', Succeeds (expectIdentifier message) s (name, t.span) s' ∧ s.Reads [t] [] s' := by
  obtain rfl := Cursor.current_of_ahead hs
  refine ⟨_, ?_, .advance (by simp [ht])⟩
  rw [Succeeds, answer_expectIdentifier, ht]

theorem errorSpan_of_ahead (ht : t.kind ≠ .eof) : s.cursor.errorSpan = t.span := by
  simp [Cursor.errorSpan, Cursor.atEnd, Cursor.current_of_ahead hs, ht]

end Steps

theorem succeeds_report (e : ParseError) (s : ParseState) :
    ∃ s', Succeeds (report e) s () s' ∧ s.Reads [] [⟨e.code, e.span⟩] s' := ⟨_, rfl, .report s e⟩

theorem succeeds_log (e : ParseEvent) (s : ParseState) :
    ∃ s', Succeeds (log e) s () s' ∧ s.Reads [] [] s' := ⟨_, rfl, .log s e⟩

theorem succeeds_reportIf (p : Prop) [Decidable p] (e : ParseError) (s : ParseState) :
    ∃ s', Succeeds (reportIf p e) s () s' ∧
      s.Reads [] (if p then [⟨e.code, e.span⟩] else []) s' :=
  have h : Succeeds (reportIf p e) s () _ := answer_reportIf p e s
  ⟨_, h, h.reportIf⟩

theorem moreItems_of_ne_comma (item : List α → Parser α) (n : Nat) (found : List α)
    (hs : ¬ s.cursor.check (.symbol .comma) = true) :
    Succeeds (moreItems item n found) s found s := by
  cases n with
  | zero => exact .pure found s
  | succ n => exact (Succeeds.check _ s).bind (.ite_neg hs (.pure found s))

/-- `p` accepts the expressions of level `l` of at most `n` tokens, up to what carries them on. -/
def Complete (p : Parser Expr) (l : Level) (n : Nat) : Prop :=
  ∀ {mode ts e rs rest s}, Expression mode l ts e rs → ts.length ≤ n →
    s.cursor.ahead = ts ++ rest → Ends l rest → ∃ s', Succeeds p s e s' ∧ s.Reads ts rs s'

namespace Complete

section Chains

variable {op : Type} {op? : TokenKind → Option op} {join : op → Span → Expr → Expr → Expr}
  {l l' : Level} (hj : Joins op? join l l') {operand : Parser Expr} {n : Nat}
  (ho : Complete operand l' n)
include hj ho

/-- After `ts` the chain is in its loop with the tree of `ts` on the left. -/
theorem answer_chain {mode : Mode} {ts : List Token} {e : Expr} {rs : List Remark}
    {rest : List Token} (h : Expression mode l ts e rs) (hn : ts.length ≤ n)
    (hs : s.cursor.ahead = ts ++ rest) (hrest : Ends l' rest) :
    ∃ s₁ m, s.Reads ts rs s₁ ∧ s₁.cursor.ahead.length ≤ m ∧
      answer (Parser.chain op? join operand) s =
        answer (Parser.chainUpTo op? join operand m e) s₁ := by
  induction hk : ts.length using Nat.strongRecOn generalizing ts e rs rest with
  | _ k ih =>
    obtain h' | ⟨ts₁, t, ts₂, o, left, right, rs₁, rs₂, hop, hleft, hright, rfl, rfl, rfl⟩ :=
      hj.split h
    · obtain ⟨s₁, he, hr⟩ := ho h' hn hs hrest
      refine ⟨s₁, s₁.cursor.ahead.length, hr, Nat.le_refl _, ?_⟩
      exact he.answer_bind _
    · simp only [List.length_append, List.length_cons] at hn hk
      have hlevel := hj.level hop
      have hends : Ends l' (t :: (ts₂ ++ rest)) :=
        ends_cons hlevel (by rw [Level.rank_tighter? hj.tighter]; omega)
      obtain ⟨s₁, m, r₁, hm, heq⟩ := ih ts₁.length (by omega) hleft (by omega)
        (by simpa using hs) hends rfl
      have h₁ : s₁.cursor.ahead = t :: (ts₂ ++ rest) := r₁.rest (by simpa using hs)
      have ht : t.kind ≠ .eof := by
        intro heof
        rw [heof] at hlevel
        cases hlevel
      obtain ⟨s₂, ha, r₂⟩ := succeeds_advance h₁ ht
      obtain ⟨s₃, hr, r₃⟩ := ho hright (by omega) (r₂.rest h₁) hrest
      obtain ⟨m, rfl, hrounds⟩ := (r₂.trans r₃).exists_rounds hm
      refine ⟨s₃, m, ?_, hrounds, ?_⟩
      · simpa using r₁.trans (r₂.trans r₃)
      · rw [heq, Parser.chainUpTo, (Succeeds.current s₁).answer_bind, Cursor.current_of_ahead h₁,
          hop]
        exact (ha.answer_bind _).trans (hr.answer_bind _)

theorem chain : Complete (Parser.chain op? join operand) l n := by
  intro mode ts e rs rest s h hn hs hrest
  obtain ⟨s₁, m, hr, -, heq⟩ := answer_chain hj ho h hn hs
    (hrest.mono (Level.rank_le_of_tighter? hj.tighter))
  refine ⟨s₁, ?_, hr⟩
  have hend : op? s₁.cursor.current.kind = none := by
    rcases ho : op? s₁.cursor.current.kind with _ | o
    · rfl
    · exact absurd (hj.level ho) (Cursor.level?_ne (by rwa [hr.rest hs]))
  rw [Succeeds, heq]
  cases m with
  | zero => rfl
  | succ m => simp [Parser.chainUpTo, hend]

end Chains

section Expressions

variable {nested : Parser Expr} {n : Nat} (h : Complete nested .assignment n) {mode : Mode}
include h

theorem argument {ts rest : List Token} {e : Expr} {rs : List Remark} (found : List Expr)
    (he : Expression mode .assignment ts e rs) (hn : ts.length ≤ n)
    (hs : s.cursor.ahead = ts ++ rest) (hrest : Ends .assignment rest) :
    ∃ s', Succeeds (Parser.argument nested found) s e s' ∧ s.Reads ts
      ((if found.length = maxEntries then remarkAt .tooManyArguments ts else []) ++ rs) s' := by
  obtain ⟨s₁, hr, r₁⟩ := succeeds_reportIf (found.length = maxArity)
    (s.cursor.errorHere .tooManyArguments s!"can't have more than {maxArity} arguments") s
  obtain ⟨s₂, hv, r₂⟩ := h he hn (r₁.rest (by simpa using hs)) hrest
  refine ⟨s₂, (Succeeds.cursor s).bind (hr.bind hv), ?_⟩
  obtain ⟨t, ts, rfl, -⟩ := he.startsWith
  have hspan := errorSpan_of_ahead hs (r₂.real t (by simp))
  have rboth := r₁.trans r₂
  simp only [Cursor.errorHere, hspan] at rboth
  exact rboth

/-- After some arguments the loop that reads more has found them. -/
theorem answer_arguments {ts rest : List Token} {args : List Expr} {rs : List Remark}
    (ha : ArgumentList mode ts args rs) (hn : ts.length ≤ n) (hs : s.cursor.ahead = ts ++ rest)
    (hrest : Ends .assignment rest) :
    ∃ s₁ m, s.Reads ts rs s₁ ∧ s₁.cursor.ahead.length ≤ m ∧
      answer (commaSeparated (Parser.argument nested)) s =
        answer (Parser.moreItems (Parser.argument nested) m args) s₁ := by
  cases ha with
  | first he =>
    obtain ⟨s₁, hv, r₁⟩ := argument h [] he hn hs hrest
    exact ⟨s₁, _, r₁, Nat.le_refl _,
      (hv.answer_bind _).trans ((Succeeds.remaining s₁).answer_bind _)⟩
  | @more ts₁ c ts₂ found e rs₁ rs₂ ha hc he =>
    simp only [List.length_append, List.length_cons] at hn
    have hends : Ends .assignment (c :: (ts₂ ++ rest)) :=
      ends_of_level?_eq_none (by rw [hc]; rfl)
    obtain ⟨s₁, m, r₁, hm, heq⟩ := answer_arguments ha (by omega) (by simpa using hs) hends
    have h₁ : s₁.cursor.ahead = c :: (ts₂ ++ rest) := r₁.rest (by simpa using hs)
    obtain ⟨s₂, hadv, r₂⟩ := succeeds_advance h₁ (by simp [hc])
    obtain ⟨s₃, hv, r₃⟩ := argument h found he (by omega) (r₂.rest h₁) hrest
    obtain ⟨m, rfl, hrounds⟩ := (r₂.trans r₃).exists_rounds hm
    refine ⟨s₃, m, ?_, hrounds, ?_⟩
    · simpa using r₁.trans (r₂.trans r₃)
    · rw [heq, Parser.moreItems, (Succeeds.check _ s₁).answer_bind,
        (check_symbol_of_ahead h₁ .comma).2 hc]
      exact (hadv.answer_bind _).trans (hv.answer_bind _)
termination_by ts.length

theorem arguments {ts rest : List Token} {c : Token} {args : List Expr} {rs : List Remark}
    (ha : Arguments mode ts args rs) (hn : ts.length ≤ n)
    (hs : s.cursor.ahead = ts ++ c :: rest) (hc : c.kind = .symbol .rightParen) :
    ∃ s', Succeeds (itemsBefore (.symbol .rightParen) (Parser.argument nested)) s args s' ∧
      s.Reads ts rs s' := by
  cases ha with
  | none =>
    refine ⟨s, (Succeeds.check _ s).bind (.ite_pos ?_ (.pure _ s)), .refl s⟩
    exact (check_symbol_of_ahead hs _).2 hc
  | some ha =>
    obtain ⟨s₁, m, r₁, -, heq⟩ := answer_arguments h ha hn hs
      (ends_of_level?_eq_none (by rw [hc]; rfl))
    have h₁ := r₁.rest hs
    refine ⟨s₁, (Succeeds.check _ s).bind (.ite_neg ?_ ?_), r₁⟩
    · obtain ⟨t, ts, rfl, ht⟩ := ha.startsWith
      rw [check_symbol_of_ahead hs]
      intro hk
      rw [hk] at ht
      cases ht
    · rw [Succeeds, heq]
      refine moreItems_of_ne_comma _ _ _ ?_
      rw [check_symbol_of_ahead h₁, hc]
      simp

theorem primary : Complete (Parser.primary nested) .primary (n + 1) := by
  intro mode ts e rs rest s he hn hs hrest
  cases he with
  | tighter hl => cases hl
  | logical op hop => cases op <;> cases hop
  | binary op hop => cases op <;> cases hop
  | @literal t value ht =>
    obtain ⟨s₁, ha, r₁⟩ := succeeds_advance hs (ht ▸ value.kind_ne_eof)
    refine ⟨s₁, (Succeeds.current s).bind ?_, r₁⟩
    rw [Cursor.current_of_ahead hs, literal?_eq_some.2 ht]
    exact ha.bind (.pure _ s₁)
  | @var t name ht =>
    obtain ⟨s₁, ha, r₁⟩ := succeeds_advance hs (by simp [ht])
    refine ⟨s₁, (Succeeds.current s).bind ?_, r₁⟩
    rw [Cursor.current_of_ahead hs, ht]
    exact ha.bind (.pure _ s₁)
  | @grouping o ts c inner rs ho hi hc =>
    simp only [List.length_append, List.length_cons] at hn
    obtain ⟨s₁, ha, r₁⟩ := succeeds_advance hs (by simp [ho])
    have h₁ : s₁.cursor.ahead = ts ++ c :: rest := r₁.rest (by simpa using hs)
    obtain ⟨s₂, hv, r₂⟩ := h hi (by omega) h₁ (ends_of_level?_eq_none (by rw [hc]; rfl))
    obtain ⟨s₃, hclose, r₃⟩ := succeeds_expectClosing (r₂.rest h₁) hc o.span
      "expected `)` after expression"
    refine ⟨s₃, (Succeeds.current s).bind ?_, by simpa using r₁.trans (r₂.trans r₃)⟩
    rw [Cursor.current_of_ahead hs, ho]
    exact ha.bind (hv.bind (hclose.bind (.pure _ s₃)))

theorem finishCall {ts rest : List Token} {c : Token} {args : List Expr} {rs : List Remark}
    (callee : Expr) (opening : Span) (ha : Arguments mode ts args rs) (hn : ts.length ≤ n)
    (hs : s.cursor.ahead = ts ++ c :: rest) (hc : c.kind = .symbol .rightParen) :
    ∃ s', Succeeds (Parser.finishCall nested callee opening) s
        (.call (callee.span.merge c.span) callee c.span args) s' ∧
      s.Reads (ts ++ [c]) rs s' := by
  obtain ⟨s₁, hargs, r₁⟩ := arguments h ha hn hs hc
  obtain ⟨s₂, hclose, r₂⟩ := succeeds_expectClosing (r₁.rest hs) hc opening
    "expected `)` after arguments"
  exact ⟨s₂, hargs.bind (hclose.bind (.pure _ s₂)), by simpa using r₁.trans r₂⟩

/-- After some calls the loop that reads more has found them. -/
theorem answer_call {ts rest : List Token} {e : Expr} {rs : List Remark}
    (he : Expression mode .call ts e rs) (hn : ts.length ≤ n + 1)
    (hs : s.cursor.ahead = ts ++ rest) (hrest : Ends .primary rest) :
    ∃ s₁ m, s.Reads ts rs s₁ ∧ s₁.cursor.ahead.length ≤ m ∧
      answer (Parser.call nested) s = answer (Parser.calls nested m e) s₁ := by
  cases he with
  | tighter hl he =>
    obtain rfl := Option.some.inj hl
    obtain ⟨s₁, hp, r₁⟩ := primary h he hn hs hrest
    exact ⟨s₁, _, r₁, Nat.le_refl _,
      (hp.answer_bind _).trans ((Succeeds.remaining s₁).answer_bind _)⟩
  | logical op hop => cases op <;> cases hop
  | binary op hop => cases op <;> cases hop
  | @call ts₁ o ts₂ c callee args rs₁ rs₂ he ho hargs hc =>
    simp only [List.length_append, List.length_cons] at hn
    have hends : Ends .primary (o :: (ts₂ ++ c :: rest)) :=
      ends_cons (k := .call) (by rw [ho]; rfl) (by decide)
    obtain ⟨s₁, m, r₁, hm, heq⟩ := answer_call he (by omega) (by simpa using hs) hends
    have h₁ : s₁.cursor.ahead = o :: (ts₂ ++ c :: rest) := r₁.rest (by simpa using hs)
    obtain ⟨s₂, hadv, r₂⟩ := succeeds_advance h₁ (by simp [ho])
    obtain ⟨s₃, hf, r₃⟩ := finishCall h callee o.span hargs (by omega) (r₂.rest h₁) hc
    obtain ⟨m, rfl, hrounds⟩ := (r₂.trans r₃).exists_rounds hm
    refine ⟨s₃, m, ?_, hrounds, ?_⟩
    · simpa using r₁.trans (r₂.trans r₃)
    · rw [heq, Parser.calls, (Succeeds.check _ s₁).answer_bind,
        (check_symbol_of_ahead h₁ .leftParen).2 ho]
      exact (hadv.answer_bind _).trans (hf.answer_bind _)
termination_by ts.length

theorem call : Complete (Parser.call nested) .call (n + 1) := by
  intro mode ts e rs rest s he hn hs hrest
  obtain ⟨s₁, m, r₁, -, heq⟩ := answer_call h he hn hs (hrest.mono (by decide))
  have hend : ¬ s₁.cursor.check (.symbol .leftParen) = true := by
    intro hk
    refine Cursor.level?_ne (by rwa [r₁.rest hs]) ?_
    rw [(Cursor.check_symbol _ _).1 hk]
    rfl
  refine ⟨s₁, ?_, r₁⟩
  rw [Succeeds, heq]
  cases m with
  | zero => rfl
  | succ m => exact (Succeeds.check _ s₁).bind (.ite_neg hend (.pure e s₁))

theorem unaryUpTo (m : Nat) : Complete (Parser.unaryUpTo nested m) .unary (min m (n + 1)) := by
  induction m with
  | zero =>
    intro mode ts e rs rest s he hn hs hrest
    exact absurd (List.length_eq_zero_iff.1 (by omega)) he.ne_nil
  | succ m ih =>
    intro mode ts e rs rest s he hn hs hrest
    cases he with
    | tighter hl he =>
      obtain rfl := Option.some.inj hl
      obtain ⟨s₁, hc, r₁⟩ := call h he (by omega) hs (hrest.mono (by decide))
      refine ⟨s₁, (Succeeds.current s).bind ?_, r₁⟩
      obtain ⟨t, ts, rfl, ht⟩ := he.startsWith_primary (Nat.le_refl _)
      have hop : unaryOp? t.kind = none := by
        unfold unaryOp?
        split <;> simp_all [startsPrimary]
      rw [Cursor.current_of_ahead hs, hop]
      exact hc
    | logical op hop => cases op <;> cases hop
    | binary op hop => cases op <;> cases hop
    | @unary t ts operand rs op ht he =>
      simp only [List.length_cons] at hn
      obtain ⟨s₁, ha, r₁⟩ := succeeds_advance hs (by simp [ht])
      obtain ⟨s₂, ho, r₂⟩ := ih he (by omega) (r₁.rest hs) hrest
      refine ⟨s₂, (Succeeds.current s).bind ?_, r₁.trans r₂⟩
      rw [Cursor.current_of_ahead hs, unaryOp?_eq_some.2 ht]
      exact ha.bind (ho.bind (.pure _ s₂))

theorem unary : Complete (Parser.unary nested) .unary (n + 1) := by
  intro mode ts e rs rest s he hn hs hrest
  have hm : ts.length ≤ s.cursor.ahead.length := by
    rw [hs, List.length_append]
    omega
  obtain ⟨s₁, hu, r₁⟩ := unaryUpTo h s.cursor.ahead.length he (by omega) hs hrest
  exact ⟨s₁, (Succeeds.remaining s).bind hu, r₁⟩

theorem disjunction : Complete (Parser.disjunction nested) .disjunction (n + 1) :=
  chain disjunction_joins <| chain conjunction_joins <| chain equality_joins <|
    chain comparison_joins <| chain term_joins <| chain factor_joins <| unary h

theorem assignment : Complete (Parser.assignment nested) .assignment (n + 1) := by
  intro mode ts e rs rest s he hn hs hrest
  cases he with
  | tighter hl he =>
    obtain rfl := Option.some.inj hl
    obtain ⟨s₁, hd, r₁⟩ := disjunction h he hn hs (hrest.mono (by decide))
    have hend : ¬ s₁.cursor.check (.symbol .equal) = true := by
      intro hk
      refine Cursor.level?_ne (by rwa [r₁.rest hs]) ?_
      rw [(Cursor.check_symbol _ _).1 hk]
      rfl
    exact ⟨s₁, hd.bind ((Succeeds.check _ s₁).bind (.ite_neg hend (.pure e s₁))), r₁⟩
  | logical op hop => cases op <;> cases hop
  | binary op hop => cases op <;> cases hop
  | @assign t eq ts name value rs ht heq hv =>
    simp only [List.length_cons] at hn
    have htarget : Expression mode .disjunction [t] (.var t.span name) [] :=
      (Expression.var ht).disjunction
    obtain ⟨s₁, hd, r₁⟩ := disjunction h htarget (by simp) hs
      (ends_cons (k := .assignment) (by rw [heq]; rfl) (by decide))
    have h₁ : s₁.cursor.ahead = eq :: (ts ++ rest) := r₁.rest hs
    obtain ⟨s₂, ha, r₂⟩ := succeeds_advance h₁ (by simp [heq])
    obtain ⟨s₃, hn, r₃⟩ := h hv (by omega) (r₂.rest h₁) hrest
    refine ⟨s₃, hd.bind ((Succeeds.check _ s₁).bind (.ite_pos ?_ ?_)), ?_⟩
    · exact (check_symbol_of_ahead h₁ _).2 heq
    · exact ha.bind (hn.bind (.pure _ s₃))
    · exact r₁.trans (r₂.trans r₃)
  | @mistarget eq ts ts' target value rs rs' hmode hd hne heq hv =>
    simp only [List.length_append, List.length_cons] at hn
    obtain ⟨s₁, hd, r₁⟩ := disjunction h hd (by omega) (by simpa using hs)
      (ends_cons (k := .assignment) (by rw [heq]; rfl) (by decide))
    have h₁ : s₁.cursor.ahead = eq :: (ts' ++ rest) := r₁.rest (by simpa using hs)
    obtain ⟨s₂, ha, r₂⟩ := succeeds_advance h₁ (by simp [heq])
    obtain ⟨s₃, hn, r₃⟩ := h hv (by omega) (r₂.rest h₁) hrest
    obtain ⟨s₄, hr, r₄⟩ := succeeds_report ⟨.invalidTarget, "invalid assignment target",
      eq.span, some "only a variable can be assigned to", none⟩ s₃
    refine ⟨s₄, hd.bind ((Succeeds.check _ s₁).bind (.ite_pos ?_ (ha.bind (hn.bind ?_)))), ?_⟩
    · exact (check_symbol_of_ahead h₁ _).2 heq
    · split
      next => exact absurd rfl (hne _ _)
      next => exact hr.bind (.pure _ s₄)
    · simpa using r₁.trans (r₂.trans (r₃.trans r₄))

end Expressions

theorem expressionUpTo (n : Nat) : Complete (Parser.expressionUpTo n) .assignment n := by
  induction n with
  | zero =>
    intro mode ts e rs rest s he hn
    exact absurd (List.length_eq_zero_iff.1 (by omega)) he.ne_nil
  | succ n ih => exact assignment ih

/-- Every expression is accepted. -/
theorem expression {mode : Mode} {ts rest : List Token} {e : Expr} {rs : List Remark}
    (he : Expression mode .assignment ts e rs) (hs : s.cursor.ahead = ts ++ rest)
    (hrest : Ends .assignment rest) :
    ∃ s', Succeeds Parser.expression s e s' ∧ s.Reads ts rs s' := by
  have hm : ts.length ≤ s.cursor.ahead.length := by
    rw [hs, List.length_append]
    omega
  obtain ⟨s₁, hv, r₁⟩ := expressionUpTo _ he hm hs hrest
  exact ⟨s₁, (Succeeds.remaining s).bind hv, r₁⟩

end Complete

end Parser

end Tarn
