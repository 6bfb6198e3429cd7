import Tarn.Proofs.Parsing.Forward
import Tarn.Proofs.Parsing.Operators

/-! Whatever a production returns derives, in the recovering grammar, from the tokens it consumed,
and the remarks of the derivation are the errors it reported. -/
namespace Tarn

open Grammar

namespace Parser

variable {α β : Type} {s s' s'' : ParseState}

/-- `p` succeeds from `s` with `a` and leaves `s'`. -/
def Succeeds (p : Parser α) (s : ParseState) (a : α) (s' : ParseState) : Prop :=
  answer p s = (.ok a, s')

theorem succeeds_bind {p : Parser α} {f : α → Parser β} {b : β} :
    Succeeds (p >>= f) s b s'' ↔ ∃ a s', Succeeds p s a s' ∧ Succeeds (f a) s' b s'' := by
  simp only [Succeeds, answer_bind]
  rcases hp : answer p s with ⟨e | a, s₁⟩
  · simp
  · constructor
    · intro h
      exact ⟨a, s₁, rfl, h⟩
    · rintro ⟨a', s₂, h, h'⟩
      obtain ⟨ha, rfl⟩ := Prod.mk.inj h
      obtain rfl := Except.ok.inj ha
      exact h'

@[simp] theorem succeeds_pure {a b : α} : Succeeds (pure a) s b s' ↔ a = b ∧ s = s' := by
  simp [Succeeds]

theorem succeeds_map {p : Parser α} {f : α → β} {b : β} :
    Succeeds (f <$> p) s b s' ↔ ∃ a, Succeeds p s a s' ∧ f a = b := by
  rw [map_eq_pure_bind, succeeds_bind]
  constructor
  · rintro ⟨a, s₁, ha, hb⟩
    obtain ⟨rfl, rfl⟩ := succeeds_pure.1 hb
    exact ⟨a, ha, rfl⟩
  · rintro ⟨a, ha, rfl⟩
    exact ⟨a, s', ha, succeeds_pure.2 ⟨rfl, rfl⟩⟩

@[simp] theorem succeeds_cursor {c : Cursor} :
    Succeeds cursor s c s' ↔ s.cursor = c ∧ s = s' := by simp [Succeeds]

@[simp] theorem succeeds_current {t : Token} :
    Succeeds current s t s' ↔ s.cursor.current = t ∧ s = s' := by simp [Succeeds]

@[simp] theorem succeeds_check {kind : TokenKind} {b : Bool} :
    Succeeds (check kind) s b s' ↔ s.cursor.check kind = b ∧ s = s' := by simp [Succeeds]

@[simp] theorem succeeds_remaining {n : Nat} :
    Succeeds remaining s n s' ↔ s.cursor.ahead.length = n ∧ s = s' := by simp [Succeeds]

@[simp] theorem succeeds_get {c : ParseState} : Succeeds get s c s' ↔ s = c ∧ s = s' := by
  simp [Succeeds]

@[simp] theorem not_succeeds_failHere {code : ErrorCode} {message : String} {a : α} :
    ¬ Succeeds (failHere code message) s a s' := by simp [Succeeds]

namespace Succeeds

theorem advance {span : Span} (h : Succeeds Parser.advance s span s')
    (hk : s.cursor.current.kind ≠ .eof) :
    span = s.cursor.current.span ∧ s.Reads [s.cursor.current] [] s' := by
  obtain ⟨hspan, rfl⟩ := Prod.mk.inj h
  exact ⟨(Except.ok.inj hspan).symm, .advance hk⟩

/-- Consuming a token after a look at its kind. -/
theorem advance_symbol {span : Span} {x : Symbol} (h : Succeeds Parser.advance s span s')
    (hk : s.cursor.current.kind = .symbol x) :
    ∃ t, t.kind = .symbol x ∧ span = t.span ∧ s.Reads [t] [] s' :=
  ⟨_, hk, h.advance (by simp [hk])⟩

theorem advance_keyword {span : Span} {x : Keyword} (h : Succeeds Parser.advance s span s')
    (hk : s.cursor.current.kind = .keyword x) :
    ∃ t, t.kind = .keyword x ∧ span = t.span ∧ s.Reads [t] [] s' :=
  ⟨_, hk, h.advance (by simp [hk])⟩

theorem expect {span : Span} {x : Symbol} {message : String}
    (h : Succeeds (Parser.expect (.symbol x) message) s span s') :
    ∃ t, t.kind = .symbol x ∧ span = t.span ∧ s.Reads [t] [] s' := by
  rw [Succeeds, answer_expect] at h
  split at h
  next hk => exact advance_symbol h ((Cursor.check_symbol _ _).1 hk)
  next => simp at h

theorem expectClosing {span opening : Span} {x : Symbol} {message : String}
    (h : Succeeds (Parser.expectClosing (.symbol x) opening message) s span s') :
    ∃ t, t.kind = .symbol x ∧ span = t.span ∧ s.Reads [t] [] s' := by
  rw [Succeeds, answer_expectClosing] at h
  split at h
  next hk => exact advance_symbol h ((Cursor.check_symbol _ _).1 hk)
  next => simp at h

theorem expectIdentifier {name : Name} {span : Span} {message : String}
    (h : Succeeds (Parser.expectIdentifier message) s (name, span) s') :
    ∃ t, t.kind = .identifier name ∧ span = t.span ∧ s.Reads [t] [] s' := by
  rw [Succeeds, answer_expectIdentifier] at h
  split at h
  next name' hk =>
    obtain ⟨ha, rfl⟩ := Prod.mk.inj h
    obtain ⟨rfl, rfl⟩ := Prod.mk.inj (Except.ok.inj ha)
    exact ⟨_, hk, rfl, .advance (by simp [hk])⟩
  next => simp at h

theorem report {e : ParseError} {a : Unit} (h : Succeeds (Parser.report e) s a s') :
    s.Reads [] [⟨e.code, e.span⟩] s' := by
  obtain ⟨-, rfl⟩ := Prod.mk.inj h
  exact .report s e

theorem reportIf {p : Prop} [Decidable p] {e : ParseError} {a : Unit}
    (h : Succeeds (Parser.reportIf p e) s a s') :
    s.Reads [] (if p then [⟨e.code, e.span⟩] else []) s' := by
  rw [Succeeds, answer_reportIf] at h
  obtain ⟨-, rfl⟩ := Prod.mk.inj h
  split
  · exact .report s e
  · exact .refl s

end Succeeds

/-- What `p` returns are expressions of the level, as the grammar has them. -/
def Sound (p : Parser Expr) (l : Level) : Prop :=
  ∀ {s e s'}, Succeeds p s e s' → ∃ ts rs, s.Reads ts rs s' ∧ Expression .recovering l ts e rs

namespace Sound

section Expressions

variable {nested : Parser Expr} (h : Sound nested .assignment)
include h

theorem grouping {e : Expr} (hs : Succeeds (Parser.grouping nested) s e s')
    (hk : s.cursor.current.kind = .symbol .leftParen) :
    ∃ ts rs, s.Reads ts rs s' ∧ Expression .recovering .primary ts e rs := by
  simp only [Parser.grouping, succeeds_bind, succeeds_pure] at hs
  obtain ⟨_, s₁, ho, inner, s₂, hn, _, s₃, hc, rfl, rfl⟩ := hs
  obtain ⟨o, hok, rfl, ro⟩ := ho.advance_symbol hk
  obtain ⟨ts, rs, rn, dn⟩ := h hn
  obtain ⟨c, hck, rfl, rc⟩ := hc.expectClosing
  exact ⟨_, _, ro.trans (rn.trans rc), by simpa using .grouping hok dn hck⟩

theorem primary : Sound (Parser.primary nested) .primary := by
  intro s e s' hs
  simp only [Parser.primary, succeeds_bind, succeeds_current] at hs
  obtain ⟨t, _, ⟨rfl, rfl⟩, hs⟩ := hs
  split at hs
  next value hv =>
    simp only [succeeds_bind, succeeds_pure] at hs
    obtain ⟨_, _, ha, rfl, rfl⟩ := hs
    have hk := literal?_eq_some.1 hv
    obtain ⟨rfl, ra⟩ := ha.advance (hk ▸ value.kind_ne_eof)
    exact ⟨_, _, ra, .literal value hk⟩
  next name _ hk =>
    simp only [succeeds_bind, succeeds_pure] at hs
    obtain ⟨_, _, ha, rfl, rfl⟩ := hs
    obtain ⟨rfl, ra⟩ := ha.advance (by simp [hk])
    exact ⟨_, _, ra, .var hk⟩
  next hk => exact grouping h hs hk
  next => exact absurd hs not_succeeds_failHere

/-- One more argument, with the remark if it is one too many. -/
theorem argument {found : List Expr} {e : Expr}
    (hs : Succeeds (Parser.argument nested found) s e s') :
    ∃ ts rs, s.Reads ts
        ((if found.length = maxEntries then remarkAt .tooManyArguments ts else []) ++ rs) s' ∧
      Expression .recovering .assignment ts e rs := by
  simp only [Parser.argument, succeeds_bind, succeeds_cursor] at hs
  obtain ⟨_, _, ⟨rfl, rfl⟩, _, s₁, hr, hn⟩ := hs
  have rr := hr.reportIf
  obtain ⟨ts, rs, rn, dn⟩ := h hn
  refine ⟨ts, rs, ?_, dn⟩
  obtain ⟨t, rest, rfl, -⟩ := dn.startsWith
  have hahead : s.cursor.ahead = t :: (rest ++ s'.cursor.ahead) := by
    rw [rr.ahead, rn.ahead]; rfl
  have hspan : s.cursor.errorSpan = t.span := by
    have hend : s.cursor.atEnd = false := by
      simp [Cursor.atEnd, Cursor.current_of_ahead hahead, rn.real t (by simp)]
    simp [Cursor.errorSpan, hend, Cursor.current_of_ahead hahead]
  have rboth := rr.trans rn
  simp only [List.nil_append, Cursor.errorHere, hspan] at rboth
  exact rboth

theorem moreItems {n : Nat} {found args : List Expr} {ts : List Token} {rs : List Remark}
    (hs : Succeeds (Parser.moreItems (Parser.argument nested) n found) s args s')
    (hf : ArgumentList .recovering ts found rs) :
    ∃ ts' rs', s.Reads ts' rs' s' ∧ ArgumentList .recovering (ts ++ ts') args (rs ++ rs') := by
  induction n generalizing s found ts rs with
  | zero =>
    obtain ⟨rfl, rfl⟩ := succeeds_pure.1 hs
    exact ⟨[], [], .refl s, by simpa using hf⟩
  | succ n ih =>
    simp only [Parser.moreItems, succeeds_bind, succeeds_check] at hs
    obtain ⟨_, _, ⟨rfl, rfl⟩, hs⟩ := hs
    split at hs
    next hk =>
      simp only [succeeds_bind] at hs
      obtain ⟨_, s₁, hc, e, s₂, he, hs⟩ := hs
      obtain ⟨c, hck, -, rc⟩ := hc.advance_symbol ((Cursor.check_symbol _ _).1 hk)
      obtain ⟨ts₁, rs₁, re, de⟩ := argument h he
      obtain ⟨ts₂, rs₂, rm, dm⟩ := ih hs (.more hf hck de)
      exact ⟨_, _, rc.trans (re.trans rm), by simpa using dm⟩
    next =>
      obtain ⟨rfl, rfl⟩ := succeeds_pure.1 hs
      exact ⟨[], [], .refl s, by simpa using hf⟩

theorem arguments {args : List Expr}
    (hs : Succeeds (itemsBefore (.symbol .rightParen) (Parser.argument nested)) s args s') :
    ∃ ts rs, s.Reads ts rs s' ∧ Arguments .recovering ts args rs := by
  simp only [itemsBefore, succeeds_bind, succeeds_check] at hs
  obtain ⟨_, _, ⟨rfl, rfl⟩, hs⟩ := hs
  split at hs
  · obtain ⟨rfl, rfl⟩ := succeeds_pure.1 hs
    exact ⟨[], [], .refl s, .none⟩
  · simp only [commaSeparated, succeeds_bind, succeeds_remaining] at hs
    obtain ⟨e, s₁, he, _, _, ⟨rfl, rfl⟩, hs⟩ := hs
    obtain ⟨ts, rs, re, de⟩ := argument h he
    obtain ⟨ts', rs', rm, dm⟩ := moreItems h hs (.first de)
    exact ⟨_, _, re.trans rm, by simpa [maxEntries] using .some dm⟩

theorem finishCall {callee e : Expr} {o : Token} {ts : List Token} {rs : List Remark}
    (hs : Succeeds (Parser.finishCall nested callee o.span) s e s')
    (hf : Expression .recovering .call ts callee rs) (ho : o.kind = .symbol .leftParen) :
    ∃ ts' rs', s.Reads ts' rs' s' ∧
      Expression .recovering .call (ts ++ o :: ts') e (rs ++ rs') := by
  simp only [Parser.finishCall, succeeds_bind, succeeds_pure] at hs
  obtain ⟨args, s₁, hargs, _, s₂, hc, rfl, rfl⟩ := hs
  obtain ⟨ts', rs', ra, da⟩ := arguments h hargs
  obtain ⟨c, hck, rfl, rc⟩ := hc.expectClosing
  exact ⟨_, _, ra.trans rc, by simpa using .call hf ho da hck⟩

theorem calls {n : Nat} {callee e : Expr} {ts : List Token} {rs : List Remark}
    (hs : Succeeds (Parser.calls nested n callee) s e s')
    (hf : Expression .recovering .call ts callee rs) :
    ∃ ts' rs', s.Reads ts' rs' s' ∧ Expression .recovering .call (ts ++ ts') e (rs ++ rs') := by
  induction n generalizing s callee ts rs with
  | zero =>
    obtain ⟨rfl, rfl⟩ := succeeds_pure.1 hs
    exact ⟨[], [], .refl s, by simpa using hf⟩
  | succ n ih =>
    simp only [Parser.calls, succeeds_bind, succeeds_check] at hs
    obtain ⟨_, _, ⟨rfl, rfl⟩, hs⟩ := hs
    split at hs
    next hk =>
      simp only [succeeds_bind] at hs
      obtain ⟨_, s₁, ho, callee', s₂, hc, hs⟩ := hs
      obtain ⟨o, hok, rfl, ro⟩ := ho.advance_symbol ((Cursor.check_symbol _ _).1 hk)
      obtain ⟨ts₁, rs₁, rc, dc⟩ := finishCall h hc hf hok
      obtain ⟨ts₂, rs₂, rm, dm⟩ := ih hs dc
      exact ⟨_, _, ro.trans (rc.trans rm), by simpa using dm⟩
    next =>
      obtain ⟨rfl, rfl⟩ := succeeds_pure.1 hs
      exact ⟨[], [], .refl s, by simpa using hf⟩

theorem call : Sound (Parser.call nested) .call := by
  intro s e s' hs
  simp only [Parser.call, succeeds_bind, succeeds_remaining] at hs
  obtain ⟨callee, s₁, hp, _, _, ⟨rfl, rfl⟩, hs⟩ := hs
  obtain ⟨ts, rs, rp, dp⟩ := primary h hp
  obtain ⟨ts', rs', rc, dc⟩ := calls h hs (.tighter rfl dp)
  exact ⟨_, _, rp.trans rc, dc⟩

theorem unaryUpTo (n : Nat) : Sound (Parser.unaryUpTo nested n) .unary := by
  induction n with
  | zero =>
    intro s e s' hs
    obtain ⟨ts, rs, rc, dc⟩ := call h hs
    exact ⟨ts, rs, rc, .tighter rfl dc⟩
  | succ n ih =>
    intro s e s' hs
    simp only [Parser.unaryUpTo, succeeds_bind, succeeds_current] at hs
    obtain ⟨_, _, ⟨rfl, rfl⟩, hs⟩ := hs
    split at hs
    next =>
      obtain ⟨ts, rs, rc, dc⟩ := call h hs
      exact ⟨ts, rs, rc, .tighter rfl dc⟩
    next op hop =>
      simp only [succeeds_bind, succeeds_pure] at hs
      obtain ⟨_, s₁, ha, operand, s₂, ho, rfl, rfl⟩ := hs
      obtain ⟨t, hk, rfl, ra⟩ := ha.advance_symbol (unaryOp?_eq_some.1 hop)
      obtain ⟨ts, rs, ro, do_⟩ := ih ho
      exact ⟨_, _, ra.trans ro, .unary op hk do_⟩

omit h in
theorem chainUpTo {op : Type} {op? : TokenKind → Option op}
    {join : op → Span → Expr → Expr → Expr} {l l' : Level} (hj : Joins op? join l l')
    {operand : Parser Expr} (ho : Sound operand l') {n : Nat} {left e : Expr} {ts : List Token}
    {rs : List Remark} (hs : Succeeds (Parser.chainUpTo op? join operand n left) s e s')
    (hf : Expression .recovering l ts left rs) :
    ∃ ts' rs', s.Reads ts' rs' s' ∧ Expression .recovering l (ts ++ ts') e (rs ++ rs') := by
  induction n generalizing s left ts rs with
  | zero =>
    obtain ⟨rfl, rfl⟩ := succeeds_pure.1 hs
    exact ⟨[], [], .refl s, by simpa using hf⟩
  | succ n ih =>
    simp only [Parser.chainUpTo, succeeds_bind, succeeds_current] at hs
    obtain ⟨_, _, ⟨rfl, rfl⟩, hs⟩ := hs
    split at hs
    next =>
      obtain ⟨rfl, rfl⟩ := succeeds_pure.1 hs
      exact ⟨[], [], .refl s, by simpa using hf⟩
    next o hop =>
      simp only [succeeds_bind] at hs
      obtain ⟨_, s₁, ha, right, s₂, hr, hs⟩ := hs
      have hk : s.cursor.current.kind ≠ .eof := by
        intro heof
        have := hj.level hop
        rw [heof] at this
        cases this
      obtain ⟨rfl, ra⟩ := ha.advance hk
      obtain ⟨ts₁, rs₁, rr, dr⟩ := ho hr
      obtain ⟨ts₂, rs₂, rm, dm⟩ := ih hs (hj.node hop hf dr)
      exact ⟨_, _, ra.trans (rr.trans rm), by simpa using dm⟩

omit h in
theorem chain {op : Type} {op? : TokenKind → Option op}
    {join : op → Span → Expr → Expr → Expr} {l l' : Level} (hj : Joins op? join l l')
    {operand : Parser Expr} (ho : Sound operand l') : Sound (Parser.chain op? join operand) l := by
  intro s e s' hs
  simp only [Parser.chain, succeeds_bind, succeeds_remaining] at hs
  obtain ⟨left, s₁, hl, _, _, ⟨rfl, rfl⟩, hs⟩ := hs
  obtain ⟨ts, rs, rl, dl⟩ := ho hl
  obtain ⟨ts', rs', rc, dc⟩ := chainUpTo hj ho hs (.tighter hj.tighter dl)
  exact ⟨_, _, rl.trans rc, dc⟩

theorem unary : Sound (Parser.unary nested) .unary := by
  intro s e s' hs
  simp only [Parser.unary, succeeds_bind, succeeds_remaining] at hs
  obtain ⟨_, _, ⟨rfl, rfl⟩, hs⟩ := hs
  exact unaryUpTo h _ hs

theorem disjunction : Sound (Parser.disjunction nested) .disjunction :=
  chain disjunction_joins <| chain conjunction_joins <| chain equality_joins <|
    chain comparison_joins <| chain term_joins <| chain factor_joins <| unary h

theorem assignment : Sound (Parser.assignment nested) .assignment := by
  intro s e s' hs
  simp only [Parser.assignment, succeeds_bind, succeeds_check] at hs
  obtain ⟨target, s₁, ht, _, _, ⟨rfl, rfl⟩, hs⟩ := hs
  obtain ⟨ts, rs, rt, dt⟩ := disjunction h ht
  split at hs
  next hk =>
    simp only [succeeds_bind] at hs
    obtain ⟨_, s₂, ha, value, s₃, hv, hs⟩ := hs
    obtain ⟨eq, heq, rfl, ra⟩ := ha.advance_symbol ((Cursor.check_symbol _ _).1 hk)
    obtain ⟨ts', rs', rv, dv⟩ := h hv
    split at hs
    next span name =>
      obtain ⟨rfl, rfl⟩ := succeeds_pure.1 hs
      obtain ⟨t, rfl, htk, rfl, rfl⟩ := dt.eq_singleton_of_var nofun rfl
      exact ⟨_, _, rt.trans (ra.trans rv), by simpa using .assign htk heq dv⟩
    next hn =>
      simp only [succeeds_bind, succeeds_pure] at hs
      obtain ⟨_, s₄, hr, rfl, rfl⟩ := hs
      have rr := hr.report
      exact ⟨_, _, rt.trans (ra.trans (rv.trans rr)),
        by simpa using .mistarget (by simp) dt (fun _ _ => hn _ _) heq dv⟩
  next =>
    obtain ⟨rfl, rfl⟩ := succeeds_pure.1 hs
    exact ⟨ts, rs, rt, .tighter rfl dt⟩

end Expressions

theorem expressionUpTo (n : Nat) : Sound (Parser.expressionUpTo n) .assignment := by
  induction n with
  | zero => exact fun hs => absurd hs not_succeeds_failHere
  | succ n ih => exact assignment ih

theorem expression : Sound Parser.expression .assignment := by
  intro s e s' hs
  simp only [Parser.expression, succeeds_bind, succeeds_remaining] at hs
  obtain ⟨_, _, ⟨rfl, rfl⟩, hs⟩ := hs
  exact expressionUpTo _ hs

end Sound

end Parser

end Tarn
