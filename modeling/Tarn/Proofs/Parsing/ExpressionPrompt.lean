import Tarn.Proofs.Parsing.Prompt

/-! Expressions are read as far as they can go on. -/
namespace Tarn

open Grammar Tarn.Parser

/-- The tokens form an expression of the level, in which invalid assignments may stand. -/
def Grammar.Expresses (l : Level) : Phrase Expr := fun e ts => ∃ rs, Expression .lenient l ts e rs

namespace Grammar.Expresses

variable {l l' : Level} {e : Expr} {ts : List Token}

theorem tighter (hl : l.tighter? = some l') (h : Expresses l' e ts) : Expresses l e ts := by
  obtain ⟨rs, h⟩ := h
  exact ⟨rs, .tighter hl h⟩

theorem binary {op : Type} {op? : TokenKind → Option op} {join : op → Span → Expr → Expr → Expr}
    (hjoins : Joins op? join l l') {left right : Expr} {us : List Token} {t : Token} {o : op}
    (ho : op? t.kind = some o) (hleft : Expresses l left ts) (hright : Expresses l' right us) :
    Expresses l (join o t.span left right) (ts ++ t :: us) := by
  obtain ⟨rs, hleft⟩ := hleft
  obtain ⟨rs', hright⟩ := hright
  exact ⟨_, hjoins.node ho hleft hright⟩

theorem exists_primary : ∃ e ts, Expresses .primary e ts :=
  ⟨_, _, [], .literal (t := ⟨.keyword .nilKw, .nowhere⟩) .nil rfl⟩

theorem exists_assignment : ∃ e ts, Expresses .assignment e ts := by
  obtain ⟨e, ts, rs, h⟩ := exists_primary
  exact ⟨e, ts, rs, .tighter rfl h.disjunction⟩

end Grammar.Expresses

namespace Parser.Prompt

variable {α : Type} {n n' : Nat}

/-- Nothing more is read behind `us`. -/
theorem stay {goesOn : Bool} {L : Phrase α} {a : α} {us : List Token} (h : L a us) :
    Prompt goesOn n n' (Pure.pure a) (Pure.pure a) fun b ts => L b (us ++ ts) :=
  pure (by simpa using h)

section Items

/-! Items between commas. -/

variable {item item' : List α → Parser α} {one : Phrase α} {many : Phrase (List α)}
  (h : ∀ found, Prompt false n n' (item found) (item' found) one)
  (hmore : ∀ found ts comma a us, many found ts → Token.kind comma = .symbol .comma → one a us →
    many (found ++ [a]) (ts ++ comma :: us))
include h hmore

theorem moreItems {k k' m m' : Nat} (hn : k ≤ n + 1) (hn' : k' ≤ n' + 1) (hm : k ≤ m)
    (hm' : k' ≤ m') {found : List α} {us : List Token} (hfound : many found us) :
    Prompt false k k' (Parser.moreItems item m found) (Parser.moreItems item' m' found)
      fun all ts => many all (us ++ ts) := by
  induction k generalizing k' m m' found us with
  | zero =>
    exact (stay hfound).zero fun s hend => answer_moreItems_of_eof hend item m found
  | succ k ih =>
    obtain ⟨m, rfl⟩ := Nat.exists_eq_succ_of_ne_zero (n := m) (by omega)
    refine rounds (q := fun m' => Parser.moreItems item' m' found) hm' fun i j hij hi hi' => ?_
    refine (check_symbol (fun comma hcomma => ?_) (stay hfound)).mono (Nat.le_refl _) hi
    refine ((h found).mono (by omega) (by omega)).bind fun a ts ha => ?_
    refine (ih (by omega) (by omega) (by omega) hij (hmore _ _ _ _ _ hfound hcomma ha)).weaken ?_
    intro all vs hall
    simpa using hall

theorem itemsBefore (hfirst : ∀ a ts, one a ts → many [a] ts) {L : Phrase (List α)}
    (hnil : L [] []) (hL : ∀ all ts, many all ts → L all ts) (stop : TokenKind) :
    Prompt false n n' (Parser.itemsBefore stop item) (Parser.itemsBefore stop item') L := by
  refine check_bind fun _ => ite (pure hnil) ?_
  refine (h []).bind fun a ts ha => remaining_bind fun k k' m m' hk hk' hm hm' => ?_
  exact (moreItems h hmore (by omega) (by omega) hm hm' (hfirst a ts ha)).weaken fun _ _ => hL _ _

end Items

section Expressions

variable {nested nested' : Parser Expr}
  (h : Prompt false n n' nested nested' (Expresses .assignment))
include h

theorem grouping {s s' : ParseState} (hs : s.cursor.ahead.length ≤ n + 1)
    (hs' : s'.cursor.ahead.length ≤ n' + 1) (ht : s.cursor.current.kind = .symbol .leftParen) :
    PromptAt false s s' (Parser.grouping nested) (Parser.grouping nested')
      (Expresses .primary) := by
  refine .advance_bind hs hs' (by simp [ht]) (h.bind fun inner ts hinner => ?_)
  refine expectClosing_bind fun c hc => pure ?_
  obtain ⟨rs, hinner⟩ := hinner
  exact ⟨rs, .grouping ht hinner hc⟩

theorem primary : Prompt false (n + 1) (n' + 1) (Parser.primary nested) (Parser.primary nested')
    (Expresses .primary) := by
  refine current_bind fun s s' hs hs' => ?_
  split
  next value hliteral =>
    have hk := literal?_eq_some.1 hliteral
    refine .advance_bind hs hs' ?_ (pure ⟨[], .literal value hk⟩)
    rw [hk]
    exact value.kind_ne_eof
  next hk => exact .advance_bind hs hs' (by simp [hk]) (pure ⟨[], .var hk⟩)
  next hk => exact grouping h hs hs' hk
  next => exact failHere rfl Expresses.exists_primary s s' hs hs'

theorem argument (found : List Expr) : Prompt false n n' (Parser.argument nested found)
    (Parser.argument nested' found) (Expresses .assignment) :=
  cursor_bind fun _ _ => reportIf_bind rfl rfl h

theorem finishCall {callee : Expr} {us : List Token} {o : Token}
    (hcallee : Expresses .call callee us) (ho : o.kind = .symbol .leftParen) :
    Prompt false n n' (Parser.finishCall nested callee o.span)
      (Parser.finishCall nested' callee o.span) fun e ts => Expresses .call e (us ++ o :: ts) := by
  have hargs : Prompt false n n' (Parser.itemsBefore (.symbol .rightParen) (Parser.argument nested))
      (Parser.itemsBefore (.symbol .rightParen) (Parser.argument nested'))
      fun args ts => ∃ rs, Arguments .lenient ts args rs := by
    have hlist : ∀ args ts, (∃ rs, ArgumentList .lenient ts args rs) →
        ∃ rs, Arguments .lenient ts args rs := fun _ _ ⟨rs, hargs⟩ => ⟨rs, .some hargs⟩
    refine itemsBefore (argument h) ?_ ?_ ⟨[], .none⟩ hlist _
    · rintro found ts comma e us ⟨rs, hfound⟩ hcomma ⟨rs', he⟩
      exact ⟨_, .more hfound hcomma he⟩
    · rintro e ts ⟨rs, he⟩
      exact ⟨rs, .first he⟩
  refine hargs.bind fun args ts hargs => expectClosing_bind fun c hc => pure ?_
  obtain ⟨rs, hcallee⟩ := hcallee
  obtain ⟨rs', hargs⟩ := hargs
  exact ⟨_, .call hcallee ho hargs hc⟩

theorem calls {k k' m m' : Nat} (hn : k ≤ n + 1) (hn' : k' ≤ n' + 1) (hm : k ≤ m) (hm' : k' ≤ m')
    {callee : Expr} {us : List Token} (hcallee : Expresses .call callee us) :
    Prompt false k k' (Parser.calls nested m callee) (Parser.calls nested' m' callee)
      fun e ts => Expresses .call e (us ++ ts) := by
  induction k generalizing k' m m' callee us with
  | zero =>
    exact (stay hcallee).zero fun s hend => answer_calls_of_eof hend nested m callee
  | succ k ih =>
    obtain ⟨m, rfl⟩ := Nat.exists_eq_succ_of_ne_zero (n := m) (by omega)
    refine rounds (q := fun m' => Parser.calls nested' m' callee) hm' fun i j hij hi hi' => ?_
    refine (check_symbol (fun o ho => ?_) (stay hcallee)).mono (Nat.le_refl _) hi
    refine ((finishCall h hcallee ho).mono (by omega) (by omega)).bind fun e ts he => ?_
    refine (ih (by omega) (by omega) (by omega) hij he).weaken fun e' vs he' => ?_
    simpa using he'

theorem call : Prompt false (n + 1) (n' + 1) (Parser.call nested) (Parser.call nested')
    (Expresses .call) :=
  (primary h).bind fun _ _ hcallee => remaining_bind fun _ _ _ _ hk hk' hm hm' =>
    calls h hk hk' hm hm' (hcallee.tighter rfl)

theorem unaryUpTo {k k' m m' : Nat} (hn : k ≤ n + 1) (hn' : k' ≤ n' + 1) (hm : k ≤ m)
    (hm' : k' ≤ m') : Prompt false k k' (Parser.unaryUpTo nested m) (Parser.unaryUpTo nested' m')
      (Expresses .unary) := by
  have hcall : Prompt false (n + 1) (n' + 1) (Parser.call nested) (Parser.call nested')
      (Expresses .unary) := (call h).weaken fun _ _ he => he.tighter rfl
  induction k generalizing k' m m' with
  | zero =>
    exact (hcall.mono (Nat.zero_le _) hn').zero fun s hend => answer_unaryUpTo_of_eof hend nested m
  | succ k ih =>
    obtain ⟨m, rfl⟩ := Nat.exists_eq_succ_of_ne_zero (n := m) (by omega)
    refine rounds (q := fun m' => Parser.unaryUpTo nested' m') hm' fun i j hij hi hi' => ?_
    refine current_bind fun s s' hs hs' => ?_
    split
    next => exact hcall s s' (by omega) (by omega)
    next op hop =>
      have hk := unaryOp?_eq_some.1 hop
      refine .advance_bind hs (Nat.le_trans hs' hi) (by simp [hk]) ?_
      refine (ih (by omega) (by omega) (by omega) hij).bind fun e ts he => pure ?_
      obtain ⟨rs, he⟩ := he
      rw [List.append_nil]
      exact ⟨rs, .unary op hk he⟩

end Expressions

/-- Operators and operands to the right of what was read. -/
theorem chainUpTo {op : Type} {op? : TokenKind → Option op}
    {join : op → Span → Expr → Expr → Expr} {l l' : Level} (hjoins : Joins op? join l l')
    {operand operand' : Parser Expr} (ho : Prompt false n n' operand operand' (Expresses l'))
    {k k' m m' : Nat} (hn : k ≤ n) (hn' : k' ≤ n') (hm : k ≤ m) (hm' : k' ≤ m') {left : Expr}
    {us : List Token} (hleft : Expresses l left us) :
    Prompt false k k' (Parser.chainUpTo op? join operand m left)
      (Parser.chainUpTo op? join operand' m' left) fun e ts => Expresses l e (us ++ ts) := by
  have heof : op? .eof = none := by
    rcases h : op? .eof with _ | o
    · rfl
    · cases hjoins.level h
  induction k generalizing k' m m' left us with
  | zero =>
    exact (stay hleft).zero fun s hend => answer_chainUpTo_of_eof hend heof join operand m left
  | succ k ih =>
    obtain ⟨m, rfl⟩ := Nat.exists_eq_succ_of_ne_zero (n := m) (by omega)
    refine rounds (q := fun m' => Parser.chainUpTo op? join operand' m' left) hm'
      fun i j hij hi hi' => ?_
    refine current_bind fun s s' hs hs' => ?_
    split
    next => exact stay hleft s s' hs hs'
    next o hop =>
      refine .advance_bind hs (Nat.le_trans hs' hi) ?_ ?_
      · intro hend
        rw [hend, heof] at hop
        cases hop
      refine (ho.mono (by omega) (by omega)).bind fun right ts hright => ?_
      refine (ih (by omega) (by omega) (by omega) hij (hleft.binary hjoins hop hright)).weaken ?_
      intro e vs he
      simpa using he

theorem chain {op : Type} {op? : TokenKind → Option op} {join : op → Span → Expr → Expr → Expr}
    {l l' : Level} (hjoins : Joins op? join l l') {operand operand' : Parser Expr}
    (ho : Prompt false n n' operand operand' (Expresses l')) :
    Prompt false n n' (Parser.chain op? join operand) (Parser.chain op? join operand')
      (Expresses l) :=
  ho.bind fun _ _ hleft => remaining_bind fun _ _ _ _ hk hk' hm hm' =>
    chainUpTo hjoins ho hk hk' hm hm' (hleft.tighter hjoins.tighter)

section Expressions

variable {nested nested' : Parser Expr}
  (h : Prompt false n n' nested nested' (Expresses .assignment))
include h

theorem disjunction : Prompt false (n + 1) (n' + 1) (Parser.disjunction nested)
    (Parser.disjunction nested') (Expresses .disjunction) :=
  chain disjunction_joins <| chain conjunction_joins <| chain equality_joins <|
    chain comparison_joins <| chain term_joins <| chain factor_joins <|
      remaining_bind fun _ _ _ _ hk hk' hm hm' => unaryUpTo h hk hk' hm hm'

theorem assignment : Prompt false (n + 1) (n' + 1) (Parser.assignment nested)
    (Parser.assignment nested') (Expresses .assignment) := by
  refine (disjunction h).bind fun target ts htarget => ?_
  refine check_symbol (fun eq heq => h.bind fun value us hvalue => ?_)
    (stay (htarget.tighter rfl))
  obtain ⟨rs, htarget⟩ := htarget
  obtain ⟨rs', hvalue⟩ := hvalue
  split
  next span name =>
    obtain ⟨t, rfl, ht, rfl, -⟩ := htarget.eq_singleton_of_var (by decide) rfl
    exact pure ⟨rs', by simpa using .assign ht heq hvalue⟩
  next hn =>
    refine report_bind rfl rfl (pure ?_)
    rw [List.append_nil]
    exact ⟨_, .mistarget (by decide) htarget hn heq hvalue⟩

end Expressions

/-- A bound on nestings that is not less than the number of tokens does not matter. -/
theorem expressionUpTo {m m' : Nat} (hm : n ≤ m) (hm' : n' ≤ m') :
    Prompt false n n' (Parser.expressionUpTo m) (Parser.expressionUpTo m')
      (Expresses .assignment) := by
  induction n generalizing n' m m' with
  | zero =>
    have hfails : Prompt false 0 n' (Parser.failHere .missingExpression "expected expression")
        (Parser.failHere .missingExpression "expected expression") (Expresses .assignment) :=
      failHere rfl Expresses.exists_assignment
    exact hfails.zero fun s hend => answer_expressionUpTo_of_eof hend m
  | succ n ih =>
    obtain ⟨m, rfl⟩ := Nat.exists_eq_succ_of_ne_zero (n := m) (by omega)
    refine rounds (q := Parser.expressionUpTo) hm' fun i j hij hi _ => ?_
    exact (assignment (ih (by omega) hij)).mono (Nat.le_refl _) hi

theorem expression :
    Prompt false n n' Parser.expression Parser.expression (Expresses .assignment) :=
  remaining_bind fun _ _ _ _ _ _ hm hm' => expressionUpTo hm hm'

end Parser.Prompt

end Tarn
