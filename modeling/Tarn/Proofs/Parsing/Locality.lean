import Tarn.Proofs.Parsing.Abreast

/-! What a production does depends on the tokens it stands before. -/
namespace Tarn

open ParseError Grammar

namespace Parser

variable {α : Type} {s : ParseState}

section AtEnd

/-! At the end of the input loops stop at once, and what needs a token fails, within any bound. -/

variable (hend : s.cursor.current.kind = .eof)
include hend

theorem answer_moreItems_of_eof (item : List α → Parser α) (n : Nat) (found : List α) :
    answer (moreItems item n found) s = (.ok found, s) := by
  cases n with
  | zero => rfl
  | succ n => simp [moreItems, hend]

theorem answer_calls_of_eof (nested : Parser Expr) (n : Nat) (callee : Expr) :
    answer (calls nested n callee) s = (.ok callee, s) := by
  cases n with
  | zero => rfl
  | succ n => simp [calls, hend]

theorem answer_chainUpTo_of_eof {op : Type} {op? : TokenKind → Option op}
    (heof : op? .eof = none) (join : op → Span → Expr → Expr → Expr) (operand : Parser Expr)
    (n : Nat) (left : Expr) : answer (chainUpTo op? join operand n left) s = (.ok left, s) := by
  cases n with
  | zero => rfl
  | succ n => simp [chainUpTo, hend, heof]

theorem answer_unaryUpTo_of_eof (nested : Parser Expr) (n : Nat) :
    answer (unaryUpTo nested n) s = answer (call nested) s := by
  cases n with
  | zero => rfl
  | succ n => simp [unaryUpTo, hend, unaryOp?]

theorem answer_expressionUpTo_of_eof (n : Nat) : answer (expressionUpTo n) s =
    (.error (s.cursor.errorHere .missingExpression "expected expression"), s) := by
  cases n with
  | zero => exact answer_failHere _ _ s
  | succ n =>
    have hprimary : answer (primary (expressionUpTo n)) s =
        (.error (s.cursor.errorHere .missingExpression "expected expression"), s) := by
      simp [primary, hend, literal?]
    have hunary : answer (unary (expressionUpTo n)) s =
        (.error (s.cursor.errorHere .missingExpression "expected expression"), s) := by
      simp [unary, answer_unaryUpTo_of_eof hend, call, hprimary]
    simp [expressionUpTo, assignment, disjunction, conjunction, equality, comparison, term, factor,
      chain, hunary]

theorem answer_declarationUpTo_of_eof (n : Nat) :
    answer (declarationUpTo n) s = answer expressionStatement s := by
  cases n with
  | zero => rfl
  | succ n => simp [declarationUpTo, declarationWith, hend]

end AtEnd

namespace Alike

variable {ends last : Bool} {n : Nat}

/-- Further items, each behind a comma. -/
theorem moreItems {item item' : List α → Parser α}
    (h : ∀ found, Alike ends false n (item found) (item' found)) {k m m' : Nat} (hn : k ≤ n + 1)
    (hm : k ≤ m) (hm' : k ≤ m') (found : List α) :
    Alike ends false k (Parser.moreItems item m found) (Parser.moreItems item' m' found) := by
  induction k generalizing m m' found with
  | zero =>
    exact zero (pure found) (fun s hend => answer_moreItems_of_eof hend item m found) fun s hend =>
      answer_moreItems_of_eof hend item' m' found
  | succ k ih =>
    obtain ⟨m, rfl⟩ := Nat.exists_eq_succ_of_ne_zero (n := m) (by omega)
    obtain ⟨m', rfl⟩ := Nat.exists_eq_succ_of_ne_zero (n := m') (by omega)
    refine check_symbol (by decide) (fun _ => ?_) (pure found)
    exact ((h found).mono (by omega)).bind fun a => ih (by omega) (by omega) (by omega) _

theorem itemsBefore {item item' : List α → Parser α}
    (h : ∀ found, Alike ends false n (item found) (item' found)) (stop : TokenKind) :
    Alike ends false n (Parser.itemsBefore stop item) (Parser.itemsBefore stop item') :=
  check_bind fun _ => ite (pure []) ((h []).bind fun a => remaining_bind fun k m m' hk hm hm' =>
    moreItems h (by omega) hm hm' [a])

section Expressions

variable {nested nested' : Parser Expr} (h : Alike ends false n nested nested')
include h

theorem grouping {t : Token} (ht : t.kind = .symbol .leftParen) :
    AlikeAt ends false (n + 1) t (Parser.grouping nested) (Parser.grouping nested') :=
  .advance_bind (by simp [ht]) fun _ => h.bind fun _ =>
    (expectClosing (by decide) _ _).bind fun _ => pure _

theorem primary : Alike ends false (n + 1) (Parser.primary nested) (Parser.primary nested') := by
  have hfail {m : Nat} : Alike ends false m
      (Parser.failHere .missingExpression "expected expression" : Parser Expr)
      (Parser.failHere .missingExpression "expected expression") := failHere _ _
  refine current_bind (fun _ _ => hfail) ?_
  rintro ⟨kind, span⟩
  have hliteral (value : Literal) (hkind : ends = false → kind ≠ .symbol .semicolon) :
      AlikeAt ends false (n + 1) ⟨kind, span⟩ (do return Expr.literal (← Parser.advance) value)
        (do return Expr.literal (← Parser.advance) value) := .advance_bind hkind fun _ => pure _
  cases kind with
  | identifier name => exact .advance_bind nofun fun _ => pure _
  | string text => exact hliteral (.string text) nofun
  | number bits => exact hliteral (.number bits) nofun
  | eof => exact hfail.alikeAt _
  | keyword k =>
    cases k with
    | falseKw => exact hliteral (.bool false) nofun
    | trueKw => exact hliteral (.bool true) nofun
    | nilKw => exact hliteral .nil nofun
    | _ => exact hfail.alikeAt _
  | symbol x =>
    cases x with
    | leftParen => exact grouping h rfl
    | _ => exact hfail.alikeAt _

theorem argument (found : List Expr) :
    Alike ends false n (Parser.argument nested found) (Parser.argument nested' found) :=
  cursor_bind fun us s s' hlen hs => by
    rw [← hs.errorHere_eq]
    exact .bind hs (reportIf rfl us s s' (Nat.le_refl _) hs) fun _ => h.mono hlen

theorem finishCall (callee : Expr) (opening : Span) : Alike ends false n
    (Parser.finishCall nested callee opening) (Parser.finishCall nested' callee opening) :=
  (itemsBefore (argument h) _).bind fun _ => (expectClosing (by decide) _ _).bind fun _ => pure _

theorem calls {k m m' : Nat} (hn : k ≤ n + 1) (hm : k ≤ m) (hm' : k ≤ m') (callee : Expr) :
    Alike ends false k (Parser.calls nested m callee) (Parser.calls nested' m' callee) := by
  induction k generalizing m m' callee with
  | zero =>
    exact zero (pure callee) (fun s hend => answer_calls_of_eof hend nested m callee)
      fun s hend => answer_calls_of_eof hend nested' m' callee
  | succ k ih =>
    obtain ⟨m, rfl⟩ := Nat.exists_eq_succ_of_ne_zero (n := m) (by omega)
    obtain ⟨m', rfl⟩ := Nat.exists_eq_succ_of_ne_zero (n := m') (by omega)
    refine check_symbol (by decide) (fun opening => ?_) (pure callee)
    exact ((finishCall h callee opening).mono (by omega)).bind fun e =>
      ih (by omega) (by omega) (by omega) e

theorem call : Alike ends false (n + 1) (Parser.call nested) (Parser.call nested') :=
  (primary h).bind fun callee => remaining_bind fun _ _ _ hk hm hm' => calls h hk hm hm' callee

theorem unaryUpTo {k m m' : Nat} (hn : k ≤ n + 1) (hm : k ≤ m) (hm' : k ≤ m') :
    Alike ends false k (Parser.unaryUpTo nested m) (Parser.unaryUpTo nested' m') := by
  induction k generalizing m m' with
  | zero =>
    exact zero ((call h).mono (Nat.zero_le _)) (fun s hend => answer_unaryUpTo_of_eof hend nested m)
      fun s hend => answer_unaryUpTo_of_eof hend nested' m'
  | succ k ih =>
    obtain ⟨m, rfl⟩ := Nat.exists_eq_succ_of_ne_zero (n := m) (by omega)
    obtain ⟨m', rfl⟩ := Nat.exists_eq_succ_of_ne_zero (n := m') (by omega)
    have hcall := (call h).mono hn
    refine current_bind (fun _ _ => hcall.mono (Nat.zero_le _)) fun t => ?_
    split
    next => exact hcall.alikeAt t
    next op hop =>
      refine .advance_bind ?_ fun opSpan =>
        (ih (by omega) (by omega) (by omega)).bind fun _ => pure _
      intro _ hsemicolon
      rw [hsemicolon] at hop
      cases hop

omit h in
theorem chainUpTo {op : Type} {op? : TokenKind → Option op} (heof : op? .eof = none)
    (hsemicolon : op? (.symbol .semicolon) = none) (join : op → Span → Expr → Expr → Expr)
    {operand operand' : Parser Expr} (ho : Alike ends false n operand operand') {k m m' : Nat}
    (hn : k ≤ n) (hm : k ≤ m) (hm' : k ≤ m') (left : Expr) :
    Alike ends false k (Parser.chainUpTo op? join operand m left)
      (Parser.chainUpTo op? join operand' m' left) := by
  induction k generalizing m m' left with
  | zero =>
    exact zero (pure left) (fun s hend => answer_chainUpTo_of_eof hend heof join operand m left)
      fun s hend => answer_chainUpTo_of_eof hend heof join operand' m' left
  | succ k ih =>
    obtain ⟨m, rfl⟩ := Nat.exists_eq_succ_of_ne_zero (n := m) (by omega)
    obtain ⟨m', rfl⟩ := Nat.exists_eq_succ_of_ne_zero (n := m') (by omega)
    have hleft {i : Nat} : Alike ends false i (Pure.pure left) (Pure.pure left) := pure left
    refine current_bind (fun _ _ => ?_) fun t => ?_
    · rw [heof]
      exact hleft
    split
    next => exact hleft.alikeAt t
    next o hop =>
      refine .advance_bind ?_ fun _ => (ho.mono (by omega)).bind fun _ =>
        ih (by omega) (by omega) (by omega) _
      intro _ hk
      rw [hk, hsemicolon] at hop
      cases hop

omit h in
theorem chain {op : Type} {op? : TokenKind → Option op} (heof : op? .eof = none)
    (hsemicolon : op? (.symbol .semicolon) = none) (join : op → Span → Expr → Expr → Expr)
    {operand operand' : Parser Expr} (ho : Alike ends false n operand operand') :
    Alike ends false n (Parser.chain op? join operand) (Parser.chain op? join operand') :=
  ho.bind fun left => remaining_bind fun _ _ _ hk hm hm' =>
    chainUpTo heof hsemicolon join ho hk hm hm' left

theorem disjunction :
    Alike ends false (n + 1) (Parser.disjunction nested) (Parser.disjunction nested') :=
  chain rfl rfl _ <| chain rfl rfl _ <| chain rfl rfl _ <| chain rfl rfl _ <| chain rfl rfl _ <|
    chain rfl rfl _ <| remaining_bind fun _ _ _ hk hm hm' => unaryUpTo h hk hm hm'

theorem assignment :
    Alike ends false (n + 1) (Parser.assignment nested) (Parser.assignment nested') := by
  refine (disjunction h).bind fun target =>
    check_symbol (by decide) (fun equals => h.bind fun value => ?_) (pure target)
  split
  · exact pure _
  · exact (report rfl).bind fun _ => pure value

end Expressions

/-- A bound on nestings that is not less than the number of tokens does not matter. -/
theorem expressionUpTo {m m' : Nat} (hm : n ≤ m) (hm' : n ≤ m') :
    Alike ends false n (Parser.expressionUpTo m) (Parser.expressionUpTo m') := by
  induction n generalizing m m' with
  | zero =>
    exact zero (failHere .missingExpression "expected expression")
      (fun s hend => answer_expressionUpTo_of_eof hend m)
      fun s hend => answer_expressionUpTo_of_eof hend m'
  | succ n ih =>
    obtain ⟨m, rfl⟩ := Nat.exists_eq_succ_of_ne_zero (n := m) (by omega)
    obtain ⟨m', rfl⟩ := Nat.exists_eq_succ_of_ne_zero (n := m') (by omega)
    exact assignment (ih (by omega) (by omega))

theorem expression : Alike ends false n Parser.expression Parser.expression :=
  remaining_bind fun _ _ _ _ hm hm' => expressionUpTo hm hm'

end Alike

end Parser

end Tarn
