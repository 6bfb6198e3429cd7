import Tarn.Proofs.Likeness.Parallel
import Tarn.Proofs.Likeness.Trees
import Tarn.Proofs.Parsing.Steps

/-! Parsing lists of tokens that are alike. The statements are alike, and so are the errors. -/
namespace Tarn

/-- Places may be joined, and cut down to where they start. -/
structure Likeness.Closed (L : Likeness) : Prop where
  merge {a a' b b'} (h : L.place a a') (h' : L.place b b') : L.place (a.merge b) (a'.merge b')
  point {a a'} (h : L.place a a') : L.place (Span.point a.start) (Span.point a'.start)

variable (L : Likeness)

/-- The two errors say the same of places that are alike, and both are matters of the parser. -/
structure ParseError.Alike (e e' : ParseError) : Prop where
  code : e.code = e'.code
  message : e.message = e'.message
  span : L.place e.span e'.span
  context : e.context = e'.context
  related : Option.Rel (fun r r' => L.place r.1 r'.1 ∧ r.2 = r'.2) e.related e'.related
  phase : e.code.phase = .parser

structure Cursor.Alike (c c' : Cursor) : Prop where
  spelling {n n'} (h : L.name n n') : c.names.spelling n = c'.names.spelling n'
  consumed : List.Forall₂ (Token.Alike L) c.consumed c'.consumed
  ahead : List.Forall₂ (Token.Alike L) c.ahead c'.ahead
  /-- The end of file ahead has a place of its own, or else that of no text. -/
  ends : (∃ t ∈ c.ahead, t.kind = .eof) ∨ L.place Span.nowhere Span.nowhere

structure ParseState.Alike (s s' : ParseState) : Prop where
  cursor : Cursor.Alike L s.cursor s'.cursor
  errors : List.Forall₂ (ParseError.Alike L) s.errors.toList s'.errors.toList
  functionDepth : s.functionDepth = s'.functionDepth
  blockDepth : s.blockDepth = s'.blockDepth

variable {L}

/-- An error of the parser at two places. -/
theorem ParseError.Alike.at {code : ErrorCode} (hcode : code.phase = .parser) (message : String)
    {place place' : Span} (h : L.place place place') (context : Option String) :
    ParseError.Alike L { code, message, span := place, context }
      { code, message, span := place', context } :=
  ⟨rfl, rfl, h, rfl, .none, hcode⟩

namespace Cursor.Alike

variable {c c' : Cursor} (h : Cursor.Alike L c c')
include h

theorem current : Token.Alike L c.current c'.current := by
  obtain ⟨names, consumed, ahead⟩ := c
  obtain ⟨names', consumed', ahead'⟩ := c'
  cases h.ahead with
  | nil =>
    refine ⟨.eof, h.ends.resolve_left ?_⟩
    rintro ⟨t, ht, -⟩
    cases ht
  | cons ht _ => exact ht

theorem check_eq (kind : TokenKind) : c.check kind = c'.check kind := by
  rw [check, check, TokenKind.sameShape, TokenKind.sameShape, h.current.kind.index_eq]

theorem atEnd_eq : c.atEnd = c'.atEnd := by
  rw [Bool.eq_iff_iff, atEnd_iff, atEnd_iff]
  exact h.current.kind.eof_iff

theorem position_eq : c.position = c'.position := h.consumed.length_eq

theorem advance : Cursor.Alike L c.advance c'.advance := by
  obtain ⟨names, consumed, ahead⟩ := c
  obtain ⟨names', consumed', ahead'⟩ := c'
  cases hahead : h.ahead with
  | nil => exact h
  | @cons t t' rest rest' ht hrest =>
    have heof := ht.kind.eof_iff
    unfold Cursor.advance
    by_cases hend : t.kind = .eof
    · simp only [hend, heof.1 hend, if_true]
      exact h
    · simp only [hend, mt heof.2 hend, if_false]
      refine ⟨h.spelling, .cons ht h.consumed, hrest, h.ends.imp_left ?_⟩
      rintro ⟨u, hu, hkind⟩
      obtain rfl | hu := List.mem_cons.1 hu
      · exact absurd hkind hend
      · exact ⟨u, hu, hkind⟩

theorem previousSpan (hne : c.consumed.isEmpty = false) :
    L.place c.previousSpan c'.previousSpan := by
  obtain ⟨names, consumed, ahead⟩ := c
  obtain ⟨names', consumed', ahead'⟩ := c'
  cases h.consumed with
  | nil => cases hne
  | cons ht _ => exact ht.span

theorem errorSpan : L.place c.errorSpan c'.errorSpan := by
  have hempty : c.consumed.isEmpty = c'.consumed.isEmpty := by
    rw [Bool.eq_iff_iff, List.isEmpty_iff_length_eq_zero, List.isEmpty_iff_length_eq_zero,
      h.consumed.length_eq]
  rw [Cursor.errorSpan, Cursor.errorSpan, ← h.atEnd_eq, ← hempty]
  split
  next hlast =>
    simp only [Bool.and_eq_true, Bool.not_eq_true'] at hlast
    exact h.previousSpan hlast.2
  next => exact h.current.span

theorem describe_eq : c.describe = c'.describe := by
  have hkind := h.current.kind
  rw [describe, describe]
  generalize c.current.kind = k at hkind ⊢
  generalize c'.current.kind = k' at hkind ⊢
  cases hkind with
  | identifier hn =>
    dsimp only
    rw [h.spelling hn]
  | _ => rfl

theorem errorHere {code : ErrorCode} (hcode : code.phase = .parser) (message : String) :
    ParseError.Alike L (c.errorHere code message) (c'.errorHere code message) :=
  ⟨rfl, rfl, h.errorSpan, by rw [Cursor.errorHere, Cursor.errorHere, h.describe_eq], .none, hcode⟩

end Cursor.Alike

namespace Cursor

theorem skip_alike (recovery : KindSet) {names names' : NameTable}
    (hspelling : ∀ {n n'}, L.name n n' → names.spelling n = names'.spelling n')
    {consumed consumed' ahead ahead' : List Token}
    (hconsumed : List.Forall₂ (Token.Alike L) consumed consumed')
    (hahead : List.Forall₂ (Token.Alike L) ahead ahead')
    (hends : (∃ t ∈ ahead, t.kind = .eof) ∨ L.place Span.nowhere Span.nowhere) :
    Cursor.Alike L (skip recovery names consumed ahead).2
      (skip recovery names' consumed' ahead').2 := by
  induction hahead generalizing consumed consumed' with
  | nil => exact ⟨hspelling, hconsumed, .nil, hends⟩
  | @cons t t' rest rest' ht hrest ih =>
    have hrecovery : recovery.contains t.kind = recovery.contains t'.kind := by
      simp only [KindSet.contains, TokenKind.sameShape, ht.kind.index_eq]
    have hends' (hne : t.kind ≠ .eof) :
        (∃ t ∈ rest, t.kind = .eof) ∨ L.place Span.nowhere Span.nowhere := by
      refine hends.imp_left ?_
      rintro ⟨u, hu, hkind⟩
      obtain rfl | hu := List.mem_cons.1 hu
      · exact absurd hkind hne
      · exact ⟨u, hu, hkind⟩
    unfold skip
    rw [← hrecovery]
    simp only [← ht.kind.eof_iff, ← ht.kind.symbol_iff]
    split
    · exact ⟨hspelling, hconsumed, .cons ht hrest, hends⟩
    next heof =>
      split
      · exact ⟨hspelling, hconsumed, .cons ht hrest, hends⟩
      split
      · exact ⟨hspelling, .cons ht hconsumed, hrest, hends' heof⟩
      · exact ih (.cons ht hconsumed) (hends' heof)

theorem Alike.synchronize {c c' : Cursor} (h : Cursor.Alike L c c') (recovery : KindSet)
    (start : Nat) :
    Cursor.Alike L (c.synchronize recovery start).2 (c'.synchronize recovery start).2 := by
  have hadvance := h.advance
  unfold Cursor.synchronize
  rw [← h.position_eq, ← h.atEnd_eq]
  simp only [← h.current.kind.symbol_iff]
  split
  · split
    · exact hadvance
    · exact skip_alike recovery h.spelling hadvance.consumed hadvance.ahead hadvance.ends
  · exact skip_alike recovery h.spelling h.consumed h.ahead h.ends

end Cursor

namespace Parser

variable {α β γ δ : Type}

/-- From alike states the two parsers end alike. -/
abbrev Agree (L : Likeness) (P : α → β → Prop) (p : Parser α) (q : Parser β) : Prop :=
  Parallel (ParseState.Alike L) (ParseError.Alike L) P p q

namespace Agree

theorem cursor : Agree L (Cursor.Alike L) Parser.cursor Parser.cursor :=
  Parallel.get.bind fun hs => .pure hs.cursor

theorem current : Agree L (Token.Alike L) Parser.current Parser.current :=
  cursor.bind fun hc => .pure hc.current

theorem check (kind : TokenKind) : Agree L Eq (Parser.check kind) (Parser.check kind) :=
  cursor.bind fun hc => .pure (hc.check_eq kind)

theorem remaining : Agree L Eq Parser.remaining Parser.remaining :=
  cursor.bind fun hc => .pure hc.ahead.length_eq

theorem setCursor {c c' : Cursor} (h : Cursor.Alike L c c') :
    Agree L (fun _ _ => True) (Parser.setCursor c) (Parser.setCursor c') :=
  .update fun hs => ⟨h, hs.errors, hs.functionDepth, hs.blockDepth⟩

theorem advance : Agree L L.place Parser.advance Parser.advance :=
  cursor.bind fun hc => (setCursor hc.advance).bind fun _ => .pure hc.current.span

theorem report {e e' : ParseError} (h : ParseError.Alike L e e') :
    Agree L (fun _ _ => True) (Parser.report e) (Parser.report e') := by
  refine .update fun {s s'} hs => ⟨hs.cursor, ?_, hs.functionDepth, hs.blockDepth⟩
  simp only [Array.toList_push]
  exact List.rel_append hs.errors (.cons h .nil)

theorem reportIf {p p' : Prop} [Decidable p] [Decidable p'] (hp : p ↔ p') {e e' : ParseError}
    (h : ParseError.Alike L e e') :
    Agree L (fun _ _ => True) (Parser.reportIf p e) (Parser.reportIf p' e') :=
  .ite hp (report h) (.pure trivial)

theorem log (e e' : ParseEvent) :
    Agree L (fun _ _ => True) (Parser.log e) (Parser.log e') :=
  .update fun hs => ⟨hs.cursor, hs.errors, hs.functionDepth, hs.blockDepth⟩

theorem failHere {P : α → β → Prop} {code : ErrorCode} (hcode : code.phase = .parser)
    (message : String) :
    Agree L P (Parser.failHere code message) (Parser.failHere code message) :=
  cursor.bind fun hc => .throw (hc.errorHere hcode message)

theorem phase_missingCode (kind : TokenKind) : (Cursor.missingCode kind).phase = .parser := by
  unfold Cursor.missingCode
  split <;> rfl

/-- What `expect` makes of a cursor. -/
theorem expected {c c' : Cursor} (h : Cursor.Alike L c c') (kind : TokenKind) (message : String) :
    EndsAlike (ParseError.Alike L) (fun r r' => Token.Alike L r.1 r'.1 ∧ Cursor.Alike L r.2 r'.2)
      (c.expect kind message) (c'.expect kind message) := by
  rw [Cursor.expect, Cursor.expect, ← h.check_eq kind]
  split
  · exact .ok ⟨h.current, h.advance⟩
  · exact .error (h.errorHere (phase_missingCode kind) message)

theorem expect (kind : TokenKind) (message : String) :
    Agree L L.place (Parser.expect kind message) (Parser.expect kind message) := by
  refine cursor.bind fun {c c'} hc => ?_
  have hends := expected hc kind message
  generalize c.expect kind message = x at hends ⊢
  generalize c'.expect kind message = y at hends ⊢
  cases hends with
  | ok h => exact (setCursor h.2).bind fun _ => .pure h.1.span
  | error h => exact .throw h

theorem expectClosing (kind : TokenKind) {opening opening' : Span} (ho : L.place opening opening')
    (message : String) : Agree L L.place (Parser.expectClosing kind opening message)
      (Parser.expectClosing kind opening' message) := by
  refine cursor.bind fun {c c'} hc => ?_
  have hends := expected hc kind message
  generalize c.expect kind message = x at hends ⊢
  generalize c'.expect kind message = y at hends ⊢
  cases hends with
  | ok h => exact (setCursor h.2).bind fun _ => .pure h.1.span
  | error h => exact .throw ⟨h.code, h.message, h.span, h.context, .some ⟨ho, rfl⟩, h.phase⟩

theorem expectIdentifier (message : String) :
    Agree L (fun r r' => L.name r.1 r'.1 ∧ L.place r.2 r'.2) (Parser.expectIdentifier message)
      (Parser.expectIdentifier message) := by
  refine cursor.bind fun {c c'} hc => ?_
  have hkind := hc.current.kind
  have herror : ParseError.Alike L (c.errorHere .missingIdentifier message)
      (c'.errorHere .missingIdentifier message) := hc.errorHere rfl message
  simp only [Cursor.expectIdentifier]
  generalize c.current.kind = k at hkind ⊢
  generalize c'.current.kind = k' at hkind ⊢
  cases hkind with
  | identifier hn =>
    exact (setCursor hc.advance).bind fun _ => .pure ⟨hn, hc.current.span⟩
  | _ => exact .throw herror

theorem moreItems {P : α → β → Prop} {item : List α → Parser α} {item' : List β → Parser β}
    (h : ∀ {found found'}, List.Forall₂ P found found' → Agree L P (item found) (item' found'))
    (n : Nat) {found : List α} {found' : List β} (hfound : List.Forall₂ P found found') :
    Agree L (List.Forall₂ P) (Parser.moreItems item n found)
      (Parser.moreItems item' n found') := by
  induction n generalizing found found' with
  | zero => exact .pure hfound
  | succ n ih =>
    unfold Parser.moreItems
    refine (check _).bind ?_
    rintro more _ rfl
    exact .ite Iff.rfl (advance.bind fun _ => (h hfound).bind fun ha =>
      ih (List.rel_append hfound (.cons ha .nil))) (.pure hfound)

theorem itemsBefore {P : α → β → Prop} {item : List α → Parser α} {item' : List β → Parser β}
    (h : ∀ {found found'}, List.Forall₂ P found found' → Agree L P (item found) (item' found'))
    (stop : TokenKind) : Agree L (List.Forall₂ P) (Parser.itemsBefore stop item)
      (Parser.itemsBefore stop item') := by
  refine (check stop).bind ?_
  rintro stops _ rfl
  refine .ite Iff.rfl (.pure .nil) ((h .nil).bind fun ha => remaining.bind ?_)
  rintro n _ rfl
  exact moreItems h n (.cons ha .nil)

section Expressions

variable (hL : L.Closed) {nested : Parser Expr} (h : Agree L (Expr.Alike L) nested nested)
include hL h

theorem grouping : Agree L (Expr.Alike L) (Parser.grouping nested) (Parser.grouping nested) :=
  advance.bind fun ho => h.bind fun he => (expectClosing _ ho _).bind fun hc =>
    .pure (.grouping (hL.merge ho hc) he)

theorem primary : Agree L (Expr.Alike L) (Parser.primary nested) (Parser.primary nested) := by
  have hliteral {v v' : Literal} (hv : Literal.Alike L v v') : Agree L (Expr.Alike L)
      (do return .literal (← Parser.advance) v) (do return .literal (← Parser.advance) v') :=
    advance.bind fun hp => .pure (.literal hp hv)
  have hfail : Agree L (Expr.Alike L)
      (Parser.failHere .missingExpression "expected expression")
      (Parser.failHere .missingExpression "expected expression") := failHere rfl _
  refine current.bind fun {t t'} ht => ?_
  obtain ⟨kind, span⟩ := t
  obtain ⟨kind', span'⟩ := t'
  cases ht.kind with
  | identifier hn => exact advance.bind fun hp => .pure (.var hp hn)
  | string hn => exact hliteral (.string hn)
  | number bits => exact hliteral (.number bits)
  | eof => exact hfail
  | keyword k =>
    cases k with
    | falseKw => exact hliteral (.bool false)
    | trueKw => exact hliteral (.bool true)
    | nilKw => exact hliteral .nil
    | _ => exact hfail
  | symbol s =>
    cases s with
    | leftParen => exact grouping hL h
    | _ => exact hfail

omit hL in
theorem argument {found found' : List Expr} (hfound : List.Forall₂ (Expr.Alike L) found found') :
    Agree L (Expr.Alike L) (Parser.argument nested found) (Parser.argument nested found') :=
  cursor.bind fun hc =>
    (reportIf (by rw [hfound.length_eq]) (hc.errorHere rfl _)).bind fun _ => h

theorem finishCall {callee callee' : Expr} (hcallee : Expr.Alike L callee callee')
    {opening opening' : Span} (ho : L.place opening opening') : Agree L (Expr.Alike L)
      (Parser.finishCall nested callee opening) (Parser.finishCall nested callee' opening') :=
  (itemsBefore (argument h) _).bind fun hargs => (expectClosing _ ho _).bind fun hc =>
    .pure (.call (hL.merge hcallee.span hc) hcallee hc (Expr.allAlike_of_forall₂ hargs))

theorem calls (n : Nat) {callee callee' : Expr} (hcallee : Expr.Alike L callee callee') :
    Agree L (Expr.Alike L) (Parser.calls nested n callee) (Parser.calls nested n callee') := by
  induction n generalizing callee callee' with
  | zero => exact .pure hcallee
  | succ n ih =>
    refine (check _).bind ?_
    rintro more _ rfl
    exact .ite Iff.rfl (advance.bind fun ho => (finishCall hL h hcallee ho).bind ih)
      (.pure hcallee)

theorem call : Agree L (Expr.Alike L) (Parser.call nested) (Parser.call nested) := by
  refine (primary hL h).bind fun hcallee => remaining.bind ?_
  rintro n _ rfl
  exact calls hL h n hcallee

theorem unaryUpTo (n : Nat) :
    Agree L (Expr.Alike L) (Parser.unaryUpTo nested n) (Parser.unaryUpTo nested n) := by
  induction n with
  | zero => exact call hL h
  | succ n ih =>
    refine current.bind fun {t t'} ht => ?_
    have hop : unaryOp? t.kind = unaryOp? t'.kind := by
      obtain ⟨kind, span⟩ := t
      obtain ⟨kind', span'⟩ := t'
      cases ht.kind <;> rfl
    rw [← hop]
    split
    · exact call hL h
    · exact advance.bind fun ho => ih.bind fun he => .pure (.unary _ (hL.merge ho he.span) ho he)

omit hL h in
theorem chainUpTo {op : Type} {op? : TokenKind → Option op}
    (hop : ∀ {k k'}, TokenKind.Alike L k k' → op? k = op? k')
    {join : op → Span → Expr → Expr → Expr}
    (hjoin : ∀ o {p p' a a' b b'}, L.place p p' → Expr.Alike L a a' → Expr.Alike L b b' →
      Expr.Alike L (join o p a b) (join o p' a' b'))
    {operand : Parser Expr} (ho : Agree L (Expr.Alike L) operand operand) (n : Nat)
    {left left' : Expr} (hleft : Expr.Alike L left left') : Agree L (Expr.Alike L)
      (Parser.chainUpTo op? join operand n left) (Parser.chainUpTo op? join operand n left') := by
  induction n generalizing left left' with
  | zero => exact .pure hleft
  | succ n ih =>
    refine current.bind fun {t t'} ht => ?_
    rw [← hop ht.kind]
    split
    · exact .pure hleft
    · exact advance.bind fun hp => ho.bind fun hright => ih (hjoin _ hp hleft hright)

omit hL h in
theorem chain {op : Type} (op? : TokenKind → Option op)
    (hop : ∀ {k k'}, TokenKind.Alike L k k' → op? k = op? k')
    {join : op → Span → Expr → Expr → Expr}
    (hjoin : ∀ o {p p' a a' b b'}, L.place p p' → Expr.Alike L a a' → Expr.Alike L b b' →
      Expr.Alike L (join o p a b) (join o p' a' b'))
    {operand : Parser Expr} (ho : Agree L (Expr.Alike L) operand operand) :
    Agree L (Expr.Alike L) (Parser.chain op? join operand) (Parser.chain op? join operand) := by
  refine ho.bind fun hleft => remaining.bind ?_
  rintro n _ rfl
  exact chainUpTo hop hjoin ho n hleft

theorem disjunction :
    Agree L (Expr.Alike L) (Parser.disjunction nested) (Parser.disjunction nested) := by
  have hbinary (o : BinaryOp) {p p' a a' b b'} (hp : L.place p p') (ha : Expr.Alike L a a')
      (hb : Expr.Alike L b b') : Expr.Alike L (joinBinary o p a b) (joinBinary o p' a' b') :=
    .binary o (hL.merge ha.span hb.span) hp ha hb
  have hlogical (o : LogicalOp) {p p' a a' b b'} (hp : L.place p p') (ha : Expr.Alike L a a')
      (hb : Expr.Alike L b b') : Expr.Alike L (joinLogical o p a b) (joinLogical o p' a' b') :=
    .logical o (hL.merge ha.span hb.span) hp ha hb
  have hunary : Agree L (Expr.Alike L) (Parser.unary nested) (Parser.unary nested) := by
    refine remaining.bind ?_
    rintro n _ rfl
    exact unaryUpTo hL h n
  have hfactor := chain factorOp? (fun hk => by cases hk <;> rfl) hbinary hunary
  have hterm := chain termOp? (fun hk => by cases hk <;> rfl) hbinary hfactor
  have hcomparison :=
    chain comparisonOp? (fun hk => by cases hk <;> rfl) hbinary hterm
  have hequality :=
    chain equalityOp? (fun hk => by cases hk <;> rfl) hbinary hcomparison
  have hconjunction :=
    chain andOp? (fun hk => by cases hk <;> rfl) hlogical hequality
  exact chain orOp? (fun hk => by cases hk <;> rfl) hlogical hconjunction

theorem assignment :
    Agree L (Expr.Alike L) (Parser.assignment nested) (Parser.assignment nested) := by
  refine (disjunction hL h).bind fun {target target'} htarget => (check _).bind ?_
  rintro assigns _ rfl
  refine .ite Iff.rfl (advance.bind fun hequals => h.bind fun hvalue => ?_) (.pure htarget)
  have hreport {e e' : ParseError} (he : ParseError.Alike L e e') :=
    (report he).bind fun _ => Parallel.pure (E := ParseError.Alike L) hvalue
  cases htarget with
  | var hp hn => exact .pure (.assign (hL.merge hp hvalue.span) hn hp hvalue)
  | _ => exact hreport (.at rfl _ hequals _)

end Expressions

variable (hL : L.Closed)
include hL

theorem expressionUpTo (n : Nat) :
    Agree L (Expr.Alike L) (Parser.expressionUpTo n) (Parser.expressionUpTo n) := by
  induction n with
  | zero => exact failHere rfl _
  | succ n ih => exact assignment hL ih

theorem expression : Agree L (Expr.Alike L) Parser.expression Parser.expression := by
  refine remaining.bind ?_
  rintro n _ rfl
  exact expressionUpTo hL n

end Agree

end Parser

end Tarn
