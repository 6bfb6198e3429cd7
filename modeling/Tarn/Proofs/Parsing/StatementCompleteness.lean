import Tarn.Proofs.Parsing.Completeness
import Tarn.Proofs.Parsing.StatementSoundness

/-! Every declaration and every program of the grammar is accepted, with its own tree and
remarks. -/
namespace Tarn

open Grammar

/-- What follows a declaration is no `else`. -/
def Grammar.Closed (rest : List Token) : Prop :=
  ∀ t rest', rest = t :: rest' → t.kind ≠ .keyword .elseKw

theorem Grammar.closed_cons {t : Token} {rest : List Token} (ht : t.kind ≠ .keyword .elseKw) :
    Closed (t :: rest) := by
  intro t' rest' heq
  obtain ⟨rfl, rfl⟩ := List.cons.inj heq
  exact ht

theorem Grammar.StartsWith.closed {ts : List Token} (h : StartsWith startsDeclaration ts) :
    Closed ts := by
  obtain ⟨t, rest, rfl, ht⟩ := h
  refine closed_cons fun hk => ?_
  rw [hk] at ht
  cases ht

theorem Grammar.ends_symbol {l : Level} {t : Token} {rest : List Token} {x : Symbol}
    (ht : t.kind = .symbol x) (hx : TokenKind.level? (.symbol x) = none) : Ends l (t :: rest) :=
  ends_of_level?_eq_none (by rw [ht, hx])

/-- No expression goes on into braces. -/
theorem Grammar.Braces.ends {mode : Mode} {inside ts body rs} {l : Level} {rest : List Token}
    (h : Braces mode inside ts body rs) : Ends l (ts ++ rest) := by
  obtain ⟨t, ts, rfl, ht⟩ := h.startsWith
  exact ends_symbol (eq_of_beq ht) rfl

namespace Parser

variable {s s' : ParseState}

/-- `p` accepts the declarations of at most `n` tokens. -/
def CompleteStatement (p : Parser Stmt) (n : Nat) : Prop :=
  ∀ {mode ts stmt rs rest s}, mode ≠ .recovering → Declaration mode s.inside ts stmt rs →
    ts.length ≤ n → s.cursor.ahead = ts ++ rest → Closed rest →
    ∃ s', Succeeds p s stmt s' ∧ s.Reads ts rs s'

theorem parameter_complete {t : Token} {rest : List Token} {name : Name} (found : List Param)
    (ht : t.kind = .identifier name) (hs : s.cursor.ahead = t :: rest) :
    ∃ s', Succeeds (parameter found) s ⟨name, t.span⟩ s' ∧ s.Reads [t]
      ((if found.length = maxEntries then [⟨.tooManyParameters, t.span⟩] else []) ++
        (if ∃ p ∈ found, p.name = name then [⟨.duplicateParameter, t.span⟩] else [])) s' := by
  obtain ⟨s₁, hmany, r₁⟩ := succeeds_reportIf (found.length = maxArity)
    (s.cursor.errorHere .tooManyParameters s!"can't have more than {maxArity} parameters") s
  have h₁ : s₁.cursor.ahead = t :: rest := r₁.rest hs
  obtain ⟨s₂, hi, r₂⟩ := succeeds_expectIdentifier h₁ ht "expected parameter name"
  obtain ⟨s₃, hdup, r₃⟩ := succeeds_reportIf (found.any (·.name == name) = true)
    ⟨.duplicateParameter, s!"duplicate parameter `{s.cursor.names.spelling name}`", t.span,
      some "already declared in this parameter list", none⟩ s₂
  refine ⟨s₃, (Succeeds.cursor s).bind (hmany.bind (hi.bind (hdup.bind (.pure _ s₃)))), ?_⟩
  have hspan := errorSpan_of_ahead hs (by simp [ht])
  have rall := r₁.trans (r₂.trans r₃)
  simp only [List.nil_append, List.append_nil, Cursor.errorHere, hspan, List.any_eq_true,
    beq_iff_eq] at rall
  exact rall

/-- After some parameters the loop that reads more has found them. -/
theorem answer_parameters {ts rest : List Token} {params : List Param} {rs : List Remark}
    (hp : ParameterList ts params rs) (hs : s.cursor.ahead = ts ++ rest) :
    ∃ s₁ m, s.Reads ts rs s₁ ∧ s₁.cursor.ahead.length ≤ m ∧
      answer (commaSeparated parameter) s = answer (moreItems parameter m params) s₁ := by
  induction hp generalizing rest with
  | first ht =>
    obtain ⟨s₁, hp, r₁⟩ := parameter_complete [] ht hs
    exact ⟨s₁, _, by simpa [maxEntries] using r₁, Nat.le_refl _,
      (hp.answer_bind _).trans ((Succeeds.remaining s₁).answer_bind _)⟩
  | @more ts c t found name rs _ hc ht ih =>
    have hs : s.cursor.ahead = ts ++ c :: t :: rest := by simpa using hs
    obtain ⟨s₁, m, r₁, hm, heq⟩ := ih hs
    have h₁ : s₁.cursor.ahead = c :: t :: rest := r₁.rest hs
    obtain ⟨s₂, hadv, r₂⟩ := succeeds_advance h₁ (by simp [hc])
    obtain ⟨s₃, hp, r₃⟩ := parameter_complete found ht (r₂.rest h₁)
    obtain ⟨m, rfl, hrounds⟩ := (r₂.trans r₃).exists_rounds hm
    refine ⟨s₃, m, ?_, hrounds, ?_⟩
    · simpa using r₁.trans (r₂.trans r₃)
    · rw [heq, moreItems, (Succeeds.check _ s₁).answer_bind,
        (check_symbol_of_ahead h₁ .comma).2 hc]
      exact (hadv.answer_bind _).trans (hp.answer_bind _)

theorem parameters_complete {ts rest : List Token} {c : Token} {params : List Param}
    {rs : List Remark} (hp : Parameters ts params rs) (hs : s.cursor.ahead = ts ++ c :: rest)
    (hc : c.kind = .symbol .rightParen) :
    ∃ s', Succeeds (itemsBefore (.symbol .rightParen) parameter) s params s' ∧
      s.Reads ts rs s' := by
  cases hp with
  | none =>
    refine ⟨s, (Succeeds.check _ s).bind (.ite_pos ?_ (.pure _ s)), .refl s⟩
    exact (check_symbol_of_ahead hs _).2 hc
  | some hp =>
    obtain ⟨s₁, m, r₁, -, heq⟩ := answer_parameters hp hs
    have h₁ := r₁.rest hs
    refine ⟨s₁, (Succeeds.check _ s).bind (.ite_neg ?_ ?_), r₁⟩
    · obtain ⟨t, ts, rfl, ht⟩ := hp.startsWith
      rw [check_symbol_of_ahead hs]
      intro hk
      rw [hk] at ht
      cases ht
    · rw [Succeeds, heq]
      refine moreItems_of_ne_comma _ _ _ ?_
      rw [check_symbol_of_ahead h₁, hc]
      simp

variable {mode : Mode}

/-- An optional expression is accepted before a symbol that no expression starts with or contains
at its end. -/
theorem expressionBefore_complete {ts rest : List Token} {t : Token} {x : Symbol}
    {value : Option Expr} {rs : List Remark} (he : OptionalExpression mode ts value rs)
    (hs : s.cursor.ahead = ts ++ t :: rest) (ht : t.kind = .symbol x)
    (hx : TokenKind.level? (.symbol x) = none)
    (hstart : TokenKind.startsExpression (.symbol x) = false) :
    ∃ s', Succeeds (expressionBefore (.symbol x)) s value s' ∧ s.Reads ts rs s' := by
  cases he with
  | none =>
    refine ⟨s, (Succeeds.check _ s).bind (.ite_pos ?_ (.pure _ s)), .refl s⟩
    exact (check_symbol_of_ahead hs _).2 ht
  | some he =>
    obtain ⟨s₁, hv, r₁⟩ := Complete.expression he hs (ends_symbol ht hx)
    refine ⟨s₁, (Succeeds.check _ s).bind (.ite_neg ?_ (hv.map some)), r₁⟩
    obtain ⟨t', ts, rfl, ht'⟩ := he.startsWith
    rw [check_symbol_of_ahead hs]
    intro hk
    rw [hk, hstart] at ht'
    cases ht'

theorem variableDeclaration_complete {ts rest : List Token} {stmt : Stmt} {rs : List Remark}
    (hv : VariableDeclaration mode ts stmt rs) (hs : s.cursor.ahead = ts ++ rest) :
    ∃ s', Succeeds variableDeclaration s stmt s' ∧ s.Reads ts rs s' := by
  cases hv with
  | @plain v n c name hv hn hc =>
    obtain ⟨s₁, ha, r₁⟩ := succeeds_advance hs (by simp [hv])
    have h₁ : s₁.cursor.ahead = n :: c :: rest := r₁.rest hs
    obtain ⟨s₂, hi, r₂⟩ := succeeds_expectIdentifier h₁ hn "expected variable name"
    have h₂ : s₂.cursor.ahead = c :: rest := r₂.rest h₁
    obtain ⟨s₃, hx, r₃⟩ := succeeds_expect h₂ hc "expected `;` after variable declaration"
    refine ⟨s₃, ha.bind (hi.bind (.bind ?_ (hx.bind (.pure _ s₃)))), r₁.trans (r₂.trans r₃)⟩
    refine (Succeeds.check _ s₂).bind (.ite_neg ?_ (.pure none s₂))
    rw [check_symbol_of_ahead h₂, hc]
    simp
  | @initialized v n eq ts c name e rs hv hn heq he hc =>
    obtain ⟨s₁, ha, r₁⟩ := succeeds_advance hs (by simp [hv])
    have h₁ : s₁.cursor.ahead = n :: eq :: (ts ++ c :: rest) := r₁.rest (by simpa using hs)
    obtain ⟨s₂, hi, r₂⟩ := succeeds_expectIdentifier h₁ hn "expected variable name"
    have h₂ : s₂.cursor.ahead = eq :: (ts ++ c :: rest) := r₂.rest h₁
    obtain ⟨s₃, ha', r₃⟩ := succeeds_advance h₂ (by simp [heq])
    have h₃ : s₃.cursor.ahead = ts ++ c :: rest := r₃.rest h₂
    obtain ⟨s₄, hv, r₄⟩ := Complete.expression he h₃ (ends_symbol hc rfl)
    obtain ⟨s₅, hx, r₅⟩ := succeeds_expect (r₄.rest h₃) hc
      "expected `;` after variable declaration"
    refine ⟨s₅, ha.bind (hi.bind (.bind ?_ (hx.bind (.pure _ s₅)))),
      by simpa using r₁.trans (r₂.trans (r₃.trans (r₄.trans r₅)))⟩
    exact (Succeeds.check _ s₂).bind
      (.ite_pos ((check_symbol_of_ahead h₂ _).2 heq) (ha'.bind (hv.map some)))

theorem expressionStatement_complete {ts rest : List Token} {stmt : Stmt} {rs : List Remark}
    (he : ExpressionStatement mode ts stmt rs) (hs : s.cursor.ahead = ts ++ rest) :
    ∃ s', Succeeds expressionStatement s stmt s' ∧ s.Reads ts rs s' := by
  obtain @⟨ts, c, e, rs, he, hc⟩ := he
  have hs : s.cursor.ahead = ts ++ c :: rest := by simpa using hs
  obtain ⟨s₁, hv, r₁⟩ := Complete.expression he hs (ends_symbol hc rfl)
  obtain ⟨s₂, hx, r₂⟩ := succeeds_expect (r₁.rest hs) hc "expected `;` after expression"
  exact ⟨s₂, hv.bind (hx.bind (.pure _ s₂)), by simpa using r₁.trans r₂⟩

theorem forInitializer_complete {ts rest : List Token} {stmt : Option Stmt} {rs : List Remark}
    (hi : Initializer mode ts stmt rs) (hs : s.cursor.ahead = ts ++ rest) :
    ∃ s', Succeeds forInitializer s stmt s' ∧ s.Reads ts rs s' := by
  cases hi with
  | none hc =>
    obtain ⟨s₁, ha, r₁⟩ := succeeds_advance hs (by simp [hc])
    refine ⟨s₁, (Succeeds.current s).bind ?_, r₁⟩
    rw [Cursor.current_of_ahead hs, hc]
    exact ha.bind (.pure none s₁)
  | var hv =>
    obtain ⟨s₁, hd, r₁⟩ := variableDeclaration_complete hv hs
    refine ⟨s₁, (Succeeds.current s).bind ?_, r₁⟩
    obtain ⟨t, ts, rfl, ht⟩ := hv.startsWith
    rw [Cursor.current_of_ahead hs, eq_of_beq ht]
    exact hd.map some
  | expression he =>
    obtain ⟨s₁, hx, r₁⟩ := expressionStatement_complete he hs
    refine ⟨s₁, (Succeeds.current s).bind ?_, r₁⟩
    obtain ⟨t, ts, rfl, ht⟩ := he.startsWith
    rw [Cursor.current_of_ahead hs]
    split
    next hk => rw [hk] at ht; cases ht
    next hk => rw [hk] at ht; cases ht
    next => exact hx.map some

theorem printStatement_complete {p c : Token} {ts rest : List Token} {e : Expr}
    {rs : List Remark} (hp : p.kind = .keyword .printKw)
    (he : Expression mode .assignment ts e rs) (hc : c.kind = .symbol .semicolon)
    (hs : s.cursor.ahead = p :: (ts ++ c :: rest)) :
    ∃ s', Succeeds printStatement s (.print (p.span.merge c.span) e) s' ∧
      s.Reads (p :: (ts ++ [c])) rs s' := by
  obtain ⟨s₁, ha, r₁⟩ := succeeds_advance hs (by simp [hp])
  have h₁ : s₁.cursor.ahead = ts ++ c :: rest := r₁.rest hs
  obtain ⟨s₂, hv, r₂⟩ := Complete.expression he h₁ (ends_symbol hc rfl)
  obtain ⟨s₃, hx, r₃⟩ := succeeds_expect (r₂.rest h₁) hc "expected `;` after value"
  exact ⟨s₃, ha.bind (hv.bind (hx.bind (.pure _ s₃))),
    by simpa using r₁.trans (r₂.trans r₃)⟩

theorem returnStatement_complete {r c : Token} {ts rest : List Token} {value : Option Expr}
    {rs : List Remark} (hr : r.kind = .keyword .returnKw)
    (hv : OptionalExpression mode ts value rs) (hc : c.kind = .symbol .semicolon)
    (hs : s.cursor.ahead = r :: (ts ++ c :: rest)) :
    ∃ s', Succeeds returnStatement s (.result (r.span.merge c.span) r.span value) s' ∧
      s.Reads (r :: (ts ++ [c]))
        ((if s.inside then [] else [⟨.returnOutsideFunction, r.span⟩]) ++ rs) s' := by
  obtain ⟨s₁, ha, r₁⟩ := succeeds_advance hs (by simp [hr])
  obtain ⟨s₂, hreport, r₂⟩ := succeeds_reportIf (s₁.functionDepth = 0)
    ⟨.returnOutsideFunction, "cannot return from top-level code", r.span,
      some "not inside a function", none⟩ s₁
  have h₂ : s₂.cursor.ahead = ts ++ c :: rest := r₂.rest (r₁.rest hs)
  obtain ⟨s₃, hvalue, r₃⟩ := expressionBefore_complete hv h₂ hc rfl rfl
  obtain ⟨s₄, hx, r₄⟩ := succeeds_expect (r₃.rest h₂) hc "expected `;` after return value"
  refine ⟨s₄, ha.bind ((Succeeds.get s₁).bind (hreport.bind (hvalue.bind
    (hx.bind (.pure _ s₄))))), ?_⟩
  have rall := r₁.trans (r₂.trans (r₃.trans r₄))
  simp only [List.nil_append, List.append_nil] at rall
  have hreport :
      (if s₁.functionDepth = 0 then [(⟨.returnOutsideFunction, r.span⟩ : Remark)] else []) =
      if s.inside then [] else [⟨.returnOutsideFunction, r.span⟩] := by
    rw [r₁.functionDepth, ParseState.inside]
    by_cases h : s.functionDepth = 0
    · simp [h]
    · simp [h, Nat.pos_of_ne_zero h]
  rw [hreport] at rall
  exact rall

/-- The loop over declarations finds those of `ts` first, and goes on behind them. -/
theorem declarationsUpTo_goesOn {declaration : Parser Stmt} {n : Nat}
    (h : CompleteStatement declaration n) (hmode : mode ≠ .recovering) (stops : Cursor → Bool)
    (hstops : ∀ c : Cursor, startsDeclaration c.current.kind = true → stops c = false)
    {rest : List Token} (hrest : Closed rest) {m : Nat} (found : List Stmt) {ts : List Token}
    {stmts : List Stmt} {rs : List Remark} (hd : Declarations mode s.inside ts stmts rs)
    (hn : ts.length ≤ n) (hm : ts.length ≤ m) (hs : s.cursor.ahead = ts ++ rest) :
    ∃ s' m', s.Reads ts rs s' ∧ m ≤ ts.length + m' ∧
      declarationsUpTo stops declaration m found s =
        declarationsUpTo stops declaration m' (found ++ stmts) s' := by
  induction m generalizing s found ts stmts rs with
  | zero =>
    cases hd with
    | nil => exact ⟨s, 0, .refl s, Nat.le_refl _, by rw [List.append_nil]⟩
    | cons hd _ =>
      have := List.length_pos_of_ne_nil hd.ne_nil
      simp at hm
      simp [hm] at this
    | dropped hr => exact absurd hr hmode
  | succ m ih =>
    cases hd with
    | nil => exact ⟨s, m + 1, .refl s, by simp, by rw [List.append_nil]⟩
    | dropped hr => exact absurd hr hmode
    | @cons _ ts ts' stmt stmts rs rs' hd hds =>
      have hpos := List.length_pos_of_ne_nil hd.ne_nil
      rw [List.length_append] at hn hm
      have hs : s.cursor.ahead = ts ++ (ts' ++ rest) := by simpa using hs
      have hgo : (stops s.cursor || s.cursor.atEnd) = false := by
        obtain ⟨t, ts, rfl, ht⟩ := hd.startsWith
        rw [← Cursor.current_of_ahead hs] at ht
        rw [hstops _ ht, Bool.false_or, Cursor.atEnd]
        refine beq_false_of_ne fun heof => ?_
        rw [heof] at ht
        cases ht
      have hnext : Closed (ts' ++ rest) := by
        cases hds with
        | nil => exact hrest
        | cons hd' _ => exact ((hd'.startsWith.append _).append _).closed
        | dropped hr => exact absurd hr hmode
      obtain ⟨s₁, hstmt, r₁⟩ := h hmode hd (by omega) hs hnext
      rw [← r₁.inside] at hds
      obtain ⟨s₂, m', r₂, hm', hloop⟩ := ih (found ++ [stmt]) hds (by omega) (by omega)
        (r₁.rest hs)
      refine ⟨s₂, m', r₁.trans r₂, by rw [List.length_append]; omega, ?_⟩
      rw [declarationsUpTo_of_goes hgo, recovering_eq, show answer declaration s = _ from hstmt]
      simpa using hloop

/-- The loop over declarations finds those of `ts`, if it is stopped behind them only. -/
theorem declarationsUpTo_complete {declaration : Parser Stmt} {n : Nat}
    (h : CompleteStatement declaration n) (hmode : mode ≠ .recovering) (stops : Cursor → Bool)
    (hstops : ∀ c : Cursor, startsDeclaration c.current.kind = true → stops c = false)
    {rest : List Token} (hrest : Closed rest)
    (hend : ∀ c : Cursor, c.ahead = rest → (stops c || c.atEnd) = true) {m : Nat}
    (found : List Stmt) {ts : List Token} {stmts : List Stmt} {rs : List Remark}
    (hd : Declarations mode s.inside ts stmts rs) (hn : ts.length ≤ n) (hm : ts.length ≤ m)
    (hs : s.cursor.ahead = ts ++ rest) :
    ∃ s', declarationsUpTo stops declaration m found s = (found ++ stmts, s') ∧
      s.Reads ts rs s' := by
  obtain ⟨s', m', hr, -, hloop⟩ :=
    declarationsUpTo_goesOn h hmode stops hstops hrest found hd hn hm hs
  rw [hloop, declarationsUpTo_of_stops (hend _ (hr.rest hs))]
  exact ⟨s', rfl, hr⟩

/-- The loop over the declarations of a block stops before the closing brace. -/
theorem check_rightBrace_of_ahead {c : Token} {rest : List Token}
    (hc : c.kind = .symbol .rightBrace) {cursor : Cursor} (h : cursor.ahead = c :: rest) :
    (cursor.check (.symbol .rightBrace) || cursor.atEnd) = true := by
  rw [(Cursor.check_symbol _ _).2 (by rw [Cursor.current_of_ahead h, hc]), Bool.true_or]

/-- A block, from the run of the loop over its declarations. -/
theorem succeeds_block {nested : Parser Stmt} {o c : Token} {ts rest : List Token}
    {es : List ParseError} {stmts : List Stmt} {s₂ : ParseState} (message : String)
    (ho : o.kind = .symbol .leftBrace) (hc : c.kind = .symbol .rightBrace)
    (hs : s.cursor.ahead = o :: (ts ++ c :: rest))
    (hbody : declarationsUpTo (·.check (.symbol .rightBrace)) nested
      s.cursor.advance.ahead.length []
      { s with cursor := s.cursor.advance, blockDepth := s.blockDepth + 1 } = (stmts, s₂))
    (hp : { s with cursor := s.cursor.advance, blockDepth := s.blockDepth + 1 }.Passes ts es s₂) :
    ∃ s', Succeeds (block nested message) s ⟨o.span.merge c.span, stmts⟩ s' ∧
      s.Passes (o :: (ts ++ [c])) es s' := by
  have p₁ := ParseState.Passes.advance_of_ahead hs (by simp [ho])
  have p₂ : { s with cursor := s.cursor.advance }.Passes ts es
      { s₂ with blockDepth := s₂.blockDepth - 1 } := hp.leaveBraces
  have hopen : Succeeds (expect (.symbol .leftBrace) message) s o.span
      { s with cursor := s.cursor.advance } := by
    rw [Succeeds, answer_expect, if_pos ((check_symbol_of_ahead hs _).2 ho),
      Cursor.current_of_ahead hs]
  have hbraces : Succeeds (inBraces (declarationsUpTo (·.check (.symbol .rightBrace)) nested
      s.cursor.advance.ahead.length [])) { s with cursor := s.cursor.advance } stmts
      { s₂ with blockDepth := s₂.blockDepth - 1 } := by
    rw [Succeeds, answer_inBraces, hbody]
  obtain ⟨s₃, hclose, r₃⟩ := succeeds_expectClosing (p₂.reads.rest (p₁.reads.rest hs)) hc o.span
    "expected `\x7d` after block"
  exact ⟨s₃, hopen.bind ((Succeeds.remaining _).bind (hbraces.bind (hclose.bind (.pure _ s₃)))),
    by simpa using p₁.trans (p₂.trans r₃.passes)⟩

section Statements

variable {nested : Parser Stmt} {n : Nat} (h : CompleteStatement nested n)
  (hmode : mode ≠ .recovering)
include h hmode

theorem block_complete {ts rest : List Token} {body : Block} {rs : List Remark} (message : String)
    (hb : Braces mode s.inside ts body rs) (hn : ts.length ≤ n + 1)
    (hs : s.cursor.ahead = ts ++ rest) :
    ∃ s', Succeeds (block nested message) s body s' ∧ s.Reads ts rs s' := by
  obtain @⟨_, o, ts, c, stmts, rs, ho, hd, hc⟩ := hb
  simp only [List.length_append, List.length_cons] at hn
  have hs : s.cursor.ahead = o :: (ts ++ c :: rest) := by simpa using hs
  have h₁ : s.cursor.advance.ahead = ts ++ c :: rest :=
    (ParseState.Passes.advance_of_ahead hs (by simp [ho])).reads.rest hs
  have hstops (c : Cursor) (hk : startsDeclaration c.current.kind = true) :
      c.check (.symbol .rightBrace) = false := by
    refine Bool.eq_false_iff.2 fun hcheck => ?_
    rw [(Cursor.check_symbol _ _).1 hcheck] at hk
    cases hk
  obtain ⟨s₂, hbody, r₂⟩ := declarationsUpTo_complete
    (s := { s with cursor := s.cursor.advance, blockDepth := s.blockDepth + 1 }) h hmode _ hstops
    (closed_cons (by simp [hc])) (fun _ => check_rightBrace_of_ahead hc) [] hd (by omega)
    (m := s.cursor.advance.ahead.length) (by rw [h₁, List.length_append]; omega) h₁
  obtain ⟨es, hpasses, rfl⟩ := r₂.exists_passes
  obtain ⟨s₃, hblock, p₃⟩ := succeeds_block message ho hc hs hbody hpasses
  exact ⟨s₃, hblock, p₃.reads⟩

theorem function_complete {f i o c : Token} {ts ts' rest : List Token} {name : Name}
    {params : List Param} {body : Block} {rs rs' : List Remark} (hf : f.kind = .keyword .funKw)
    (hi : i.kind = .identifier name) (ho : o.kind = .symbol .leftParen)
    (hp : Parameters ts params rs) (hc : c.kind = .symbol .rightParen)
    (hb : Braces mode true ts' body rs') (hn : ts'.length ≤ n + 1)
    (hs : s.cursor.ahead = f :: i :: o :: (ts ++ c :: (ts' ++ rest))) :
    ∃ s', Succeeds (function nested) s
        (.function (f.span.merge body.span) ⟨name, i.span, params, body⟩) s' ∧
      s.Reads (f :: i :: o :: (ts ++ c :: ts')) (rs ++ rs') s' := by
  obtain ⟨s₁, hfun, r₁⟩ := succeeds_advance hs (by simp [hf])
  have h₁ : s₁.cursor.ahead = i :: o :: (ts ++ c :: (ts' ++ rest)) := r₁.rest hs
  obtain ⟨s₂, hname, r₂⟩ := succeeds_expectIdentifier h₁ hi "expected function name"
  have h₂ : s₂.cursor.ahead = o :: (ts ++ c :: (ts' ++ rest)) := r₂.rest h₁
  obtain ⟨s₃, hopen, r₃⟩ := succeeds_expect h₂ ho "expected `(` after function name"
  have h₃ : s₃.cursor.ahead = ts ++ c :: (ts' ++ rest) := r₃.rest h₂
  obtain ⟨s₄, hparams, r₄⟩ := parameters_complete hp h₃ hc
  have h₄ : s₄.cursor.ahead = c :: (ts' ++ rest) := r₄.rest h₃
  obtain ⟨s₅, hclose, r₅⟩ := succeeds_expectClosing h₄ hc o.span "expected `)` after parameters"
  have hinside : ParseState.inside { s₅ with functionDepth := s₅.functionDepth + 1 } = true := by
    simp [ParseState.inside]
  rw [← hinside] at hb
  obtain ⟨s₆, hbody, r₆⟩ := block_complete h hmode "expected `\x7b` before function body" hb hn
    (s := { s₅ with functionDepth := s₅.functionDepth + 1 }) (r₅.rest h₄)
  have r₆' : s₅.Reads ts' rs' { s₆ with functionDepth := s₆.functionDepth - 1 } :=
    ⟨r₆.ahead, r₆.consumed, r₆.real, r₆.names, r₆.errors, by simp [r₆.functionDepth],
      r₆.blockDepth⟩
  have hin : Succeeds (inFunction (block nested "expected `\x7b` before function body")) s₅ body
      { s₆ with functionDepth := s₆.functionDepth - 1 } := by
    rw [Succeeds, answer_inFunction, show answer (block nested _) _ = _ from hbody]
  refine ⟨_, hfun.bind (hname.bind (hopen.bind (hparams.bind (hclose.bind (hin.bind
    (.pure _ _)))))), ?_⟩
  simpa using r₁.trans (r₂.trans (r₃.trans (r₄.trans (r₅.trans r₆'))))

theorem otherwise_complete {ts rest : List Token} {other : Option Block} {rs : List Remark}
    (ho : Otherwise mode s.inside ts other rs) (hn : ts.length ≤ n + 1)
    (hs : s.cursor.ahead = ts ++ rest) (hrest : Closed rest) :
    ∃ s', Succeeds (otherwise nested) s other s' ∧ s.Reads ts rs s' := by
  cases ho with
  | none =>
    refine ⟨s, (Succeeds.check _ s).bind (.ite_neg ?_ (.pure none s)), .refl s⟩
    rw [Cursor.check_keyword]
    rcases rest with _ | ⟨t, rest⟩
    · simp [Cursor.current, show s.cursor.ahead = [] from hs, Token.ofKind]
    · rw [Cursor.current_of_ahead hs]
      exact hrest t rest rfl
  | @block _ e ts body rs he hb =>
    obtain ⟨s₁, ha, r₁⟩ := succeeds_advance hs (by simp [he])
    have h₁ : s₁.cursor.ahead = ts ++ rest := r₁.rest hs
    obtain ⟨t, ts, rfl, ht⟩ := hb.startsWith
    rw [← r₁.inside] at hb
    simp only [List.length_cons] at hn
    obtain ⟨s₂, hblock, r₂⟩ := block_complete h hmode "expected `\x7b` after `else`" hb
      (by simp only [List.length_cons]; omega) h₁
    refine ⟨s₂, (Succeeds.check _ s).bind (.ite_pos ((check_keyword_of_ahead hs _).2 he)
      (ha.bind (.map some ?_))), r₁.trans r₂⟩
    refine (Succeeds.check _ s₁).bind (.ite_neg ?_ hblock)
    rw [check_keyword_of_ahead h₁, eq_of_beq ht]
    simp
  | @chained _ e ts stmt rs he hc =>
    obtain ⟨s₁, ha, r₁⟩ := succeeds_advance hs (by simp [he])
    have h₁ : s₁.cursor.ahead = ts ++ rest := r₁.rest hs
    obtain ⟨t, ts, rfl, ht⟩ := hc.startsWith
    rw [← r₁.inside] at hc
    simp only [List.length_cons] at hn
    obtain ⟨s₂, hstmt, r₂⟩ := h hmode (.conditional hc)
      (by simp only [List.length_cons]; omega) h₁ hrest
    refine ⟨s₂, (Succeeds.check _ s).bind (.ite_pos ((check_keyword_of_ahead hs _).2 he)
      (ha.bind (.map some ?_))), r₁.trans r₂⟩
    exact (Succeeds.check _ s₁).bind (.ite_pos
      ((check_keyword_of_ahead h₁ _).2 (eq_of_beq ht)) (hstmt.bind (.pure _ s₂)))

theorem conditional_complete {ts rest : List Token} {stmt : Stmt} {rs : List Remark}
    (hc : Conditional mode s.inside ts stmt rs) (hn : ts.length ≤ n + 1)
    (hs : s.cursor.ahead = ts ++ rest) (hrest : Closed rest) :
    ∃ s', Succeeds (conditional nested) s stmt s' ∧ s.Reads ts rs s' := by
  obtain @⟨_, i, ts, ts', ts₁, e, thenBranch, elseBranch, rs, rs', rs₁, hi, he, hb, ho⟩ := hc
  simp only [List.length_append, List.length_cons] at hn
  obtain ⟨s₁, ha, r₁⟩ := succeeds_advance hs (by simp [hi])
  have h₁ : s₁.cursor.ahead = ts ++ (ts' ++ (ts₁ ++ rest)) := r₁.rest (by simpa using hs)
  obtain ⟨s₂, hcond, r₂⟩ := Complete.expression he h₁ hb.ends
  have h₂ := r₂.rest h₁
  rw [← r₁.inside, ← r₂.inside] at hb ho
  obtain ⟨s₃, hthen, r₃⟩ := block_complete h hmode "expected `\x7b` after if condition" hb
    (by omega) h₂
  rw [← r₃.inside] at ho
  obtain ⟨s₄, helse, r₄⟩ := otherwise_complete h hmode ho (by omega) (r₃.rest h₂) hrest
  exact ⟨s₄, ha.bind (hcond.bind (hthen.bind (helse.bind (.pure _ s₄)))),
    r₁.trans (r₂.trans (r₃.trans r₄))⟩

theorem whileLoop_complete {w : Token} {ts ts' rest : List Token} {e : Expr} {body : Block}
    {rs rs' : List Remark} (hw : w.kind = .keyword .whileKw)
    (he : Expression mode .assignment ts e rs) (hb : Braces mode s.inside ts' body rs')
    (hn : ts'.length ≤ n + 1) (hs : s.cursor.ahead = w :: (ts ++ (ts' ++ rest))) :
    ∃ s', Succeeds (whileLoop nested) s (.loop (w.span.merge body.span) e body) s' ∧
      s.Reads (w :: (ts ++ ts')) (rs ++ rs') s' := by
  obtain ⟨s₁, ha, r₁⟩ := succeeds_advance hs (by simp [hw])
  have h₁ : s₁.cursor.ahead = ts ++ (ts' ++ rest) := r₁.rest hs
  obtain ⟨s₂, hcond, r₂⟩ := Complete.expression he h₁ hb.ends
  rw [← r₁.inside, ← r₂.inside] at hb
  obtain ⟨s₃, hbody, r₃⟩ := block_complete h hmode "expected `\x7b` after while condition" hb hn
    (r₂.rest h₁)
  exact ⟨s₃, ha.bind (hcond.bind (hbody.bind (.pure _ s₃))), r₁.trans (r₂.trans r₃)⟩

theorem forLoop_complete {f c : Token} {ts ts₁ ts₂ ts₃ rest : List Token}
    {initializer : Option Stmt} {condition increment : Option Expr} {body : Block}
    {rs rs₁ rs₂ rs₃ : List Remark} (hf : f.kind = .keyword .forKw)
    (hi : Initializer mode ts initializer rs) (hcond : OptionalExpression mode ts₁ condition rs₁)
    (hc : c.kind = .symbol .semicolon) (hincr : OptionalExpression mode ts₂ increment rs₂)
    (hb : Braces mode s.inside ts₃ body rs₃) (hn : ts₃.length ≤ n + 1)
    (hs : s.cursor.ahead = f :: (ts ++ (ts₁ ++ c :: (ts₂ ++ (ts₃ ++ rest))))) :
    ∃ s', Succeeds (forLoop nested) s
        (forTree (f.span.merge body.span) initializer condition c.span increment body) s' ∧
      s.Reads (f :: (ts ++ (ts₁ ++ c :: (ts₂ ++ ts₃)))) (rs ++ (rs₁ ++ (rs₂ ++ rs₃))) s' := by
  obtain ⟨s₁, ha, r₁⟩ := succeeds_advance hs (by simp [hf])
  have h₁ : s₁.cursor.ahead = ts ++ (ts₁ ++ c :: (ts₂ ++ (ts₃ ++ rest))) := r₁.rest hs
  obtain ⟨s₂, hinit, r₂⟩ := forInitializer_complete hi h₁
  have h₂ : s₂.cursor.ahead = ts₁ ++ c :: (ts₂ ++ (ts₃ ++ rest)) := r₂.rest h₁
  obtain ⟨s₃, hcondition, r₃⟩ := expressionBefore_complete hcond h₂ hc rfl rfl
  have h₃ : s₃.cursor.ahead = c :: (ts₂ ++ (ts₃ ++ rest)) := r₃.rest h₂
  obtain ⟨s₄, hsemi, r₄⟩ := succeeds_expect h₃ hc "expected `;` after loop condition"
  have h₄ : s₄.cursor.ahead = ts₂ ++ (ts₃ ++ rest) := r₄.rest h₃
  obtain ⟨t, ts₃', hts₃, ht⟩ := hb.startsWith
  obtain ⟨s₅, hincrement, r₅⟩ := expressionBefore_complete hincr
    (by rw [h₄, hts₃]; rfl) (eq_of_beq ht) rfl rfl
  rw [← r₁.inside, ← r₂.inside, ← r₃.inside, ← r₄.inside, ← r₅.inside] at hb
  obtain ⟨s₆, hbody, r₆⟩ := block_complete h hmode "expected `\x7b` after for clauses" hb hn
    (r₅.rest h₄)
  obtain ⟨s₇, hlog, r₇⟩ := succeeds_log
    (.forLoop initializer.isSome condition.isSome increment.isSome) s₆
  refine ⟨s₇, ha.bind (hinit.bind (hcondition.bind (hsemi.bind (hincrement.bind (hbody.bind
    (hlog.bind ?_)))))), ?_⟩
  · refine succeeds_pure.2 ⟨?_, rfl⟩
    cases increment <;> rfl
  · simpa using r₁.trans (r₂.trans (r₃.trans (r₄.trans (r₅.trans (r₆.trans r₇)))))

end Statements

/-- What does not start with a word or a brace is an expression statement. -/
theorem declarationWith_of_expression {nested : Parser Stmt} {t : Token} {rest : List Token}
    (hs : s.cursor.ahead = t :: rest) (ht : t.kind.startsExpression = true) {stmt : Stmt}
    (h : Succeeds expressionStatement s stmt s') :
    Succeeds (declarationWith nested) s stmt s' := by
  refine (Succeeds.current s).bind ?_
  rw [Cursor.current_of_ahead hs]
  split
  case h_9 => exact h
  all_goals
    next hk =>
      rw [hk] at ht
      cases ht

theorem declarationWith_complete {nested : Parser Stmt} {n : Nat}
    (h : CompleteStatement nested n) : CompleteStatement (declarationWith nested) (n + 1) := by
  intro mode ts stmt rs rest s hmode hd hn hs hrest
  cases hd with
  | @function _ f i o ts c ts' name params body rs rs' hf hi ho hp hc hb =>
    simp only [List.length_append, List.length_cons] at hn
    have hs' : s.cursor.ahead = f :: i :: o :: (ts ++ c :: (ts' ++ rest)) := by simpa using hs
    obtain ⟨s', hfun, hr⟩ := function_complete h hmode hf hi ho hp hc hb (by omega) hs'
    refine ⟨s', (Succeeds.current s).bind ?_, hr⟩
    rw [Cursor.current_of_ahead hs, hf]
    exact hfun
  | var hv =>
    obtain ⟨s', hvar, hr⟩ := variableDeclaration_complete hv hs
    refine ⟨s', (Succeeds.current s).bind ?_, hr⟩
    obtain ⟨t, ts, rfl, ht⟩ := hv.startsWith
    rw [Cursor.current_of_ahead hs, eq_of_beq ht]
    exact hvar
  | expression he =>
    obtain ⟨s', hx, hr⟩ := expressionStatement_complete he hs
    obtain ⟨t, ts, rfl, ht⟩ := he.startsWith
    exact ⟨s', declarationWith_of_expression hs ht hx, hr⟩
  | @forLoop _ f ts ts₁ c ts₂ ts₃ initializer condition increment body rs rs₁ rs₂ rs₃ hf hi hcond
      hc hincr hb =>
    simp only [List.length_append, List.length_cons] at hn
    have hs' : s.cursor.ahead = f :: (ts ++ (ts₁ ++ c :: (ts₂ ++ (ts₃ ++ rest)))) := by
      simpa using hs
    obtain ⟨s', hfor, hr⟩ := forLoop_complete h hmode hf hi hcond hc hincr hb (by omega) hs'
    refine ⟨s', (Succeeds.current s).bind ?_, hr⟩
    rw [Cursor.current_of_ahead hs, hf]
    exact hfor
  | conditional hc =>
    obtain ⟨s', hif, hr⟩ := conditional_complete h hmode hc hn hs hrest
    refine ⟨s', (Succeeds.current s).bind ?_, hr⟩
    obtain ⟨t, ts, rfl, ht⟩ := hc.startsWith
    rw [Cursor.current_of_ahead hs, eq_of_beq ht]
    exact hif
  | print hp he hc =>
    obtain ⟨s', hprint, hr⟩ := printStatement_complete hp he hc (by simpa using hs)
    refine ⟨s', (Succeeds.current s).bind ?_, hr⟩
    rw [Cursor.current_of_ahead hs, hp]
    exact hprint
  | result hk hv hc =>
    obtain ⟨s', hreturn, hr⟩ := returnStatement_complete hk hv hc (by simpa using hs)
    refine ⟨s', (Succeeds.current s).bind ?_, hr⟩
    rw [Cursor.current_of_ahead hs, hk]
    exact hreturn
  | @whileLoop _ w ts ts' e body rs rs' hw he hb =>
    simp only [List.length_append, List.length_cons] at hn
    have hs' : s.cursor.ahead = w :: (ts ++ (ts' ++ rest)) := by simpa using hs
    obtain ⟨s', hwhile, hr⟩ := whileLoop_complete h hmode hw he hb (by omega) hs'
    refine ⟨s', (Succeeds.current s).bind ?_, hr⟩
    rw [Cursor.current_of_ahead hs, hw]
    exact hwhile
  | block hb =>
    obtain ⟨s', hblock, hr⟩ := block_complete h hmode "expected `\x7b`" hb hn hs
    refine ⟨s', (Succeeds.current s).bind ?_, hr⟩
    obtain ⟨t, ts, rfl, ht⟩ := hb.startsWith
    rw [Cursor.current_of_ahead hs, eq_of_beq ht]
    exact hblock.map _

theorem declarationUpTo_complete (n : Nat) : CompleteStatement (declarationUpTo n) n := by
  induction n with
  | zero =>
    intro mode ts stmt rs rest s _ hd hn
    exact absurd (List.length_eq_zero_iff.1 (by omega)) hd.ne_nil
  | succ n ih => exact declarationWith_complete ih

theorem declaration_complete (n : Nat) : CompleteStatement declaration n := by
  intro mode ts stmt rs rest s hmode hd hn hs hrest
  have hm : ts.length ≤ s.cursor.ahead.length := by
    rw [hs, List.length_append]
    omega
  obtain ⟨s', h, hr⟩ := declarationUpTo_complete _ hmode hd hm hs hrest
  exact ⟨s', (Succeeds.remaining s).bind h, hr⟩

/-- Every program of the grammar is accepted with its own tree and remarks. -/
theorem program_complete {mode : Mode} (hmode : mode ≠ .recovering) {ts rest : List Token}
    {stmts : List Stmt} {rs : List Remark} (hd : Declarations mode s.inside ts stmts rs)
    (hs : s.cursor.ahead = ts ++ rest)
    (hrest : ∀ t rest', rest = t :: rest' → t.kind = .eof) :
    ∃ s', program s = (stmts, s') ∧ s.Reads ts rs s' := by
  have hclosed : Closed rest := fun t rest' heq => by simp [hrest t rest' heq]
  have hend (c : Cursor) (hc : c.ahead = rest) : (false || c.atEnd) = true := by
    rw [Bool.false_or, Cursor.atEnd_iff]
    rcases rest with _ | ⟨t, rest⟩
    · simp [Cursor.current, hc, Token.ofKind]
    · rw [Cursor.current_of_ahead hc]
      exact hrest t rest rfl
  have hlen : ts.length ≤ s.cursor.ahead.length := by
    rw [hs, List.length_append]
    omega
  obtain ⟨s', hloop, hr⟩ := declarationsUpTo_complete (declaration_complete ts.length) hmode
    (fun _ => false) (fun _ _ => rfl) hclosed hend [] hd (Nat.le_refl _) hlen hs
  exact ⟨s', hloop, hr⟩

end Parser

end Tarn
