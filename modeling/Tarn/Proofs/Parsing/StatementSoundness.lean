import Tarn.Proofs.Parsing.Soundness

/-! Statements and whole programs derive from the tokens that were consumed. Declarations that
failed are the tokens that the recovering grammar drops. -/
namespace Tarn

open Grammar

/-- Whether the body of a function is being read. -/
def ParseState.inside (s : ParseState) : Bool := 0 < s.functionDepth

theorem ParseState.Reads.inside {s s' : ParseState} {ts rs} (h : s.Reads ts rs s') :
    s'.inside = s.inside := by
  rw [ParseState.inside, h.functionDepth, ParseState.inside]

theorem ParseState.Reads.current {s s' : ParseState} {t ts rs} (h : s.Reads (t :: ts) rs s') :
    s.cursor.current = t := Cursor.current_of_ahead h.ahead

namespace Parser

variable {s s' : ParseState}

/-- What `p` returns are declarations, as the grammar has them. -/
def SoundStatement (p : Parser Stmt) : Prop :=
  ∀ {s stmt s'}, Succeeds p s stmt s' →
    ∃ ts rs, s.Reads ts rs s' ∧ Declaration .recovering s.inside ts stmt rs

/-- One declaration more, or the tokens of one that has failed, which are dropped. -/
theorem recovering_sound {declaration : Parser Stmt} (h : SoundStatement declaration)
    (hf : Composed declaration) (hend : s.cursor.atEnd = false) :
    ∃ ts rs, s.Reads ts rs (recovering declaration s).2 ∧ ts ≠ [] ∧
      ∀ {ts' stmts rs'}, Declarations .recovering s.inside ts' stmts rs' →
        Declarations .recovering s.inside (ts ++ ts')
          ((recovering declaration s).1.toList ++ stmts) (rs ++ rs') := by
  rw [recovering_eq]
  rcases ha : answer declaration s with ⟨e | stmt, s₁⟩
  · obtain ⟨ts, rs, hr, hts, hfatal⟩ := reads_recovered hf.forward hend ha
    exact ⟨ts, _, hr, hts, fun hd => by simpa using .dropped rfl hts hfatal hd⟩
  · obtain ⟨ts, rs, hr, hd⟩ := h ha
    exact ⟨ts, rs, hr, hd.ne_nil, .cons hd⟩

/-- A list of declarations ends where it is stopped or at the end of the tokens. -/
theorem declarationsUpTo_sound {declaration : Parser Stmt} (h : SoundStatement declaration)
    (hf : Composed declaration) (stops : Cursor → Bool) {n : Nat} (found : List Stmt)
    (hn : s.cursor.ahead.length ≤ n) :
    ∃ ts rs stmts, (declarationsUpTo stops declaration n found s).1 = found ++ stmts ∧
      s.Reads ts rs (declarationsUpTo stops declaration n found s).2 ∧
      Declarations .recovering s.inside ts stmts rs ∧
      (stops (declarationsUpTo stops declaration n found s).2.cursor = true ∨
        (declarationsUpTo stops declaration n found s).2.cursor.atEnd = true) := by
  induction n generalizing s found with
  | zero =>
    have hnil : s.cursor.ahead = [] := by simpa using hn
    rw [declarationsUpTo_zero]
    exact ⟨[], [], [], by simp, .refl s, .nil,
      .inr (by simp [Cursor.atEnd, Cursor.current, hnil, Token.ofKind])⟩
  | succ n ih =>
    rcases hgoes : stops s.cursor || s.cursor.atEnd with _ | _
    · obtain ⟨ts, rs, hr, hts, hcons⟩ := recovering_sound h hf (Bool.or_eq_false_iff.1 hgoes).2
      have hlength := hr.length
      have hpos := List.length_pos_of_ne_nil hts
      have hmore : (recovering declaration s).2.cursor.ahead.length ≤ n := by omega
      obtain ⟨ts', rs', stmts, hstmts, hr', hd, hend⟩ :=
        ih (found ++ (recovering declaration s).1.toList) hmore
      rw [hr.inside] at hd
      rw [declarationsUpTo_of_goes hgoes]
      exact ⟨_, _, _, by simpa using hstmts, hr.trans hr', hcons hd, hend⟩
    · rw [declarationsUpTo_of_stops hgoes]
      exact ⟨[], [], [], by simp, .refl s, .nil, Bool.or_eq_true_iff.1 hgoes⟩

namespace Succeeds

theorem inBraces {stops : Cursor → Bool} {nested : Parser Stmt} {n : Nat} {stmts : List Stmt}
    (hs : Succeeds (Parser.inBraces (declarationsUpTo stops nested n [])) s stmts s')
    (h : SoundStatement nested) (hf : Composed nested) (hn : s.cursor.ahead.length ≤ n) :
    ∃ ts rs, s.Reads ts rs s' ∧ Declarations .recovering s.inside ts stmts rs := by
  obtain ⟨hstmts, rfl⟩ := Prod.mk.inj (show (_, _) = _ from hs)
  obtain ⟨ts, rs, stmts', heq, hr, hd, -⟩ := declarationsUpTo_sound h hf stops []
    (s := { s with blockDepth := s.blockDepth + 1 }) hn
  obtain rfl : stmts' = stmts := heq.symm.trans (Except.ok.inj hstmts)
  exact ⟨ts, rs, hr.leaveBraces, hd⟩

theorem inFunction {α : Type} {p : Parser α} {a : α} (hs : Succeeds (Parser.inFunction p) s a s') :
    ∃ s₁, Succeeds p { s with functionDepth := s.functionDepth + 1 } a s₁ ∧
      s' = { s₁ with functionDepth := s₁.functionDepth - 1 } := by
  rw [Succeeds, answer_inFunction] at hs
  obtain ⟨ha, rfl⟩ := Prod.mk.inj hs
  exact ⟨_, Prod.ext ha rfl, rfl⟩

end Succeeds

/-- One more parameter, with the remarks if it is one too many or a duplicate. -/
theorem parameter_sound {found : List Param} {p : Param}
    (hs : Succeeds (parameter found) s p s') :
    ∃ t name, t.kind = .identifier name ∧ p = ⟨name, t.span⟩ ∧ s.Reads [t]
      ((if found.length = maxEntries then [⟨.tooManyParameters, t.span⟩] else []) ++
        (if ∃ p ∈ found, p.name = name then [⟨.duplicateParameter, t.span⟩] else [])) s' := by
  simp only [parameter, succeeds_bind, succeeds_cursor, succeeds_pure] at hs
  obtain ⟨_, _, ⟨rfl, rfl⟩, _, s₁, hmany, ⟨name, span⟩, s₂, hi, _, s₃, hdup, rfl, rfl⟩ := hs
  obtain ⟨t, htk, rfl, rt⟩ := hi.expectIdentifier
  have rmany := hmany.reportIf
  have rdup := hdup.reportIf
  have hahead : s.cursor.current = t := (rmany.trans rt).current
  have hspan : s.cursor.errorSpan = t.span := by
    simp [Cursor.errorSpan, Cursor.atEnd, hahead, htk]
  refine ⟨t, name, htk, rfl, ?_⟩
  have rall := rmany.trans (rt.trans rdup)
  simp only [List.nil_append, List.append_nil, Cursor.errorHere, hspan, List.any_eq_true,
    beq_iff_eq] at rall
  exact rall

theorem moreParameters_sound {n : Nat} {found params : List Param} {ts : List Token}
    {rs : List Remark} (hs : Succeeds (moreItems parameter n found) s params s')
    (hf : ParameterList ts found rs) :
    ∃ ts' rs', s.Reads ts' rs' s' ∧ ParameterList (ts ++ ts') params (rs ++ rs') := by
  induction n generalizing s found ts rs with
  | zero =>
    obtain ⟨rfl, rfl⟩ := succeeds_pure.1 hs
    exact ⟨[], [], .refl s, by simpa using hf⟩
  | succ n ih =>
    simp only [moreItems, succeeds_bind, succeeds_check] at hs
    obtain ⟨_, _, ⟨rfl, rfl⟩, hs⟩ := hs
    split at hs
    next hk =>
      simp only [succeeds_bind] at hs
      obtain ⟨_, s₁, hc, p, s₂, hp, hs⟩ := hs
      obtain ⟨c, hck, -, rc⟩ := hc.advance_symbol ((Cursor.check_symbol _ _).1 hk)
      obtain ⟨t, name, htk, rfl, rp⟩ := parameter_sound hp
      obtain ⟨ts', rs', rm, dm⟩ := ih hs (.more hf hck htk)
      exact ⟨_, _, rc.trans (rp.trans rm), by simpa using dm⟩
    next =>
      obtain ⟨rfl, rfl⟩ := succeeds_pure.1 hs
      exact ⟨[], [], .refl s, by simpa using hf⟩

theorem parameters_sound {params : List Param}
    (hs : Succeeds (itemsBefore (.symbol .rightParen) parameter) s params s') :
    ∃ ts rs, s.Reads ts rs s' ∧ Parameters ts params rs := by
  simp only [itemsBefore, succeeds_bind, succeeds_check] at hs
  obtain ⟨_, _, ⟨rfl, rfl⟩, hs⟩ := hs
  split at hs
  · obtain ⟨rfl, rfl⟩ := succeeds_pure.1 hs
    exact ⟨[], [], .refl s, .none⟩
  · simp only [commaSeparated, succeeds_bind, succeeds_remaining] at hs
    obtain ⟨p, s₁, hp, _, _, ⟨rfl, rfl⟩, hs⟩ := hs
    obtain ⟨t, name, htk, rfl, rp⟩ := parameter_sound hp
    obtain ⟨ts', rs', rm, dm⟩ := moreParameters_sound hs (.first htk)
    exact ⟨_, _, rp.trans rm, by simpa [maxEntries] using .some dm⟩

theorem expressionBefore_sound {stop : TokenKind} {value : Option Expr}
    (hs : Succeeds (expressionBefore stop) s value s') :
    ∃ ts rs, s.Reads ts rs s' ∧ OptionalExpression .recovering ts value rs := by
  simp only [expressionBefore, succeeds_bind, succeeds_check] at hs
  obtain ⟨_, _, ⟨rfl, rfl⟩, hs⟩ := hs
  split at hs
  · obtain ⟨rfl, rfl⟩ := succeeds_pure.1 hs
    exact ⟨[], [], .refl s, .none⟩
  · obtain ⟨e, he, rfl⟩ := succeeds_map.1 hs
    obtain ⟨ts, rs, re, de⟩ := Sound.expression he
    exact ⟨ts, rs, re, .some de⟩

theorem variableDeclaration_sound {stmt : Stmt} (hk : s.cursor.current.kind = .keyword .varKw)
    (hs : Succeeds variableDeclaration s stmt s') :
    ∃ ts rs, s.Reads ts rs s' ∧ VariableDeclaration .recovering ts stmt rs := by
  simp only [variableDeclaration, initialValue, succeeds_bind, succeeds_check, succeeds_pure] at hs
  obtain ⟨_, s₁, hv, ⟨name, _⟩, s₂, hn, value, s₃, ⟨_, _, ⟨rfl, rfl⟩, hi⟩, _, s₄, hsemi, rfl,
    rfl⟩ := hs
  obtain ⟨v, hvk, rfl, rv⟩ := hv.advance_keyword hk
  obtain ⟨n, hnk, rfl, rn⟩ := hn.expectIdentifier
  obtain ⟨c, hck, rfl, rc⟩ := hsemi.expect
  split at hi
  next heq =>
    simp only [succeeds_bind, succeeds_map] at hi
    obtain ⟨_, s₅, ha, e, he, rfl⟩ := hi
    obtain ⟨eq, heqk, -, ra⟩ := ha.advance_symbol ((Cursor.check_symbol _ _).1 heq)
    obtain ⟨ts, rs, re, de⟩ := Sound.expression he
    exact ⟨_, _, rv.trans (rn.trans (ra.trans (re.trans rc))),
      by simpa using .initialized hvk hnk heqk de hck⟩
  next =>
    obtain ⟨rfl, rfl⟩ := succeeds_pure.1 hi
    exact ⟨_, _, rv.trans (rn.trans rc), .plain hvk hnk hck⟩

theorem expressionStatement_sound {stmt : Stmt} (hs : Succeeds expressionStatement s stmt s') :
    ∃ ts rs, s.Reads ts rs s' ∧ ExpressionStatement .recovering ts stmt rs := by
  simp only [expressionStatement, succeeds_bind, succeeds_pure] at hs
  obtain ⟨e, s₁, he, _, s₂, hc, rfl, rfl⟩ := hs
  obtain ⟨ts, rs, re, de⟩ := Sound.expression he
  obtain ⟨c, hck, rfl, rc⟩ := hc.expect
  exact ⟨_, _, re.trans rc, by simpa using .mk de hck⟩

theorem forInitializer_sound {stmt : Option Stmt} (hs : Succeeds forInitializer s stmt s') :
    ∃ ts rs, s.Reads ts rs s' ∧ Initializer .recovering ts stmt rs := by
  simp only [forInitializer, succeeds_bind, succeeds_current] at hs
  obtain ⟨_, _, ⟨rfl, rfl⟩, hs⟩ := hs
  split at hs
  next hk =>
    simp only [succeeds_bind, succeeds_pure] at hs
    obtain ⟨_, _, ha, rfl, rfl⟩ := hs
    obtain ⟨c, hck, -, rc⟩ := ha.advance_symbol hk
    exact ⟨_, _, rc, .none hck⟩
  next hk =>
    obtain ⟨stmt, hv, rfl⟩ := succeeds_map.1 hs
    obtain ⟨ts, rs, rv, dv⟩ := variableDeclaration_sound hk hv
    exact ⟨ts, rs, rv, .var dv⟩
  next =>
    obtain ⟨stmt, he, rfl⟩ := succeeds_map.1 hs
    obtain ⟨ts, rs, re, de⟩ := expressionStatement_sound he
    exact ⟨ts, rs, re, .expression de⟩

theorem printStatement_sound {stmt : Stmt} (hk : s.cursor.current.kind = .keyword .printKw)
    (hs : Succeeds printStatement s stmt s') :
    ∃ ts rs, s.Reads ts rs s' ∧ Declaration .recovering s.inside ts stmt rs := by
  simp only [printStatement, succeeds_bind, succeeds_pure] at hs
  obtain ⟨_, s₁, hp, e, s₂, he, _, s₃, hc, rfl, rfl⟩ := hs
  obtain ⟨p, hpk, rfl, rp⟩ := hp.advance_keyword hk
  obtain ⟨ts, rs, re, de⟩ := Sound.expression he
  obtain ⟨c, hck, rfl, rc⟩ := hc.expect
  exact ⟨_, _, rp.trans (re.trans rc), by simpa using .print hpk de hck⟩

theorem returnStatement_sound {stmt : Stmt} (hk : s.cursor.current.kind = .keyword .returnKw)
    (hs : Succeeds returnStatement s stmt s') :
    ∃ ts rs, s.Reads ts rs s' ∧ Declaration .recovering s.inside ts stmt rs := by
  simp only [returnStatement, succeeds_bind, succeeds_get, succeeds_pure] at hs
  obtain ⟨_, s₁, hr, _, _, ⟨rfl, rfl⟩, _, s₂, hreport, value, s₃, hv, _, s₄, hc, rfl, rfl⟩ := hs
  obtain ⟨r, hrk, rfl, rr⟩ := hr.advance_keyword hk
  have rreport := hreport.reportIf
  obtain ⟨ts, rs, rv, dv⟩ := expressionBefore_sound hv
  obtain ⟨c, hck, rfl, rc⟩ := hc.expect
  refine ⟨_, _, rr.trans (rreport.trans (rv.trans rc)), ?_⟩
  have hd : Declaration .recovering s.inside _ _ _ := .result hrk dv hck
  by_cases hdepth : s₁.functionDepth = 0
  · have hinside : s.inside = false := by
      simp [ParseState.inside, ← rr.functionDepth, hdepth]
    simpa [hdepth, hinside] using hd
  · have hinside : s.inside = true := by
      simp [ParseState.inside, ← rr.functionDepth]
      omega
    simpa [hdepth, hinside] using hd

section

variable {nested : Parser Stmt} (h : SoundStatement nested) (hf : Composed nested)
include h hf

theorem block_sound {message : String} {body : Block}
    (hs : Succeeds (block nested message) s body s') :
    ∃ ts rs, s.Reads ts rs s' ∧ Braces .recovering s.inside ts body rs := by
  simp only [block, succeeds_bind, succeeds_remaining, succeeds_pure] at hs
  obtain ⟨_, s₁, ho, _, _, ⟨rfl, rfl⟩, stmts, s₂, hb, _, s₃, hc, rfl, rfl⟩ := hs
  obtain ⟨o, hok, rfl, ro⟩ := ho.expect
  obtain ⟨ts, rs, rb, db⟩ := hb.inBraces h hf (Nat.le_refl _)
  obtain ⟨c, hck, rfl, rc⟩ := hc.expectClosing
  rw [ro.inside] at db
  exact ⟨_, _, ro.trans (rb.trans rc), by simpa using .mk hok db hck⟩

theorem function_sound {stmt : Stmt} (hk : s.cursor.current.kind = .keyword .funKw)
    (hs : Succeeds (function nested) s stmt s') :
    ∃ ts rs, s.Reads ts rs s' ∧ Declaration .recovering s.inside ts stmt rs := by
  simp only [function, succeeds_bind, succeeds_pure] at hs
  obtain ⟨_, s₁, hfun, ⟨name, _⟩, s₂, hn, _, s₃, ho, params, s₄, hp, _, s₅, hc, body, s₆, hb,
    rfl, rfl⟩ := hs
  obtain ⟨f, hfk, rfl, rf⟩ := hfun.advance_keyword hk
  obtain ⟨n, hnk, rfl, rn⟩ := hn.expectIdentifier
  obtain ⟨o, hok, rfl, ro⟩ := ho.expect
  obtain ⟨ts, rs, rp, dp⟩ := parameters_sound hp
  obtain ⟨c, hck, -, rc⟩ := hc.expectClosing
  obtain ⟨s₇, hblock, rfl⟩ := hb.inFunction
  obtain ⟨ts', rs', rb, db⟩ := block_sound h hf hblock
  have hinside : ParseState.inside { s₅ with functionDepth := s₅.functionDepth + 1 } = true := by
    simp [ParseState.inside]
  have rb' := rb.leaveFunction
  rw [hinside] at db
  exact ⟨_, _, rf.trans (rn.trans (ro.trans (rp.trans (rc.trans rb')))),
    by simpa using .function hfk hnk hok dp hck db⟩

theorem otherwise_sound {other : Option Block} (hs : Succeeds (otherwise nested) s other s') :
    ∃ ts rs, s.Reads ts rs s' ∧ Otherwise .recovering s.inside ts other rs := by
  simp only [otherwise, succeeds_bind, succeeds_check] at hs
  obtain ⟨_, _, ⟨rfl, rfl⟩, hs⟩ := hs
  split at hs
  next hk =>
    simp only [succeeds_bind, succeeds_map, elseBranch, succeeds_check] at hs
    obtain ⟨_, s₁, he, body, ⟨_, _, ⟨rfl, rfl⟩, hb⟩, rfl⟩ := hs
    obtain ⟨e, hek, -, re⟩ := he.advance_keyword ((Cursor.check_keyword _ _).1 hk)
    split at hb
    next hif =>
      simp only [succeeds_bind, succeeds_pure] at hb
      obtain ⟨stmt, _, hn, rfl, rfl⟩ := hb
      obtain ⟨ts, rs, rd, dd⟩ := h hn
      rw [re.inside] at dd
      obtain ⟨t, rest, rfl, -⟩ := dd.startsWith
      have htk : t.kind = .keyword .ifKw := rd.current ▸ (Cursor.check_keyword _ _).1 hif
      exact ⟨_, _, re.trans rd, .chained hek (dd.toConditional htk)⟩
    next =>
      obtain ⟨ts, rs, rb, db⟩ := block_sound h hf hb
      rw [re.inside] at db
      exact ⟨_, _, re.trans rb, .block hek db⟩
  next =>
    obtain ⟨rfl, rfl⟩ := succeeds_pure.1 hs
    exact ⟨[], [], .refl s, .none⟩

theorem conditional_sound {stmt : Stmt} (hk : s.cursor.current.kind = .keyword .ifKw)
    (hs : Succeeds (conditional nested) s stmt s') :
    ∃ ts rs, s.Reads ts rs s' ∧ Declaration .recovering s.inside ts stmt rs := by
  simp only [conditional, succeeds_bind, succeeds_pure] at hs
  obtain ⟨_, s₁, hi, e, s₂, he, thenBranch, s₃, hb, other, s₄, ho, rfl, rfl⟩ := hs
  obtain ⟨i, hik, rfl, ri⟩ := hi.advance_keyword hk
  obtain ⟨ts, rs, re, de⟩ := Sound.expression he
  obtain ⟨ts', rs', rb, db⟩ := block_sound h hf hb
  obtain ⟨ts₁, rs₁, ro, do_⟩ := otherwise_sound h hf ho
  rw [re.inside, ri.inside] at db
  rw [rb.inside, re.inside, ri.inside] at do_
  exact ⟨_, _, ri.trans (re.trans (rb.trans ro)), by simpa using .conditional (.mk hik de db do_)⟩

theorem whileLoop_sound {stmt : Stmt} (hk : s.cursor.current.kind = .keyword .whileKw)
    (hs : Succeeds (whileLoop nested) s stmt s') :
    ∃ ts rs, s.Reads ts rs s' ∧ Declaration .recovering s.inside ts stmt rs := by
  simp only [whileLoop, succeeds_bind, succeeds_pure] at hs
  obtain ⟨_, s₁, hw, e, s₂, he, body, s₃, hb, rfl, rfl⟩ := hs
  obtain ⟨w, hwk, rfl, rw_⟩ := hw.advance_keyword hk
  obtain ⟨ts, rs, re, de⟩ := Sound.expression he
  obtain ⟨ts', rs', rb, db⟩ := block_sound h hf hb
  rw [re.inside, rw_.inside] at db
  exact ⟨_, _, rw_.trans (re.trans rb), by simpa using .whileLoop hwk de db⟩

theorem forLoop_sound {stmt : Stmt} (hk : s.cursor.current.kind = .keyword .forKw)
    (hs : Succeeds (forLoop nested) s stmt s') :
    ∃ ts rs, s.Reads ts rs s' ∧ Declaration .recovering s.inside ts stmt rs := by
  simp only [forLoop, succeeds_bind, succeeds_pure] at hs
  obtain ⟨_, s₁, hfor, init, s₂, hi, cond, s₃, hc, _, s₄, hsemi, incr, s₅, hn, body, s₆, hb,
    _, s₇, hlog, rfl, rfl⟩ := hs
  obtain ⟨f, hfk, rfl, rf⟩ := hfor.advance_keyword hk
  obtain ⟨ts, rs, ri, di⟩ := forInitializer_sound hi
  obtain ⟨ts₁, rs₁, rc, dc⟩ := expressionBefore_sound hc
  obtain ⟨semi, hsk, rfl, rsemi⟩ := hsemi.expect
  obtain ⟨ts₂, rs₂, rn, dn⟩ := expressionBefore_sound hn
  obtain ⟨ts₃, rs₃, rb, db⟩ := block_sound h hf hb
  have rlog : s₆.Reads [] [] s₇ := by
    obtain ⟨-, rfl⟩ := Prod.mk.inj (show (_, _) = _ from hlog)
    exact .log _ _
  rw [rn.inside, rsemi.inside, rc.inside, ri.inside, rf.inside] at db
  refine ⟨_, _, rf.trans (ri.trans (rc.trans (rsemi.trans (rn.trans (rb.trans rlog))))), ?_⟩
  have hd := Declaration.forLoop hfk di dc hsk dn db
  cases incr <;> simpa [forLoopOf, forTree] using hd

theorem declarationWith_sound : SoundStatement (declarationWith nested) := by
  intro s stmt s' hs
  simp only [declarationWith, succeeds_bind, succeeds_current] at hs
  obtain ⟨_, _, ⟨rfl, rfl⟩, hs⟩ := hs
  split at hs
  next hk => exact function_sound h hf hk hs
  next hk =>
    obtain ⟨ts, rs, rv, dv⟩ := variableDeclaration_sound hk hs
    exact ⟨ts, rs, rv, .var dv⟩
  next hk => exact forLoop_sound h hf hk hs
  next hk => exact conditional_sound h hf hk hs
  next hk => exact printStatement_sound hk hs
  next hk => exact returnStatement_sound hk hs
  next hk => exact whileLoop_sound h hf hk hs
  next =>
    obtain ⟨body, hb, rfl⟩ := succeeds_map.1 hs
    obtain ⟨ts, rs, rb, db⟩ := block_sound h hf hb
    exact ⟨ts, rs, rb, .block db⟩
  next =>
    obtain ⟨ts, rs, re, de⟩ := expressionStatement_sound hs
    exact ⟨ts, rs, re, .expression de⟩

end

theorem declarationUpTo_sound (n : Nat) : SoundStatement (declarationUpTo n) := by
  induction n with
  | zero =>
    intro s stmt s' hs
    obtain ⟨ts, rs, re, de⟩ := expressionStatement_sound hs
    exact ⟨ts, rs, re, .expression de⟩
  | succ n ih => exact declarationWith_sound ih (.declarationUpTo n)

theorem declaration_sound : SoundStatement declaration := by
  intro s stmt s' hs
  simp only [declaration, succeeds_bind, succeeds_remaining] at hs
  obtain ⟨_, _, ⟨rfl, rfl⟩, hs⟩ := hs
  exact declarationUpTo_sound _ hs

/-- What a whole program reads, up to the end of the tokens. -/
theorem program_sound (s : ParseState) :
    ∃ ts rs, s.Reads ts rs (program s).2 ∧ (program s).2.cursor.atEnd = true ∧
      Declarations .recovering s.inside ts (program s).1 rs := by
  obtain ⟨ts, rs, stmts, hstmts, hr, hd, hend⟩ := declarationsUpTo_sound declaration_sound
    .declaration (fun _ => false) [] (Nat.le_refl s.cursor.ahead.length)
  refine ⟨ts, rs, hr, hend.resolve_left (by simp), ?_⟩
  obtain rfl : (program s).1 = stmts := hstmts
  exact hd

end Parser

end Tarn
