import Tarn.Proofs.Parsing.Acceptance
import Tarn.Proofs.Parsing.Accounting

/-! The errors of all productions are accounted for. -/
namespace Tarn

open ParseError Grammar Tarn.Parser

namespace Parser

variable {α : Type} {opened : Bool} {known : List Token} {s : ParseState}

namespace Accounted

theorem moreItems {item : List α → Parser α} (h : ∀ found, Accounted false [] (item found))
    (n : Nat) (found : List α) : Accounted opened known (Parser.moreItems item n found) := by
  induction n generalizing opened known found with
  | zero => exact pure found
  | succ n ih =>
    unfold Parser.moreItems
    exact check_symbol (fun t _ => (h found).mono.bind fun a => ih _) (pure found)

theorem itemsBefore {item : List α → Parser α} (h : ∀ found, Accounted false [] (item found))
    (stop : TokenKind) : Accounted opened known (Parser.itemsBefore stop item) :=
  check_bind fun s hs => ite (pure [])
    ((h []).mono.bind fun a => remaining_bind fun n => moreItems h n [a]) s hs

section Expressions

variable {nested : Parser Expr} (h : Accounted false [] nested)
include h

theorem grouping (hs : s.Knows known) (hk : s.cursor.current.kind = .symbol .leftParen) :
    Accounts opened (Parser.grouping nested) s :=
  .advance_bind hs (by simp [hk]) (h.mono.bind fun _ =>
    (expectClosing "after expression" (.inl ⟨rfl, rfl⟩) rfl hk List.mem_cons_self).bind
      fun _ => pure _)

theorem primary : Accounted opened known (Parser.primary nested) := by
  refine current_bind fun s hs => ?_
  split
  next value hvalue =>
    refine .advance_bind hs ?_ (pure _)
    intro heof
    rw [heof] at hvalue
    cases hvalue
  next name _ hk => exact .advance_bind hs (by simp [hk]) (pure _)
  next _ hk => exact grouping h hs hk
  next => exact failHere _ rfl (by decide) s hs

theorem argument (found : List Expr) : Accounted false [] (Parser.argument nested found) :=
  cursor_bind fun _ hs => .bind hs (.reportIf (hs.sited_here (by decide) _) rfl) fun _ => h

theorem finishCall {o : Token} (ho : o.kind = .symbol .leftParen) (hmem : o ∈ known)
    (callee : Expr) : Accounted opened known (Parser.finishCall nested callee o.span) :=
  (itemsBefore (argument h) _).bind fun _ =>
    (expectClosing "after arguments" (.inl ⟨rfl, rfl⟩) rfl ho hmem).bind fun _ => pure _

theorem calls (n : Nat) (callee : Expr) :
    Accounted opened known (Parser.calls nested n callee) := by
  induction n generalizing opened known callee with
  | zero => exact pure callee
  | succ n ih =>
    exact check_symbol (fun t ht => (finishCall h ht List.mem_cons_self callee).bind fun e => ih e)
      (pure callee)

theorem call : Accounted opened known (Parser.call nested) :=
  (primary h).bind fun callee => remaining_bind fun n => calls h n callee

theorem unaryUpTo (n : Nat) : Accounted opened known (Parser.unaryUpTo nested n) := by
  induction n generalizing opened known with
  | zero => exact call h
  | succ n ih =>
    refine current_bind fun s hs => ?_
    split
    next => exact call h s hs
    next op hop =>
      refine .advance_bind hs ?_ (ih.bind fun _ => pure _)
      intro heof
      rw [heof] at hop
      cases hop

omit h in
theorem chain {op : Type} {op? : TokenKind → Option op} (heof : op? .eof = none)
    (join : op → Span → Expr → Expr → Expr) {operand : Parser Expr}
    (ho : Accounted false [] operand) : Accounted false [] (Parser.chain op? join operand) := by
  refine ho.bind fun left => remaining_bind fun n => ?_
  suffices hall : ∀ opened known, Accounted opened known (chainUpTo op? join operand n left) from
    hall _ _
  induction n generalizing left with
  | zero => exact fun _ _ => pure left
  | succ n ih =>
    refine fun opened known => current_bind fun s hs => ?_
    split
    next => exact .pure left
    next o hop =>
      refine .advance_bind hs ?_ (ho.mono.bind fun _ => ih _ _ _)
      intro hk
      rw [hk, heof] at hop
      cases hop

theorem disjunction : Accounted false [] (Parser.disjunction nested) :=
  chain rfl _ <| chain rfl _ <| chain rfl _ <| chain rfl _ <| chain rfl _ <| chain rfl _ <|
    remaining_bind fun n => unaryUpTo h n

theorem assignment : Accounted false [] (Parser.assignment nested) := by
  refine (disjunction h).bind fun target => check_symbol (fun t _ => ?_) (pure target)
  refine h.mono.bind fun value => ?_
  split
  · exact pure _
  · refine fun s hs => .bind hs (.report ?_ rfl) fun _ => pure value
    exact hs.sited_known List.mem_cons_self rfl rfl nofun

end Expressions

theorem expressionUpTo (n : Nat) : Accounted false [] (Parser.expressionUpTo n) := by
  induction n with
  | zero => exact failHere _ rfl (by decide)
  | succ n ih => exact assignment ih

theorem expression : Accounted opened known Parser.expression :=
  remaining_bind fun n => (expressionUpTo n).mono

end Accounted

/-- Whenever `p` succeeds it consumes something. -/
def Progresses (p : Parser α) : Prop :=
  ∀ {s a s'}, Succeeds p s a s' → s'.cursor.ahead.length < s.cursor.ahead.length

theorem SoundStatement.progresses {p : Parser Stmt} (h : SoundStatement p) : Progresses p := by
  intro s stmt s' hs
  obtain ⟨ts, rs, hr, hd⟩ := h hs
  have hlength := hr.length
  have hts := List.length_pos_of_ne_nil hd.ne_nil
  omega

/-- A declaration takes a token of its own, and so does the error that it fails with. -/
theorem recovering_accounts {declaration : Parser Stmt} (h : Accounted false [] declaration)
    (hp : Progresses declaration) (hs : s.Knows []) (hend : s.cursor.atEnd = false) :
    ∃ ts es, s.Passes ts es (recovering declaration s).2 ∧ (∀ e ∈ es, e.Sited s.tokens) ∧
      (recovering declaration s).1.toList.length + fatals es ≤ ts.length := by
  obtain ⟨⟨ts, es, hpasses, hsited, hspent⟩, herror⟩ := h s hs
  rw [recovering_eq]
  rcases ha : answer declaration s with ⟨e | stmt, s'⟩
  · rw [ha] at hpasses herror
    obtain ⟨hsite, hfatal⟩ := herror e rfl
    obtain ⟨us, hrecovered, hne⟩ := passes_recovered hpasses e hend
    refine ⟨_, _, hrecovered, List.forall_mem_append.2 ⟨hsited, by simpa using hsite⟩, ?_⟩
    have hpos := List.length_pos_of_ne_nil hne
    simp only [Spent, Bool.toNat_false, fatals_append, fatals_singleton hfatal,
      List.length_append, Option.toList_none, List.length_nil] at hspent hpos ⊢
    omega
  · rw [ha] at hpasses
    have hless := hp ha
    have hlength : s.cursor.ahead.length = ts.length + s'.cursor.ahead.length :=
      hpasses.reads.length
    refine ⟨ts, es, hpasses, hsited, ?_⟩
    simp only [Spent, Bool.toNat_false, Option.toList_some, List.length_singleton] at hspent ⊢
    omega

/-- Each declaration and each fatal error takes a token of its own. -/
theorem declarationsUpTo_accounts {declaration : Parser Stmt} (h : Accounted false [] declaration)
    (hp : Progresses declaration) (stops : Cursor → Bool) (n : Nat) (found : List Stmt)
    (hreal : ∀ t ∈ s.cursor.consumed, t.kind ≠ .eof) :
    ∃ ts es, s.Passes ts es (declarationsUpTo stops declaration n found s).2 ∧
      (∀ e ∈ es, e.Sited s.tokens) ∧
      (declarationsUpTo stops declaration n found s).1.length + fatals es ≤
        found.length + ts.length := by
  induction n generalizing s found with
  | zero =>
    rw [declarationsUpTo_zero]
    exact ⟨[], [], .refl s, by simp, by simp⟩
  | succ n ih =>
    rcases hgoes : stops s.cursor || s.cursor.atEnd with _ | _
    · have hend := (Bool.or_eq_false_iff.1 hgoes).2
      have hs : s.Knows [] := ⟨hreal, .inr hend, nofun⟩
      obtain ⟨ts, es, hpasses, hsited, hcount⟩ := recovering_accounts h hp hs hend
      obtain ⟨ts', es', hpasses', hsited', hcount'⟩ :=
        ih (found ++ (recovering declaration s).1.toList) (hs.passes hpasses).real
      rw [hpasses.reads.tokens_eq] at hsited'
      rw [declarationsUpTo_of_goes hgoes]
      refine ⟨_, _, hpasses.trans hpasses', List.forall_mem_append.2 ⟨hsited, hsited'⟩, ?_⟩
      rw [List.length_append] at hcount' ⊢
      rw [fatals_append]
      omega
    · rw [declarationsUpTo_of_stops hgoes]
      exact ⟨[], [], .refl s, by simp, by simp⟩

namespace Accounted

section Statements

variable {nested : Parser Stmt} (h : Accounted false [] nested) (hp : Progresses nested)
include h hp

/-- What is in braces may cost as much as there is, since the brace before it is there too. -/
theorem inBraces (stops : Cursor → Bool) (n : Nat) :
    Accounted true known (Parser.inBraces (declarationsUpTo stops nested n [])) := by
  intro s hs
  obtain ⟨ts, es, hpasses, hsited, hcount⟩ := declarationsUpTo_accounts h hp stops n []
    (s := { s with blockDepth := s.blockDepth + 1 }) hs.real
  rw [Accounts, answer_inBraces]
  refine ⟨⟨ts, es, hpasses.leaveBraces, hsited, .inr ?_⟩, by rintro _ ⟨⟩⟩
  rw [List.length_nil] at hcount
  rw [Bool.toNat_true]
  omega

omit h hp in
theorem inFunction {p : Parser α} (hp : Accounted opened known p) :
    Accounted opened known (Parser.inFunction p) := by
  intro s hs
  obtain ⟨⟨ts, es, hpasses, hsited, hspent⟩, herror⟩ :=
    hp { s with functionDepth := s.functionDepth + 1 } ⟨hs.real, hs.some, hs.consumed⟩
  rw [Accounts, answer_inFunction]
  exact ⟨⟨ts, es, hpasses.leaveFunction, hsited, hspent⟩, herror⟩

theorem block (message : String) : Accounted opened known (Parser.block nested message) :=
  expect_bind (by decide) fun _ ho => remaining_bind fun n => (inBraces h hp _ n).bind fun _ =>
    (expectClosing "after block" (.inr ⟨rfl, rfl⟩) rfl ho List.mem_cons_self).bind
      fun _ => pure _

omit h hp in
theorem parameter (found : List Param) : Accounted false [] (Parser.parameter found) :=
  cursor_bind fun _ hs => .bind hs (.reportIf (hs.sited_here (by decide) _) rfl) fun _ =>
    expectIdentifier_bind fun _ _ _ hs => .bind hs
      (.reportIf (hs.sited_known List.mem_cons_self rfl rfl nofun) rfl) fun _ => pure _

theorem function (hs : s.Knows known) (hk : s.cursor.current.kind = .keyword .funKw) :
    Accounts opened (Parser.function nested) s :=
  .advance_bind hs (by simp [hk]) <| expectIdentifier_bind fun _ _ =>
    expect_bind (by decide) fun _ ho => (itemsBefore parameter _).bind fun _ =>
      (expectClosing "after parameters" (.inl ⟨rfl, rfl⟩) rfl ho List.mem_cons_self).bind
        fun _ => (inFunction (block h hp _)).bind fun _ => pure _

omit h hp in
theorem expressionBefore (stop : TokenKind) :
    Accounted opened known (Parser.expressionBefore stop) :=
  check_bind fun s hs => ite (pure none) (expression.map some) s hs

omit h hp in
/-- Up to the semicolon at the end of a statement. -/
theorem semicolon_bind (message : String) {f : Span → Parser α}
    (hf : ∀ span, Accounted true [] (f span)) :
    Accounted opened known (Parser.expect (.symbol .semicolon) message >>= f) :=
  expect_bind (by decide) fun t _ s hs => hf t.span s ⟨hs.real, hs.some, nofun⟩

omit h hp in
theorem variableDeclaration (hs : s.Knows known) (hk : s.cursor.current.kind = .keyword .varKw) :
    Accounts opened Parser.variableDeclaration s :=
  .advance_bind hs (by simp [hk]) <| expectIdentifier_bind fun _ _ =>
    Accounted.bind (check_symbol (fun _ _ => expression.map some) (pure none)) fun _ =>
      semicolon_bind _ fun _ => pure _

omit h hp in
theorem expressionStatement : Accounted opened known Parser.expressionStatement :=
  expression.bind fun _ => semicolon_bind _ fun _ => pure _

omit h hp in
theorem printStatement (hs : s.Knows known) (hk : s.cursor.current.kind = .keyword .printKw) :
    Accounts opened Parser.printStatement s :=
  .advance_bind hs (by simp [hk]) <| expression.bind fun _ => semicolon_bind _ fun _ => pure _

omit h hp in
theorem returnStatement (hs : s.Knows known) (hk : s.cursor.current.kind = .keyword .returnKw) :
    Accounts opened Parser.returnStatement s :=
  .advance_bind hs (by simp [hk]) <| get_bind fun _ hs => .bind hs
    (.reportIf (hs.sited_known List.mem_cons_self rfl rfl nofun) rfl) fun _ =>
      (expressionBefore _).bind fun _ => semicolon_bind _ fun _ => pure _

theorem otherwise : Accounted opened known (Parser.otherwise nested) := by
  refine check_bind fun s hs => ?_
  split
  next hk =>
    rw [Cursor.check_keyword] at hk
    refine .advance_bind hs (by simp [hk]) (map some (check_bind fun s hs => ?_))
    exact ite (h.mono.bind fun _ => pure _) (block h hp _) s hs
  next => exact .pure none

theorem conditional (hs : s.Knows known) (hk : s.cursor.current.kind = .keyword .ifKw) :
    Accounts opened (Parser.conditional nested) s :=
  .advance_bind hs (by simp [hk]) <| expression.bind fun _ => (block h hp _).bind fun _ =>
    (otherwise h hp).bind fun _ => pure _

theorem whileLoop (hs : s.Knows known) (hk : s.cursor.current.kind = .keyword .whileKw) :
    Accounts opened (Parser.whileLoop nested) s :=
  .advance_bind hs (by simp [hk]) <| expression.bind fun _ => (block h hp _).bind fun _ => pure _

omit h hp in
theorem forInitializer : Accounted opened known Parser.forInitializer := by
  refine current_bind fun s hs => ?_
  split
  next hk => exact .advance_bind hs (by simp [hk]) (pure _)
  next hk => exact .map some hs (variableDeclaration hs hk)
  next => exact expressionStatement.map some s hs

theorem forLoop (hs : s.Knows known) (hk : s.cursor.current.kind = .keyword .forKw) :
    Accounts opened (Parser.forLoop nested) s :=
  .advance_bind hs (by simp [hk]) <| forInitializer.bind fun _ => (expressionBefore _).bind fun _ =>
    semicolon_bind _ fun _ => (expressionBefore _).bind fun _ => (block h hp _).bind fun _ =>
      (log _).bind fun _ => pure _

theorem declarationWith : Accounted opened known (Parser.declarationWith nested) := by
  refine current_bind fun s hs => ?_
  split
  next hk => exact function h hp hs hk
  next hk => exact variableDeclaration hs hk
  next hk => exact forLoop h hp hs hk
  next hk => exact conditional h hp hs hk
  next hk => exact printStatement hs hk
  next hk => exact returnStatement hs hk
  next hk => exact whileLoop h hp hs hk
  next => exact (block h hp _).map _ s hs
  next => exact expressionStatement s hs

end Statements

theorem declarationUpTo (n : Nat) : Accounted opened known (Parser.declarationUpTo n) := by
  induction n generalizing opened known with
  | zero => exact expressionStatement
  | succ n ih => exact declarationWith ih (SoundStatement.progresses (declarationUpTo_sound n))

theorem declaration : Accounted opened known Parser.declaration :=
  remaining_bind fun n => declarationUpTo n

end Accounted

end Parser

section

variable (names : NameTable) {ts rest : List Token}

/-- Every error of a list of tokens is put on one of them, and there are no more statements and
fatal errors than tokens before the end of the input. -/
theorem parse_accounts (hts : ∀ t ∈ ts, t.kind ≠ .eof) (hrest : AtEnd rest) :
    (∀ e ∈ (parse names (ts ++ rest)).errors, e.Sited (ts ++ rest)) ∧
      (parse names (ts ++ rest)).statements.length + fatals (parse names (ts ++ rest)).errors ≤
        ts.length := by
  obtain ⟨us, es, hpasses, hsited, hcount⟩ := declarationsUpTo_accounts
    Accounted.declaration (SoundStatement.progresses declaration_sound) (fun _ => false)
    (ts ++ rest).length [] (s := start names (ts ++ rest)) nofun
  obtain ⟨ts', rs, hr, hend, -⟩ := program_sound (start names (ts ++ rest))
  obtain rfl : ts = ts' := by
    refine eq_of_append_eq hr.ahead hts hr.real hrest fun t rest' heq => ?_
    rwa [Cursor.atEnd_iff, Cursor.current_of_ahead heq] at hend
  have herrors : (parse names (ts ++ rest)).errors = es := hpasses.errors
  have hlength := hr.length.symm.trans hpasses.reads.length
  have hstatements : (parse names (ts ++ rest)).statements.length + fatals es ≤ 0 + us.length :=
    hcount
  have hprogram : (program (start names (ts ++ rest))).2 = (declarationsUpTo (fun _ => false)
    declaration (ts ++ rest).length [] (start names (ts ++ rest))).2 := rfl
  rw [hprogram] at hlength
  rw [herrors]
  exact ⟨hsited, by omega⟩

end

end Tarn
