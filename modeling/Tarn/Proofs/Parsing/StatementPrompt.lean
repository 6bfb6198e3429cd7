import Mathlib.Order.Bounds.Basic
import Tarn.Proofs.Parsing.ExpressionPrompt
import Tarn.Proofs.Parsing.Joint
import Tarn.Proofs.Parsing.StatementLocality

/-! Statements and programs are read as far as they can go on. The first fatal error of a program is
put on the first token with which no program goes on. -/
namespace Tarn

open ParseError Grammar Tarn.Parser

namespace Grammar

/-! Statements with invalid assignments, inside a function or not. -/

def Declares : Phrase Stmt := fun stmt ts => ∀ inside, ∃ rs, Declaration .lenient inside ts stmt rs

def Encloses : Phrase Block := fun body ts => ∀ inside, ∃ rs, Braces .lenient inside ts body rs

def Lists : Phrase (List Stmt) := fun stmts ts =>
  ∀ inside, ∃ rs, Declarations .lenient inside ts stmts rs

theorem Lists.nil : Lists [] [] := fun _ => ⟨[], .nil⟩

def Continues : Phrase (Option Block) := fun other ts =>
  ∀ inside, ∃ rs, Otherwise .lenient inside ts other rs

def MayExpress : Phrase (Option Expr) := fun e ts => ∃ rs, OptionalExpression .lenient ts e rs

/-- There is an `if` to go on with. -/
theorem exists_conditional : ∃ stmt ts, ∀ inside, ∃ rs, Conditional .lenient inside ts stmt rs := by
  obtain ⟨e, ts, rs, he⟩ := Expresses.exists_assignment
  have hi : (⟨.keyword .ifKw, .nowhere⟩ : Token).kind = .keyword .ifKw := rfl
  have ho : (⟨.symbol .leftBrace, .nowhere⟩ : Token).kind = .symbol .leftBrace := rfl
  have hc : (⟨.symbol .rightBrace, .nowhere⟩ : Token).kind = .symbol .rightBrace := rfl
  exact ⟨_, _, fun inside => ⟨_, .mk hi he (.mk ho .nil hc) .none⟩⟩

end Grammar

namespace Parser

namespace Prompt

variable {α : Type} {goesOn : Bool} {n n' : Nat}

/-- A parser that runs another one between two changes of the state, which move no token and no
error. -/
theorem within {p q p' q' : Parser α} {L : Phrase α} (h : Prompt goesOn n n' p q L)
    (enter leave : ParseState → ParseState)
    (henter : ∀ s, (enter s).cursor = s.cursor) (hleave : ∀ s, (leave s).cursor = s.cursor)
    (herrors : ∀ s, (leave s).errors = s.errors)
    (hpasses : ∀ s ts es s₁, (enter s).Passes ts es s₁ → s.Passes ts es (leave s₁))
    (hp : ∀ s, answer p' s = ((answer p (enter s)).1, leave (answer p (enter s)).2))
    (hq : ∀ s, answer q' s = ((answer q (enter s)).1, leave (answer q (enter s)).2)) :
    Prompt goesOn n n' p' q' L := by
  have hclears {s : ParseState} {r : Answer α} {a ts} (h : (enter s).Clears r a ts) :
      s.Clears (r.1, leave r.2) a ts := by
    obtain ⟨ha, es, hp, hes⟩ := h
    exact ⟨ha, es, hpasses _ _ _ _ hp, hes⟩
  have hmeets {s : ParseState} {r : Answer α} {ts e} (h : (enter s).Meets goesOn r ts e) :
      s.Meets goesOn (r.1, leave r.2) ts e := by
    obtain ⟨hends, hfatal, s₁, es, more, hp, hes, hmore, hspan, hcontext⟩ := h
    refine ⟨hends, hfatal, leave s₁, es, more, hpasses _ _ _ _ hp, hes, ?_, ?_, ?_⟩
    · obtain ⟨_ | _, s₂⟩ := r <;>
        simpa only [Answer.errors, herrors] using hmore
    · rw [hleave, hspan]
    · rw [hleave, hcontext]
  intro s s' hs hs'
  have hshares {ts : List Token} (h : s.Shares ts s') : (enter s).Shares ts (enter s') := by
    rwa [ParseState.Shares, henter, henter]
  have hrun := h (enter s) (enter s') (by rwa [henter]) (by rwa [henter])
  rw [PromptAt, hp, hq]
  obtain ⟨a, ts, hclear, hL, hq'⟩ | ⟨ts, ⟨e, hmeet⟩, hL, hq'⟩ := hrun
  · exact .inl ⟨a, ts, hclears hclear, hL, fun h => hclears (hq' (hshares h))⟩
  · refine .inr ⟨ts, ⟨e, hmeets hmeet⟩, hL, fun h => ?_⟩
    obtain ⟨e', hmeet'⟩ := hq' (hshares h)
    exact ⟨e', hmeets hmeet'⟩

theorem inBraces {p q : StateM ParseState α} {L : Phrase α}
    (h : Prompt goesOn n n' (ExceptT.lift p) (ExceptT.lift q) L) :
    Prompt goesOn n n' (Parser.inBraces p) (Parser.inBraces q) L :=
  h.within (fun s => { s with blockDepth := s.blockDepth + 1 })
    (fun s => { s with blockDepth := s.blockDepth - 1 }) (fun _ => rfl) (fun _ => rfl)
    (fun _ => rfl) (fun _ _ _ _ h => h.leaveBraces) (answer_inBraces p) (answer_inBraces q)

theorem inFunction {p q : Parser α} {L : Phrase α} (h : Prompt goesOn n n' p q L) :
    Prompt goesOn n n' (Parser.inFunction p) (Parser.inFunction q) L :=
  h.within (fun s => { s with functionDepth := s.functionDepth + 1 })
    (fun s => { s with functionDepth := s.functionDepth - 1 }) (fun _ => rfl) (fun _ => rfl)
    (fun _ => rfl) (fun _ _ _ _ h => h.leaveFunction) (answer_inFunction p) (answer_inFunction q)

/-- A declaration whose error is reported, and not thrown on. -/
theorem recovering {s s' : ParseState} {p q : Parser Stmt} {L : Phrase Stmt}
    (h : PromptAt true s s' p q L) :
    PromptAt true s s' (ExceptT.lift (Parser.recovering p)) (ExceptT.lift (Parser.recovering q))
      fun found ts => ∃ stmt, found = some stmt ∧ L stmt ts := by
  have hclears {s : ParseState} {p : Parser Stmt} {stmt ts}
      (h : s.Clears (answer p s) stmt ts) :
      s.Clears (answer (ExceptT.lift (Parser.recovering p)) s) (some stmt) ts := by
    obtain ⟨hstmt, es, hp, hes⟩ := h
    have hrun : answer p s = (.ok stmt, (answer p s).2) := Prod.ext hstmt rfl
    rw [answer_lift, recovering_eq, hrun]
    exact ⟨rfl, es, hp, hes⟩
  have hmeets {s : ParseState} {p : Parser Stmt} {ts e} (h : s.Meets true (answer p s) ts e) :
      s.Meets true (answer (ExceptT.lift (Parser.recovering p)) s) ts e := by
    obtain ⟨-, hfatal, s₁, es, more, hp, hes, herrors, hplace⟩ := h
    refine ⟨nofun, hfatal, s₁, es, more, hp, hes, ?_, hplace⟩
    rw [← herrors, answer_lift, recovering_eq]
    rcases answer p s with ⟨e' | stmt, s₂⟩
    · simp [Answer.errors, recovered]
    · rfl
  obtain ⟨stmt, ts, hclear, hL, hq⟩ | ⟨ts, ⟨e, hmeet⟩, ⟨stmt, us, hL⟩, hq⟩ := h
  · exact .inl ⟨some stmt, ts, hclears hclear, ⟨stmt, rfl, hL⟩, fun h => hclears (hq h)⟩
  · refine .inr ⟨ts, ⟨e, hmeets hmeet⟩, ⟨some stmt, us, stmt, rfl, hL⟩, fun h => ?_⟩
    obtain ⟨e', hmeet'⟩ := hq h
    exact ⟨e', hmeets hmeet'⟩

section Statements

variable {nested nested' : Parser Stmt} (h : Prompt true n n' nested nested' Declares)
  (hf : Composed nested) (hf' : Composed nested')
include h hf hf'

/-- Declarations behind those that were found before. -/
theorem declarationsUpTo {stops : Cursor → Bool}
    (hstops : ∀ c c' : Cursor, c'.current = c.current → stops c' = stops c) {k k' m m' : Nat}
    (hn : k ≤ n) (hn' : k' ≤ n') (hm : k ≤ m) (hm' : k' ≤ m') {found : List Stmt}
    {us : List Token} (hfound : Lists found us) :
    Prompt true k k' (ExceptT.lift (Parser.declarationsUpTo stops nested m found))
      (ExceptT.lift (Parser.declarationsUpTo stops nested' m' found))
      fun all ts => Lists all (us ++ ts) := by
  have hdone {p : Parser Stmt} {m : Nat} {found : List Stmt} {s : ParseState}
      (h : (stops s.cursor || s.cursor.atEnd) = true) :
      answer (ExceptT.lift (Parser.declarationsUpTo stops p m found)) s =
        answer (Pure.pure found) s := by
    rw [answer_lift, declarationsUpTo_of_stops h]
    rfl
  induction k generalizing k' m m' found us with
  | zero =>
    exact (stay hfound).zero fun s hend => hdone (by simp [(Cursor.atEnd_iff _).2 hend])
  | succ k ih =>
    obtain ⟨m, rfl⟩ := Nat.exists_eq_succ_of_ne_zero (n := m) (by omega)
    refine rounds (q := fun m' => ExceptT.lift (Parser.declarationsUpTo stops nested' m' found))
      hm' fun i j hij hi hi' => ?_
    intro s s' hs hs'
    have hsame (hcurrent : s'.cursor.current = s.cursor.current) :
        (stops s'.cursor || s'.cursor.atEnd) = (stops s.cursor || s.cursor.atEnd) := by
      rw [hstops _ _ hcurrent, Cursor.atEnd, Cursor.atEnd, hcurrent]
    rcases hgoes : stops s.cursor || s.cursor.atEnd with _ | _
    · have hround {p : Parser Stmt} {m : Nat} {s : ParseState}
          (h : (stops s.cursor || s.cursor.atEnd) = false) :
          answer (ExceptT.lift (Parser.declarationsUpTo stops p (m + 1) found)) s =
            answer (ExceptT.lift (Parser.recovering p) >>= fun stmt =>
              ExceptT.lift (Parser.declarationsUpTo stops p m (found ++ stmt.toList))) s := by
        rw [answer_bind, answer_lift, answer_lift, declarationsUpTo_of_goes h]
        rfl
      have hfirst := recovering (h s s' (by omega) (by omega))
      refine PromptAt.congr (hfirst.bind_of id (fun _ stmt => ?_) ?_) (hround hgoes)
        fun hcurrent _ => hround ((hsame hcurrent).trans hgoes)
      · exact ⟨hf.declarationsUpTo stops m _, hf'.declarationsUpTo stops j _⟩
      · rintro _ ts ⟨stmt, rfl, hstmt⟩
        have hpos : 0 < ts.length := by
          obtain ⟨rs, hd⟩ := hstmt true
          exact List.length_pos_of_ne_nil hd.ne_nil
        have hmore : Lists (found ++ [stmt]) (us ++ ts) := by
          intro inside
          obtain ⟨rs, hd⟩ := hfound inside
          obtain ⟨rs', hd'⟩ := hstmt inside
          have hlast := hd.append (.cons hd' .nil)
          rw [List.append_nil] at hlast
          exact ⟨_, hlast⟩
        refine ⟨k, i, by omega, by omega, ?_⟩
        refine (ih (by omega) (by omega) (by omega) hij hmore).weaken fun all vs hall => ?_
        simpa using hall
    · exact (stay hfound s s' hs hs').congr (hdone hgoes) fun hcurrent _ =>
        hdone ((hsame hcurrent).trans hgoes)

theorem block (message : String) : Prompt true (n + 1) (n' + 1) (Parser.block nested message)
    (Parser.block nested' message) Encloses := by
  refine expect_step fun o ho => remaining_bind fun k k' m m' hk hk' hm hm' => ?_
  have hstops (c c' : Cursor) (hcurrent : c'.current = c.current) :
      c'.check (.symbol .rightBrace) = c.check (.symbol .rightBrace) := by
    rw [Cursor.check, Cursor.check, hcurrent]
  have hstmts : Prompt true k k' _ _ Lists := inBraces <|
    declarationsUpTo h hf hf' hstops hk hk' hm hm' .nil
  refine hstmts.bind_forward (fun stmts ts hstmts => expectClosing_bind fun c hc => pure ?_)
    (fun _ => (Composed.expectClosing _ _ _).bind fun _ => .pure _)
    (fun _ => (Composed.expectClosing _ _ _).bind fun _ => .pure _)
  intro inside
  obtain ⟨rs, hstmts⟩ := hstmts inside
  exact ⟨rs, .mk ho hstmts hc⟩

theorem block_same (message : String) : Prompt true n n' (Parser.block nested message)
    (Parser.block nested' message) Encloses :=
  (block h hf hf' message).mono (Nat.le_succ n) (Nat.le_succ n')

end Statements

theorem parameter (found : List Param) :
    Prompt false n n' (Parser.parameter found) (Parser.parameter found)
      fun p ts => ∃ t, ts = [t] ∧ t.kind = .identifier p.name ∧ t.span = p.span :=
  cursor_bind fun _ _ => reportIf_bind rfl rfl <| expectIdentifier_bind fun t _ ht =>
    reportIf_bind rfl rfl <| pure ⟨t, rfl, ht, rfl⟩

theorem parameters : Prompt false n n'
    (Parser.itemsBefore (.symbol .rightParen) Parser.parameter)
    (Parser.itemsBefore (.symbol .rightParen) Parser.parameter)
    fun params ts => ∃ rs, Parameters ts params rs := by
  have hlist : ∀ params ts, (∃ rs, ParameterList ts params rs) → ∃ rs, Parameters ts params rs :=
    fun _ _ ⟨rs, hparams⟩ => ⟨rs, .some hparams⟩
  refine itemsBefore parameter ?_ ?_ ⟨[], .none⟩ hlist _
  · rintro found ts comma ⟨name, _⟩ _ ⟨rs, hfound⟩ hcomma ⟨t, rfl, ht, rfl⟩
    exact ⟨_, .more hfound hcomma ht⟩
  · rintro ⟨name, _⟩ _ ⟨t, rfl, ht, rfl⟩
    exact ⟨[], .first ht⟩

theorem expressionBefore (stop : TokenKind) :
    Prompt false n n' (Parser.expressionBefore stop) (Parser.expressionBefore stop)
      MayExpress := by
  refine check_bind fun _ => ite (pure ⟨[], .none⟩) (expression.map some ?_)
  rintro e ts ⟨rs, he⟩
  exact ⟨rs, .some he⟩

theorem variableDeclaration {s s' : ParseState} (hs : s.cursor.ahead.length ≤ n)
    (hs' : s'.cursor.ahead.length ≤ n') (ht : s.cursor.current.kind = .keyword .varKw) :
    PromptAt goesOn s s' Parser.variableDeclaration Parser.variableDeclaration
      fun stmt ts => ∃ rs, VariableDeclaration .lenient ts stmt rs := by
  refine .advance_bind (Nat.le_succ_of_le hs) (Nat.le_succ_of_le hs') (by simp [ht]) ?_
  refine expectIdentifier_bind fun i name hi => ?_
  have hvalue : Prompt false n n' Parser.initialValue Parser.initialValue fun value ts =>
      ∀ c, c.kind = .symbol .semicolon → ∃ rs, VariableDeclaration .lenient
        (s.cursor.current :: i :: (ts ++ [c]))
        (.var (s.cursor.current.span.merge c.span) name i.span value) rs := by
    refine (check_symbol (fun eq heq => expression.map some ?_) (pure ?_)).mono (Nat.le_succ n)
      (Nat.le_succ n')
    · rintro e ts ⟨rs, he⟩ c hc
      exact ⟨rs, .initialized ht hi heq he hc⟩
    · exact fun c hc => ⟨[], .plain ht hi hc⟩
  exact hvalue.bind fun value ts hvalue => expect_bind fun c hc => pure (hvalue c hc)

theorem expressionStatement :
    Prompt goesOn n n' Parser.expressionStatement Parser.expressionStatement
      fun stmt ts => ∃ rs, ExpressionStatement .lenient ts stmt rs := by
  refine expression.bind fun e ts he => expect_bind fun c hc => pure ?_
  obtain ⟨rs, he⟩ := he
  exact ⟨rs, .mk he hc⟩

theorem printStatement {s s' : ParseState} (hs : s.cursor.ahead.length ≤ n)
    (hs' : s'.cursor.ahead.length ≤ n') (ht : s.cursor.current.kind = .keyword .printKw) :
    PromptAt goesOn s s' Parser.printStatement Parser.printStatement Declares := by
  refine .advance_bind (Nat.le_succ_of_le hs) (Nat.le_succ_of_le hs') (by simp [ht]) ?_
  refine expression.bind fun e ts he => expect_bind fun c hc => pure fun inside => ?_
  obtain ⟨rs, he⟩ := he
  exact ⟨rs, .print ht he hc⟩

theorem returnStatement {s s' : ParseState} (hs : s.cursor.ahead.length ≤ n)
    (hs' : s'.cursor.ahead.length ≤ n') (ht : s.cursor.current.kind = .keyword .returnKw) :
    PromptAt goesOn s s' Parser.returnStatement Parser.returnStatement Declares := by
  refine .advance_bind (Nat.le_succ_of_le hs) (Nat.le_succ_of_le hs') (by simp [ht]) ?_
  refine get_bind fun _ _ => reportIf_bind rfl rfl ?_
  refine (expressionBefore _).bind fun e ts he => expect_bind fun c hc => pure fun inside => ?_
  obtain ⟨rs, he⟩ := he
  exact ⟨_, .result ht he hc⟩

theorem forInitializer : Prompt false n n' Parser.forInitializer Parser.forInitializer
    fun init ts => ∃ rs, Initializer .lenient ts init rs := by
  refine current_bind fun s s' hs hs' => ?_
  split
  next ht =>
    exact .advance_bind (Nat.le_succ_of_le hs) (Nat.le_succ_of_le hs') (by simp [ht])
      (pure ⟨[], .none ht⟩)
  next ht =>
    refine (variableDeclaration hs hs' ht).map some ?_
    rintro stmt ts ⟨rs, hstmt⟩
    exact ⟨rs, .var hstmt⟩
  next =>
    refine (expressionStatement s s' hs hs').map some ?_
    rintro stmt ts ⟨rs, hstmt⟩
    exact ⟨rs, .expression hstmt⟩

section Statements

variable {nested nested' : Parser Stmt} (h : Prompt true n n' nested nested' Declares)
  (hf : Composed nested) (hf' : Composed nested')
include h hf hf'

/-- The branch after `else`, the token `e`. -/
theorem elseBranch {e : Token} (he : e.kind = .keyword .elseKw) :
    Prompt true n n' (Parser.elseBranch nested) (Parser.elseBranch nested')
      fun body ts => Continues (some body) (e :: ts) := by
  intro s s' hs hs'
  refine .check_bind ?_
  split
  next hk =>
    have hif := (Cursor.check_keyword _ _).1 hk
    have hconditional : PromptAt true s s' nested nested' fun stmt ts =>
        ∀ inside, ∃ rs, Conditional .lenient inside ts stmt rs := by
      refine (h s s' hs hs').strengthen exists_conditional ?_ ?_
      · intro stmt hstmt
        obtain ⟨rs, hd⟩ := hstmt true
        exact absurd rfl hd.ne_nil
      · intro stmt ts hstmt inside
        obtain ⟨rs, hd⟩ := hstmt inside
        exact ⟨rs, hd.toConditional hif⟩
    rw [← map_eq_pure_bind fun stmt : Stmt => (⟨stmt.span, [stmt]⟩ : Block),
      ← map_eq_pure_bind fun stmt : Stmt => (⟨stmt.span, [stmt]⟩ : Block)]
    refine hconditional.map _ fun stmt ts hstmt inside => ?_
    obtain ⟨rs, hstmt⟩ := hstmt inside
    exact ⟨rs, .chained he hstmt⟩
  next =>
    refine (block_same h hf hf' _ s s' hs hs').weaken fun body ts hbody inside => ?_
    obtain ⟨rs, hbody⟩ := hbody inside
    exact ⟨rs, .block he hbody⟩

theorem otherwise :
    Prompt true n n' (Parser.otherwise nested) (Parser.otherwise nested') Continues := by
  refine (check_keyword (fun e he => ?_) (pure fun _ => ⟨[], .none⟩)).mono (Nat.le_succ n)
    (Nat.le_succ n')
  exact (elseBranch h hf hf' he).map some fun _ _ => id

variable {s s' : ParseState} (hs : s.cursor.ahead.length ≤ n + 1)
  (hs' : s'.cursor.ahead.length ≤ n' + 1)
include hs hs'

theorem function (ht : s.cursor.current.kind = .keyword .funKw) :
    PromptAt true s s' (Parser.function nested) (Parser.function nested') Declares := by
  refine .advance_bind hs hs' (by simp [ht]) ?_
  refine expectIdentifier_bind fun i name hi => expect_bind fun o ho =>
    parameters.bind fun params ts hparams => expectClosing_bind fun c hc => ?_
  refine (inFunction (block_same h hf hf' _)).bind_forward
    (fun body us hbody => pure fun inside => ?_) (fun _ => .pure _) (fun _ => .pure _)
  obtain ⟨rs, hparams⟩ := hparams
  obtain ⟨rs', hbody⟩ := hbody true
  rw [List.append_nil]
  exact ⟨_, .function ht hi ho hparams hc hbody⟩

theorem conditional (ht : s.cursor.current.kind = .keyword .ifKw) :
    PromptAt true s s' (Parser.conditional nested) (Parser.conditional nested') Declares := by
  refine .advance_bind hs hs' (by simp [ht]) ?_
  refine expression.bind fun e ts he => (block_same h hf hf' _).bind_forward
    (fun body us hbody => (otherwise h hf hf').bind_forward
      (fun other vs hother => pure fun inside => ?_) (fun _ => .pure _) (fun _ => .pure _))
    (fun _ => hf.otherwise.bind fun _ => .pure _)
    (fun _ => hf'.otherwise.bind fun _ => .pure _)
  obtain ⟨rs, he⟩ := he
  obtain ⟨rs', hbody⟩ := hbody inside
  obtain ⟨rs₁, hother⟩ := hother inside
  rw [List.append_nil]
  exact ⟨_, .conditional (.mk ht he hbody hother)⟩

theorem whileLoop (ht : s.cursor.current.kind = .keyword .whileKw) :
    PromptAt true s s' (Parser.whileLoop nested) (Parser.whileLoop nested') Declares := by
  refine .advance_bind hs hs' (by simp [ht]) ?_
  refine expression.bind fun e ts he => (block_same h hf hf' _).bind_forward
    (fun body us hbody => pure fun inside => ?_) (fun _ => .pure _) (fun _ => .pure _)
  obtain ⟨rs, he⟩ := he
  obtain ⟨rs', hbody⟩ := hbody inside
  rw [List.append_nil]
  exact ⟨_, .whileLoop ht he hbody⟩

theorem forLoop (ht : s.cursor.current.kind = .keyword .forKw) :
    PromptAt true s s' (Parser.forLoop nested) (Parser.forLoop nested') Declares := by
  refine .advance_bind hs hs' (by simp [ht]) ?_
  refine forInitializer.bind fun init ts hinit => (expressionBefore _).bind fun cond ts₁ hcond =>
    expect_bind fun c hc => (expressionBefore _).bind fun incr ts₂ hincr =>
      (block_same h hf hf' _).bind_forward (fun body ts₃ hbody => log_bind (pure fun inside => ?_))
        (fun _ => (Composed.log _).bind fun _ => .pure _)
        (fun _ => (Composed.log _).bind fun _ => .pure _)
  obtain ⟨rs, hinit⟩ := hinit
  obtain ⟨rs₁, hcond⟩ := hcond
  obtain ⟨rs₂, hincr⟩ := hincr
  obtain ⟨rs₃, hbody⟩ := hbody inside
  have hd := Declaration.forLoop ht hinit hcond hc hincr hbody
  refine ⟨rs ++ (rs₁ ++ (rs₂ ++ rs₃)), ?_⟩
  cases incr <;> simpa [forLoopOf, forTree] using hd

omit hs hs' in
theorem declarationWith : Prompt true (n + 1) (n' + 1) (Parser.declarationWith nested)
    (Parser.declarationWith nested') Declares := by
  refine current_bind fun s s' hs hs' => ?_
  split
  next ht => exact function h hf hf' hs hs' ht
  next ht =>
    refine (variableDeclaration hs hs' ht).weaken ?_
    rintro stmt ts ⟨rs, hstmt⟩ inside
    exact ⟨rs, .var hstmt⟩
  next ht => exact forLoop h hf hf' hs hs' ht
  next ht => exact conditional h hf hf' hs hs' ht
  next ht => exact printStatement hs hs' ht
  next ht => exact returnStatement hs hs' ht
  next ht => exact whileLoop h hf hf' hs hs' ht
  next =>
    refine (block h hf hf' _ s s' hs hs').map _ fun body ts hbody inside => ?_
    obtain ⟨rs, hbody⟩ := hbody inside
    exact ⟨rs, .block hbody⟩
  next =>
    refine (expressionStatement s s' hs hs').weaken ?_
    rintro stmt ts ⟨rs, hstmt⟩ inside
    exact ⟨rs, .expression hstmt⟩

end Statements

/-- A bound on nestings that is not less than the number of tokens does not matter. -/
theorem declarationUpTo {m m' : Nat} (hm : n ≤ m) (hm' : n' ≤ m') :
    Prompt true n n' (Parser.declarationUpTo m) (Parser.declarationUpTo m') Declares := by
  induction n generalizing n' m m' with
  | zero =>
    have hexpression : Prompt true 0 n' Parser.expressionStatement Parser.expressionStatement
        Declares := by
      refine expressionStatement.weaken ?_
      rintro stmt ts ⟨rs, hstmt⟩ inside
      exact ⟨rs, .expression hstmt⟩
    exact hexpression.zero fun s hend => answer_declarationUpTo_of_eof hend m
  | succ n ih =>
    obtain ⟨m, rfl⟩ := Nat.exists_eq_succ_of_ne_zero (n := m) (by omega)
    refine rounds (q := Parser.declarationUpTo) hm' fun i j hij hi _ => ?_
    exact (declarationWith (ih (by omega) hij) (.declarationUpTo m) (.declarationUpTo j)).mono
      (Nat.le_refl _) hi

theorem declaration : Prompt true n n' Parser.declaration Parser.declaration Declares :=
  remaining_bind fun _ _ _ _ _ _ hm hm' => declarationUpTo hm hm'

end Prompt

end Parser

end Tarn
