import Tarn.Proofs.Semantics.Views

/-! Whatever the machine ends with, the semantics ends with too. -/
namespace Tarn.Semantics

variable {S : Context} {scope : Scope} {depth loops : Nat} {invoke : Invoke}

/-- Invoking a function means to apply it. -/
def FollowsCalls (S : Context) (depth : Nat) (invoke : Invoke) : Prop :=
  ∀ (scope : Scope) (f : Closure) (args : List Value) (paren : Span),
    args.length = f.decl.arity → Follows S scope depth (invoke f args paren)
      fun w r w' => Applies S depth w (.function f) args paren r w'

theorem follows_call (h : FollowsCalls S depth invoke) (f : Value) (args : List Value)
    (paren : Span) : Follows S scope depth (f.call invoke args paren)
      fun w r w' => Applies S depth w f args paren r w' := by
  have hfail (fault : Fault) {v : Value} (hv : ∀ w, Applies S depth w v args paren
      (blamed paren (.error fault)) w) : Follows S scope depth (Eval.fail fault paren : Eval Value)
        fun w r w' => Applies S depth w v args paren r w' := by
    refine (Follows.blame paren (.error fault)).mono ?_
    rintro w r w' ⟨rfl, rfl⟩
    exact hv _
  cases f with
  | function f =>
    rw [Value.call]
    split
    next harity => exact h scope f args paren harity
    next harity => exact hfail _ fun w => .arity harity
  | native f =>
    rw [Value.call]
    split
    next harity =>
      refine (Follows.of_run fun w m hm => callNative_run hm f args paren).mono ?_
      rintro w r w' ⟨rfl, rfl⟩
      exact .native harity
    next harity => exact hfail _ fun w => .nativeArity harity
  | nil | bool | number | string => exact hfail _ fun w => .notCallable (by simp) (by simp)

theorem follows_lookup (name : Name) (span : Span) :
    Follows S scope depth (Eval.lookup name span) fun w r w' =>
      (∃ v, (w.env scope).lookup name = some v ∧ r = .ok v ∧ w' = w) ∨
        ((w.env scope).lookup name = none ∧ r = S.undefined name span ∧ w' = w) := by
  intro w m r m' hm heq
  rw [Eval.lookup, get_run, hm.env] at heq
  rcases hv : (w.env scope).lookup name with _ | v
  · rw [hv] at heq
    obtain ⟨w', hm', hr⟩ := Follows.undefined name span hm heq
    exact ⟨w', hm', .inr ⟨hv, hr⟩⟩
  · rw [hv] at heq
    obtain ⟨w', hm', hr⟩ := Follows.pure v hm heq
    exact ⟨w', hm', .inl ⟨v, hv, hr⟩⟩

theorem follows_rebind (name : Name) (value : Value) (span : Span) :
    Follows S scope depth (Eval.rebind name value span) fun w r w' =>
      (∃ i, (w.env scope).owner? scope name = some i ∧ r = .ok value ∧
        w' = w.assign i name value) ∨
      ((w.env scope).owner? scope name = none ∧ r = S.undefined name span ∧ w' = w) := by
  intro w m r m' hm heq
  have howner : m.env.owner? m.env.current name = (w.env scope).owner? scope name := by
    rw [hm.env]
    rfl
  rw [Eval.rebind, get_run, howner] at heq
  rcases hi : (w.env scope).owner? scope name with _ | i
  · rw [hi] at heq
    obtain ⟨w', hm', hr⟩ := Follows.undefined name span hm heq
    exact ⟨w', hm', .inr ⟨hi, hr⟩⟩
  · rw [hi] at heq
    obtain ⟨w', hm', rfl, rfl⟩ := Follows.pure value (hm.assign i name value) heq
    exact ⟨_, hm', .inl ⟨i, hi, rfl, rfl⟩⟩

mutual

theorem follows_eval (h : FollowsCalls S depth invoke) : ∀ e : Expr,
    Follows S scope depth (e.eval invoke) fun w r w' => Evaluates S scope depth w e r w'
  | .literal _ .nil | .literal _ (.bool _) | .literal _ (.number _) => by
    rw [Expr.eval]
    refine (Follows.pure _).mono ?_
    rintro w r w' ⟨rfl, rfl⟩
    exact .literal
  | .literal _ (.string text) => by
    rw [Expr.eval]
    refine ((Follows.spelling text).bind fun s => .pure _).mono ?_
    rintro w r w' (⟨s, w₁, ⟨hs, rfl⟩, rfl, rfl⟩ | ⟨e, -, he, -⟩)
    · obtain rfl := Except.ok.inj hs
      exact .literal
    · cases he
  | .var span name => by
    rw [Expr.eval]
    refine (follows_lookup name span).mono ?_
    rintro w r w' (⟨v, hv, rfl, rfl⟩ | ⟨hnone, rfl, rfl⟩)
    · exact .var hv
    · exact .undefined hnone
  | .grouping span inner => by
    rw [Expr.eval]
    exact (follows_eval h inner).mono .grouping
  | .unary span op opSpan operand => by
    rw [Expr.eval]
    refine ((follows_eval h operand).bind fun v => .blame opSpan (op.apply v)).mono ?_
    rintro w r w' (⟨v, w₁, hv, rfl, rfl⟩ | ⟨e, rfl, he⟩)
    · exact .unary hv
    · exact .unary he
  | .binary span op opSpan left right => by
    rw [Expr.eval]
    refine ((follows_eval h left).bind fun a => (follows_eval h right).bind fun b =>
      .blame opSpan (op.apply a b)).mono ?_
    rintro w r w' (⟨a, w₁, ha, ⟨b, w₂, hb, rfl, rfl⟩ | ⟨e, rfl, he⟩⟩ | ⟨e, rfl, he⟩)
    · exact .binary ha hb
    · exact .binary ha he
    · exact .binaryFails he
  | .logical span op opSpan left right => by
    rw [Expr.eval]
    have hright (a : Value) : Follows S scope depth
        (match op, a.isTruthy with
          | .or, true | .and, false => pure a
          | .or, false | .and, true => right.eval invoke)
        fun w r w' => (op.decidedBy a = true ∧ r = .ok a ∧ w' = w) ∨
          (op.decidedBy a = false ∧ Evaluates S scope depth w right r w') := by
      cases op <;> cases ha : a.isTruthy
      · exact (Follows.pure a).mono fun h => .inl ⟨by rw [LogicalOp.decidedBy, ha]; rfl, h⟩
      · exact (follows_eval h right).mono fun h => .inr ⟨by rw [LogicalOp.decidedBy, ha]; rfl, h⟩
      · exact (follows_eval h right).mono fun h => .inr ⟨by rw [LogicalOp.decidedBy, ha], h⟩
      · exact (Follows.pure a).mono fun h => .inl ⟨by rw [LogicalOp.decidedBy, ha], h⟩
    refine ((follows_eval h left).bind hright).mono ?_
    rintro w r w' (⟨a, w₁, ha, ⟨hd, rfl, rfl⟩ | ⟨hd, hb⟩⟩ | ⟨e, rfl, he⟩)
    · exact .decided ha hd
    · exact .undecided ha hd hb
    · exact .logicalFails he
  | .assign span name nameSpan value => by
    rw [Expr.eval]
    refine ((follows_eval h value).bind fun v => follows_rebind name v nameSpan).mono ?_
    rintro w r w' (⟨v, w₁, hv, ⟨i, hi, rfl, rfl⟩ | ⟨hi, rfl, rfl⟩⟩ | ⟨e, rfl, he⟩)
    · exact .assign hv hi
    · exact .assignUndefined hv hi
    · exact .assignFails he
  | .call span callee paren args => by
    rw [Expr.eval]
    refine ((follows_eval h callee).bind fun f => (follows_evalAll h args).bind fun values =>
      follows_call h f values paren).mono ?_
    rintro w r w' (⟨f, w₁, hf, ⟨values, w₂, ha, hc⟩ | ⟨e, rfl, he⟩⟩ | ⟨e, rfl, he⟩)
    · exact .call hf ha hc
    · exact .argumentsFail hf he
    · exact .calleeFails he

theorem follows_evalAll (h : FollowsCalls S depth invoke) : ∀ es : List Expr,
    Follows S scope depth (Expr.evalAll invoke es)
    fun w r w' => EvaluatesAll S scope depth w es r w'
  | [] => by
    rw [Expr.evalAll]
    refine (Follows.pure _).mono ?_
    rintro w r w' ⟨rfl, rfl⟩
    exact .nil
  | e :: es => by
    rw [Expr.evalAll]
    refine ((follows_eval h e).bind fun v => (follows_evalAll h es).bind fun vs => .pure _).mono ?_
    rintro w r w' (⟨v, w₁, hv, ⟨vs, w₂, hvs, rfl, rfl⟩ | ⟨e, rfl, he⟩⟩ | ⟨e, rfl, he⟩)
    · exact .cons hv hvs
    · exact .cons hv he
    · exact .fails he

end

theorem follows_evalOptional (h : FollowsCalls S depth invoke) (value : Option Expr) :
    Follows S scope depth (evalOptional invoke value)
      fun w r w' => EvaluatesOption S scope depth w value r w' := by
  cases value with
  | none =>
    refine (Follows.pure _).mono ?_
    rintro w r w' ⟨rfl, rfl⟩
    exact .none
  | some e => exact (follows_eval h e).mono .some

/-- Whether a condition holds. -/
def Tests (S : Context) (scope : Scope) (depth : Nat) (e : Expr) : Meaning Bool := fun w r w' =>
  (∃ v : Value, r = .ok v.isTruthy ∧ Evaluates S scope depth w e (.ok v) w') ∨
    ∃ x, r = .error x ∧ Evaluates S scope depth w e (.error x) w'

namespace Tests

variable {e : Expr} {w w' : World}

theorem of_ok {holds : Bool} (h : Tests S scope depth e w (.ok holds) w') :
    ∃ v : Value, v.isTruthy = holds ∧ Evaluates S scope depth w e (.ok v) w' := by
  obtain ⟨v, hv, h⟩ | ⟨x, hx, -⟩ := h
  · exact ⟨v, (Except.ok.inj hv).symm, h⟩
  · cases hx

theorem of_error {x : EvalError} (h : Tests S scope depth e w (.error x) w') :
    Evaluates S scope depth w e (.error x) w' := by
  obtain ⟨v, hv, -⟩ | ⟨y, hy, h⟩ := h
  · cases hv
  · rwa [Except.error.inj hy]

end Tests

theorem follows_test (h : FollowsCalls S depth invoke) (e : Expr) :
    Follows S scope depth (e.test invoke) (Tests S scope depth e) := by
  refine ((follows_eval h e).bind fun v => .pure v.isTruthy).mono ?_
  rintro w r w' (⟨v, w₁, hv, rfl, rfl⟩ | ⟨x, rfl, hx⟩)
  · exact .inl ⟨v, rfl, hv⟩
  · exact .inr ⟨x, rfl, hx⟩

theorem follows_declare (decl : FunctionDecl) : Follows S scope depth (declare decl)
    fun w r w' => r = .ok () ∧ w' = S.declare w scope decl := by
  intro w m r m' hm heq
  rw [declare, get_run] at heq
  obtain ⟨hr, rfl⟩ := Prod.mk.inj heq
  exact ⟨_, hm.declare decl, (Result.halt_injective (r := .ok ()) hr).symm, rfl⟩

/-- Rounds of a loop, if its body follows the semantics. -/
theorem follows_iterate {condition : Expr} {stmts : List Stmt} {test : Eval Bool}
    {body : Eval Flow} (ht : Follows S scope depth test (Tests S scope depth condition))
    (hb : Follows S scope depth body fun w r w' =>
      ExecutesAll S (w.fresh scope) depth (w.push []) stmts r w') (fuel : Nat) :
    Follows S scope depth (iterate test body fuel)
      fun w r w' => Loops S scope depth w condition stmts r w' := by
  induction fuel with
  | zero => exact .exhausted
  | succ fuel ih =>
    rw [iterate]
    refine (ht.bind fun holds => .ite (hb.bind fun flow => ih.unlessReturned flow) (.pure _)
      holds).mono ?_
    rintro w r w' (⟨holds, w₁, ht, hrest⟩ | ⟨e, rfl, ht⟩)
    · obtain ⟨v, rfl, hc⟩ := ht.of_ok
      obtain ⟨hv, ⟨flow, w₂, hb, ⟨rfl, hl⟩ | ⟨hf, rfl, rfl⟩⟩ | ⟨e, rfl, hb⟩⟩ | ⟨hv, rfl, rfl⟩ :=
        hrest
      · exact .round hc hv hb hl
      · exact .stops hc hv hb fun h => hf (Except.ok.inj h)
      · exact .stops hc hv hb nofun
      · exact .done hc hv
    · exact .fails ht.of_error

mutual

theorem follows_exec (h : FollowsCalls S depth invoke) {scope : Scope} : ∀ s : Stmt,
    Follows S scope depth (s.exec loops invoke) fun w r w' => Executes S scope depth w s r w'
  | .block ⟨span, stmts⟩ => by
    rw [Stmt.exec]
    exact .log_bind _ ((Follows.inFreshScope fun s => follows_execAll h stmts).mono .block)
  | .expression span e => by
    rw [Stmt.exec]
    refine .log_bind _ (((follows_eval h e).bind fun _ => .pure _).mono ?_)
    rintro w r w' (⟨v, w₁, hv, rfl, rfl⟩ | ⟨x, rfl, hx⟩)
    · exact .expression hv
    · exact .expression hx
  | .function span decl => by
    rw [Stmt.exec]
    refine .log_bind _ (((follows_declare decl).bind fun _ => .pure _).mono ?_)
    rintro w r w' (⟨_, w₁, ⟨-, rfl⟩, rfl, rfl⟩ | ⟨x, -, hx, -⟩)
    · exact .function
    · cases hx
  | .conditional span condition ⟨bspan, stmts⟩ none => by
    rw [exec_conditional]
    refine .log_bind _ (((follows_test h condition).bind fun holds =>
      .ite (.inFreshScope fun s => follows_execAll h stmts) (.pure _) holds).mono ?_)
    rintro w r w' (⟨holds, w₁, ht, hrest⟩ | ⟨e, rfl, ht⟩)
    · obtain ⟨v, rfl, hc⟩ := ht.of_ok
      obtain ⟨hv, hb⟩ | ⟨hv, rfl, rfl⟩ := hrest
      · exact .thenBranch hc hv hb
      · exact .noBranch hc hv
    · exact .conditionFails ht.of_error
  | .conditional span condition ⟨bspan, stmts⟩ (some ⟨ospan, others⟩) => by
    rw [exec_conditional]
    refine .log_bind _ (((follows_test h condition).bind fun holds =>
      .ite (.inFreshScope fun s => follows_execAll h stmts)
        (.inFreshScope fun s => follows_execAll h others) holds).mono ?_)
    rintro w r w' (⟨holds, w₁, ht, hrest⟩ | ⟨e, rfl, ht⟩)
    · obtain ⟨v, rfl, hc⟩ := ht.of_ok
      obtain ⟨hv, hb⟩ | ⟨hv, hb⟩ := hrest
      · exact .thenBranch hc hv hb
      · exact .elseBranch hc hv hb
    · exact .conditionFails ht.of_error
  | .print span e => by
    rw [Stmt.exec]
    refine .log_bind _ (((follows_eval h e).bind fun v =>
      (Follows.update fun hm => hm.println v.toString).bind fun _ => .pure _).mono ?_)
    rintro w r w' (⟨v, w₁, hv, ⟨_, w₂, ⟨-, rfl⟩, rfl, rfl⟩ | ⟨x, -, hx, -⟩⟩ | ⟨x, rfl, hx⟩)
    · exact .print hv
    · cases hx
    · exact .printFails hx
  | .result span keyword value => by
    rw [Stmt.exec]
    refine .log_bind _ (((follows_evalOptional h value).bind fun v => .pure _).mono ?_)
    rintro w r w' (⟨v, w₁, hv, rfl, rfl⟩ | ⟨x, rfl, hx⟩)
    · exact .result hv
    · exact .result hx
  | .loop span condition ⟨bspan, stmts⟩ => by
    rw [Stmt.exec]
    exact .log_bind _ ((follows_iterate (follows_test h condition)
      (Follows.inFreshScope fun s => follows_execAll h stmts) loops).mono .loop)
  | .var span name nameSpan value => by
    rw [Stmt.exec]
    refine .log_bind _ (((follows_evalOptional h value).bind fun v =>
      (Follows.update fun hm => hm.define name v).bind fun _ => .pure _).mono ?_)
    rintro w r w' (⟨v, w₁, hv, ⟨_, w₂, ⟨-, rfl⟩, rfl, rfl⟩ | ⟨x, -, hx, -⟩⟩ | ⟨x, rfl, hx⟩)
    · exact .var hv
    · cases hx
    · exact .varFails hx

theorem follows_execAll (h : FollowsCalls S depth invoke) {scope : Scope} : ∀ ss : List Stmt,
    Follows S scope depth (Stmt.execAll loops invoke ss)
      fun w r w' => ExecutesAll S scope depth w ss r w'
  | [] => by
    rw [Stmt.execAll]
    refine (Follows.pure _).mono ?_
    rintro w r w' ⟨rfl, rfl⟩
    exact .nil
  | s :: ss => by
    rw [Stmt.execAll]
    refine ((follows_exec h s).bind fun flow =>
      (follows_execAll h ss).unlessReturned flow).mono ?_
    rintro w r w' (⟨flow, w₁, hw₁, ⟨rfl, hss⟩ | ⟨hf, rfl, rfl⟩⟩ | ⟨e, rfl, he⟩)
    · exact .cons hw₁ hss
    · exact .stops hw₁ fun h => hf (Except.ok.inj h)
    · exact .stops he nofun

end

/-- Calls follow the semantics, as deep as they may be nested. -/
theorem followsCalls_invokeUpTo (loops : Nat) {n : Nat} (hn : S.maxCallDepth - depth = n) :
    FollowsCalls S depth (invokeUpTo loops n) := by
  induction n generalizing depth with
  | zero =>
    intro scope f args paren harity
    rw [invokeUpTo]
    refine .during _ fun w m r m' hm heq => ?_
    rw [get_run, hm.maxCallDepth] at heq
    obtain ⟨w', hm', rfl, rfl⟩ :=
      Follows.blame paren (.error (.callDepthExceeded S.maxCallDepth)) hm heq
    exact ⟨_, hm', .tooDeep harity (by omega)⟩
  | succ n ih =>
    intro scope f args paren harity
    have hdeeper : S.maxCallDepth - (depth + 1) = n := by omega
    have hcalls := ih hdeeper
    rw [invokeUpTo]
    refine .during _ ((Follows.newScope_bind (fun s => (Follows.inCall (.inside (follows_execAll
      hcalls f.decl.body.stmts))).bind .value) f.scope (bindParams f.decl.params args)).mono ?_)
    rintro w r w' (⟨flow, w₁, hb, rfl, rfl⟩ | ⟨e, rfl, hb⟩)
    · exact .body harity (by omega) hb
    · exact .body harity (by omega) hb

theorem follows_announce_bind {α : Type} (s : Stmt) {p : Eval α} {R : Meaning α}
    (h : Follows S scope depth p R) : Follows S scope depth (s.announce >>= fun _ => p) R := by
  intro w m r m' hm heq
  obtain ⟨log, hlog⟩ := announce_run s m
  rw [bind_run, hlog] at heq
  exact h (hm.withLog log) heq

/-- A statement outside all functions. -/
theorem follows_runTop (loops : Nat) (s : Stmt) : Follows S scope depth (s.runTop loops)
    (Meaning.next (fun w r w' => Executes S scope depth w s r w')
      fun flow w r w' => r = flow.atTop s.span ∧ w' = w) := by
  refine follows_announce_bind s fun w m r m' hm heq => ?_
  rw [get_run, hm.maxCallDepth, hm.callDepth] at heq
  have hexec : Follows S scope depth (s.exec loops (invokeUpTo loops (S.maxCallDepth - depth)))
      fun w r w' => Executes S scope depth w s r w' :=
    follows_exec (followsCalls_invokeUpTo loops rfl) s
  exact hexec.loggingErrors.bind (.atTop s.span) hm heq

/-- A program follows the semantics outside all functions. -/
theorem follows_interpret (loops : Nat) (stmts : List Stmt) :
    Follows S scope depth (interpret loops stmts)
      fun w r w' => Runs S scope depth w stmts r w' := by
  induction stmts with
  | nil =>
    refine (Follows.pure ()).mono ?_
    rintro w r w' ⟨rfl, rfl⟩
    exact .nil
  | cons s ss ih =>
    rw [interpret]
    refine ((follows_runTop loops s).bind fun _ => ih).mono ?_
    rintro w r w' (⟨_, w₁, ⟨flow, w₂, hs, hflow, rfl⟩ | ⟨e, he, -⟩, hss⟩ |
      ⟨e, rfl, ⟨flow, w₂, hs, hflow, rfl⟩ | ⟨e', he, hs⟩⟩)
    · cases flow with
      | normal => exact .cons hs hss
      | returned v => cases hflow
    · cases he
    · cases flow with
      | normal => cases hflow
      | returned v =>
        rw [hflow]
        exact .returns hs
    · obtain rfl := Except.error.inj he
      exact .fails hs

end Tarn.Semantics
