import Mathlib.Order.Filter.AtTopBot.Basic
import Tarn.Proofs.Semantics.Views

/-! Whatever the semantics ends with, the machine ends with too, once its loops may go round often
enough. -/
namespace Tarn.Semantics

open Filter

variable {S : Context} {scope : Scope} {depth : Nat} {w w₁ w₂ w₃ : World} {α : Type}

/-- How functions are invoked inside `depth` function bodies. -/
def calls (S : Context) (depth loops : Nat) : Invoke := invokeUpTo loops (S.maxCallDepth - depth)

/-- From the world `w`, all `p` but the first ones end with `r` in the world `w'`. -/
abbrev Settles (S : Context) (scope : Scope) (depth : Nat) (p : Nat → Eval α) (w : World)
    (r : Result α) (w' : World) : Prop :=
  ∀ᶠ loops in atTop, Reaches S scope depth (p loops) w r w'

theorem Settles.of_forall {p : Nat → Eval α} {r : Result α}
    (h : ∀ loops, Reaches S scope depth (p loops) w r w₁) : Settles S scope depth p w r w₁ :=
  Eventually.of_forall h

theorem reaches_lookup {name : Name} {v : Value} (span : Span)
    (h : (w.env scope).lookup name = some v) :
    Reaches S scope depth (Eval.lookup name span) w (.ok v) w := by
  refine .of_run fun m hm => ?_
  rw [Eval.lookup, get_run, hm.env, h]
  rfl

theorem reaches_lookup_undefined {name : Name} (span : Span)
    (h : (w.env scope).lookup name = none) :
    Reaches S scope depth (Eval.lookup name span) w (S.undefined name span) w := by
  intro m hm
  rw [Eval.lookup, get_run, hm.env, h]
  exact Reaches.undefined name span w hm

theorem reaches_rebind {name : Name} {i : FrameId} (value : Value) (span : Span)
    (h : (w.env scope).owner? scope name = some i) :
    Reaches S scope depth (Eval.rebind name value span) w (.ok value) (w.assign i name value) := by
  intro m hm
  have howner : m.env.owner? m.env.current name = some i := by
    rw [hm.env]
    exact h
  rw [Eval.rebind, get_run, howner]
  exact ⟨_, rfl, hm.assign i name value⟩

theorem reaches_rebind_undefined {name : Name} (value : Value) (span : Span)
    (h : (w.env scope).owner? scope name = none) :
    Reaches S scope depth (Eval.rebind name value span) w (S.undefined name span) w := by
  intro m hm
  have howner : m.env.owner? m.env.current name = none := by
    rw [hm.env]
    exact h
  rw [Eval.rebind, get_run, howner]
  exact Reaches.undefined name span w hm

theorem reaches_test {invoke : Invoke} {e : Expr} {r : Result Value}
    (h : Reaches S scope depth (e.eval invoke) w r w₁) :
    Reaches S scope depth (e.test invoke) w (r.map (·.isTruthy)) w₁ := h.map

theorem reaches_declare (decl : FunctionDecl) (w : World) :
    Reaches S scope depth (declare decl) w (.ok ()) (S.declare w scope decl) := by
  intro m hm
  exact ⟨_, rfl, hm.declare decl⟩

theorem reaches_callNative (f : Native) (args : List Value) (paren : Span) (w : World) :
    Reaches S scope depth (callNative f args paren) w (S.native f args paren) w :=
  .of_run fun _ hm => callNative_run hm f args paren

/-- A body that ends normally goes round again. -/
theorem reaches_iterate_succ {test : Eval Bool} {body : Eval Flow} {fuel : Nat} {r : Result Flow}
    (ht : Reaches S scope depth test w (.ok true) w₁)
    (hb : Reaches S scope depth body w₁ (.ok .normal) w₂)
    (h : Reaches S scope depth (iterate test body fuel) w₂ r w₃) :
    Reaches S scope depth (iterate test body (fuel + 1)) w r w₃ := by
  rw [iterate]
  exact ht.bind (hb.bind h)

theorem reaches_iterate_stops {test : Eval Bool} {body : Eval Flow} {r : Result Flow}
    (ht : Reaches S scope depth test w (.ok true) w₁) (hb : Reaches S scope depth body w₁ r w₂)
    (hr : r ≠ .ok .normal) (fuel : Nat) :
    Reaches S scope depth (iterate test body (fuel + 1)) w r w₂ := by
  rw [iterate]
  exact ht.bind (hb.unlessReturned hr)

theorem reaches_iterate_done {test : Eval Bool} (ht : Reaches S scope depth test w (.ok false) w₁)
    (body : Eval Flow) (fuel : Nat) :
    Reaches S scope depth (iterate test body (fuel + 1)) w (.ok .normal) w₁ := by
  rw [iterate]
  exact ht.bind (.pure _ w₁)

theorem reaches_iterate_fails {test : Eval Bool} {e : EvalError}
    (ht : Reaches S scope depth test w (.error e) w₁) (body : Eval Flow) (fuel : Nat) :
    Reaches S scope depth (iterate test body (fuel + 1)) w (.error e) w₁ := by
  rw [iterate]
  exact ht.bind_error

theorem reaches_callDepthExceeded (paren : Span) (w : World) :
    Reaches S scope depth
      (do Eval.fail (.callDepthExceeded (← get).maxCallDepth) paren : Eval Value) w
      (blamed paren (.error (.callDepthExceeded S.maxCallDepth))) w := by
  refine .of_run fun m hm => ?_
  rw [← hm.maxCallDepth]
  rfl

theorem reaches_literal {invoke : Invoke} (span : Span) (value : Literal) (w : World) :
    Reaches S scope depth ((Expr.literal span value).eval invoke) w (.ok (S.literal value)) w := by
  cases value with
  | string text =>
    rw [Expr.eval]
    exact (Reaches.spelling text w).bind (.pure _ w)
  | nil | bool | number =>
    rw [Expr.eval]
    exact .pure _ w

theorem reaches_decided {invoke : Invoke} {op : LogicalOp} {a : Value} {left right : Expr}
    {span opSpan : Span} (ha : op.decidedBy a = true)
    (h : Reaches S scope depth (left.eval invoke) w (.ok a) w₁) :
    Reaches S scope depth ((Expr.logical span op opSpan left right).eval invoke) w (.ok a) w₁ := by
  rw [Expr.eval]
  refine h.bind ?_
  cases op <;> cases hv : a.isTruthy <;> rw [LogicalOp.decidedBy, hv] at ha
  · exact .pure a w₁
  · cases ha
  · cases ha
  · exact .pure a w₁

theorem reaches_undecided {invoke : Invoke} {op : LogicalOp} {a : Value} {left right : Expr}
    {span opSpan : Span} {r : Result Value} (ha : op.decidedBy a = false)
    (h : Reaches S scope depth (left.eval invoke) w (.ok a) w₁)
    (h' : Reaches S scope depth (right.eval invoke) w₁ r w₂) :
    Reaches S scope depth ((Expr.logical span op opSpan left right).eval invoke) w r w₂ := by
  rw [Expr.eval]
  refine h.bind ?_
  cases op <;> cases hv : a.isTruthy <;> rw [LogicalOp.decidedBy, hv] at ha
  · cases ha
  · exact h'
  · exact h'
  · cases ha

mutual

theorem Evaluates.settles {scope : Scope} {depth : Nat} {w w' : World} {e : Expr}
    {r : Result Value} : Evaluates S scope depth w e r w' →
    Settles S scope depth (fun loops => e.eval (calls S depth loops)) w r w'
  | .literal => .of_forall fun loops => reaches_literal _ _ w
  | .var h => .of_forall fun loops => by
      rw [Expr.eval]
      exact reaches_lookup _ h
  | .undefined h => .of_forall fun loops => by
      rw [Expr.eval]
      exact reaches_lookup_undefined _ h
  | .grouping h => by
      filter_upwards [h.settles] with loops hi
      rw [Expr.eval]
      exact hi
  | .unary h => by
      filter_upwards [h.settles] with loops hi
      rw [Expr.eval]
      exact hi.bind_result fun _ => .blame _ _
  | .binary h h' => by
      filter_upwards [h.settles, h'.settles] with loops ha hb
      rw [Expr.eval]
      exact ha.bind (hb.bind_result fun _ => .blame _ _)
  | .binaryFails h => by
      filter_upwards [h.settles] with loops hi
      rw [Expr.eval]
      exact hi.bind_error
  | .decided h ha => by
      filter_upwards [h.settles] with loops hi
      exact reaches_decided ha hi
  | .undecided h ha h' => by
      filter_upwards [h.settles, h'.settles] with loops hi hi'
      exact reaches_undecided ha hi hi'
  | .logicalFails h => by
      filter_upwards [h.settles] with loops hi
      rw [Expr.eval]
      exact hi.bind_error
  | .assign h hi => by
      filter_upwards [h.settles] with loops hv
      rw [Expr.eval]
      exact hv.bind (reaches_rebind _ _ hi)
  | .assignUndefined h hi => by
      filter_upwards [h.settles] with loops hv
      rw [Expr.eval]
      exact hv.bind (reaches_rebind_undefined _ _ hi)
  | .assignFails h => by
      filter_upwards [h.settles] with loops hv
      rw [Expr.eval]
      exact hv.bind_error
  | .call hf ha h => by
      filter_upwards [hf.settles, ha.settles, h.settles] with loops hf ha h
      rw [Expr.eval]
      exact hf.bind (ha.bind (h _))
  | .calleeFails hf => by
      filter_upwards [hf.settles] with loops hf
      rw [Expr.eval]
      exact hf.bind_error
  | .argumentsFail hf ha => by
      filter_upwards [hf.settles, ha.settles] with loops hf ha
      rw [Expr.eval]
      exact hf.bind ha.bind_error

theorem EvaluatesAll.settles {scope : Scope} {depth : Nat} {w w' : World} {es : List Expr}
    {r : Result (List Value)} : EvaluatesAll S scope depth w es r w' →
    Settles S scope depth (fun loops => Expr.evalAll (calls S depth loops) es) w r w'
  | .nil => .of_forall fun loops => by
      rw [Expr.evalAll]
      exact .pure _ w
  | .cons h hs => by
      filter_upwards [h.settles, hs.settles] with loops hv hvs
      rw [Expr.evalAll]
      exact hv.bind hvs.map
  | .fails h => by
      filter_upwards [h.settles] with loops hv
      rw [Expr.evalAll]
      exact hv.bind_error

theorem Applies.settles {depth : Nat} {w w' : World} {f : Value} {args : List Value}
    {paren : Span} {r : Result Value} : Applies S depth w f args paren r w' →
    ∀ᶠ loops in atTop, ∀ scope : Scope,
      Reaches S scope depth (f.call (calls S depth loops) args paren) w r w'
  | .notCallable (v := v) hf hn => .of_forall fun loops scope => by
      cases v with
      | function f => exact absurd rfl (hf f)
      | native f => exact absurd rfl (hn f)
      | nil | bool | number | string => exact Reaches.blame paren (.error _) w
  | .arity h => .of_forall fun loops scope => by
      rw [Value.call, if_neg h]
      exact Reaches.blame paren (.error _) w
  | .nativeArity h => .of_forall fun loops scope => by
      rw [Value.call, if_neg h]
      exact Reaches.blame paren (.error _) w
  | .native h => .of_forall fun loops scope => by
      rw [Value.call, if_pos h]
      exact reaches_callNative _ args paren w
  | .tooDeep h hd => .of_forall fun loops scope => by
      rw [Value.call, if_pos h, calls, Nat.sub_eq_zero_of_le hd, invokeUpTo]
      exact .during _ (reaches_callDepthExceeded paren w)
  | .body h hd hb => by
      filter_upwards [hb.settles] with loops hb scope
      have hdepth : S.maxCallDepth - depth = S.maxCallDepth - (depth + 1) + 1 := by omega
      rw [Value.call, if_pos h, calls, hdepth, invokeUpTo]
      exact .during _ (.newScope_bind ((Reaches.inCall (.inside hb)).value))

theorem EvaluatesOption.settles {scope : Scope} {depth : Nat} {w w' : World}
    {value : Option Expr} {r : Result Value} : EvaluatesOption S scope depth w value r w' →
    Settles S scope depth (fun loops => evalOptional (calls S depth loops) value) w r w'
  | .none => .of_forall fun _ => .pure _ w
  | .some h => h.settles

theorem Executes.settles {scope : Scope} {depth : Nat} {w w' : World} {s : Stmt}
    {r : Result Flow} : Executes S scope depth w s r w' →
    Settles S scope depth (fun loops => s.exec loops (calls S depth loops)) w r w'
  | .block h => by
      filter_upwards [h.settles] with loops hb
      rw [Stmt.exec]
      exact .log_bind _ hb.inFreshScope
  | .expression h => by
      filter_upwards [h.settles] with loops hv
      rw [Stmt.exec]
      exact .log_bind _ hv.map
  | .function => .of_forall fun loops => by
      rw [Stmt.exec]
      exact .log_bind _ ((reaches_declare _ w).bind (.pure _ _))
  | .thenBranch h hv hb => by
      filter_upwards [h.settles, hb.settles] with loops hc hb
      have ht := reaches_test hc
      rw [Except.map, hv] at ht
      rw [exec_conditional]
      exact .log_bind _ (ht.bind hb.inFreshScope)
  | .elseBranch h hv hb => by
      filter_upwards [h.settles, hb.settles] with loops hc hb
      have ht := reaches_test hc
      rw [Except.map, hv] at ht
      rw [exec_conditional]
      exact .log_bind _ (ht.bind hb.inFreshScope)
  | .noBranch h hv => by
      filter_upwards [h.settles] with loops hc
      have ht := reaches_test hc
      rw [Except.map, hv] at ht
      rw [exec_conditional]
      exact .log_bind _ (ht.bind (.pure _ _))
  | .conditionFails h => by
      filter_upwards [h.settles] with loops hc
      rw [exec_conditional]
      exact .log_bind _ (reaches_test hc).bind_error
  | .print h => by
      filter_upwards [h.settles] with loops hv
      rw [Stmt.exec]
      exact .log_bind _ (hv.bind ((Reaches.update fun hm => hm.println _).bind (.pure _ _)))
  | .printFails h => by
      filter_upwards [h.settles] with loops hv
      rw [Stmt.exec]
      exact .log_bind _ hv.bind_error
  | .result h => by
      filter_upwards [h.settles] with loops hv
      rw [Stmt.exec]
      exact .log_bind _ hv.map
  | .loop h => by
      obtain ⟨n, hn⟩ := h.settles
      filter_upwards [hn, eventually_ge_atTop n] with loops hl hle
      rw [Stmt.exec]
      exact .log_bind _ (hl loops hle)
  | .var h => by
      filter_upwards [h.settles] with loops hv
      rw [Stmt.exec]
      exact .log_bind _ (hv.bind ((Reaches.update fun hm => hm.define _ _).bind (.pure _ _)))
  | .varFails h => by
      filter_upwards [h.settles] with loops hv
      rw [Stmt.exec]
      exact .log_bind _ hv.bind_error

theorem ExecutesAll.settles {scope : Scope} {depth : Nat} {w w' : World} {ss : List Stmt}
    {r : Result Flow} : ExecutesAll S scope depth w ss r w' →
    Settles S scope depth (fun loops => Stmt.execAll loops (calls S depth loops) ss) w r w'
  | .nil => .of_forall fun loops => by
      rw [Stmt.execAll]
      exact .pure _ w
  | .cons h hs => by
      filter_upwards [h.settles, hs.settles] with loops hw hws
      rw [Stmt.execAll]
      exact hw.bind hws
  | .stops h hr => by
      filter_upwards [h.settles] with loops hw
      rw [Stmt.execAll]
      exact hw.unlessReturned hr

/-- So many rounds are enough. -/
theorem Loops.settles {scope : Scope} {depth : Nat} {w w' : World} {condition : Expr}
    {stmts : List Stmt} {r : Result Flow} : Loops S scope depth w condition stmts r w' →
    ∃ n, ∀ᶠ loops in atTop, ∀ fuel ≥ n, Reaches S scope depth
      (iterate (condition.test (calls S depth loops))
        (Eval.inFreshScope (Stmt.execAll loops (calls S depth loops) stmts)) fuel) w r w'
  | .done h hv => by
      refine ⟨1, ?_⟩
      filter_upwards [h.settles] with loops hc fuel hfuel
      obtain ⟨fuel, rfl⟩ := Nat.exists_eq_add_of_le' hfuel
      have ht := reaches_test hc
      rw [Except.map, hv] at ht
      exact reaches_iterate_done ht _ fuel
  | .round h hv hb hl => by
      obtain ⟨n, hn⟩ := hl.settles
      refine ⟨n + 1, ?_⟩
      filter_upwards [h.settles, hb.settles, hn] with loops hc hb hl fuel hfuel
      obtain ⟨fuel, rfl⟩ := Nat.exists_eq_add_of_le' (Nat.le_trans (Nat.le_add_left 1 n) hfuel)
      have ht := reaches_test hc
      rw [Except.map, hv] at ht
      exact reaches_iterate_succ ht hb.inFreshScope (hl fuel (by omega))
  | .stops h hv hb hr => by
      refine ⟨1, ?_⟩
      filter_upwards [h.settles, hb.settles] with loops hc hb fuel hfuel
      obtain ⟨fuel, rfl⟩ := Nat.exists_eq_add_of_le' hfuel
      have ht := reaches_test hc
      rw [Except.map, hv] at ht
      exact reaches_iterate_stops ht hb.inFreshScope hr fuel
  | .fails h => by
      refine ⟨1, ?_⟩
      filter_upwards [h.settles] with loops hc fuel hfuel
      obtain ⟨fuel, rfl⟩ := Nat.exists_eq_add_of_le' hfuel
      exact reaches_iterate_fails (reaches_test hc) _ fuel

end

theorem reaches_announce_bind {p : Eval α} {r : Result α} (s : Stmt)
    (h : Reaches S scope depth p w r w₁) :
    Reaches S scope depth (s.announce >>= fun _ => p) w r w₁ := by
  intro m hm
  obtain ⟨log, hlog⟩ := announce_run s m
  rw [bind_run, hlog]
  exact h (hm.withLog log)

theorem reaches_runTop {loops : Nat} {s : Stmt} {r : Result Flow}
    (h : Reaches S scope depth (s.exec loops (calls S depth loops)) w r w₁) :
    Reaches S scope depth (s.runTop loops) w (r.bind (Flow.atTop s.span)) w₁ := by
  refine reaches_announce_bind s fun m hm => ?_
  rw [get_run, hm.maxCallDepth, hm.callDepth]
  exact h.loggingErrors.bind_result (.atTop s.span) hm

theorem Runs.settles {scope : Scope} {depth : Nat} {w w' : World} {stmts : List Stmt}
    {r : Result Unit} (h : Runs S scope depth w stmts r w') :
    Settles S scope depth (fun loops => interpret loops stmts) w r w' := by
  induction h with
  | nil => exact .of_forall fun _ => .pure () _
  | cons h hs ih =>
    filter_upwards [h.settles, ih] with loops hw hws
    exact (reaches_runTop hw).bind hws
  | fails h =>
    filter_upwards [h.settles] with loops hw
    exact (reaches_runTop hw).bind_error
  | returns h =>
    filter_upwards [h.settles] with loops hw
    exact (reaches_runTop hw).bind_error

end Tarn.Semantics
