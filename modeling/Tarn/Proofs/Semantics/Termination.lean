import Tarn.Proofs.Grammar.LoopFree
import Tarn.Proofs.Likeness.Parallel
import Tarn.Proofs.Semantics.Held
import Tarn.Proofs.Semantics.Views

/-! Programs without loops end. However many rounds loops may have, the machine does the same, and it
is never cut off. Calls nest no deeper than the depth that is left, so the measure is that depth
first and the code that is being run second. -/
namespace Tarn

open Semantics

def Closure.LoopFree (f : Closure) : Prop := f.decl.body.LoopFree

/-- No function that a program can come by has a loop. -/
structure Machine.LoopFree (m : Machine) : Prop where
  env : m.env.Only Closure.LoopFree
  host : ∀ run ∈ m.host, HostFunction.Only Closure.LoopFree run

theorem Machine.LoopFree.declare {m : Machine} (h : m.LoopFree) {decl : FunctionDecl}
    (hd : decl.body.LoopFree) :
    { m with
      functionCount := m.functionCount + 1
      env := m.env.define decl.name (.function
        ⟨m.functionCount, m.names.spelling decl.name, decl, m.env.current⟩) }.LoopFree := by
  refine ⟨h.env.defineIn _ _ ?_, h.host⟩
  rintro f ⟨⟩
  exact hd

namespace Eval

variable {α β : Type} {P : α → Prop} {Q : β → Prop}

/-- On a machine without loops the two do the same. Neither is cut off, `P` holds of the value, and
the machine is without loops again. -/
abbrev Same (P : α → Prop) (p q : Eval α) : Prop :=
  Parallel (fun m m' => m = m' ∧ m.LoopFree) (fun h h' => h = h' ∧ h ≠ .exhausted)
    (fun a b => a = b ∧ P a) p q

namespace Same

variable {p q : Eval α}

theorem ends (h : Same P p q) {m : Machine} (hm : m.LoopFree) :
    p m = q m ∧ (p m).1 ≠ .error .exhausted ∧ (p m).2.LoopFree := by
  obtain ⟨hends, heq, hm'⟩ := h ⟨rfl, hm⟩
  rw [Prod.ext_iff, and_assoc, and_left_comm]
  refine ⟨heq, ?_⟩
  generalize (p m).1 = x at hends ⊢
  generalize (q m).1 = y at hends ⊢
  cases hends with
  | ok ha => exact ⟨congrArg Except.ok ha.1, nofun, hm'⟩
  | error he => exact ⟨congrArg Except.error he.1, fun h => he.2 (Except.error.inj h), hm'⟩

theorem pure {a : α} (h : P a) : Same P (Pure.pure a) (Pure.pure a) := Parallel.pure ⟨rfl, h⟩

theorem bind {f g : α → Eval β} (h : Same P p q) (hf : ∀ a, P a → Same Q (f a) (g a)) :
    Same Q (p >>= f) (q >>= g) := by
  refine Parallel.bind h ?_
  rintro a _ ⟨rfl, ha⟩
  exact hf a ha

theorem get_bind {f g : Machine → Eval α} (h : ∀ m : Machine, m.LoopFree → Same P (f m) (g m)) :
    Same P (MonadState.get >>= f) (MonadState.get >>= g) := by
  refine Parallel.get.bind ?_
  rintro m _ ⟨rfl, hm⟩
  exact h m hm

theorem update {f : Machine → Machine} (h : ∀ m : Machine, m.LoopFree → (f m).LoopFree) :
    Same (fun _ => True) (modify f) (modify f) := by
  rintro m _ ⟨rfl, hm⟩
  exact ⟨.ok ⟨rfl, trivial⟩, rfl, h m hm⟩

theorem ite (c : Bool) {p' q' : Eval α} (h : Same P p q) (h' : Same P p' q') :
    Same P (if c then p else p') (if c then q else q') := Parallel.ite Iff.rfl h h'

theorem fail (fault : Fault) (place : Span) :
    Same P (Eval.fail fault place) (Eval.fail fault place) := Parallel.throw ⟨rfl, nofun⟩

theorem blame (place : Span) {x : Except Fault α} (h : ∀ a, x = .ok a → P a) :
    Same P (Eval.blame place x) (Eval.blame place x) := by
  cases x with
  | ok a => exact pure (h a rfl)
  | error fault => exact fail fault place

theorem log (e : Event) : Same (fun _ => True) (Eval.log e) (Eval.log e) :=
  update fun _ hm => ⟨hm.env, hm.host⟩

theorem during (a : Activity) (h : Same P p q) : Same P (Eval.during a p) (Eval.during a q) := by
  rintro m _ ⟨rfl, hm⟩
  obtain ⟨hends, heq, hm'⟩ := @h { m with log := m.log.add (.enter a) } _ ⟨rfl, hm.env, hm.host⟩
  exact ⟨hends, congrArg (fun m => { m with log := m.log.add (.exit a) }) heq, hm'.env, hm'.host⟩

theorem loggingErrors (h : Same P p q) :
    Same P (Eval.loggingErrors p) (Eval.loggingErrors q) := by
  rintro m _ ⟨rfl, hm⟩
  obtain ⟨hends, heq, hm'⟩ := h ⟨rfl, hm⟩
  simp only [Eval.loggingErrors]
  rcases hp : p m with ⟨x, m₁⟩
  rcases hq : q m with ⟨y, m₁'⟩
  rw [hp, hq] at hends heq
  rw [hp] at hm'
  obtain rfl : m₁ = m₁' := heq
  cases hends with
  | ok ha => exact ⟨.ok ha, rfl, hm'⟩
  | @error e e' he =>
    obtain ⟨rfl, hne⟩ := he
    cases e with
    | failed e => exact ⟨.error ⟨rfl, hne⟩, rfl, hm'.env, hm'.host⟩
    | exhausted => exact absurd rfl hne

theorem inside (scope : Scope) (h : Same P p q) :
    Same P (Eval.inside scope p) (Eval.inside scope q) := by
  rintro m _ ⟨rfl, hm⟩
  obtain ⟨hends, heq, hm'⟩ := @h { m with env := (m.env.enter scope).2 } _ ⟨rfl, hm.env, hm.host⟩
  exact ⟨hends, congrArg (fun m₁ => { m₁ with env := m₁.env.restore m.env.current }) heq, hm'.env,
    hm'.host⟩

theorem inCall (h : Same P p q) : Same P (Eval.inCall p) (Eval.inCall q) := by
  rintro m _ ⟨rfl, hm⟩
  obtain ⟨hends, heq, hm'⟩ := @h { m with callDepth := m.callDepth + 1 } _ ⟨rfl, hm.env, hm.host⟩
  exact ⟨hends, congrArg (fun m => { m with callDepth := m.callDepth - 1 }) heq, hm'.env, hm'.host⟩

theorem newScope (outer : Scope) {bindings : Frame} (h : bindings.Only Closure.LoopFree) :
    Same (fun _ => True) (Eval.newScope outer bindings) (Eval.newScope outer bindings) := by
  rintro m _ ⟨rfl, hm⟩
  exact ⟨.ok ⟨rfl, trivial⟩, rfl, hm.env.child outer h, hm.host⟩

theorem inFreshScope (h : Same P p q) :
    Same P (Eval.inFreshScope p) (Eval.inFreshScope q) :=
  get_bind fun m _ => (newScope m.env.current Frame.only_nil).bind fun scope _ => inside scope h

theorem undefined (name : Name) (place : Span) :
    Same P (Eval.undefined name place) (Eval.undefined name place) :=
  get_bind fun _ _ => fail _ place

theorem lookup (name : Name) (place : Span) :
    Same (Value.Only Closure.LoopFree) (Eval.lookup name place) (Eval.lookup name place) := by
  refine get_bind fun m hm => ?_
  rcases hv : m.env.lookup name with _ | v
  · exact undefined name place
  · exact pure (hm.env.lookupIn hv)

theorem rebind (name : Name) {v : Value} (hv : v.Only Closure.LoopFree) (place : Span) :
    Same (Value.Only Closure.LoopFree) (Eval.rebind name v place) (Eval.rebind name v place) := by
  refine get_bind fun m hm => ?_
  rcases m.env.owner? m.env.current name with _ | i
  · exact undefined name place
  · have hbind := hm.env.bindAt i name hv
    refine bind (P := fun _ => True) ?_ fun _ _ => pure hv
    rintro _ _ ⟨rfl, _⟩
    exact ⟨.ok ⟨rfl, trivial⟩, rfl, hbind, hm.host⟩

theorem define (name : Name) {v : Value} (hv : v.Only Closure.LoopFree) :
    Same (fun _ => True) (Eval.define name v) (Eval.define name v) :=
  update fun _ hm => ⟨hm.env.defineIn _ name hv, hm.host⟩

theorem println (line : String) :
    Same (fun _ => True) (modify fun m => { m with output := m.output.println line })
      (modify fun m => { m with output := m.output.println line }) :=
  update fun _ hm => ⟨hm.env, hm.host⟩

theorem declare {decl : FunctionDecl} (h : decl.body.LoopFree) :
    Same (fun _ => True) (Tarn.declare decl) (Tarn.declare decl) := by
  rintro m _ ⟨rfl, hm⟩
  exact ⟨.ok ⟨rfl, trivial⟩, rfl, hm.declare h⟩

theorem callNative (f : Native) {args : List Value} (h : ∀ a ∈ args, a.Only Closure.LoopFree)
    (paren : Span) : Same (Value.Only Closure.LoopFree) (Tarn.callNative f args paren)
      (Tarn.callNative f args paren) := by
  refine get_bind fun m hm => ?_
  rcases hrun : m.host[f.id]? with _ | run
  · exact fail _ paren
  · dsimp only
    rcases hresult : run m.clock args with e | v
    · exact Parallel.throw ⟨rfl, nofun⟩
    · exact pure (hm.host run (Array.mem_of_getElem? hrun) _ args v h hresult)

end Same

end Eval

open Eval

/-- Both ways to run bodies of functions do the same with functions without loops. -/
def Invoke.Same (invoke invoke' : Invoke) : Prop :=
  ∀ (f : Closure) (args : List Value) (paren : Span), f.LoopFree →
    (∀ a ∈ args, a.Only Closure.LoopFree) →
    Eval.Same (Value.Only Closure.LoopFree) (invoke f args paren) (invoke' f args paren)

theorem Value.call_same {invoke invoke' : Invoke} (h : Invoke.Same invoke invoke') {callee : Value}
    (hcallee : callee.Only Closure.LoopFree) {args : List Value}
    (hargs : ∀ a ∈ args, a.Only Closure.LoopFree) (paren : Span) :
    Eval.Same (Value.Only Closure.LoopFree) (callee.call invoke args paren)
      (callee.call invoke' args paren) := by
  cases callee with
  | function f =>
    exact Parallel.ite Iff.rfl (h f args paren (hcallee f rfl) hargs) (Same.fail _ paren)
  | native f => exact Parallel.ite Iff.rfl (Same.callNative f hargs paren) (Same.fail _ paren)
  | nil | bool | number | string => exact Same.fail _ paren

mutual

theorem Expr.eval_same {invoke invoke' : Invoke} (h : Invoke.Same invoke invoke') :
    (e : Expr) → Eval.Same (Value.Only Closure.LoopFree) (e.eval invoke) (e.eval invoke')
  | .literal _ value => by
    cases value with
    | string text => exact .get_bind fun _ _ => .pure (Value.only_of_ne nofun)
    | nil | bool | number => exact .pure (Value.only_of_ne nofun)
  | .var span name => .lookup name span
  | .grouping _ inner => by
    rw [Expr.eval, Expr.eval]
    exact inner.eval_same h
  | .unary _ op opSpan operand => (operand.eval_same h).bind fun v _ =>
      .blame opSpan fun _ => op.only_apply v
  | .binary _ op opSpan left right => (left.eval_same h).bind fun a _ => (right.eval_same h).bind
      fun b _ => .blame opSpan fun _ => op.only_apply a b
  | .logical _ op _ left right => by
    refine (left.eval_same h).bind fun a ha => ?_
    have hright := right.eval_same h
    cases op <;> cases a.isTruthy
    · exact .pure ha
    · exact hright
    · exact hright
    · exact .pure ha
  | .assign _ name nameSpan value => (value.eval_same h).bind fun _ hv =>
      .rebind name hv nameSpan
  | .call _ callee paren args => (callee.eval_same h).bind fun _ hf =>
      (Expr.evalAll_same h args).bind fun _ hargs => Value.call_same h hf hargs paren

theorem Expr.evalAll_same {invoke invoke' : Invoke} (h : Invoke.Same invoke invoke') :
    (es : List Expr) → Eval.Same (fun vs => ∀ v ∈ vs, v.Only Closure.LoopFree)
      (Expr.evalAll invoke es) (Expr.evalAll invoke' es)
  | [] => .pure nofun
  | e :: es => (e.eval_same h).bind fun _ hv => (Expr.evalAll_same h es).bind fun _ hvs =>
      .pure (List.forall_mem_cons.2 ⟨hv, hvs⟩)

end

section

variable {invoke invoke' : Invoke} (h : Invoke.Same invoke invoke')
include h

theorem Expr.test_same (e : Expr) :
    Eval.Same (fun _ => True) (e.test invoke) (e.test invoke') :=
  (e.eval_same h).bind fun _ _ => .pure trivial

theorem evalOptional_same (e : Option Expr) : Eval.Same (Value.Only Closure.LoopFree)
    (evalOptional invoke e) (evalOptional invoke' e) := by
  cases e with
  | none => exact .pure (Value.only_of_ne nofun)
  | some e => exact e.eval_same h

end

mutual

theorem Stmt.exec_same (loops loops' : Nat) {invoke invoke' : Invoke}
    (h : Invoke.Same invoke invoke') : (s : Stmt) → s.LoopFree →
    Eval.Same (Flow.Only Closure.LoopFree) (s.exec loops invoke) (s.exec loops' invoke')
  | .block ⟨_, stmts⟩, hs => (Same.log _).bind fun _ _ =>
      .inFreshScope (Stmt.execAll_same loops loops' h stmts hs)
  | .expression _ e, _ => (Same.log _).bind fun _ _ => (e.eval_same h).bind fun _ _ =>
      .pure trivial
  | .function _ decl, hs => by
    rw [Stmt.loopFree_function] at hs
    exact (Same.log _).bind fun _ _ => (Same.declare hs).bind fun _ _ => .pure trivial
  | .conditional _ condition ⟨_, stmts⟩ other, hs => by
    rw [Stmt.loopFree_conditional] at hs
    rw [exec_conditional, exec_conditional]
    refine (Same.log _).bind fun _ _ => (condition.test_same h).bind fun holds _ => ?_
    refine .ite holds (.inFreshScope (Stmt.execAll_same loops loops' h stmts hs.1)) ?_
    match other with
    | none => exact .pure trivial
    | some ⟨_, others⟩ =>
      exact .inFreshScope (Stmt.execAll_same loops loops' h others (hs.2 _ rfl))
  | .print _ e, _ => (Same.log _).bind fun _ _ => (e.eval_same h).bind fun _ _ =>
      (Same.println _).bind fun _ _ => .pure trivial
  | .result _ _ value, _ => (Same.log _).bind fun _ _ => (evalOptional_same h value).bind
      fun _ hv => .pure hv
  | .loop _ _ _, hs => hs.elim
  | .var _ name _ initializer, _ => (Same.log _).bind fun _ _ =>
      (evalOptional_same h initializer).bind fun _ hv => (Same.define name hv).bind fun _ _ =>
        .pure trivial

theorem Stmt.execAll_same (loops loops' : Nat) {invoke invoke' : Invoke}
    (h : Invoke.Same invoke invoke') : (ss : List Stmt) → Stmt.AllLoopFree ss →
    Eval.Same (Flow.Only Closure.LoopFree) (Stmt.execAll loops invoke ss)
      (Stmt.execAll loops' invoke' ss)
  | [], _ => .pure trivial
  | s :: ss, hss => (s.exec_same loops loops' h hss.1).bind fun flow hflow => by
      cases flow with
      | normal => exact Stmt.execAll_same loops loops' h ss hss.2
      | returned v => exact .pure hflow

end

/-- Whatever function is called, its body is run with less depth left. -/
theorem invokeUpTo_same (loops loops' depth : Nat) :
    Invoke.Same (invokeUpTo loops depth) (invokeUpTo loops' depth) := by
  induction depth with
  | zero => exact fun f args paren _ _ => .during _ (.get_bind fun _ _ => .fail _ paren)
  | succ depth ih =>
    intro f args paren hf hargs
    have hbody := Stmt.execAll_same loops loops' ih f.decl.body.stmts
      ((Block.loopFree_iff _).1 hf)
    refine .during _ ((Same.newScope f.scope (Frame.only_bindParams _ hargs)).bind
      fun scope _ => (Same.inCall (.inside scope hbody)).bind fun flow hflow => ?_)
    cases flow with
    | normal => exact .pure (Value.only_of_ne nofun)
    | returned v => exact .pure hflow

theorem Stmt.announce_same (s : Stmt) : Eval.Same (fun _ => True) s.announce s.announce := by
  rintro m _ ⟨rfl, hm⟩
  obtain ⟨log, hrun⟩ := announce_run s m
  rw [hrun]
  exact ⟨.ok ⟨rfl, trivial⟩, rfl, hm.env, hm.host⟩

theorem Stmt.runTop_same (loops loops' : Nat) {s : Stmt} (hs : s.LoopFree) :
    Eval.Same (fun _ => True) (s.runTop loops) (s.runTop loops') := by
  refine s.announce_same.bind fun _ _ => Same.get_bind fun m _ => ?_
  refine (Same.loggingErrors (s.exec_same loops loops' (invokeUpTo_same loops loops' _) hs)).bind
    fun flow _ => ?_
  cases flow with
  | normal => exact .pure trivial
  | returned v => exact .fail _ _

/-- A program without loops does the same whatever the bound for loops is, and is not cut off. -/
theorem interpret_same (loops loops' : Nat) {ss : List Stmt} (hss : Stmt.AllLoopFree ss) :
    Eval.Same (fun _ => True) (interpret loops ss) (interpret loops' ss) := by
  induction ss with
  | nil => exact .pure trivial
  | cons s ss ih => exact (Stmt.runTop_same loops loops' hss.1).bind fun _ _ => ih hss.2

end Tarn
