import Tarn.Proofs.Likeness.Coupling
import Tarn.Proofs.Likeness.Machines

/-! Running what is alike on machines that are alike. Both end alike, and the machines stay so. -/
namespace Tarn

open Semantics

namespace Machine.Alike

variable {L : Likeness} {m m' : Machine} (h : Machine.Alike L m m')
include h

theorem spelling {n n' : Name} (hn : L.name n n') : m.names.spelling n = m'.names.spelling n' := by
  rw [h.left, h.right]
  exact hn.spelling_eq

theorem withLog (log log' : Log) : Machine.Alike L { m with log } { m' with log := log' } :=
  ⟨h.left, h.right, h.env, h.output, h.callDepth, h.maxCallDepth, h.functionCount, h.host,
    h.uniform, h.clock⟩

theorem withEnv {env env' : Environment} (henv : Environment.Alike L env env') :
    Machine.Alike L { m with env } { m' with env := env' } :=
  ⟨h.left, h.right, henv, h.output, h.callDepth, h.maxCallDepth, h.functionCount, h.host, h.uniform,
    h.clock⟩

theorem withDepth {depth depth' : Nat} (hdepth : depth = depth') :
    Machine.Alike L { m with callDepth := depth } { m' with callDepth := depth' } :=
  ⟨h.left, h.right, h.env, h.output, hdepth, h.maxCallDepth, h.functionCount, h.host, h.uniform,
    h.clock⟩

theorem println (line : String) :
    Machine.Alike L { m with output := m.output.println line }
      { m' with output := m'.output.println line } :=
  ⟨h.left, h.right, h.env, congrArg (·.println line) h.output, h.callDepth, h.maxCallDepth,
    h.functionCount, h.host, h.uniform, h.clock⟩

theorem declare {d d' : FunctionDecl} (hd : FunctionDecl.AlikeInside L d d') :
    Machine.Alike L
      { m with
        functionCount := m.functionCount + 1
        env := m.env.define d.name (.function
          ⟨m.functionCount, m.names.spelling d.name, d, m.env.current⟩) }
      { m' with
        functionCount := m'.functionCount + 1
        env := m'.env.define d'.name (.function
          ⟨m'.functionCount, m'.names.spelling d'.name, d', m'.env.current⟩) } := by
  refine ⟨h.left, h.right, h.env.define hd.name ?_, h.output, h.callDepth, h.maxCallDepth,
    congrArg (· + 1) h.functionCount, h.host, h.uniform, h.clock⟩
  rw [h.functionCount, h.spelling hd.name, h.env.current]
  exact .function _ _ _ hd

end Machine.Alike

instance {L : Likeness} : Machine.Coupling (Machine.Alike L) where
  current h := h.env.current
  withLog h log log' := h.withLog log log'
  withCurrent h scope := h.withEnv (h.env.withCurrent (Eq.refl scope))
  withDepth h f := h.withDepth (congrArg f h.callDepth)
  child h outer := ⟨(h.env.child outer .nil).1, h.withEnv (h.env.child outer .nil).2⟩

namespace Eval

variable {L : Likeness} {α β : Type} {P : α → β → Prop}

/-- From alike machines the two end alike. -/
abbrev Agree (L : Likeness) (P : α → β → Prop) (p : Eval α) (q : Eval β) : Prop :=
  Parallel (Machine.Alike L) (Halt.Alike L) P p q

namespace Agree

variable {p : Eval α} {q : Eval β} {place place' : Span} {n n' : Name} {v v' : Value}

theorem fail (fault : Fault) (hp : L.place place place') :
    Agree L P (Eval.fail fault place) (Eval.fail fault place') := .throw (.failed fault hp)

theorem blame (hp : L.place place place') {x : Except Fault α} {y : Except Fault β}
    (h : EndsAlike Eq P x y) : Agree L P (Eval.blame place x) (Eval.blame place' y) := by
  cases h with
  | ok h => exact .pure h
  | error h =>
    subst h
    exact fail _ hp

theorem newScope (outer : Scope) {f f' : Frame} (hf : Frame.Alike L f f') :
    Agree L Eq (Eval.newScope outer f) (Eval.newScope outer f') := by
  intro m m' hm
  obtain ⟨hscope, henv⟩ := hm.env.child outer hf
  exact ⟨.ok hscope, hm.withEnv henv⟩

theorem spelling (hn : L.name n n') : Agree L Eq (Eval.spelling n) (Eval.spelling n') :=
  Parallel.get.bind fun hm => .pure (hm.spelling hn)

theorem undefined (hn : L.name n n') (hp : L.place place place') :
    Agree L P (Eval.undefined n place) (Eval.undefined n' place') := by
  refine (spelling hn).bind ?_
  rintro text _ rfl
  exact fail _ hp

theorem lookup (hn : L.name n n') (hp : L.place place place') :
    Agree L (Value.Alike L) (Eval.lookup n place) (Eval.lookup n' place') := by
  refine Parallel.get.bind fun {m m'} hm => ?_
  have hfound := hm.env.lookupIn hn m.env.current
  rw [Environment.lookup, Environment.lookup, ← hm.env.current]
  generalize m.env.lookupIn _ _ = x at hfound ⊢
  generalize m'.env.lookupIn _ _ = y at hfound ⊢
  cases hfound with
  | some hv => exact .pure hv
  | none => exact undefined hn hp

theorem rebind (hn : L.name n n') (hv : Value.Alike L v v') (hp : L.place place place') :
    Agree L (Value.Alike L) (Eval.rebind n v place) (Eval.rebind n' v' place') := by
  refine Parallel.get.bind fun {m m'} hm => ?_
  rw [← hm.env.current, ← hm.env.owner?_eq hn]
  cases m.env.owner? m.env.current n with
  | some i =>
    exact (Parallel.update fun _ => hm.withEnv (hm.env.bindAt i hn hv)).bind fun _ => .pure hv
  | none => exact undefined hn hp

theorem define (hn : L.name n n') (hv : Value.Alike L v v') :
    Agree L (fun _ _ => True) (Eval.define n v) (Eval.define n' v') :=
  .update fun hm => hm.withEnv (hm.env.define hn hv)

theorem declare {d d' : FunctionDecl} (hd : FunctionDecl.AlikeInside L d d') :
    Agree L (fun _ _ => True) (Tarn.declare d) (Tarn.declare d') :=
  fun _ _ hm => ⟨.ok trivial, hm.declare hd⟩

theorem callNative (f : Native) {args args' : List Value}
    (hargs : List.Forall₂ (Value.Alike L) args args') (hp : L.place place place') :
    Agree L (Value.Alike L) (Tarn.callNative f args place) (Tarn.callNative f args' place') := by
  refine Parallel.get.bind fun {m m'} hm => ?_
  rw [← hm.host, ← hm.clock]
  rcases hrun : m.host[f.id]? with _ | run
  · exact fail _ hp
  · have hends := hm.uniform run (Array.mem_of_getElem? hrun) L m.clock hargs
    dsimp only
    generalize run m.clock args = x at hends ⊢
    generalize run m.clock args' = y at hends ⊢
    cases hends with
    | ok hv => exact .pure hv
    | @error e e' he =>
      simp only [EvalError.located, he]
      exact .throw (.failed _ hp)

end Agree

end Eval

open Eval

variable {L : Likeness}

/-- The two ways to run bodies of functions agree. -/
def Invoke.Alike (L : Likeness) (invoke invoke' : Invoke) : Prop :=
  ∀ {f f' : Closure} {args args' : List Value} {paren paren' : Span},
    Value.Alike L (.function f) (.function f') → List.Forall₂ (Value.Alike L) args args' →
    L.place paren paren' →
    Agree L (Value.Alike L) (invoke f args paren) (invoke' f' args' paren')

theorem Value.call_alike {invoke invoke' : Invoke} (h : Invoke.Alike L invoke invoke')
    {f f' : Value} (hf : Value.Alike L f f') {args args' : List Value}
    (hargs : List.Forall₂ (Value.Alike L) args args') {paren paren' : Span}
    (hp : L.place paren paren') :
    Agree L (Value.Alike L) (f.call invoke args paren) (f'.call invoke' args' paren') := by
  have hlength := hargs.length_eq
  cases hf with
  | @function d d' id name scope hd =>
    have harity : d.arity = d'.arity := hd.params.length_eq
    simp only [Value.call, hlength, harity]
    exact .ite Iff.rfl (h (.function _ _ _ hd) hargs hp) (Agree.fail _ hp)
  | native f =>
    simp only [Value.call, hlength]
    exact .ite Iff.rfl (Agree.callNative f hargs hp) (Agree.fail _ hp)
  | nil | bool | number | string => exact Agree.fail _ hp

mutual

theorem Expr.eval_alike {L : Likeness} {invoke invoke' : Invoke}
    (h : Invoke.Alike L invoke invoke') {e e' : Expr} :
    Expr.Alike L e e' → Agree L (Value.Alike L) (e.eval invoke) (e'.eval invoke')
  | .literal _ hv => by
    cases hv with
    | nil => exact .pure .nil
    | bool b => exact .pure (.bool b)
    | number bits => exact .pure (.number _)
    | string hn =>
      refine (Agree.spelling hn).bind ?_
      rintro text _ rfl
      exact .pure (.string text)
  | .var hp hn => Agree.lookup hn hp
  | .grouping _ he => by
    rw [Expr.eval, Expr.eval]
    exact Expr.eval_alike h he
  | .unary op _ ho he => (Expr.eval_alike h he).bind fun hv => Agree.blame ho (op.apply_alike hv)
  | .binary op _ ho ha hb => (Expr.eval_alike h ha).bind fun hv => (Expr.eval_alike h hb).bind
      fun hw => Agree.blame ho (op.apply_alike hv hw)
  | .logical op _ _ ha hb => by
    refine (Expr.eval_alike h ha).bind fun {v v'} hv => ?_
    have hright := Expr.eval_alike h hb
    rw [← hv.isTruthy_eq]
    cases op <;> cases v.isTruthy
    · exact .pure hv
    · exact hright
    · exact hright
    · exact .pure hv
  | .assign _ hn hq he => (Expr.eval_alike h he).bind fun hv => Agree.rebind hn hv hq
  | .call _ hf hc ha => (Expr.eval_alike h hf).bind fun hv => (Expr.evalAll_alike h ha).bind
      fun hargs => Value.call_alike h hv hargs hc

theorem Expr.evalAll_alike {L : Likeness} {invoke invoke' : Invoke}
    (h : Invoke.Alike L invoke invoke') {es es' : List Expr} : Expr.AllAlike L es es' →
    Agree L (List.Forall₂ (Value.Alike L)) (Expr.evalAll invoke es) (Expr.evalAll invoke' es')
  | .nil => .pure .nil
  | .cons he hs => (Expr.eval_alike h he).bind fun hv => (Expr.evalAll_alike h hs).bind
      fun hvs => .pure (.cons hv hvs)

end

section

variable {invoke invoke' : Invoke} (h : Invoke.Alike L invoke invoke')
include h

theorem Expr.test_alike {e e' : Expr} (he : Expr.Alike L e e') :
    Agree L Eq (e.test invoke) (e'.test invoke') :=
  (Expr.eval_alike h he).bind fun hv => .pure hv.isTruthy_eq

theorem evalOptional_alike {e e' : Option Expr} (he : Expr.OptionAlike L e e') :
    Agree L (Value.Alike L) (evalOptional invoke e) (evalOptional invoke' e') := by
  cases he with
  | none => exact .pure .nil
  | some he => exact Expr.eval_alike h he

end

theorem Flow.Alike.kinds {f f' : Flow} (h : Flow.Alike L f f') :
    (f = .normal ∧ f' = .normal) ∨ ∃ v v', f = .returned v ∧ f' = .returned v' := by
  cases h with
  | normal => exact .inl ⟨rfl, rfl⟩
  | returned => exact .inr ⟨_, _, rfl, rfl⟩

mutual

theorem Stmt.exec_alike {L : Likeness} (loops : Nat) {invoke invoke' : Invoke}
    (h : Invoke.Alike L invoke invoke') {s s' : Stmt} : Stmt.Alike L s s' →
    Agree L (Flow.Alike L) (s.exec loops invoke) (s'.exec loops invoke')
  | .block (.mk _ hs) => (Parallel.log _ _).bind fun _ =>
      Parallel.inFreshScope (Stmt.execAll_alike loops h hs)
  | .expression _ he => (Parallel.log _ _).bind fun _ => (Expr.eval_alike h he).bind fun _ =>
      .pure .normal
  | .function _ hd => (Parallel.log _ _).bind fun _ =>
      (Agree.declare ⟨hd.name, hd.params.imp fun _ _ hp => hp.name, hd.body⟩).bind fun _ =>
        .pure .normal
  | .conditional _ he hb ho => by
    rw [exec_conditional, exec_conditional]
    refine (Parallel.log _ _).bind fun _ => (Expr.test_alike h he).bind ?_
    rintro holds _ rfl
    refine .ite Iff.rfl (Parallel.inFreshScope (Block.exec_alike loops h hb)) ?_
    cases ho with
    | none => exact .pure .normal
    | some hb' =>
      have helse := Parallel.inFreshScope (Block.exec_alike loops h hb')
      cases hb' with
      | mk => exact helse
  | .print _ he => (Parallel.log _ _).bind fun _ => (Expr.eval_alike h he).bind fun {v v'} hv => by
      rw [← hv.toString_eq]
      exact (Parallel.update fun hm => hm.println _).bind fun _ => .pure .normal
  | .result _ _ hv => (Parallel.log _ _).bind fun _ => (evalOptional_alike h hv).bind fun hv =>
      .pure (.returned hv)
  | .loop _ he (.mk _ hs) => (Parallel.log _ _).bind fun _ =>
      .iterate .exhausted .normal Flow.Alike.kinds (Expr.test_alike h he)
        (.inFreshScope (Stmt.execAll_alike loops h hs)) loops
  | .var _ hn _ hv => (Parallel.log _ _).bind fun _ => (evalOptional_alike h hv).bind fun hv =>
      (Agree.define hn hv).bind fun _ => .pure .normal

theorem Block.exec_alike {L : Likeness} (loops : Nat) {invoke invoke' : Invoke}
    (h : Invoke.Alike L invoke invoke') {b b' : Block} : Block.Alike L b b' →
    Agree L (Flow.Alike L) (Stmt.execAll loops invoke b.stmts) (Stmt.execAll loops invoke' b'.stmts)
  | .mk _ hs => Stmt.execAll_alike loops h hs

theorem Stmt.execAll_alike {L : Likeness} (loops : Nat) {invoke invoke' : Invoke}
    (h : Invoke.Alike L invoke invoke') {ss ss' : List Stmt} : Stmt.AllAlike L ss ss' →
    Agree L (Flow.Alike L) (Stmt.execAll loops invoke ss) (Stmt.execAll loops invoke' ss')
  | .nil => .pure .normal
  | .cons hs hss => (Stmt.exec_alike loops h hs).bind fun hflow => by
      cases hflow with
      | normal => exact Stmt.execAll_alike loops h hss
      | returned hv => exact .pure (.returned hv)

end

theorem invokeUpTo_alike (L : Likeness) (loops depth : Nat) :
    Invoke.Alike L (invokeUpTo loops depth) (invokeUpTo loops depth) := by
  induction depth with
  | zero =>
    intro f f' args args' paren paren' _ _ hp
    refine .during _ _ (Parallel.get.bind fun hm => ?_)
    rw [hm.maxCallDepth]
    exact Agree.fail _ hp
  | succ depth ih =>
    intro f f' args args' paren paren' hf hargs _
    cases hf with
    | @function d d' id name scope hd =>
      refine .during _ _ ((Agree.newScope scope (bindParams_alike hd.params hargs)).bind ?_)
      rintro inner _ rfl
      have hbody := Block.exec_alike loops ih hd.body
      refine (Parallel.inCall (.inside inner hbody)).bind fun hflow => ?_
      cases hflow with
      | normal => exact .pure .nil
      | returned hv => exact .pure hv

theorem Stmt.runTop_alike (loops : Nat) {s s' : Stmt} (hs : Stmt.Alike L s s') :
    Agree L (fun _ _ => True) (s.runTop loops) (s'.runTop loops) := by
  refine (Parallel.announce s s').bind fun _ => Parallel.get.bind fun {m m'} hm => ?_
  rw [hm.maxCallDepth, hm.callDepth]
  refine (Parallel.loggingErrors (exec_alike loops (invokeUpTo_alike L loops _) hs)).bind
    fun hflow => ?_
  cases hflow with
  | normal => exact .pure trivial
  | returned => exact Agree.fail _ hs.span

/-- Programs that are alike run alike. -/
theorem interpret_alike (loops : Nat) {ss ss' : List Stmt} (h : Stmt.AllAlike L ss ss') :
    Agree L (fun _ _ => True) (interpret loops ss) (interpret loops ss') := by
  induction ss generalizing ss' with
  | nil =>
    cases h
    exact .pure trivial
  | cons s ss ih =>
    cases h with
    | cons hs hss => exact (Stmt.runTop_alike loops hs).bind fun _ => ih hss

end Tarn
