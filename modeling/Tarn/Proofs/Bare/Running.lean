import Tarn.Proofs.Bare.Machines
import Tarn.Proofs.Likeness.Coupling

/-! Running does not look at places. Each step is compared with that of the tree without places, on
machines that hold the same but for places; two programs are then compared through the tree that
they have in common. -/
namespace Tarn

open Semantics

/-- The machines hold the same but for places, and so do what the host's functions make of it. -/
structure Machine.SameBare (m m' : Machine) : Prop where
  bare : m.bare = m'.bare
  blind : ∀ run ∈ m.host, HostFunction.Blind run

namespace Machine.SameBare

variable {m m' : Machine} (h : Machine.SameBare m m')
include h

theorem host : m.host = m'.host := congrArg (·.host) h.bare

theorem names : m.names = m'.names := congrArg (·.names) h.bare

theorem env : m.env.bare = m'.env.bare := congrArg (·.env) h.bare

theorem scope : m.env.current = m'.env.current := congrArg (·.env.current) h.bare

theorem symm : Machine.SameBare m' m := ⟨h.bare.symm, h.host ▸ h.blind⟩

theorem left : Machine.SameBare m m := ⟨rfl, h.blind⟩

theorem withEnv {env env' : Environment} (henv : env.bare = env'.bare) :
    Machine.SameBare { m with env } { m' with env := env' } := by
  refine ⟨?_, h.blind⟩
  change { m.bare with env := env.bare } = { m'.bare with env := env'.bare }
  rw [h.bare, henv]

/-- Updates that come to the same without places. -/
theorem update {f f' g : Machine → Machine} (hf : ∀ m, (f m).bare = g m.bare)
    (hf' : ∀ m, (f' m).bare = g m.bare) (hhost : ∀ m, (f m).host = m.host) :
    Machine.SameBare (f m) (f' m') :=
  ⟨by rw [hf, hf', h.bare], by rw [hhost]; exact h.blind⟩

end Machine.SameBare

instance : Machine.Coupling Machine.SameBare where
  current h := h.scope
  withLog h _ _ := ⟨h.bare, h.blind⟩
  withCurrent h scope := h.withEnv (congrArg (fun env => { env with current := scope }) h.env)
  withDepth h f := ⟨congrArg (fun n => { n with callDepth := f n.callDepth }) h.bare, h.blind⟩
  child {m m'} h outer := by
    have hchild := m.env.child_bare outer []
    have hchild' := m'.env.child_bare outer []
    rw [h.env, hchild'] at hchild
    obtain ⟨hscope, henv⟩ := Prod.mk.inj hchild
    exact ⟨hscope.symm, h.withEnv henv.symm⟩

namespace Eval

variable {α β γ δ : Type} {view : α → γ} {view' : β → δ}

/-- On machines that hold the same but for places the two end with the same but for places; `view`
is what counts of the values. -/
abbrev Blind (view : α → γ) (p q : Eval α) : Prop :=
  Parallel Machine.SameBare (fun h h' => h.bare = h'.bare) (fun a b => view a = view b) p q

namespace Blind

variable {p q r : Eval α}

theorem symm (h : Blind view p q) : Blind view q p := by
  intro m m' hm
  obtain ⟨hends, hm'⟩ := h hm.symm
  refine ⟨?_, hm'.symm⟩
  generalize (p m').1 = x at hends ⊢
  generalize (q m).1 = y at hends ⊢
  cases hends with
  | ok h => exact .ok h.symm
  | error h => exact .error h.symm

theorem trans (h : Blind view p q) (h' : Blind view q r) : Blind view p r := by
  intro m m' hm
  obtain ⟨hends, hm₁⟩ := h hm.left
  obtain ⟨hends', hm₂⟩ := h' hm
  refine ⟨?_, hm₁.bare.trans hm₂.bare, hm₁.blind⟩
  generalize (p m).1 = x at hends ⊢
  generalize (q m).1 = y at hends hends'
  generalize (r m').1 = z at hends' ⊢
  cases hends with
  | ok h =>
    cases hends' with
    | ok h' => exact .ok (h.trans h')
  | error h =>
    cases hends' with
    | error h' => exact .error (h.trans h')

theorem get_bind {f g : Machine → Eval α}
    (h : ∀ m m', Machine.SameBare m m' → Blind view (f m) (g m')) :
    Blind view (MonadState.get >>= f) (MonadState.get >>= g) :=
  Parallel.get.bind fun hm => h _ _ hm

theorem update {f f' g : Machine → Machine} (hf : ∀ m, (f m).bare = g m.bare)
    (hf' : ∀ m, (f' m).bare = g m.bare) (hhost : ∀ m, (f m).host = m.host) :
    Blind id (modify f : Eval Unit) (modify f') :=
  fun _ _ hm => ⟨.ok rfl, hm.update hf hf' hhost⟩

variable (place place' : Span)

theorem fail (fault : Fault) : Blind view (Eval.fail fault place) (Eval.fail fault place') :=
  .throw rfl

theorem blame {x y : Except Fault α} (h : x.map view = y.map view) :
    Blind view (Eval.blame place x) (Eval.blame place' y) := by
  cases x with
  | ok a =>
    cases y with
    | ok b => exact .pure (Except.ok.inj h)
    | error => cases h
  | error fault =>
    cases y with
    | ok => cases h
    | error fault' =>
      obtain rfl := Except.error.inj h
      exact fail place place' fault

theorem newScope (outer : Scope) {f f' : Frame} (h : f.bare = f'.bare) :
    Blind id (Eval.newScope outer f) (Eval.newScope outer f') := by
  intro m m' hm
  have hchild := m.env.child_bare outer f
  rw [hm.env, h, m'.env.child_bare outer f'] at hchild
  obtain ⟨hscope, henv⟩ := Prod.mk.inj hchild
  exact ⟨.ok hscope.symm, hm.withEnv henv.symm⟩

theorem undefined (name : Name) :
    Blind view (Eval.undefined name place) (Eval.undefined name place') :=
  get_bind fun m m' hm => by
    rw [hm.names]
    exact fail place place' _

theorem lookup (name : Name) :
    Blind Value.bare (Eval.lookup name place) (Eval.lookup name place') := by
  refine get_bind fun m m' hm => ?_
  have hfound : (m.env.lookup name).map Value.bare = (m'.env.lookup name).map Value.bare := by
    rw [← Environment.lookup_bare, ← Environment.lookup_bare, hm.env]
  generalize m.env.lookup name = x at hfound ⊢
  generalize m'.env.lookup name = y at hfound ⊢
  cases x with
  | none =>
    obtain rfl := Option.map_eq_none_iff.1 hfound.symm
    exact undefined place place' name
  | some v =>
    obtain ⟨v', rfl, hv⟩ := Option.map_eq_some_iff.1 hfound.symm
    exact .pure hv.symm

theorem rebind (name : Name) {v v' : Value} (hv : v.bare = v'.bare) :
    Blind Value.bare (Eval.rebind name v place) (Eval.rebind name v' place') := by
  refine get_bind fun m m' hm => ?_
  have howner : m.env.owner? m.env.current name = m'.env.owner? m'.env.current name := by
    rw [← m.env.owner?_bare, ← m'.env.owner?_bare, hm.env, hm.scope]
  rw [howner]
  cases m'.env.owner? m'.env.current name with
  | none => exact undefined place place' name
  | some i =>
    refine (Parallel.update fun _ => hm.withEnv ?_).bind fun _ => .pure hv
    rw [Environment.bare_bindAt, Environment.bare_bindAt, hm.env, hv]

theorem define (name : Name) {v v' : Value} (hv : v.bare = v'.bare) :
    Blind id (Eval.define name v) (Eval.define name v') :=
  update (g := fun n => { n with env := n.env.define name v.bare })
    (fun m => by simp only [Machine.bare, Environment.bare_define])
    (fun m => by simp only [Machine.bare, Environment.bare_define, hv]) fun _ => rfl

theorem println (line : String) :
    Blind id (modify fun m => { m with output := m.output.println line } : Eval Unit)
      (modify fun m => { m with output := m.output.println line }) :=
  update (g := fun n => { n with output := n.output.println line }) (fun _ => rfl) (fun _ => rfl)
    fun _ => rfl

theorem declare {d d' : FunctionDecl} (h : d.bare = d'.bare) :
    Blind id (Tarn.declare d) (Tarn.declare d') := by
  have hbare (d : FunctionDecl) (m : Machine) : Machine.bare
      { m with
        functionCount := m.functionCount + 1
        env := m.env.define d.name (.function
          ⟨m.functionCount, m.names.spelling d.name, d, m.env.current⟩) } =
      { m.bare with
        functionCount := m.bare.functionCount + 1
        env := m.bare.env.define d.bare.name (.function
          ⟨m.bare.functionCount, m.bare.names.spelling d.bare.name, d.bare,
            m.bare.env.current⟩) } := by
    simp only [Machine.bare, Environment.bare_define]
    rfl
  refine fun m m' hm => ⟨.ok rfl, (hbare d m).trans ?_, hm.blind⟩
  rw [hm.bare, h]
  exact (hbare d' m').symm

theorem callNative (f : Native) {args args' : List Value}
    (h : args.map Value.bare = args'.map Value.bare) :
    Blind Value.bare (Tarn.callNative f args place) (Tarn.callNative f args' place') := by
  refine get_bind fun m m' hm => ?_
  rw [← hm.host, show m.clock = m'.clock from congrArg (·.clock) hm.bare]
  rcases hrun : m.host[f.id]? with _ | run
  · exact fail place place' _
  · have hsame := hm.blind run (Array.mem_of_getElem? hrun) m'.clock args args' h
    dsimp only
    generalize run m'.clock args = x at hsame ⊢
    generalize run m'.clock args' = y at hsame ⊢
    cases x with
    | error e =>
      cases y with
      | error e' =>
        exact .throw (congrArg (fun fault => Halt.failed ⟨fault, some .nowhere⟩)
          (Except.error.inj hsame))
      | ok => cases hsame
    | ok v =>
      cases y with
      | error => cases hsame
      | ok v' => exact .pure (Except.ok.inj hsame)

end Blind

end Eval

open Eval

/-- What is run when a function is called does not depend on places. -/
def Invoke.Blind (invoke : Invoke) : Prop :=
  ∀ {f f' : Closure} {args args' : List Value} (paren paren' : Span), f.bare = f'.bare →
    args.map Value.bare = args'.map Value.bare →
      Eval.Blind Value.bare (invoke f args paren) (invoke f' args' paren')

theorem Value.call_blind {invoke : Invoke} (h : invoke.Blind) {v v' : Value}
    (hv : v.bare = v'.bare) {args args' : List Value}
    (hargs : args.map Value.bare = args'.map Value.bare) (paren paren' : Span) :
    Eval.Blind Value.bare (v.call invoke args paren) (v'.call invoke args' paren') := by
  have hlength : args.length = args'.length := by simpa using congrArg List.length hargs
  cases v with
  | function f =>
    obtain ⟨f', rfl, hf⟩ := Value.exists_of_bare_eq hv
    have harity : f.decl.arity = f'.decl.arity := by
      simpa [Closure.bare, FunctionDecl.bare, FunctionDecl.arity] using
        congrArg (·.decl.params.length) hf
    rw [Value.call, Value.call, hlength, harity, show f.name = f'.name from congrArg (·.name) hf]
    exact .ite Iff.rfl (h paren paren' hf hargs) (Blind.fail paren paren' _)
  | native f =>
    obtain rfl := Value.eq_of_bare_eq hv (by rintro _ ⟨⟩)
    rw [Value.call, Value.call, hlength]
    exact .ite Iff.rfl (Blind.callNative paren paren' f hargs) (Blind.fail paren paren' _)
  | nil | bool | number | string =>
    obtain rfl := Value.eq_of_bare_eq hv (by rintro _ ⟨⟩)
    exact Blind.fail paren paren' _

mutual

theorem Expr.eval_blind {invoke : Invoke} (h : invoke.Blind) :
    (e : Expr) → Eval.Blind Value.bare (e.eval invoke) (e.bare.eval invoke)
  | .literal _ value => by
    cases value with
    | string text =>
      refine Blind.get_bind fun m m' hm => ?_
      rw [hm.names]
      exact .pure rfl
    | nil | bool | number => exact .pure rfl
  | .var span name => Blind.lookup span .nowhere name
  | .grouping _ inner => by
    rw [Expr.eval, Expr.bare, Expr.eval]
    exact inner.eval_blind h
  | .unary _ op opSpan operand => (operand.eval_blind h).bind fun hv =>
      Blind.blame opSpan .nowhere (by rw [← op.apply_bare, ← op.apply_bare, hv])
  | .binary _ op opSpan left right => (left.eval_blind h).bind fun hv => (right.eval_blind h).bind
      fun hw => Blind.blame opSpan .nowhere (by rw [← op.apply_bare, ← op.apply_bare, hv, hw])
  | .logical _ op _ left right => by
    refine (left.eval_blind h).bind fun {a b} hv => ?_
    have hright := right.eval_blind h
    rw [← a.isTruthy_bare, hv, b.isTruthy_bare]
    cases op <;> cases b.isTruthy
    · exact .pure hv
    · exact hright
    · exact hright
    · exact .pure hv
  | .assign _ name nameSpan value => (value.eval_blind h).bind fun hv =>
      Blind.rebind nameSpan .nowhere name hv
  | .call _ callee paren args => (callee.eval_blind h).bind fun hf =>
      (Expr.evalAll_blind h args).bind fun hargs => Value.call_blind h hf hargs paren .nowhere

theorem Expr.evalAll_blind {invoke : Invoke} (h : invoke.Blind) :
    (es : List Expr) → Eval.Blind (List.map Value.bare) (Expr.evalAll invoke es)
      (Expr.evalAll invoke (Expr.allBare es))
  | [] => .pure rfl
  | e :: es => (e.eval_blind h).bind fun hv => (Expr.evalAll_blind h es).bind fun hvs =>
      .pure (by rw [List.map_cons, List.map_cons, hv, hvs])

end

section

variable {invoke : Invoke} (h : invoke.Blind)
include h

theorem Expr.test_blind (e : Expr) : Eval.Blind id (e.test invoke) (e.bare.test invoke) :=
  (e.eval_blind h).bind fun {a b} hv => .pure (by rw [← a.isTruthy_bare, hv, b.isTruthy_bare])

theorem evalOptional_blind (e : Option Expr) : Eval.Blind Value.bare (evalOptional invoke e)
    (evalOptional invoke (e.map Expr.bare)) := by
  cases e with
  | none => exact .pure rfl
  | some e => exact e.eval_blind h

end

mutual

theorem Stmt.exec_blind (loops : Nat) {invoke : Invoke} (h : invoke.Blind) :
    (s : Stmt) → Eval.Blind Flow.bare (s.exec loops invoke) (s.bare.exec loops invoke)
  | .block ⟨_, stmts⟩ => (Parallel.log _ _).bind fun _ =>
      (Stmt.execAll_blind loops h stmts).inFreshScope
  | .expression _ e => (Parallel.log _ _).bind fun _ => (e.eval_blind h).bind fun _ => .pure rfl
  | .function _ decl => by
    rw [Stmt.bare_function]
    exact (Parallel.log _ _).bind fun _ =>
      (Blind.declare (FunctionDecl.bare_bare decl).symm).bind fun _ => .pure rfl
  | .conditional _ condition ⟨_, stmts⟩ other => by
    rw [Stmt.bare_conditional, exec_conditional, exec_conditional]
    refine (Parallel.log _ _).bind fun _ => (condition.test_blind h).bind ?_
    rintro holds _ rfl
    refine .ite Iff.rfl (Stmt.execAll_blind loops h stmts).inFreshScope ?_
    match other with
    | none => exact .pure rfl
    | some ⟨_, others⟩ => exact (Stmt.execAll_blind loops h others).inFreshScope
  | .print _ e => (Parallel.log _ _).bind fun _ => (e.eval_blind h).bind fun {v v'} hv => by
      rw [← v.toString_bare, hv, v'.toString_bare]
      exact (Blind.println _).bind fun _ => .pure rfl
  | .result _ _ value => (Parallel.log _ _).bind fun _ => (evalOptional_blind h value).bind
      fun hv => .pure (congrArg Flow.returned hv)
  | .loop _ condition ⟨_, stmts⟩ => (Parallel.log _ _).bind fun _ =>
      .iterate (by rfl) (by rfl) Flow.kinds_of_bare_eq (condition.test_blind h)
        (Stmt.execAll_blind loops h stmts).inFreshScope loops
  | .var _ name _ initializer => (Parallel.log _ _).bind fun _ =>
      (evalOptional_blind h initializer).bind fun hv => (Blind.define name hv).bind fun _ =>
        .pure rfl

theorem Stmt.execAll_blind (loops : Nat) {invoke : Invoke} (h : invoke.Blind) :
    (ss : List Stmt) → Eval.Blind Flow.bare (Stmt.execAll loops invoke ss)
      (Stmt.execAll loops invoke (Stmt.allBare ss))
  | [] => .pure rfl
  | s :: ss => (s.exec_blind loops h).bind fun {flow flow'} hflow => by
      obtain ⟨rfl, rfl⟩ | ⟨v, v', rfl, rfl, hv⟩ := Flow.cases_of_bare_eq hflow
      · exact Stmt.execAll_blind loops h ss
      · exact .pure hflow

end

/-- Functions that are the same but for places are called alike: both bodies run like the one
without places. -/
theorem invokeUpTo_blind (loops depth : Nat) : (invokeUpTo loops depth).Blind := by
  induction depth with
  | zero =>
    intro f f' args args' paren paren' _ _
    refine Parallel.during _ _ (Blind.get_bind fun m m' hm => ?_)
    rw [show m.maxCallDepth = m'.maxCallDepth from congrArg (·.maxCallDepth) hm.bare]
    exact Blind.fail paren paren' _
  | succ depth ih =>
    intro f f' args args' paren paren' hf hargs
    have hdecl : f.decl.bare = f'.decl.bare := congrArg (·.decl) hf
    have hframe : (bindParams f.decl.params args).bare =
        (bindParams f'.decl.params args').bare := by
      rw [bindParams_bare, bindParams_bare, hargs,
        show f.decl.params.map Param.bare = f'.decl.params.map Param.bare from
          congrArg (·.params) hdecl]
    have hbody : Stmt.allBare f.decl.body.stmts = Stmt.allBare f'.decl.body.stmts := by
      rw [← Block.bare_stmts, ← Block.bare_stmts]
      exact congrArg (·.body.stmts) hdecl
    have hrun := Stmt.execAll_blind loops ih f.decl.body.stmts
    rw [hbody] at hrun
    have hruns := hrun.trans (Stmt.execAll_blind loops ih f'.decl.body.stmts).symm
    refine Parallel.during _ _ ?_
    rw [show f.scope = f'.scope from congrArg (·.scope) hf]
    refine (Blind.newScope _ hframe).bind ?_
    rintro scope _ rfl
    refine ((hruns.inside scope).inCall).bind fun {flow flow'} hflow => ?_
    obtain ⟨rfl, rfl⟩ | ⟨v, v', rfl, rfl, hv⟩ := Flow.cases_of_bare_eq hflow
    · exact .pure rfl
    · exact .pure hv

theorem Stmt.runTop_blind (loops : Nat) (s : Stmt) :
    Eval.Blind id (s.runTop loops) (s.bare.runTop loops) := by
  refine (Parallel.announce s s.bare).bind fun _ => Blind.get_bind fun m m' hm => ?_
  rw [show m.maxCallDepth = m'.maxCallDepth from congrArg (·.maxCallDepth) hm.bare,
    show m.callDepth = m'.callDepth from congrArg (·.callDepth) hm.bare]
  refine (Parallel.loggingErrors (exec_blind loops (invokeUpTo_blind loops _) s)).bind
    fun {flow flow'} hflow => ?_
  obtain ⟨rfl, rfl⟩ | ⟨v, v', rfl, rfl, hv⟩ := Flow.cases_of_bare_eq hflow
  · exact .pure rfl
  · exact Blind.fail _ _ _

/-- A program runs like the one without places. -/
theorem interpret_blind (loops : Nat) (ss : List Stmt) :
    Eval.Blind id (interpret loops ss) (interpret loops (Stmt.allBare ss)) := by
  induction ss with
  | nil => exact .pure rfl
  | cons s ss ih => exact (s.runTop_blind loops).bind fun _ => ih

/-- Programs that are the same but for places run alike. -/
theorem interpret_blind_of_eq (loops : Nat) {ss ss' : List Stmt}
    (h : Stmt.allBare ss = Stmt.allBare ss') :
    Eval.Blind id (interpret loops ss) (interpret loops ss') := by
  have hrun := interpret_blind loops ss
  rw [h] at hrun
  exact hrun.trans (interpret_blind loops ss').symm

/-- On machines that hold the same but for places they end with the same, and leave the machines
the same. -/
theorem interpret_bare (loops : Nat) {ss ss' : List Stmt} (h : Stmt.allBare ss = Stmt.allBare ss')
    {m m' : Machine} (hm : m.bare = m'.bare) (hhost : ∀ run ∈ m.host, HostFunction.Blind run) :
    (interpret loops ss m).1.mapError Halt.bare = (interpret loops ss' m').1.mapError Halt.bare ∧
      (interpret loops ss m).2.bare = (interpret loops ss' m').2.bare := by
  obtain ⟨hends, hm'⟩ := interpret_blind_of_eq loops h ⟨hm, hhost⟩
  refine ⟨?_, hm'.bare⟩
  generalize (interpret loops ss m).1 = x at hends ⊢
  generalize (interpret loops ss' m').1 = y at hends ⊢
  cases hends with
  | ok => rfl
  | error he => exact congrArg Except.error he

end Tarn
