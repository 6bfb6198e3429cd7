import Tarn.Proofs.Scoping.Tracks
import Tarn.Proofs.Semantics.Position

/-! Programs do not notice extra frames. -/
namespace Tarn

open Eval Semantics

/-- What bodies of functions do does not depend on extra frames. -/
def Invoke.Tracks (invoke : Invoke) : Prop :=
  ∀ ⦃ρ : Thinning⦄ ⦃s s' : Scope⦄ ⦃f f' : Closure⦄ ⦃args args' : List Value⦄ (paren : Span),
    Value.Thins ρ (.function f) (.function f') → List.Forall₂ (Value.Thins ρ) args args' →
    Eval.Tracks ρ s s' Value.Thins (invoke f args paren) (invoke f' args' paren)

variable {ρ : Thinning} {s s' : Scope} {invoke : Invoke}

theorem Value.call_tracks (h : invoke.Tracks) {f f' : Value} (hf : Value.Thins ρ f f')
    {args args' : List Value} (hargs : List.Forall₂ (Value.Thins ρ) args args') (paren : Span) :
    Eval.Tracks ρ s s' Value.Thins (f.call invoke args paren) (f'.call invoke args' paren) := by
  have hlength := hargs.length_eq
  cases hf with
  | function id name decl hscope =>
    simp only [Value.call, hlength]
    exact .ite Iff.rfl (h paren (.function id name decl hscope) hargs) (.fail _ paren)
  | native f =>
    simp only [Value.call, hlength]
    exact .ite Iff.rfl (.callNative f hargs paren) (.fail _ paren)
  | nil | bool | number | string => exact .fail _ paren

mutual

theorem Expr.eval_tracks {invoke : Invoke} (h : invoke.Tracks) {ρ : Thinning} {s s' : Scope}
    (hs : Scope.Thins ρ s s') :
    (e : Expr) → Eval.Tracks ρ s s' Value.Thins (e.eval invoke) (e.eval invoke)
  | .literal _ .nil => .pure .nil
  | .literal _ (.bool b) => .pure (.bool b)
  | .literal _ (.number _) => .pure (.number _)
  | .literal _ (.string text) => by
    refine (Tracks.spelling text).bind ?_
    rintro ρ' spelled _ - rfl
    exact .pure (.string spelled)
  | .var span name => .lookup hs name span
  | .grouping _ inner => by
    rw [Expr.eval]
    exact inner.eval_tracks h hs
  | .unary _ op opSpan operand => (operand.eval_tracks h hs).bind fun _ hv =>
      .blame opSpan (op.apply_rescoped hv)
  | .binary _ op opSpan left right => (left.eval_tracks h hs).bind fun hρ hv =>
      (right.eval_tracks h (hs.mono hρ)).bind fun hρ' hw =>
        .blame opSpan (op.apply_rescoped (hv.mono hρ') hw)
  | .logical _ op _ left right => by
    refine (left.eval_tracks h hs).bind fun {ρ' v v'} hρ hv => ?_
    have hright := right.eval_tracks h (hs.mono hρ)
    rw [← hv.isTruthy_eq]
    cases op <;> cases v.isTruthy
    · exact .pure hv
    · exact hright
    · exact hright
    · exact .pure hv
  | .assign _ name nameSpan value => (value.eval_tracks h hs).bind fun hρ hv =>
      .rebind (hs.mono hρ) name hv nameSpan
  | .call _ callee paren args => (callee.eval_tracks h hs).bind fun hρ hf =>
      (Expr.evalAll_tracks h (hs.mono hρ) args).bind fun hρ' hargs =>
        Value.call_tracks h (hf.mono hρ') hargs paren

theorem Expr.evalAll_tracks {invoke : Invoke} (h : invoke.Tracks) {ρ : Thinning} {s s' : Scope}
    (hs : Scope.Thins ρ s s') : (es : List Expr) →
    Eval.Tracks ρ s s' (fun ρ => List.Forall₂ (Value.Thins ρ)) (Expr.evalAll invoke es)
      (Expr.evalAll invoke es)
  | [] => .pure .nil
  | e :: es => (e.eval_tracks h hs).bind fun hρ hv =>
      (Expr.evalAll_tracks h (hs.mono hρ) es).bind fun hρ' hvs =>
        .pure (List.Forall₂.cons (hv.mono hρ') hvs)

end

section

variable (h : invoke.Tracks) (hs : Scope.Thins ρ s s')
include h hs

theorem Expr.test_tracks (e : Expr) :
    Eval.Tracks ρ s s' (fun _ a b => a = b) (e.test invoke) (e.test invoke) :=
  (e.eval_tracks h hs).bind fun _ hv => .pure hv.isTruthy_eq

theorem evalOptional_tracks (e : Option Expr) :
    Eval.Tracks ρ s s' Value.Thins (evalOptional invoke e) (evalOptional invoke e) := by
  cases e with
  | none => exact .pure .nil
  | some e => exact e.eval_tracks h hs

end

/-- Both go round the same number of times. The scopes stay, the frames become more. -/
theorem iterate_tracks {test test' : Eval Bool} {body body' : Eval Flow}
    (ht : ∀ {ρ'}, ρ <+: ρ' → Eval.Tracks ρ' s s' (fun _ a b => a = b) test test')
    (hb : ∀ {ρ'}, ρ <+: ρ' → Eval.Tracks ρ' s s' Flow.Thins body body') (fuel : Nat) :
    Eval.Tracks ρ s s' Flow.Thins (iterate test body fuel) (iterate test' body' fuel) := by
  -- Rounds make frames, so the next round starts from a longer `ρ`.
  induction fuel generalizing ρ with
  | zero => exact .throw .exhausted
  | succ fuel ih =>
    refine (ht List.prefix_rfl).bind ?_
    rintro ρ₁ goes _ hρ₁ rfl
    refine .ite Iff.rfl ((hb hρ₁).bind fun hρ₂ hflow => ?_) (.pure .normal)
    cases hflow with
    | normal =>
      have hρ := hρ₁.trans hρ₂
      exact ih (fun hρ₃ => ht (hρ.trans hρ₃)) fun hρ₃ => hb (hρ.trans hρ₃)
    | returned hv => exact .pure (.returned hv)

mutual

theorem Stmt.exec_tracks (loops : Nat) {invoke : Invoke} (h : invoke.Tracks) {ρ : Thinning}
    {s s' : Scope} (hs : Scope.Anchored ρ s s') : (stmt : Stmt) →
    Eval.Tracks ρ s s' Flow.Thins (stmt.exec loops invoke) (stmt.exec loops invoke)
  | .block body => by
    rw [exec_block]
    exact (Tracks.log _ _).bind fun hρ _ => body.exec_tracks loops h (hs.thins.mono hρ)
  | .expression _ e => (Tracks.log _ _).bind fun hρ _ =>
      (e.eval_tracks h (hs.thins.mono hρ)).bind fun _ _ => .pure .normal
  | .function _ decl => (Tracks.log _ _).bind fun hρ _ =>
      (Tracks.declare (hs.mono hρ) decl).bind fun _ _ => .pure .normal
  | .conditional _ condition thenBranch none => by
    rw [exec_conditional]
    refine (Tracks.log _ _).bind fun hρ _ =>
      (condition.test_tracks h (hs.thins.mono hρ)).bind ?_
    rintro ρ' holds _ hρ' rfl
    exact .ite Iff.rfl (thenBranch.exec_tracks loops h (hs.thins.mono (hρ.trans hρ'))) (.pure .normal)
  | .conditional _ condition thenBranch (some ⟨_, others⟩) => by
    rw [exec_conditional]
    refine (Tracks.log _ _).bind fun hρ _ =>
      (condition.test_tracks h (hs.thins.mono hρ)).bind ?_
    rintro ρ' holds _ hρ' rfl
    exact .ite Iff.rfl (thenBranch.exec_tracks loops h (hs.thins.mono (hρ.trans hρ')))
      (.inFreshScope (hs.thins.mono (hρ.trans hρ')) fun _ ht =>
        Stmt.execAll_tracks loops h ht others)
  | .print _ e => (Tracks.log _ _).bind fun hρ _ =>
      (e.eval_tracks h (hs.thins.mono hρ)).bind fun {_ v v'} _ hv => by
        rw [← hv.toString_eq]
        exact (Tracks.update fun hm => hm.println _).bind fun _ _ => .pure .normal
  | .result _ _ value => (Tracks.log _ _).bind fun hρ _ =>
      (evalOptional_tracks h (hs.thins.mono hρ) value).bind fun _ hv => .pure (.returned hv)
  | .loop _ condition body => by
    rw [exec_loop]
    exact (Tracks.log _ _).bind fun hρ _ => iterate_tracks
      (fun hρ' => condition.test_tracks h (hs.thins.mono (hρ.trans hρ')))
      (fun hρ' => body.exec_tracks loops h (hs.thins.mono (hρ.trans hρ'))) loops
  | .var _ name _ initializer => (Tracks.log _ _).bind fun hρ _ =>
      (evalOptional_tracks h (hs.thins.mono hρ) initializer).bind fun hρ' hv =>
        (Tracks.define (hs.mono (hρ.trans hρ')) name hv).bind fun _ _ => .pure .normal

/-- Statements in a fresh scope. -/
theorem Block.exec_tracks (loops : Nat) {invoke : Invoke} (h : invoke.Tracks) {ρ : Thinning}
    {s s' : Scope} (hs : Scope.Thins ρ s s') : (body : Block) →
    Eval.Tracks ρ s s' Flow.Thins (inFreshScope (Stmt.execAll loops invoke body.stmts))
      (inFreshScope (Stmt.execAll loops invoke body.stmts))
  | ⟨_, stmts⟩ => .inFreshScope hs fun _ ht => Stmt.execAll_tracks loops h ht stmts

theorem Stmt.execAll_tracks (loops : Nat) {invoke : Invoke} (h : invoke.Tracks) {ρ : Thinning}
    {s s' : Scope} (hs : Scope.Anchored ρ s s') : (stmts : List Stmt) →
    Eval.Tracks ρ s s' Flow.Thins (Stmt.execAll loops invoke stmts)
      (Stmt.execAll loops invoke stmts)
  | [] => .pure .normal
  | stmt :: stmts => (stmt.exec_tracks loops h hs).bind fun hρ hflow => by
      cases hflow with
      | normal => exact Stmt.execAll_tracks loops h (hs.mono hρ) stmts
      | returned hv => exact .pure (.returned hv)

end

theorem invokeUpTo_tracks (loops depth : Nat) : (invokeUpTo loops depth).Tracks := by
  induction depth with
  | zero =>
    intro ρ s s' f f' args args' paren hf _
    have hname : f.name = f'.name := by cases hf; rfl
    unfold invokeUpTo
    rw [hname]
    refine .during _ (.get_bind fun hm => ?_)
    rw [hm.maxCallDepth]
    exact .fail _ paren
  | succ depth ih =>
    intro ρ s s' f f' args args' paren hf hargs
    cases hf with
    | function id name decl hscope =>
      have hparams := bindParams_rescoped decl.params hargs
      refine .during _ ((Tracks.newScope hscope hparams).bind fun _ ht => ?_)
      have hbody := Stmt.execAll_tracks loops ih ht decl.body.stmts
      refine (Tracks.inCall (.inside hbody)).bind fun _ hflow => ?_
      cases hflow with
      | normal => exact .pure .nil
      | returned hv => exact .pure hv

theorem Stmt.announce_tracks (stmt : Stmt) :
    Eval.Tracks ρ s s' (fun _ _ _ => True) stmt.announce stmt.announce := by
  intro m m' hm
  obtain ⟨log, hrun⟩ := announce_run stmt m
  obtain ⟨log', hrun'⟩ := announce_run stmt m'
  rw [hrun, hrun']
  exact ⟨ρ, List.prefix_rfl, .ok trivial, hm.withLog log log'⟩

theorem Stmt.runTop_tracks (loops : Nat) (hs : Scope.Anchored ρ s s') (stmt : Stmt) :
    Eval.Tracks ρ s s' (fun _ _ _ => True) (stmt.runTop loops) (stmt.runTop loops) := by
  refine stmt.announce_tracks.bind fun hρ _ => .get_bind fun {m m'} hm => ?_
  rw [hm.maxCallDepth, hm.callDepth]
  have hexec := stmt.exec_tracks loops (invokeUpTo_tracks loops (m'.maxCallDepth - m'.callDepth))
    (hs.mono hρ)
  refine (Tracks.loggingErrors hexec).bind fun _ hflow => ?_
  cases hflow with
  | normal => exact .pure trivial
  | returned => exact .fail _ stmt.span

theorem interpret_tracks (loops : Nat) (hs : Scope.Anchored ρ s s') (stmts : List Stmt) :
    Eval.Tracks ρ s s' (fun _ _ _ => True) (interpret loops stmts) (interpret loops stmts) := by
  induction stmts generalizing ρ with
  | nil => exact .pure trivial
  | cons stmt stmts ih => exact (stmt.runTop_tracks loops hs).bind fun hρ _ => ih (hs.mono hρ)

namespace Machine

variable {m : Machine}

/-- What does not notice extra frames sees no frames that do not exist. -/
theorem WellScoped.tracks {α : Type} {P : Thinning → α → α → Prop} {p : Eval α}
    (h : m.WellScoped) (hhost : ∀ run ∈ m.host, run.Parametric)
    (hp : Eval.Tracks (.all m.env.frames.size) m.env.current m.env.current P p p) :
    (p m).2.WellScoped := by
  obtain ⟨ρ, hρ, -, hm⟩ := hp (h.thins hhost)
  exact hm.wellScoped ((Scope.thins_all h.current).mono hρ)

/-- What every session knows does not look at scopes. -/
theorem parametric_standard (h : ∀ run ∈ m.host, run.Parametric) :
    ∀ run ∈ m.standard.host, run.Parametric := by
  intro run hrun
  obtain hrun | rfl := Array.mem_push.1 hrun
  · exact h run hrun
  · intro _ now _ _ _
    rw [HostFunction.clock, HostFunction.clock]
    split
    · exact .error rfl
    · exact .ok (.number now)

/-- Between programs, all frames that scopes see exist. -/
theorem Interpreter.wellScoped (h : m.Interpreter) (hhost : ∀ run ∈ m.host, run.Parametric) :
    m.WellScoped := by
  induction h with
  | fresh henv _ =>
    constructor
    · rw [henv]
      decide
    · rw [henv]
      exact Environment.only_default
  | @defineNative m name arity f h ih =>
    have hm := ih fun run hrun => hhost run (Array.mem_push_of_mem f hrun)
    have hsize : (m.defineNative name arity f).env.frames.size = m.env.frames.size :=
      Array.size_modify ..
    constructor
    · rw [hsize]
      exact hm.current
    · rw [hsize]
      exact hm.functions.defineIn _ _ (Value.only_of_ne nofun)
  | meanwhile names output clock log h ih => exact ⟨(ih hhost).current, (ih hhost).functions⟩
  | @interpret m m' loops stmts r h hrun ih =>
    obtain ⟨w, hviews, -⟩ := follows_interpret loops stmts m.views_world hrun
    have hkept : m'.host = m.host := hviews.host
    rw [hkept] at hhost
    have hm := ih hhost
    have hafter := hm.tracks hhost (interpret_tracks loops (Scope.anchored_all hm.current) stmts)
    rw [hrun] at hafter
    exact hafter

end Machine

end Tarn
