import Tarn.Proofs.Logging.Calls
import Tarn.Proofs.Semantics.TopLevel

/-! Every part of a program closes the calls that it opens, by recursion over expressions and
statements. Bodies of functions are one call deeper than the call. -/
namespace Tarn

open Semantics

/-- Calls log the events of a program that calls no more than `n` deep. -/
def Invoke.Logs (n : Nat) (invoke : Invoke) : Prop :=
  ∀ f args paren, Eval.Logs n (invoke f args paren)

variable {n : Nat} {invoke : Invoke}

theorem Value.call_logs (h : invoke.Logs n) (f : Value) (args : List Value) (paren : Span) :
    Eval.Logs n (f.call invoke args paren) := by
  cases f with
  | function f => exact .ite (h f args paren) (.fail _ paren)
  | native f => exact .ite (.callNative f args paren) (.fail _ paren)
  | nil | bool | number | string => exact .fail _ paren

mutual

theorem Expr.eval_logs {n : Nat} {invoke : Invoke} (h : invoke.Logs n) :
    (e : Expr) → Eval.Logs n (e.eval invoke)
  | .literal _ .nil => .pure _
  | .literal _ (.bool _) => .pure _
  | .literal _ (.number _) => .pure _
  | .literal _ (.string _) => (Eval.Logs.get_bind fun _ => .pure _).bind fun _ => .pure _
  | .var span name => .lookup name span
  | .grouping _ inner => by
    rw [Expr.eval]
    exact inner.eval_logs h
  | .unary _ _ opSpan operand => (operand.eval_logs h).bind fun _ => .blame opSpan _
  | .binary _ _ opSpan left right => (left.eval_logs h).bind fun _ =>
      (right.eval_logs h).bind fun _ => .blame opSpan _
  | .logical _ op _ left right => by
    refine (left.eval_logs h).bind fun v => ?_
    have hright : Eval.Logs n (right.eval invoke) := right.eval_logs h
    cases op <;> cases v.isTruthy
    · exact .pure v
    · exact hright
    · exact hright
    · exact .pure v
  | .assign _ name nameSpan value => (value.eval_logs h).bind fun v => .rebind name v nameSpan
  | .call _ callee paren args => (callee.eval_logs h).bind fun f =>
      (Expr.evalAll_logs h args).bind fun vs => Value.call_logs h f vs paren

theorem Expr.evalAll_logs {n : Nat} {invoke : Invoke} (h : invoke.Logs n) :
    (es : List Expr) → Eval.Logs n (Expr.evalAll invoke es)
  | [] => .pure _
  | e :: es => (e.eval_logs h).bind fun _ => (Expr.evalAll_logs h es).bind fun _ => .pure _

end

section

variable (h : invoke.Logs n)
include h

theorem Expr.test_logs (e : Expr) : Eval.Logs n (e.test invoke) :=
  (e.eval_logs h).bind fun _ => .pure _

theorem evalOptional_logs (e : Option Expr) : Eval.Logs n (evalOptional invoke e) := by
  cases e with
  | none => exact .pure _
  | some e => exact e.eval_logs h

end

theorem iterate_logs {test : Eval Bool} {body : Eval Flow} (htest : Eval.Logs n test)
    (hbody : Eval.Logs n body) (fuel : Nat) : Eval.Logs n (iterate test body fuel) := by
  induction fuel with
  | zero => exact .throw _
  | succ fuel ih =>
    refine htest.bind fun _ => .ite (hbody.bind fun flow => ?_) (.pure _)
    cases flow with
    | normal => exact ih
    | returned v => exact .pure _

mutual

theorem Stmt.exec_logs (loops : Nat) {n : Nat} {invoke : Invoke} (h : invoke.Logs n) :
    (s : Stmt) → Eval.Logs n (s.exec loops invoke)
  | .block body => by
    rw [exec_block]
    exact (Eval.Logs.execute _).bind fun _ => body.exec_logs loops h
  | .expression span e =>
    (Eval.Logs.execute span).bind fun _ => (e.eval_logs h).bind fun _ => .pure _
  | .function span decl =>
    (Eval.Logs.execute span).bind fun _ => (Eval.Logs.declare decl).bind fun _ => .pure _
  | .conditional span condition thenBranch none => by
    rw [exec_conditional]
    exact (Eval.Logs.execute span).bind fun _ => (condition.test_logs h).bind fun _ =>
      .ite (thenBranch.exec_logs loops h) (.pure _)
  | .conditional span condition thenBranch (some ⟨_, others⟩) => by
    rw [exec_conditional]
    exact (Eval.Logs.execute span).bind fun _ => (condition.test_logs h).bind fun _ =>
      .ite (thenBranch.exec_logs loops h) (.inFreshScope (Stmt.execAll_logs loops h others))
  | .print span e => (Eval.Logs.execute span).bind fun _ => (e.eval_logs h).bind fun _ =>
      (Eval.Logs.of_log fun _ => ⟨rfl, rfl⟩).bind fun _ => .pure _
  | .result span _ value =>
    (Eval.Logs.execute span).bind fun _ => (evalOptional_logs h value).bind fun _ => .pure _
  | .loop span condition body => by
    rw [exec_loop]
    exact (Eval.Logs.execute span).bind fun _ =>
      iterate_logs (condition.test_logs h) (body.exec_logs loops h) loops
  | .var span name _ initializer => (Eval.Logs.execute span).bind fun _ =>
      (evalOptional_logs h initializer).bind fun v => (Eval.Logs.define name v).bind fun _ =>
        .pure _

/-- Statements in a fresh scope. -/
theorem Block.exec_logs (loops : Nat) {n : Nat} {invoke : Invoke} (h : invoke.Logs n) :
    (body : Block) → Eval.Logs n (Eval.inFreshScope (Stmt.execAll loops invoke body.stmts))
  | ⟨_, stmts⟩ => .inFreshScope (Stmt.execAll_logs loops h stmts)

theorem Stmt.execAll_logs (loops : Nat) {n : Nat} {invoke : Invoke} (h : invoke.Logs n) :
    (stmts : List Stmt) → Eval.Logs n (Stmt.execAll loops invoke stmts)
  | [] => .pure _
  | s :: stmts => (s.exec_logs loops h).bind fun flow => by
      cases flow with
      | normal => exact Stmt.execAll_logs loops h stmts
      | returned v => exact .pure _

end

/-- Bodies run inside each other up to `depth`. The call that goes too deep is logged as well, so
there may be one more of them. -/
theorem invokeUpTo_logs (loops depth : Nat) : (invokeUpTo loops depth).Logs (depth + 1) := by
  induction depth with
  | zero =>
    intro f args paren
    exact .during _ (.get_bind fun _ => .fail _ paren)
  | succ depth ih =>
    intro f args paren
    refine .during _ ((Eval.Logs.newScope _ _).bind fun scope => ?_)
    have hbody := Stmt.execAll_logs loops ih f.decl.body.stmts
    refine ((hbody.inside scope).inCall).bind fun flow => ?_
    cases flow with
    | returned value => exact .pure value
    | normal => exact .pure _

/-- What is logged at last of a program that ends so. -/
def Log.ending : Except Halt Unit → List Event
  | .error (.failed e) => [.runtimeError e.code e.message]
  | _ => []

theorem Stmt.announce_logs (n : Nat) (s : Stmt) : Eval.Logs n s.announce := by
  refine .get_bind fun m => ?_
  cases s.shown? with
  | none => exact .pure _
  | some e => exact .ite (.log (fun _ _ => rfl) rfl) (.pure _)

/-- A statement outside all functions logs the calls that it makes, and at last the error that ends
it, if one does. -/
theorem Stmt.runTop_logs (loops : Nat) {s : Stmt} (hs : s.Admissible false) {m : Machine}
    (hlevel : m.log.level.isSome) :
    ∃ es, m.Adds (es ++ Log.ending (s.runTop loops m).1) (s.runTop loops m).2 ∧
      Log.Program (m.maxCallDepth + 1) es := by
  obtain ⟨shown, hshown, hprogram⟩ := s.announce_logs (m.maxCallDepth + 1) m hlevel
  obtain ⟨log, hannounce⟩ := announce_run s m
  rw [hannounce] at hshown
  rw [runTop, bind_run, hannounce]
  dsimp only at hshown ⊢
  generalize ({ m with log } : Machine) = m₁ at hshown
  obtain ⟨es, hadds, hes⟩ := s.exec_logs loops
    (invokeUpTo_logs loops (m₁.maxCallDepth - m₁.callDepth)) m₁ (hshown.isSome hlevel)
  have hcalls := hadds.isSome (hshown.isSome hlevel)
  have hroom : (m₁.maxCallDepth - m₁.callDepth) + 1 ≤ m.maxCallDepth + 1 := by
    rw [hshown.maxCallDepth]
    omega
  have hall := hshown.trans hadds
  refine ⟨shown ++ es, ?_, hprogram.append (hes.mono hroom)⟩
  rw [get_run, bind_run, Eval.loggingErrors]
  rcases hexec : s.exec loops (invokeUpTo loops (m₁.maxCallDepth - m₁.callDepth)) m₁ with
    ⟨(e | _) | (_ | v), m₂⟩
  · rw [hexec] at hall hcalls
    exact hall.trans (.log_debug hcalls rfl)
  · rw [hexec] at hall
    exact hall.trans (.of_log rfl rfl)
  · rw [hexec] at hall
    exact hall.trans (.of_log rfl rfl)
  · exact absurd hexec (Machine.exec_ne_returned hs)

/-- A program logs the calls of its statements, up to the error that ends it. -/
theorem interpret_logs (loops : Nat) {stmts : List Stmt} (hs : Stmt.AllAdmissible false stmts)
    {m : Machine} (hlevel : m.log.level.isSome) :
    ∃ es, m.Adds (es ++ Log.ending (interpret loops stmts m).1) (interpret loops stmts m).2 ∧
      Log.Program (m.maxCallDepth + 1) es := by
  induction stmts generalizing m with
  | nil => exact ⟨[], .of_log rfl rfl, .nil⟩
  | cons s stmts ih =>
    obtain ⟨es, hadds, hes⟩ := s.runTop_logs loops hs.1 hlevel
    rw [interpret, bind_run]
    rcases hrun : s.runTop loops m with ⟨h | _, m₁⟩
    · rw [hrun] at hadds
      exact ⟨es, hadds, hes⟩
    · rw [hrun] at hadds
      obtain ⟨es', hadds', hes'⟩ := ih hs.2 (hadds.isSome hlevel)
      have hall := hadds.trans hadds'
      rw [hadds.maxCallDepth] at hes'
      refine ⟨es ++ es', ?_, hes.append hes'⟩
      simpa [Log.ending] using hall

end Tarn
