import Tarn.Proofs.Semantics.Soundness

/-! Where a machine stands: its current scope and the number of function bodies that are running.
Whatever ends leaves the machine where it was. -/
namespace Tarn

open Semantics

instance instDecidableEqExcept {ε α : Type} [DecidableEq ε] [DecidableEq α] :
    DecidableEq (Except ε α)
  | .ok a, .ok b => decidable_of_iff (a = b) (by simp)
  | .error e, .error e' => decidable_of_iff (e = e') (by simp)
  | .ok _, .error _ | .error _, .ok _ => .isFalse (by simp)

namespace Machine

structure SamePosition (m m' : Machine) : Prop where
  current : m'.env.current = m.env.current
  callDepth : m'.callDepth = m.callDepth

/-- Runs function bodies as deep as they may still be nested on the machine. -/
def invoke (m : Machine) (loops : Nat) : Invoke := invokeUpTo loops (m.maxCallDepth - m.callDepth)

/-- A machine that was made empty and has run whole programs since, each of them to its end. The
programs are any trees, also those that no text has. -/
inductive Interpreter : Machine → Prop where
  | fresh {m : Machine} (henv : m.env = {}) (hdepth : m.callDepth = 0) : Interpreter m
  | defineNative {m} (name : String) (arity : Nat) (f : HostFunction) (h : Interpreter m) :
      Interpreter (m.defineNative name arity f)
  /-- Texts are read, output is taken out, and time goes by. -/
  | meanwhile {m} (names : NameTable) (output : Output) (clock : Float) (log : Log)
      (h : Interpreter m) : Interpreter { m with names, output, clock, log }
  | interpret {m m'} (loops : Nat) (stmts : List Stmt) (r : Result Unit) (h : Interpreter m)
      (hrun : interpret loops stmts m = (r.halt, m')) : Interpreter m'

end Machine

/-- What follows a relation between worlds from where the machine stands comes back there. -/
theorem Semantics.Follows.samePosition {α : Type} {m m' : Machine} {p : Eval α} {R : Meaning α}
    {r : Result α} (h : Follows m.context m.env.current m.callDepth p R)
    (hrun : p m = (r.halt, m')) : m.SamePosition m' := by
  obtain ⟨w', hm', -⟩ := h m.views_world hrun
  exact ⟨by rw [hm'.env]; rfl, hm'.callDepth⟩

namespace Machine

variable {m m' : Machine} {loops : Nat}

theorem SamePosition.eval {e : Expr} {r : Result Value}
    (hrun : e.eval (m.invoke loops) m = (r.halt, m')) : m.SamePosition m' :=
  (follows_eval (followsCalls_invokeUpTo (S := m.context) loops rfl) e).samePosition hrun

theorem SamePosition.exec {s : Stmt} {r : Result Flow}
    (hrun : s.exec loops (m.invoke loops) m = (r.halt, m')) : m.SamePosition m' :=
  (follows_exec (followsCalls_invokeUpTo (S := m.context) loops rfl) s).samePosition hrun

theorem SamePosition.interpret {stmts : List Stmt} {r : Result Unit}
    (hrun : interpret loops stmts m = (r.halt, m')) : m.SamePosition m' :=
  (follows_interpret loops stmts).samePosition hrun

/-- Between programs a machine stands in the global scope, inside no function body. -/
theorem Interpreter.position (h : m.Interpreter) :
    m.env.current = Environment.global ∧ m.callDepth = 0 := by
  induction h with
  | fresh henv hdepth => exact ⟨by rw [henv]; rfl, hdepth⟩
  | defineNative _ _ _ _ ih | meanwhile _ _ _ _ _ ih => exact ih
  | interpret loops stmts r h hrun ih =>
    have hsame := SamePosition.interpret hrun
    exact ⟨hsame.current.trans ih.1, hsame.callDepth.trans ih.2⟩

/-- Every expression, statement and program that ends leaves the machine in the scope and the depth
where it began, and so the machine is always ready for the next program. -/
theorem interpreter_ready (h : m.Interpreter) :
    (m.env.current = Environment.global ∧ m.callDepth = 0) ∧
      ∀ (loops : Nat) (k k' : Machine),
        (∀ (e : Expr) (r : Result Value),
          e.eval (k.invoke loops) k = (r.halt, k') → k.SamePosition k') ∧
        (∀ (s : Stmt) (r : Result Flow),
          s.exec loops (k.invoke loops) k = (r.halt, k') → k.SamePosition k') ∧
        (∀ (stmts : List Stmt) (r : Result Unit),
          Tarn.interpret loops stmts k = (r.halt, k') → k.SamePosition k') :=
  ⟨h.position, fun _ _ _ => ⟨fun _ _ => SamePosition.eval, fun _ _ => SamePosition.exec,
    fun _ _ => SamePosition.interpret⟩⟩

/-- A block that declares a function and calls it; the body ends by a `return` inside a block of its
own, and what it returns makes the argument of a second call fail. -/
def callInArgument : List Stmt :=
  let f : Expr := .var Span.nowhere ⟨1⟩
  let inner : Expr := .call Span.nowhere f Span.nowhere [f]
  [.block ⟨Span.nowhere,
    [.function Span.nowhere ⟨⟨1⟩, Span.nowhere, [⟨⟨2⟩, Span.nowhere⟩], ⟨Span.nowhere,
      [.block ⟨Span.nowhere, [.result Span.nowhere Span.nowhere (some (.var Span.nowhere ⟨2⟩))]⟩]⟩⟩,
     .expression Span.nowhere
      (.call Span.nowhere f Span.nowhere [.unary Span.nowhere .neg (Span.point 7) inner])]⟩]

/-- The error in the argument leaves the machine ready. -/
theorem interpreter_ready_callInArgument :
    (interpret 1 callInArgument {}).1 =
        .error (.failed ⟨.operandNotNumber "-", some (Span.point 7)⟩) ∧
      (interpret 1 callInArgument {}).2.env.current = Environment.global ∧
      (interpret 1 callInArgument {}).2.callDepth = 0 := by
  have hfails : (interpret 1 callInArgument {}).1 =
      .error (.failed ⟨.operandNotNumber "-", some (Span.point 7)⟩) := by decide +kernel
  have hfresh : Interpreter {} := .fresh rfl rfl
  rcases hrun : interpret 1 callInArgument {} with ⟨r, m⟩
  rw [hrun] at hfails
  obtain rfl : r = Result.halt (.error _) := hfails
  exact ⟨rfl, (interpreter_ready (hfresh.interpret 1 callInArgument _ hrun)).1⟩

end Machine

end Tarn
