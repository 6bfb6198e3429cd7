import Tarn.Proofs.Semantics.Refinement
import Tarn.Proofs.Semantics.Tracing
import Tarn.Session

/-! Where the error of a program comes from, said of the machine that runs it. -/
namespace Tarn

open Semantics

namespace Machine

/-- What can run when the machine runs some statements: the statements, the bodies of functions that
are values on the machine, and those of functions that the host makes up. -/
inductive Code (m : Machine) (stmts : List Stmt) : Node → Prop where
  | own {n} (h : n ∈ Stmt.allNodes stmts) : Code m stmts n
  | held {f n} (hf : m.world.Holds f) (h : n ∈ f.decl.nodes) : Code m stmts n
  | given {run clock args f n} (hrun : run ∈ m.host)
      (hargs : ∀ a ∈ args, ∀ g, a = .function g → ∀ n ∈ g.decl.nodes, Code m stmts n)
      (hf : run clock args = .ok (.function f)) (h : n ∈ f.decl.nodes) : Code m stmts n

variable {m : Machine} {stmts : List Stmt}

theorem world_only_code : m.world.Only (Closure.From (m.Code stmts)) :=
  World.only_iff.2 fun _ hf _ hn => .held hf hn

theorem context_only_code : m.context.Only (Closure.From (m.Code stmts)) := by
  rintro run hrun clock args v hargs hv f rfl n hn
  exact .given hrun hargs hv hn

/-- What the machine sets out to do when it runs some statements. -/
def task (m : Machine) (stmts : List Stmt) : Task :=
  ⟨m.env.current, m.callDepth, m.world, .stmts stmts⟩

/-- Whatever fails in the course of a program fails with the error of the program, and nothing is
done after it. -/
theorem eq_of_fails {e e' : EvalError} {w w' : World} {t : Task}
    (hruns : Runs m.context m.env.current m.callDepth m.world stmts (.error e) w)
    (ht : Comprises m.context (m.task stmts) t) (h : Fails m.context t e' w') :
    e' = e ∧ w' = w := by
  have hrefines : m.Refines (fun loops => interpret loops stmts)
      (fun w r w' => Runs m.context m.env.current m.callDepth w stmts r w') :=
    refines_of (fun loops => follows_interpret loops stmts) fun _ _ h => h.settles
  obtain ⟨he, hw⟩ := hrefines.unique (Runs.of_fails (ht.fails h)) hruns
  exact ⟨Except.error.inj he, hw⟩

/-- The error of a program is blamed on a place, and all that fails in the course of the program
fails with this one error. The place is either the token on which one node of the code raised it,
deep inside calls as it may be, with the world as it is at the end, or the whole statement that
returns outside all functions. -/
theorem interpret_raised {loops : Nat} {m' : Machine} {e : EvalError}
    (hrun : interpret loops stmts m = (.error (.failed e), m')) :
    ∃ fault place, e = ⟨fault, some place⟩ ∧
      (∀ t e' w', Comprises m.context (m.task stmts) t → Fails m.context t e' w' →
        e' = e ∧ w' = m'.world) ∧
      ((∃ node scope depth w, m.Code stmts (.expr node) ∧
          Comprises m.context (m.task stmts) ⟨scope, depth, w, .expr node⟩ ∧
          Raises m.context scope depth w node fault place m'.world) ∨
        ∃ s ∈ stmts, ∃ w v,
          Comprises m.context (m.task stmts) ⟨m.env.current, m.callDepth, w, .stmt s⟩ ∧
          Executes m.context m.env.current m.callDepth w s (.ok (.returned v)) m'.world ∧
          fault = .internal "`return` reached top-level code" ∧ place = s.span) := by
  obtain ⟨w', hm', hruns⟩ := follows_interpret (r := .error e) loops stmts m.views_world hrun
  rw [hm'.world_eq]
  obtain ⟨-, herror⟩ := hruns.traced context_only_code (fun _ => .own) world_only_code
  obtain ⟨hpart, hnode, hraises⟩ | ⟨s, hs, w, v, hpart, hreturns, rfl⟩ := herror e rfl
  · exact ⟨_, _, rfl, fun _ _ _ => eq_of_fails hruns, .inl ⟨_, _, _, _, hnode, hpart, hraises⟩⟩
  · exact ⟨_, _, rfl, fun _ _ _ => eq_of_fails hruns, .inr ⟨s, hs, w, v, hpart, hreturns, rfl, rfl⟩⟩

/-- The body of a function fails while the operands of `==` are evaluated. -/
def inBody : CompileOutput × Machine :=
  ({} : Machine).compile "fun f() \x7b return -nil; \x7d print f == f();"

theorem interpret_raised_inBody :
    (interpret 1 inBody.1.statements inBody.2).1 =
        .error (.failed ⟨.operandNotNumber "-", some ⟨17, 18⟩⟩) ∧
      (∀ t e w, Comprises inBody.2.context (inBody.2.task inBody.1.statements) t →
        Fails inBody.2.context t e w → e = ⟨.operandNotNumber "-", some ⟨17, 18⟩⟩ ∧
          w = (interpret 1 inBody.1.statements inBody.2).2.world) ∧
      ∃ node scope depth w, inBody.2.Code inBody.1.statements (.expr node) ∧
        Comprises inBody.2.context (inBody.2.task inBody.1.statements)
          ⟨scope, depth, w, .expr node⟩ ∧
        Raises inBody.2.context scope depth w node (.operandNotNumber "-") ⟨17, 18⟩
          (interpret 1 inBody.1.statements inBody.2).2.world := by
  have hfails : (interpret 1 inBody.1.statements inBody.2).1 =
      .error (.failed ⟨.operandNotNumber "-", some ⟨17, 18⟩⟩) := by decide +kernel
  rcases hrun : interpret 1 inBody.1.statements inBody.2 with ⟨r, m⟩
  rw [hrun] at hfails
  obtain rfl : r = .error _ := hfails
  obtain ⟨fault, place, he, hsame, hraised⟩ := interpret_raised hrun
  cases he
  refine ⟨rfl, hsame, hraised.resolve_right ?_⟩
  rintro ⟨-, -, -, -, -, -, hinternal, -⟩
  cases hinternal

end Machine

end Tarn
