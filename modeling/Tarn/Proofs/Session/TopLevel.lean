import Tarn.Proofs.Semantics.TopLevel
import Tarn.Proofs.Session.Compilation
import Tarn.Proofs.Session.History

/-! No `return` gets out of a function in a session. The parser refuses those that stand outside of
all functions, and calls stop the others. -/
namespace Tarn.Session

open Semantics

theorem ordinary_of_host {S : Context} (h : S.host = standardHost) : S.Ordinary := by
  rw [Context.Ordinary, h]
  rintro run hrun clock args
  obtain rfl := List.mem_singleton.1 (Array.mem_toList_iff.2 hrun)
  rw [HostFunction.clock]
  split
  · refine Result.ordinary_error ?_
    rintro ⟨⟩
  · exact Result.ordinary_ok _

/-- No submission reports a fault of the interpreter. If it compiles, none of its statements
returns, whatever the statements before it and the functions of earlier submissions have made of
the machine. -/
theorem run_ne_internal {sources : List String} {s : Session} (h : History sources s) (loops : Nat)
    (name source : String) :
    (∀ d ∈ (s.run loops name source).1.2, d.code ≠ .internal) ∧
      ((s.compile source).1.diagnostics = [] → ∀ stmt ∈ (s.compile source).1.statements,
        ∀ (m m' : Machine) (v : Value),
          stmt.exec loops (m.invoke loops) m ≠ (.ok (.returned v), m')) := by
  constructor
  · rcases herrors : (s.compile source).1.hasErrors with _ | _
    · obtain ⟨log, log', hrun⟩ := run_compiled loops name herrors
      rw [hrun]
      rcases hends : interpret loops (s.compile source).1.statements
        { (s.compile source).2.machine with log } with ⟨(e | _) | _, m⟩
      · intro d hd
        obtain rfl := List.mem_singleton.1 hd
        obtain ⟨w', -, hruns⟩ := follows_interpret loops _ (r := .error e)
          (Machine.views_world _) hends
        exact hruns.ordinary (ordinary_of_host h.host) (Machine.compile_admissible herrors) e rfl
      · exact nofun
      · exact nofun
    · obtain ⟨log, hrun⟩ := run_refused loops name herrors
      obtain ⟨lexing, parsing, hphases, hlexing, hparsing⟩ := s.machine.compile_phases source
      have hdiagnostics : (s.run loops name source).1.2 = lexing ++ parsing := by
        rw [hrun]
        exact hphases
      rw [hdiagnostics]
      intro d hd hinternal
      obtain hd | hd := List.mem_append.1 hd
      · have hphase := hlexing d hd
        rw [hinternal] at hphase
        cases hphase
      · have hphase := hparsing d hd
        rw [hinternal] at hphase
        cases hphase
  · intro hnone stmt hstmt m m' v
    have hcompiles : (s.machine.compile source).1.hasErrors = false := by
      rw [CompileOutput.hasErrors, Bool.not_eq_false', List.isEmpty_iff]
      exact hnone
    exact Machine.exec_ne_returned ((Machine.compile_admissible hcompiles).of_mem hstmt)

/-- The session in which a function was declared that returns out of a loop. -/
def returning : Session :=
  ((Session.start {}).run 1 "first"
    "fun f() \x7b while true \x7b \x7b return true; \x7d \x7d \x7d").2

/-- The function is called in a branch outside all functions, and the branch goes on. -/
theorem run_ne_internal_returning :
    (returning.run 1 "second" "if f() \x7b f(); f(); \x7d").1 = (.ok, []) ∧
      ∀ stmt ∈ (returning.compile "if f() \x7b f(); f(); \x7d").1.statements,
        ∀ (m m' : Machine) (v : Value),
          stmt.exec 1 (m.invoke 1) m ≠ (.ok (.returned v), m') := by
  have hhistory : History [_] returning := .run 1 "first" _ (.start rfl rfl) (by decide +kernel)
  have hcompiles : (returning.compile "if f() \x7b f(); f(); \x7d").1.diagnostics = [] := by
    decide +kernel
  exact ⟨by decide +kernel, (run_ne_internal hhistory 1 "second" _).2 hcompiles⟩

end Tarn.Session
