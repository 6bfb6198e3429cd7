import Tarn.Proofs.Session.Alike

/-! Texts that do not compile. They are refused as a whole: but for names that nobody asks for, the
session is the one that it was. -/
namespace Tarn.Session

/-- A source text to run, and what the clock shows meanwhile. -/
structure Submission where
  loops : Nat
  name : String
  source : String
  now : Float

/-- How a submission comes out, with what is reported and printed. -/
structure Answer where
  outcome : Outcome
  diagnostics : List Diagnostic
  printed : String
deriving DecidableEq

def submit (s : Session) (x : Submission) : Answer × Session :=
  let ((outcome, diagnostics), s) := (s.tick x.now).run x.loops x.name x.source
  let (printed, s) := s.takeOutput
  (⟨outcome, diagnostics, printed⟩, s)

/-- The answers to submissions, one after another. -/
def answers (s : Session) : List Submission → List Answer
  | [] => []
  | x :: later =>
      let (answer, s) := s.submit x
      answer :: s.answers later

theorem Alike.submit {s s' : Session} (h : s.Alike s') (x : Submission) :
    (s.submit x).1 = (s'.submit x).1 ∧ (s.submit x).2.Alike (s'.submit x).2 := by
  obtain ⟨hresult, hran⟩ := (h.tick x.now).run x.loops x.name x.source
  obtain ⟨hprinted, hnext⟩ := hran.takeOutput
  refine ⟨?_, hnext⟩
  exact congrArg₂ (fun result text => Answer.mk result.1 result.2 text) hresult hprinted

/-- Sessions that are alike give the same answers ever after. -/
theorem Alike.answers_eq {s s' : Session} (h : s.Alike s') (later : List Submission) :
    s.answers later = s'.answers later := by
  induction later generalizing s s' with
  | nil => rfl
  | cons x later ih =>
    obtain ⟨hanswer, hnext⟩ := h.submit x
    exact congrArg₂ List.cons hanswer (ih hnext)

/-- Which texts were read does not matter to the global values. -/
theorem Alike.lookup_intern {s : Session} (h : s.Alike s) {u : NameTable}
    (hu : s.machine.names.Extends u) (text : String) :
    s.machine.env.lookupIn Environment.global (u.intern text).1 =
      s.machine.env.lookupIn Environment.global (s.machine.names.intern text).1 := by
  rcases hknown : s.machine.names.find? text with _ | n
  · have hunbound {u : NameTable} (hu : s.machine.names.Extends u) :
        s.machine.env.lookupIn Environment.global (u.intern text).1 = none := by
      refine h.env.lookupIn_eq_none ?_ _
      rintro n' ⟨other, hother, -⟩
      have hspelling := NameTable.spelling_of_find? (u.extends_intern text _ _ (hu _ _ hother))
      rw [NameTable.spelling_intern] at hspelling
      subst hspelling
      cases hknown.symm.trans hother
    rw [hunbound hu, hunbound (.refl _)]
  · rw [NameTable.intern_of_find? hknown, NameTable.intern_of_find? (hu text n hknown)]

/-- A text that does not compile is refused with all that is wrong with it, first what the lexer
finds and then what the parser finds. Nothing is printed and no binding changes, and whatever is
submitted later comes out as if the text had never been there. -/
theorem run_refused_atomic {sources : List String} {s : Session} (h : History sources s)
    {source : String} (hfails : (s.compile source).1.diagnostics ≠ []) (loops : Nat)
    (name : String) :
    let after := (s.run loops name source).2
    (∃ lexing parsing, (s.run loops name source).1 =
          (.compileError (lexing ++ parsing).length, lexing ++ parsing) ∧
        (∀ d ∈ lexing, d.code.phase = .lexer) ∧ ∀ d ∈ parsing, d.code.phase = .parser) ∧
      after.machine.output = s.machine.output ∧ after.machine.env = s.machine.env ∧
      (∀ text, (after.global? text).1 = (s.global? text).1) ∧
      ∀ later, after.answers later = s.answers later := by
  have herrors : (s.compile source).1.hasErrors = true := by
    rw [CompileOutput.hasErrors, Bool.not_eq_true', List.isEmpty_eq_false_iff]
    exact hfails
  obtain ⟨log, hrun⟩ := run_refused loops name herrors
  obtain ⟨lexing, parsing, hdiagnostics, hphases⟩ := s.machine.compile_phases source
  rw [hrun]
  refine ⟨⟨lexing, parsing, ?_, hphases⟩, rfl, rfl, fun text => ?_, fun later => ?_⟩
  · rw [← hdiagnostics]
    rfl
  · exact h.alike.lookup_intern (s.machine.extends_compile source) text
  · exact (h.alike.compile_left source log).answers_eq later

/-- A text with an error of the lexer and one of the parser, and a new name. -/
theorem run_refused_atomic_declared :
    (declared.run 1 "second" "var y = $;").1.1 = .compileError 2 ∧
      ((declared.run 1 "second" "var y = $;").2.global? "y").1 = (declared.global? "y").1 ∧
      (declared.run 1 "second" "var y = $;").2.answers [⟨1, "third", "f(); y;", 0⟩] =
        declared.answers [⟨1, "third", "f(); y;", 0⟩] := by
  have hhistory : History [_] declared := .run 1 "first" _ (.start rfl rfl) (by decide +kernel)
  have hfails : (declared.compile "var y = $;").1.diagnostics ≠ [] := by decide +kernel
  have hatomic := run_refused_atomic hhistory hfails 1 "second"
  exact ⟨by decide +kernel, hatomic.2.2.2.1 "y", hatomic.2.2.2.2 _⟩

end Tarn.Session
