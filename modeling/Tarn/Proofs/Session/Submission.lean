import Tarn.Proofs.Grammar.Places
import Tarn.Proofs.Lexing.Scan
import Tarn.Proofs.Parsing.Acceptance
import Tarn.Proofs.Semantics.Soundness
import Tarn.Session

/-! What a session makes of one source text. -/
namespace Tarn

open Grammar Semantics

namespace Machine

variable {m : Machine} {source : String}

/-- Of a text that is too large nothing is read. -/
theorem size_le_of_compiles (h : (m.compile source).1.hasErrors = false) :
    source.utf8ByteSize ≤ Span.maxOffset := by
  by_contra hlarge
  rw [CompileOutput.hasErrors, Bool.not_eq_false', List.isEmpty_iff] at h
  have hlexed := List.map_eq_nil_iff.1 (List.append_eq_nil_iff.1 h).1
  rw [lex_tooLarge (Nat.not_le.1 hlarge)] at hlexed
  cases hlexed

/-- Of a text that is too large nothing is read, and that is all there is to say. -/
theorem diagnostics_tooLarge (m : Machine) (hlarge : Span.maxOffset < source.utf8ByteSize) :
    (m.compile source).1.diagnostics =
      [(⟨.sourceTooLarge source.utf8ByteSize, Span.nowhere⟩ : LexError).toDiagnostic] := by
  have hnothing : Program .strict [] [] [] := .nil
  have hparse : (parse m.names [⟨.eof, Span.point 0⟩]).errors = [] :=
    List.map_eq_nil_iff.1 (parse_complete _ (atEnd_eof _) (by decide) hnothing).2
  simp only [Machine.compile, lex_tooLarge hlarge, hparse]
  rfl

/-- The statements of a text know no places but in it. -/
theorem compile_placesInside (m : Machine) (hsize : source.utf8ByteSize ≤ Span.maxOffset) :
    PlacesInside source.utf8ByteSize (Stmt.allPlaces (m.compile source).1.statements) := by
  obtain ⟨tokens, errors, names, hscan⟩ := Scan.exists_scan Text.isBlank m.names 0 source.toList
  have htokens := hscan.mem_tokens
  rw [Nat.zero_add, Text.size_toList] at htokens
  have hd := parse_derives names (atEnd_eof (Span.point source.utf8ByteSize))
    fun t ht => (htokens t ht).2
  rw [Machine.compile, hscan.lex_eq hsize]
  exact hd.placesInside fun t ht => (htokens t ht).1

end Machine

namespace Session

/-- How a program that ends so comes out, and what is reported. -/
def report : Result Unit → Outcome × List Diagnostic
  | .ok () => (.ok, [])
  | .error e => (.runtimeError, [e.toDiagnostic])

/-- How a program comes out that the machine ends so, and what is reported. -/
def ended : Except Halt Unit → Outcome × List Diagnostic
  | .ok () => (.ok, [])
  | .error (.failed e) => (.runtimeError, [e.toDiagnostic])
  | .error .exhausted => (.unfinished, [])

theorem ended_halt (r : Result Unit) : ended r.halt = report r := by
  cases r <;> rfl

variable (loops : Nat) (s : Session) (name source : String)

/-- The machine on which a source text is run. -/
def entered : Machine := { s.machine with log := s.machine.log.add (.enter (.run name)) }

theorem run_eq : s.run loops name source = ((runCompiled loops (s.entered name) source).1,
    ⟨{ (runCompiled loops (s.entered name) source).2 with
      log := (runCompiled loops (s.entered name) source).2.log.add (.exit (.run name)) }⟩) := by
  unfold run
  rfl

variable {s source}

/-- A text that does not compile leaves no trace but its names. -/
theorem run_refused (h : (s.compile source).1.hasErrors = true) :
    ∃ log, s.run loops name source =
      ((.compileError (s.compile source).1.diagnostics.length, (s.compile source).1.diagnostics),
        ⟨{ (s.compile source).2.machine with log }⟩) := by
  have hrefused : ((s.entered name).compile source).1.hasErrors = true := h
  rw [run_eq, runCompiled]
  simp only [hrefused, if_true]
  exact ⟨_, rfl⟩

/-- The machine on which the statements of a text are run. -/
def started (m : Machine) (source : String) : Machine :=
  { (m.compile source).2 with
    log := (m.compile source).2.log.add (.running (m.compile source).1.statements.length) }

theorem runCompiled_eq {m : Machine} (h : (m.compile source).1.hasErrors = false) :
    runCompiled loops m source =
      (ended (interpret loops (m.compile source).1.statements (started m source)).1,
        (interpret loops (m.compile source).1.statements (started m source)).2) := by
  rw [runCompiled, started]
  simp only [h, Bool.false_eq_true, if_false]
  generalize interpret loops _ _ = ran
  obtain ⟨(e | _) | _, m⟩ := ran <;> rfl

omit loops in
theorem runCompiled_compiled {m : Machine} (h : (m.compile source).1.hasErrors = false) :
    ∃ log, ∀ loops, runCompiled loops m source =
      (ended (interpret loops (m.compile source).1.statements { (m.compile source).2 with log }).1,
        (interpret loops (m.compile source).1.statements { (m.compile source).2 with log }).2) :=
  ⟨_, fun loops => runCompiled_eq loops h⟩

/-- A text that compiles is run. -/
theorem run_compiled (h : (s.compile source).1.hasErrors = false) :
    ∃ log log', s.run loops name source =
      (ended (interpret loops (s.compile source).1.statements
          { (s.compile source).2.machine with log }).1,
        ⟨{ (interpret loops (s.compile source).1.statements
          { (s.compile source).2.machine with log }).2 with log := log' }⟩) := by
  have hcompiles : ((s.entered name).compile source).1.hasErrors = false := h
  obtain ⟨log, hrun⟩ := runCompiled_compiled hcompiles
  have hlog := run_eq loops s name source
  rw [hrun loops] at hlog
  exact ⟨log, _, hlog⟩

/-- The statements of a text that compiles run in the semantics, unless a loop goes round too
often. -/
theorem run_runs (h : (s.compile source).1.hasErrors = false) :
    (s.run loops name source).1.1 = .unfinished ∨
      ∃ r, (s.run loops name source).1 = report r ∧
        (s.run loops name source).2.machine.host = s.machine.host ∧
        Runs (s.compile source).2.machine.context s.machine.env.current s.machine.callDepth
          s.machine.world (s.compile source).1.statements r
          (s.run loops name source).2.machine.world := by
  obtain ⟨log, log', hrun⟩ := run_compiled loops name h
  rw [hrun]
  rcases hends : interpret loops (s.compile source).1.statements
    { (s.compile source).2.machine with log } with ⟨x, m⟩
  have hruns (r : Result Unit) (hr : x = r.halt) : ∃ r, ended x = report r ∧
      m.host = s.machine.host ∧ Runs (s.compile source).2.machine.context s.machine.env.current
        s.machine.callDepth s.machine.world (s.compile source).1.statements r m.world := by
    subst hr
    obtain ⟨w', hm, hruns⟩ := follows_interpret loops _ (Machine.views_world _) hends
    rw [hm.world_eq]
    exact ⟨r, ended_halt r, hm.host, hruns⟩
  obtain (e | _) | _ := x
  · exact .inr (hruns (.error e) rfl)
  · exact .inl rfl
  · exact .inr (hruns (.ok ()) rfl)

variable (s source)

/-- How a source text comes out in a session. -/
theorem run_cases :
    (∃ errors diagnostics, (s.run loops name source).1 = (.compileError errors, diagnostics) ∧
      (s.run loops name source).2.machine.world = s.machine.world ∧
      (s.run loops name source).2.machine.host = s.machine.host) ∨
    (s.run loops name source).1.1 = .unfinished ∨
    ((s.compile source).1.hasErrors = false ∧
      ∃ r, (s.run loops name source).1 = report r ∧
        (s.run loops name source).2.machine.host = s.machine.host ∧
        Runs (s.compile source).2.machine.context s.machine.env.current s.machine.callDepth
          s.machine.world (s.compile source).1.statements r
          (s.run loops name source).2.machine.world) := by
  rcases herrors : (s.compile source).1.hasErrors with _ | _
  · exact .inr ((run_runs loops name herrors).imp_right fun hruns => ⟨rfl, hruns⟩)
  · obtain ⟨log, hrun⟩ := run_refused loops name herrors
    rw [hrun]
    exact .inl ⟨_, _, rfl, rfl, rfl⟩

end Session

end Tarn
