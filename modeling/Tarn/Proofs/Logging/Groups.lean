import Tarn.Proofs.Logging.Running
import Tarn.Proofs.Session.Compilation

/-! The log of a session. What each run logs stands between an enter and an exit of its own, in the
order of the runs, and inside all calls are closed, however the run ends. -/
namespace Tarn

namespace Event

/-- The event is one of reading a text. -/
def ofReading : Event → Bool
  | lexed .. | parsing _ | parsed .. => true
  | _ => false

/-- The event says that a program failed. -/
def isFailure : Event → Bool
  | runtimeError .. => true
  | _ => false

/-- To read a text is not to run it. -/
theorem of_reading {e : Event} (h : e.ofReading = true) :
    e.isFailure = false ∧ e.ofProgram = false ∧ ∀ statements, e ≠ running statements := by
  cases e with
  | lexed | parsing | parsed => exact ⟨rfl, rfl, nofun⟩
  | _ => cases h

end Event

namespace Log

/-- What is logged between the enter and the exit of a run, if the text compiles to `c`, the run comes
out as `outcome`, and no more than `limit` calls are ever to be open. -/
structure Body (limit : Nat) (c : CompileOutput) (outcome : Outcome) (body : List Event) :
    Prop where
  balanced : Balanced limit body
  /-- Of a text that does not compile nothing is run. -/
  refused : c.diagnostics ≠ [] → .compileFailed c.diagnostics.length ∈ body ∧
    ∀ e ∈ body, e.ofProgram = false ∧ ∀ statements, e ≠ .running statements
  failures : body.countP Event.isFailure = if outcome = .runtimeError then 1 else 0
  /-- A failure comes last, and no call is open any more. -/
  failure_last : ∀ front e rest, body = front ++ e :: rest → e.isFailure = true →
    rest = [] ∧ Balanced limit front

variable {limit : Nat} {es : List Event}

theorem Closes.of_reading {n : Nat} (h : ∀ e ∈ es, e.ofReading = true) : Closes n es := by
  apply Closes.of_points
  intro e he limit calls
  have hreading := h e he
  cases e with
  | lexed | parsing | parsed => rfl
  | _ => cases hreading

theorem Closes.ending (n : Nat) (r : Except Halt Unit) : Closes n (ending r) := by
  apply Closes.of_points
  intro e he limit calls
  obtain (e' | _) | _ := r
  · obtain rfl := List.mem_singleton.1 he
    rfl
  · cases he
  · cases he

theorem Program.not_failure {n : Nat} (h : Program n es) : ∀ e ∈ es, e.isFailure = false := by
  intro e he
  have hprogram := h.ofProgram e he
  cases e with
  | runtimeError => cases hprogram
  | _ => rfl

theorem countP_failures (h : ∀ e ∈ es, e.isFailure = false) : es.countP Event.isFailure = 0 := by
  rw [List.countP_eq_zero]
  intro e he
  simp [h e he]

theorem countP_ending (r : Except Halt Unit) : (ending r).countP Event.isFailure =
    if (Session.ended r).1 = .runtimeError then 1 else 0 := by
  obtain (e | _) | _ := r <;> rfl

theorem ending_eq (r : Except Halt Unit) : ending r = [] ∨ ∃ e, ending r = [e] := by
  obtain (e | _) | _ := r
  · exact .inr ⟨_, rfl⟩
  · exact .inl rfl
  · exact .inl rfl

/-- If nothing before says so, only the end of a log says that a program failed. -/
theorem ending_last {r : Except Halt Unit} {front rest : List Event} {e : Event}
    (hquiet : ∀ e ∈ es, e.isFailure = false) (hsplit : es ++ ending r = front ++ e :: rest)
    (he : e.isFailure = true) : rest = [] ∧ front = es := by
  have hearlier (rest' : List Event) : es ≠ front ++ e :: rest' := by
    rintro rfl
    rw [hquiet e (by simp)] at he
    cases he
  rcases ending_eq r with hnone | ⟨last, hlast⟩
  · rw [hnone, List.append_nil] at hsplit
    exact absurd hsplit (hearlier rest)
  · rw [hlast] at hsplit
    rcases List.eq_nil_or_concat rest with rfl | ⟨rest', e', rfl⟩
    · exact ⟨rfl, (List.append_inj' hsplit rfl).1.symm⟩
    · rw [List.concat_eq_append, ← List.cons_append, ← List.append_assoc] at hsplit
      exact absurd (List.append_inj' hsplit rfl).1 (hearlier rest')

namespace Body

variable {c : CompileOutput} {reading : List Event} (hreading : ∀ e ∈ reading, e.ofReading = true)
include hreading

/-- A text that does not compile is read and that is all. -/
theorem of_refused (limit : Nat) : Body limit c (.compileError c.diagnostics.length)
    (reading ++ [.compileFailed c.diagnostics.length]) := by
  have hquiet : ∀ e ∈ reading ++ [.compileFailed c.diagnostics.length],
      e.isFailure = false ∧ e.ofProgram = false ∧ ∀ statements, e ≠ .running statements := by
    intro e he
    rcases List.mem_append.1 he with he | he
    · exact Event.of_reading (hreading e he)
    · obtain rfl := List.mem_singleton.1 he
      exact ⟨rfl, rfl, nofun⟩
  constructor
  · exact ((Closes.of_reading hreading).append (.point fun _ _ => rfl)).balanced
  · intro _
    exact ⟨by simp, fun e he => (hquiet e he).2⟩
  · rw [if_neg (by simp)]
    exact countP_failures fun e he => (hquiet e he).1
  · rintro front e rest hsplit he
    rw [(hquiet e (by simp [hsplit])).1] at he
    cases he

/-- A text that compiles is read and run. -/
theorem of_program {limit statements : Nat} {es : List Event} (hnone : c.diagnostics = [])
    (hes : Program limit es) (r : Except Halt Unit) : Body limit c (Session.ended r).1
      (reading ++ .running statements :: (es ++ ending r)) := by
  have hcloses : Closes limit (reading ++ .running statements :: es) :=
    (Closes.of_reading hreading).append ((Closes.point fun _ _ => rfl).append hes.closes)
  have hquiet : ∀ e ∈ reading ++ .running statements :: es, e.isFailure = false := by
    intro e he
    rcases List.mem_append.1 he with he | he
    · exact (Event.of_reading (hreading e he)).1
    · rcases List.mem_cons.1 he with rfl | he
      · rfl
      · exact hes.not_failure e he
  rw [← List.cons_append, ← List.append_assoc]
  constructor
  · exact (hcloses.append (.ending limit r)).balanced
  · intro hsome
    exact absurd hnone hsome
  · rw [List.countP_append, countP_failures hquiet, countP_ending, Nat.zero_add]
  · intro front e rest hsplit he
    obtain ⟨hrest, rfl⟩ := ending_last hquiet hsplit he
    exact ⟨hrest, hcloses.balanced⟩

end Body

end Log

namespace Machine

/-- Of some events those are kept that are wanted. -/
theorem Adds.foldl (m : Machine) (es : List Event) :
    m.Adds (es.filter fun e => m.log.keeps e.level) { m with log := es.foldl Log.add m.log } := by
  induction es generalizing m with
  | nil => exact .of_log rfl rfl
  | cons e es ih =>
    have hfirst := Adds.log m e
    have hrest := ih { m with log := m.log.add e }
    have hkeeps (level : LogLevel) : (m.log.add e).keeps level = m.log.keeps level := by
      unfold Log.keeps
      rw [Log.level_add]
    simp only [hkeeps] at hrest
    have hall := hfirst.trans hrest
    rw [List.filter_cons]
    by_cases he : m.log.keeps e.level
    · rw [if_pos he] at hall ⊢
      exact hall
    · rw [if_neg he] at hall ⊢
      exact hall

theorem compile_logs (m : Machine) (source : String) :
    ∃ es, m.Adds es (m.compile source).2 ∧ ∀ e ∈ es, e.ofReading = true := by
  obtain ⟨events, hlog, hreading⟩ : ∃ events : List Event,
      (m.compile source).2.log = events.foldl Log.add m.log ∧ ∀ e ∈ events, e.ofReading = true := by
    refine ⟨_, rfl, ?_⟩
    intro e he
    simp only [List.mem_append, List.mem_singleton, List.mem_map] at he
    rcases he with (rfl | ⟨e, -, rfl⟩) | rfl <;> rfl
  have hadds := Adds.foldl m events
  rw [← hlog] at hadds
  refine ⟨_, ⟨hadds.level, hadds.maxCallDepth, hadds.events⟩, ?_⟩
  intro e he
  exact hreading e (List.mem_of_mem_filter he)

end Machine

namespace Session

/-- What is logged of a text, whether it is run or not. -/
theorem runCompiled_logs (loops : Nat) (source : String) {m : Machine}
    (hlevel : m.log.level.isSome) :
    ∃ body, m.Adds body (runCompiled loops m source).2 ∧
      Log.Body (m.maxCallDepth + 1) (m.compile source).1 (runCompiled loops m source).1.1 body := by
  obtain ⟨reading, hread, hreading⟩ := m.compile_logs source
  have hlevel' := hread.isSome hlevel
  rcases herrors : (m.compile source).1.hasErrors with _ | _
  · have hnone : (m.compile source).1.diagnostics = [] := by
      rwa [CompileOutput.hasErrors, Bool.not_eq_false', List.isEmpty_iff] at herrors
    have hstarted : (m.compile source).2.Adds [.running _] (started m source) :=
      .log_debug hlevel' rfl
    obtain ⟨es, hadds, hes⟩ := interpret_logs loops (Machine.compile_admissible herrors)
      (hstarted.isSome hlevel')
    rw [hstarted.maxCallDepth, hread.maxCallDepth] at hes
    rw [runCompiled_eq loops herrors]
    exact ⟨_, hread.trans (hstarted.trans hadds), .of_program hreading hnone hes _⟩
  · have houtcome : (runCompiled loops m source).1.1 =
        .compileError (m.compile source).1.diagnostics.length := by
      rw [runCompiled]
      simp only [herrors, if_true]
    have hrefused : (m.compile source).2.Adds
        [.compileFailed (m.compile source).1.diagnostics.length] (runCompiled loops m source).2 := by
      rw [runCompiled]
      simp only [herrors, if_true]
      exact .log_debug hlevel' rfl
    rw [houtcome]
    exact ⟨_, hread.trans hrefused, .of_refused hreading _⟩

/-- The log of a run is that of its text, between an enter and an exit. -/
theorem run_logs (loops : Nat) (name source : String) {s : Session}
    (hlevel : s.machine.log.level.isSome) :
    ∃ body, s.machine.Adds (.enter (.run name) :: (body ++ [.exit (.run name)]))
        (s.run loops name source).2.machine ∧
      Log.Body (s.machine.maxCallDepth + 1) (s.compile source).1
        (s.run loops name source).1.1 body := by
  have henter : s.machine.Adds [.enter (.run name)] (s.entered name) := .log_debug hlevel rfl
  obtain ⟨body, hadds, hbody⟩ := runCompiled_logs loops source (henter.isSome hlevel)
  have hexit : (runCompiled loops (s.entered name) source).2.Adds [.exit (.run name)]
      (s.run loops name source).2.machine := by
    rw [run_eq]
    exact .log_debug (hadds.isSome (henter.isSome hlevel)) rfl
  rw [henter.maxCallDepth] at hbody
  refine ⟨body, henter.trans (hadds.trans hexit), ?_⟩
  rw [run_eq]
  exact hbody

/-- A run of a text: what the text compiles to in the session that it is run in, and how it comes
out. -/
structure Ran where
  name : String
  compiled : CompileOutput
  outcome : Outcome

/-- Runs texts under their names, one after another. -/
def runAll (loops : Nat) : Session → List (String × String) → List Ran × Session
  | s, [] => ([], s)
  | s, (name, source) :: sources =>
      let ((outcome, _), s') := s.run loops name source
      let (runs, s'') := runAll loops s' sources
      (⟨name, (s.compile source).1, outcome⟩ :: runs, s'')

/-- A session that keeps a log adds one group of events to it for each text that it runs, in their
order. In a group, calls are properly nested, one deeper than they may be at most, and closed however
the run ends; nothing is run of a text that does not compile; and a program that fails says so once,
when all calls are closed and nothing but the exit of the run is still to come. -/
theorem runAll_groups (loops : Nat) (s : Session) (sources : List (String × String))
    (hlevel : s.machine.log.level.isSome) :
    ∃ groups : List (List Event),
      (s.runAll loops sources).2.machine.log.events.toList =
        s.machine.log.events.toList ++ groups.flatten ∧
      List.Forall₂ (fun ran group => ∃ body,
          group = .enter (.run ran.name) :: (body ++ [.exit (.run ran.name)]) ∧
          Log.Body (s.machine.maxCallDepth + 1) ran.compiled ran.outcome body)
        (s.runAll loops sources).1 groups ∧
      (s.runAll loops sources).1.map (·.name) = sources.map (·.1) := by
  induction sources generalizing s with
  | nil => exact ⟨[], (List.append_nil _).symm, .nil, rfl⟩
  | cons text sources ih =>
    obtain ⟨name, source⟩ := text
    obtain ⟨body, hadds, hbody⟩ := run_logs loops name source hlevel
    obtain ⟨groups, hevents, hgroups, hnames⟩ :=
      ih (s.run loops name source).2 (hadds.isSome hlevel)
    rw [hadds.maxCallDepth] at hgroups
    refine ⟨_ :: groups, ?_, .cons ⟨body, rfl, hbody⟩ hgroups, congrArg (name :: ·) hnames⟩
    rw [List.flatten_cons, ← List.append_assoc, ← hadds.events]
    exact hevents

/-- A session that logs everything, in which calls are not to be nested. -/
def logging : Session := Session.start { log := { level := some .trace }, maxCallDepth := 1 }

/-- A function that calls itself, and a text that does not compile. -/
def loggedTexts : List (String × String) :=
  [("deep", "fun f() \x7b f(); \x7d f();"), ("broken", "1 +;")]

/-- The call inside the other one is logged too, and both are closed before the failure is. -/
theorem runAll_groups_logging :
    logging.machine.log.level.isSome ∧
      (logging.runAll 1 loggedTexts).1.map (·.outcome) = [.runtimeError, .compileError 1] ∧
      ∃ groups : List (List Event),
        (logging.runAll 1 loggedTexts).2.machine.log.events.toList =
          logging.machine.log.events.toList ++ groups.flatten ∧
        List.Forall₂ (fun ran group => ∃ body,
            group = .enter (.run ran.name) :: (body ++ [.exit (.run ran.name)]) ∧
            Log.Body 2 ran.compiled ran.outcome body)
          (logging.runAll 1 loggedTexts).1 groups ∧
        (logging.runAll 1 loggedTexts).1.map (·.name) = ["deep", "broken"] := by
  have houtcomes : (logging.runAll 1 loggedTexts).1.map (·.outcome) =
      [.runtimeError, .compileError 1] := by
    decide +kernel
  exact ⟨rfl, houtcomes, runAll_groups 1 logging loggedTexts rfl⟩

end Session

end Tarn
