import Tarn.Proofs.Session.Joint

/-! Two texts that are run in one go, and the same texts run in turn. -/
namespace Tarn

open Semantics

/-- The diagnostic with its places moved by `n` bytes. -/
def Diagnostic.shift (d : Diagnostic) (n : Nat) : Diagnostic :=
  { d with labels := d.labels.map fun l => { l with span := l.span.shift n } }

@[simp] theorem Diagnostic.shift_zero (d : Diagnostic) : d.shift 0 = d := by
  simp [shift]

theorem EvalError.toDiagnostic_shift (e : EvalError) (n : Nat) :
    ({ e with span := e.span.map (·.shift n) } : EvalError).toDiagnostic =
      e.toDiagnostic.shift n := by
  obtain ⟨fault, _ | span⟩ := e <;> rfl

/-- Names of the same texts, and any places. -/
abbrev Likeness.anyPlace (t t' : NameTable) : Likeness := ⟨t, t', fun _ _ => True⟩

theorem interpret_append (loops : Nat) (ss us : List Stmt) :
    interpret loops (ss ++ us) = (do interpret loops ss; interpret loops us) := by
  induction ss with
  | nil => rw [List.nil_append, interpret, pure_bind]
  | cons s ss ih => rw [List.cons_append, interpret, interpret, ih, bind_assoc]

namespace Session

theorem ended_shift (r : Except Halt Unit) (n : Nat) :
    ended (r.mapError (·.shift n)) = ((ended r).1, (ended r).2.map (·.shift n)) := by
  obtain (e | _) | _ := r
  · simp only [Except.mapError, Halt.shift, ended, EvalError.toDiagnostic_shift,
      List.map_singleton]
  · rfl
  · rfl

/-- Runs two texts in turn, the second only if the first comes out well. -/
def runBoth (loops : Nat) (s : Session) (name first second : String) :
    (Outcome × List Diagnostic) × Session :=
  let ran := s.run loops name first
  if ran.1.1 = .ok then ran.2.run loops name second else ran

/-- The place of a node in the text, or in a function that the session holds already. -/
def Knows (s : Session) (source : String) (p : Span) : Prop :=
  p ∈ Stmt.allPlaces (s.compile source).1.statements ∨
    ∃ f, s.machine.world.Holds f ∧ p ∈ f.decl.body.places

/-- Machines that are alike have the same global values, up to places and the numbers of names. -/
theorem global?_alike {L : Likeness} {s s' : Session} (h : Machine.Alike L s.machine s'.machine)
    (text : String) : Option.Rel (Value.Alike (.anyPlace (s.global? text).2.machine.names
      (s'.global? text).2.machine.names)) (s.global? text).1 (s'.global? text).1 := by
  have hnames : L.NamesIn (.anyPlace (s.machine.names.intern text).2
      (s'.machine.names.intern text).2) := by
    refine Likeness.namesIn_of_extends ?_ ?_
    · rw [← h.left]
      exact NameTable.extends_intern _ _
    · rw [← h.right]
      exact NameTable.extends_intern _ _
  exact (h.env.imp hnames fun _ _ _ _ _ _ _ _ => trivial).lookupIn (.intern _ _ text)
    Environment.global

namespace History

variable {sources : List String} {s : Session} (h : History sources s) (loops : Nat)
  (name : String) {source : String}
include h

/-- What a session holds after a text has run, and what is blamed if it fails, is known from that
text or was there before. -/
theorem knows (hcompiles : (s.compile source).1.hasErrors = false)
    (hend : (s.run loops name source).1.1 ≠ .unfinished) :
    (∀ f, (s.run loops name source).2.machine.world.Holds f → ∀ p ∈ f.decl.body.places,
        s.Knows source p) ∧
      ∀ d ∈ (s.run loops name source).1.2, ∃ p, d.primarySpan? = some p ∧ s.Knows source p := by
  obtain hunfinished | ⟨r, hreport, -, hruns⟩ := run_runs loops name hcompiles
  · exact absurd hunfinished hend
  · obtain ⟨hworld, hresult⟩ := hruns.known (known_of_host _ h.host) (Or.inl fun _ hp => hp)
      (Codebase.known_program _ _)
    constructor
    · intro f hf p hp
      obtain hown | ⟨g, hg, hheld⟩ := World.only_iff.1 hworld f hf
      · exact .inl (hown p hp)
      · exact .inr ⟨g, hg, hheld p hp⟩
    · rw [hreport]
      cases r with
      | ok => exact nofun
      | error e =>
        obtain ⟨p, hp, hfrom⟩ := hresult
        refine List.forall_mem_singleton.2 ⟨p, (e.primarySpan?_toDiagnostic).trans hp, ?_⟩
        obtain hown | ⟨g, hg, hheld⟩ := hfrom
        · exact .inl (hown p List.mem_cons_self)
        · exact .inr ⟨g, hg, hheld p List.mem_cons_self⟩

/-- What is known lies in some text, so it is not too far from the start. -/
theorem start_le_of_knows (hcompiles : (s.compile source).1.hasErrors = false) {p : Span}
    (hp : s.Knows source p) : p.start ≤ Span.maxOffset := by
  obtain hown | ⟨f, hf, hheld⟩ := hp
  · have hsize := Machine.size_le_of_compiles hcompiles
    have hinside := s.machine.compile_placesInside hsize p hown
    exact Nat.le_trans (Nat.le_of_lt hinside.start_lt) hsize
  · obtain ⟨text, -, hsize, hplaces⟩ := World.only_iff.1 h.known f hf
    exact Nat.le_trans (Nat.le_of_lt (hplaces p hheld).start_lt) hsize

end History

/-- The two texts come to the same in one go as in turn. -/
structure SameInTurn (loops : Nat) (s : Session) (name first second : String) : Prop where
  outcome : (s.run loops name (joined first second)).1.1 =
    (s.runBoth loops name first second).1.1
  output : (s.run loops name (joined first second)).2.machine.output =
    (s.runBoth loops name first second).2.machine.output
  /-- Global values are the same up to places, and up to names that were not read. -/
  global? (text : String) : Option.Rel
    (Value.Alike (.anyPlace
      ((s.runBoth loops name first second).2.global? text).2.machine.names
      ((s.run loops name (joined first second)).2.global? text).2.machine.names))
    ((s.runBoth loops name first second).2.global? text).1
    ((s.run loops name (joined first second)).2.global? text).1
  /-- What is reported is the same. The place of a node of the second text moves along with that
  text, wherever it stands, and every other place stays. -/
  reports : ∃ fromSecond : Bool,
    (s.run loops name (joined first second)).1.2 =
        (s.runBoth loops name first second).1.2.map
          (·.shift (if fromSecond then first.utf8ByteSize + 1 else 0)) ∧
      (∀ n, second.utf8ByteSize + n ≤ Span.maxOffset →
        (s.runBoth loops name first (lower n second)).1.2 =
          (s.runBoth loops name first second).1.2.map
            (·.shift (if fromSecond then n else 0))) ∧
      ∀ d ∈ (s.runBoth loops name first second).1.2, ∃ p, d.primarySpan? = some p ∧
        if fromSecond then p ∈ Stmt.allPlaces (s.compile second).1.statements
        else s.Knows first p

/-- The session that goes on with a machine. -/
def ofMachine (m : Machine) (log : Log) : Session := ⟨{ m with log }⟩

/-- Of a text that is too large nothing is read, and that is reported. -/
theorem run_tooLarge {source : String} (hlarge : Span.maxOffset < source.utf8ByteSize)
    (loops : Nat) (s : Session) (name : String) :
    (s.run loops name source).1 = (.compileError 1,
      [(⟨.sourceTooLarge source.utf8ByteSize, Span.nowhere⟩ : LexError).toDiagnostic]) := by
  have hdiagnostics : (s.compile source).1.diagnostics = [_] := s.machine.diagnostics_tooLarge hlarge
  have herrors : (s.compile source).1.hasErrors = true := by
    rw [CompileOutput.hasErrors, hdiagnostics]
    rfl
  obtain ⟨log, hrun⟩ := run_refused loops name herrors
  rw [hrun, hdiagnostics]
  rfl

section Reads

variable {s : Session} {source first second : String} {tokens ts us : List Token}
  {u t' : NameTable}

/-- A text that is read without errors is run. -/
theorem run_of_reads (h : Reads s.machine.names source tokens t') (loops : Nat) (name : String) :
    ∃ log log', s.run loops name source =
      (ended (interpret loops (s.compile source).1.statements (s.machine.learned t' log)).1,
        .ofMachine (interpret loops (s.compile source).1.statements
          (s.machine.learned t' log)).2 log') := by
  obtain ⟨hcompile, hnames⟩ := h.compile_eq
  obtain ⟨log, log', hrun⟩ := run_compiled loops name (congrArg CompileOutput.hasErrors hcompile)
  have hmachine : { (s.compile source).2.machine with log } = s.machine.learned t' log := by
    subst hnames
    rfl
  rw [hmachine] at hrun
  exact ⟨log, log', hrun⟩

theorem statements_lower (h : Reads s.machine.names source tokens t') {n : Nat}
    (hsize : source.utf8ByteSize + n ≤ Span.maxOffset) :
    (s.compile (lower n source)).1.statements =
      (readMoved s.machine.names source n).statements := by
  rw [(h.readMoved_eq n).1, ← size_lower]
  exact congrArg CompileOutput.statements (h.lower hsize).compile_eq.1

theorem statements_joined (h : Reads s.machine.names first ts u) (h' : Reads u second us t')
    (hsize : (joined first second).utf8ByteSize ≤ Span.maxOffset) :
    (s.compile (joined first second)).1.statements = (s.compile first).1.statements ++
      (readMoved u second (first.utf8ByteSize + 1)).statements := by
  obtain ⟨hjoined, hstmts⟩ := h.join h' hsize
  have hfirst : (s.compile first).1.statements = _ :=
    congrArg CompileOutput.statements h.compile_eq.1
  rw [hfirst, ← hstmts]
  exact congrArg CompileOutput.statements hjoined.compile_eq.1

/-- A text comes to this wherever it stands, and on every machine that is like the session's.
Either the places that are reported move along with the text or they all stay. -/
def ComesTo (s : Session) (source : String) (t' : NameTable) (loops : Nat) (moves : Bool)
    (outcome : Outcome) (reports : List Diagnostic) : Prop :=
  ∀ n log m', Machine.Alike (.inPlace t' t') (s.machine.learned t' log) m' →
    ended (interpret loops (readMoved s.machine.names source n).statements m').1 =
      (outcome, reports.map (·.shift (if moves then n else 0)))

theorem exists_comesTo (h : Reads s.machine.names source tokens t') (hself : s.Alike s)
    {held : Span → Prop} (hheld : ∀ f, s.machine.world.Holds f → ∀ p ∈ f.decl.body.places, held p)
    {bound : Nat} (hbound : ∀ p, held p → p.start ≤ bound) (loops : Nat) :
    ∃ moves outcome reports, ComesTo s source t' loops moves outcome reports ∧
      ∀ d ∈ reports, ∃ p, d.primarySpan? = some p ∧
        if moves then p ∈ Stmt.allPlaces (s.compile source).1.statements else held p := by
  obtain rfl : (lex source s.machine.names).names = t' := by rw [h.lex_eq]
  have hgrown (log log' : Log) := hself.grow h.extends_names h.extends_names log log'
  obtain ⟨moves, r, hmoved, horigin⟩ := interpret_moved loops
    (hgrown s.machine.log s.machine.log) hheld hbound
  refine ⟨moves, (ended r).1, (ended r).2, fun n log m' hm => ?_, ?_⟩
  · rw [hmoved n m' (hm.withLog s.machine.log m'.log), ended_shift]
  · obtain (e | _) | _ := r
    · obtain ⟨p, hp, hfrom⟩ := horigin e rfl
      refine List.forall_mem_singleton.2 ⟨p, e.primarySpan?_toDiagnostic.trans hp, ?_⟩
      rw [readMoved_zero] at hfrom
      exact hfrom
    · exact nofun
    · exact nofun

/-- How a text comes out that stands further down in its source. -/
theorem ComesTo.run_lower {loops : Nat} {moves : Bool} {outcome : Outcome}
    {reports : List Diagnostic} (hcomes : ComesTo s source t' loops moves outcome reports)
    (h : Reads s.machine.names source tokens t') (hself : s.Alike s) (name : String) {n : Nat}
    (hsize : source.utf8ByteSize + n ≤ Span.maxOffset) :
    (s.run loops name (lower n source)).1 =
      (outcome, reports.map (·.shift (if moves then n else 0))) := by
  obtain ⟨log, log', hrun⟩ := run_of_reads (h.lower hsize) loops name
  rw [hrun, statements_lower h hsize]
  exact hcomes n log _ (hself.grow h.extends_names h.extends_names log log)

/-- The machines stay alike when the one runs a text as it stands and the other further on. -/
theorem machine_moved (h : Reads s.machine.names source tokens t') {held : Span → Prop}
    (hheld : ∀ f, s.machine.world.Holds f → ∀ p ∈ f.decl.body.places, held p) (loops n : Nat)
    {log : Log} {m' : Machine}
    (hm : Machine.Alike (.inPlace t' t') (s.machine.learned t' log) m') :
    Machine.Alike (.mixed t' held (· ∈ Stmt.allPlaces (s.compile source).1.statements) 0 n)
      (interpret loops (s.compile source).1.statements (s.machine.learned t' log)).2
      (interpret loops (readMoved s.machine.names source n).statements m').2 := by
  obtain rfl : (lex source s.machine.names).names = t' := by rw [h.lex_eq]
  have hstmts := readMoved_mixed s.machine.names source held 0 n
  rw [readMoved_zero] at hstmts
  exact (interpret_alike loops hstmts (hm.mixed hheld _ 0 n)).2

end Reads

variable {sources : List String} {s : Session} (h : History sources s) {first second : String}
  {ts us : List Token} {u t' : NameTable} (hfirst : Reads s.machine.names first ts u)
  (hsecond : Reads u second us t') (hsize : (joined first second).utf8ByteSize ≤ Span.maxOffset)
  (loops : Nat) (name : String)
include h hfirst hsecond hsize

/-- Both go the same way until the first text ends. -/
theorem runs_first : ∃ (r : Except Halt Unit) (m m' : Machine) (log log' : Log),
    Machine.Alike (.inPlace u t') m m' ∧
      s.run loops name first = (ended r, .ofMachine m log) ∧
      (∀ e, r = .error e → s.run loops name (joined first second) =
        (ended r, .ofMachine m' log')) ∧
      (r = .ok () → s.run loops name (joined first second) =
        (ended (interpret loops (readMoved u second (first.utf8ByteSize + 1)).statements m').1,
          .ofMachine (interpret loops
            (readMoved u second (first.utf8ByteSize + 1)).statements m').2 log')) := by
  obtain ⟨log₁, log, hrun⟩ := run_of_reads hfirst loops name
  obtain ⟨log₂, log', hrun'⟩ := run_of_reads (hfirst.join hsecond hsize).1 loops name
  have hstmts : Stmt.AllAlike (.inPlace u t') (s.compile first).1.statements
      (s.compile first).1.statements := by
    have hself := (s.machine.compile_alike s.machine first).1
    rw [hfirst.compile_eq.2] at hself
    exact hself.imp (Likeness.namesIn_of_extends (.refl u) hsecond.extends_names)
      fun _ _ _ => id
  obtain ⟨hends, hm⟩ := interpret_alike loops hstmts (h.alike.grow hfirst.extends_names
    (hfirst.extends_names.trans hsecond.extends_names) log₁ log₂)
  rw [statements_joined hfirst hsecond hsize, interpret_append, bind_run] at hrun'
  rcases hran : interpret loops (s.compile first).1.statements (s.machine.learned u log₁)
    with ⟨r, m⟩
  rcases hran' : interpret loops (s.compile first).1.statements (s.machine.learned t' log₂)
    with ⟨r', m'⟩
  rw [hran, hran'] at hends hm
  rw [hran] at hrun
  rw [hran'] at hrun'
  refine ⟨r, m, m', log, log', hm, hrun, ?_, ?_⟩
  · rintro e rfl
    have heq := ended_eq hends
    cases hends with
    | error =>
      rw [heq]
      exact hrun'
  · rintro rfl
    cases hends
    exact hrun'

/-- If the first text does not come out well, the second is not looked at. -/
theorem sameInTurn_of_not_ok (hend : (s.run loops name first).1.1 ≠ .ok) :
    SameInTurn loops s name first second := by
  obtain ⟨r, m, m', log, log', hm, hrun, hfails, -⟩ :=
    runs_first h hfirst hsecond hsize loops name
  have hboth (x : String) : s.runBoth loops name first x = (ended r, .ofMachine m log) := by
    rw [runBoth, if_neg hend, hrun]
  obtain e | _ := r
  · have hjoined := hfails e rfl
    have halike : Alike (.ofMachine m log) (.ofMachine m' log') :=
      alike_of_machines (hm.withLog log log')
    constructor
    · rw [hjoined, hboth]
    · rw [hjoined, hboth]
      exact halike.output.symm
    · intro text
      rw [hjoined, hboth]
      exact global?_alike halike text
    · refine ⟨false, ?_, fun n _ => ?_, ?_⟩
      · simp [hjoined, hboth]
      · simp [hboth]
      · cases e with
        | failed e =>
          have hknown := (h.knows loops name (congrArg CompileOutput.hasErrors hfirst.compile_eq.1)
            (by rw [hrun]; exact nofun)).2
          rw [hrun] at hknown
          rw [hboth]
          simpa using hknown
        | exhausted =>
          rw [hboth]
          exact nofun
  · rw [hrun] at hend
    exact absurd rfl hend

theorem sameInTurn_of_ok (hend : (s.run loops name first).1.1 = .ok) :
    SameInTurn loops s name first second := by
  obtain ⟨r, m, m', log, log', hm, hrun, -, hgoes⟩ :=
    runs_first h hfirst hsecond hsize loops name
  have hboth (x : String) : s.runBoth loops name first x = (ofMachine m log).run loops name x := by
    rw [runBoth, if_pos hend, hrun]
  obtain rfl : r = .ok () := by
    rw [hrun] at hend
    rcases r with (e | _) | _
    · cases hend
    · cases hend
    · rfl
  have hjoined := hgoes rfl
  obtain rfl : m.names = u := hm.left
  have hself : Alike (.ofMachine m log) (.ofMachine m log) := by
    have hran := (h.alike.run loops name first).2
    rwa [hrun] at hran
  have hcompiles : (s.compile first).1.hasErrors = false :=
    congrArg CompileOutput.hasErrors hfirst.compile_eq.1
  have hheld := (h.knows loops name hcompiles (by rw [hend]; exact nofun)).1
  rw [hrun] at hheld
  have hreads : Reads (ofMachine m log).machine.names second us t' := hsecond
  obtain ⟨moves, outcome, reports, hcomes, hfrom⟩ :=
    exists_comesTo hreads hself hheld (fun _ => h.start_le_of_knows hcompiles) loops
  have hlower {n : Nat} (hn : second.utf8ByteSize + n ≤ Span.maxOffset) :
      (s.runBoth loops name first (lower n second)).1 =
        (outcome, reports.map (·.shift (if moves then n else 0))) := by
    rw [hboth]
    exact hcomes.run_lower hreads hself name hn
  have hzero : (s.runBoth loops name first second).1 = (outcome, reports) := by
    have hran := hlower (n := 0) hsecond.size
    simpa using hran
  -- The second text runs on machines that are alike, here as it is and there further on.
  obtain ⟨log₂, log₂', hran⟩ := run_of_reads hreads loops name
  obtain rfl : m'.names = t' := hm.right
  have hm' : Machine.Alike (.inPlace m'.names m'.names) (m.learned m'.names log₂) m' :=
    hm.grow hsecond.extends_names (.refl _) log₂ m'.log
  have hends : ended (interpret loops (readMoved m.names second _).statements m').1 = _ :=
    hcomes (first.utf8ByteSize + 1) log₂ m' hm'
  have hlast := (machine_moved hreads hheld loops (first.utf8ByteSize + 1) hm').withLog log₂' log'
  constructor
  · rw [hjoined, hzero, hends]
  · rw [hjoined, hboth, hran]
    exact hlast.output.symm
  · intro text
    rw [hjoined, hboth, hran]
    exact global?_alike hlast text
  · refine ⟨moves, ?_, fun n hn => ?_, ?_⟩
    · rw [hjoined, hzero, hends]
    · rw [hlower hn, hzero]
    · have hplaces := (s.machine.compile_alike m second).1.places
      rw [List.forall₂_eq_eq_eq] at hplaces
      rw [hzero]
      intro d hd
      obtain ⟨p, hp, hknown⟩ := hfrom d hd
      refine ⟨p, hp, ?_⟩
      cases moves with
      | false => exact hknown
      | true => exact hplaces ▸ hknown

omit hfirst hsecond hsize in
/-- Two texts that compile come to the same when they are joined by a line break and run in one go
as when they are run in turn, if together they are not too large. The clock stands still
meanwhile. -/
theorem run_joined (hfirst : (s.compile first).1.diagnostics = [])
    (hsecond : (s.compile second).1.diagnostics = []) :
    ((joined first second).utf8ByteSize ≤ Span.maxOffset →
        SameInTurn loops s name first second) ∧
      (Span.maxOffset < (joined first second).utf8ByteSize →
        (s.run loops name (joined first second)).1 = (.compileError 1,
          [(⟨.sourceTooLarge (joined first second).utf8ByteSize, Span.nowhere⟩ :
            LexError).toDiagnostic])) := by
  refine ⟨fun hsize => ?_, fun hlarge => run_tooLarge hlarge loops s name⟩
  obtain ⟨ts, hreads⟩ := Reads.of_compiles (m := s.machine) hfirst
  have hdiagnostics := ((s.machine.compile first).2.compile_alike s.machine second).2
  obtain ⟨us, hreads'⟩ := Reads.of_compiles (hdiagnostics.trans hsecond)
  by_cases hend : (s.run loops name first).1.1 = .ok
  · exact sameInTurn_of_ok h hreads hreads' hsize loops name hend
  · exact sameInTurn_of_not_ok h hreads hreads' hsize loops name hend

omit h hfirst hsecond hsize in
/-- The first text ends in a comment, and the second calls a function of an earlier one. -/
theorem run_joined_declared : SameInTurn 1 declared "second" "var x = 1; // x" "print x; f();" ∧
    (declared.run 1 "second" (joined "var x = 1; // x" "print x; f();")).1.1 = .runtimeError := by
  have hhistory : History [_] declared := .run 1 "first" _ (.start rfl rfl) (by decide +kernel)
  have hfirst : (declared.compile "var x = 1; // x").1.diagnostics = [] := by decide +kernel
  have hsecond : (declared.compile "print x; f();").1.diagnostics = [] := by decide +kernel
  exact ⟨(run_joined hhistory 1 "second" hfirst hsecond).1 (by decide +kernel), by decide +kernel⟩

omit h hfirst hsecond hsize in
/-- Two texts that compile are refused if they are too large together, and the first does not even
run. -/
theorem not_run_joined :
    let s := Session.start {}
    let second := Text.fill '\n' Span.maxOffset
    (s.compile "-nil;").1.diagnostics = [] ∧ (s.compile second).1.diagnostics = [] ∧
      (s.run 1 "both" "-nil;").1.1 = .runtimeError ∧ ¬ SameInTurn 1 s "both" "-nil;" second := by
  dsimp only
  have hsize := Text.size_fill '\n' rfl Span.maxOffset
  have hlarge : Span.maxOffset < (joined "-nil;" (Text.fill '\n' Span.maxOffset)).utf8ByteSize := by
    rw [size_joined, hsize]
    omega
  have hempty : ((Session.start {}).compile "").1.diagnostics = [] := by decide +kernel
  have hfails : ((Session.start {}).run 1 "both" "-nil;").1.1 = .runtimeError := by decide +kernel
  obtain ⟨tokens, hreads⟩ := Reads.of_compiles (m := (Session.start {}).machine) hempty
  have hnewlines : lower Span.maxOffset "" = Text.fill '\n' Span.maxOffset := String.append_empty
  have hlower := hreads.lower (n := Span.maxOffset) (Nat.le_of_eq (Nat.zero_add _))
  rw [hnewlines] at hlower
  refine ⟨by decide +kernel, congrArg CompileOutput.diagnostics hlower.compile_eq.1, hfails, ?_⟩
  intro hsame
  have houtcome := hsame.outcome
  rw [run_tooLarge hlarge, runBoth, hfails] at houtcome
  simp [hfails] at houtcome

end Session

end Tarn
