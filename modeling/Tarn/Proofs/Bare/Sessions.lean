import Tarn.Proofs.Bare.Lexing
import Tarn.Proofs.Bare.Parsing
import Tarn.Proofs.Bare.Running
import Tarn.Session

/-! Sessions do not look at places. Texts of the same tokens come out the same, with the same to
print and to report. -/
namespace Tarn

/-- The diagnostic with its places forgotten. -/
def Diagnostic.bare (d : Diagnostic) : Diagnostic :=
  { d with labels := d.labels.map fun l => { l with span := .nowhere } }

theorem LexError.bare_toDiagnostic (e : LexError) : e.toDiagnostic.bare = e.bare.toDiagnostic := by
  obtain ⟨fault, span⟩ := e
  cases fault <;> rfl

theorem ParseError.bare_toDiagnostic (e : ParseError) :
    e.toDiagnostic.bare = e.bare.toDiagnostic := by
  obtain ⟨code, message, span, context, _ | related⟩ := e <;> rfl

theorem EvalError.bare_toDiagnostic (e : EvalError) :
    e.toDiagnostic.bare = e.bare.toDiagnostic := by
  obtain ⟨fault, _ | span⟩ := e <;> rfl

/-- Errors that are the same but for places are reported alike. -/
theorem map_bare_toDiagnostic {ε : Type} {toDiagnostic : ε → Diagnostic} {bare : ε → ε}
    (h : ∀ e, (toDiagnostic e).bare = toDiagnostic (bare e)) {es es' : List ε}
    (hes : es.map bare = es'.map bare) :
    (es.map toDiagnostic).map Diagnostic.bare = (es'.map toDiagnostic).map Diagnostic.bare := by
  have hmap (es : List ε) :
      (es.map toDiagnostic).map Diagnostic.bare = (es.map bare).map toDiagnostic := by
    simp [h]
  rw [hmap, hmap, hes]

section

variable {m m' : Machine} (hm : m.bare = m'.bare) {source source' : String}
  (hlex : (lex source m.names).bare = (lex source' m'.names).bare)
include hm hlex

/-- What is compiled, reported and known afterwards. -/
theorem compile_bare :
    Stmt.allBare (m.compile source).1.statements = Stmt.allBare (m'.compile source').1.statements ∧
      (m.compile source).1.diagnostics.map Diagnostic.bare =
        (m'.compile source').1.diagnostics.map Diagnostic.bare ∧
      (m.compile source).2.bare = (m'.compile source').2.bare := by
  rcases hl : lex source m.names with ⟨tokens, errors, names⟩
  rcases hl' : lex source' m'.names with ⟨tokens', errors', names'⟩
  rw [hl, hl'] at hlex
  obtain ⟨hkinds, hrest⟩ := Prod.mk.inj hlex
  obtain ⟨herrors, rfl⟩ : errors.map LexError.bare = errors'.map LexError.bare ∧ names = names' :=
    Prod.mk.inj hrest
  obtain ⟨hstmts, hparsed⟩ := parse_bare names hkinds
  simp only [Machine.compile, hl, hl', List.map_append]
  refine ⟨hstmts, ?_, ?_⟩
  · rw [map_bare_toDiagnostic LexError.bare_toDiagnostic herrors,
      map_bare_toDiagnostic ParseError.bare_toDiagnostic hparsed]
  · change { m.bare with names } = { m'.bare with names }
    rw [hm]

variable (hhost : ∀ run ∈ m.host, HostFunction.Blind run) (loops : Nat)
include hhost

/-- How a text comes out, what is reported, and what the machine is left with. -/
theorem runCompiled_bare :
    (Session.runCompiled loops m source).1.1 = (Session.runCompiled loops m' source').1.1 ∧
      (Session.runCompiled loops m source).1.2.map Diagnostic.bare =
        (Session.runCompiled loops m' source').1.2.map Diagnostic.bare ∧
      (Session.runCompiled loops m source).2.bare =
        (Session.runCompiled loops m' source').2.bare := by
  obtain ⟨hstmts, hreported, hmachine⟩ := compile_bare hm hlex
  have hblind : ∀ run ∈ (m.compile source).2.host, HostFunction.Blind run := hhost
  rw [Session.runCompiled, Session.runCompiled]
  generalize m.compile source = compiled at hstmts hreported hmachine hblind ⊢
  generalize m'.compile source' = compiled' at hstmts hreported hmachine ⊢
  obtain ⟨c, m₁⟩ := compiled
  obtain ⟨c', m₁'⟩ := compiled'
  dsimp only at hstmts hreported hmachine hblind ⊢
  have hlength : c.diagnostics.length = c'.diagnostics.length := by
    simpa using congrArg List.length hreported
  have herrors : c.hasErrors = c'.hasErrors := by
    rw [CompileOutput.hasErrors, CompileOutput.hasErrors,
      ← List.isEmpty_map (f := Diagnostic.bare), hreported, List.isEmpty_map]
  rw [herrors]
  split
  · exact ⟨congrArg Outcome.compileError hlength, hreported, hmachine⟩
  · have hrun := @interpret_blind_of_eq loops _ _ hstmts
      { m₁ with log := m₁.log.add (.running c.statements.length) }
      { m₁' with log := m₁'.log.add (.running c'.statements.length) } ⟨hmachine, hblind⟩
    generalize interpret loops c.statements _ = r at hrun ⊢
    generalize interpret loops c'.statements _ = r' at hrun ⊢
    obtain ⟨x, m₂⟩ := r
    obtain ⟨y, m₂'⟩ := r'
    obtain ⟨hends, hleft⟩ := hrun
    cases hends with
    | ok => exact ⟨rfl, rfl, hleft.bare⟩
    | error hhalt =>
      obtain ⟨rfl, rfl⟩ | ⟨e, e', rfl, rfl, he⟩ := Halt.cases_of_bare_eq hhalt
      · exact ⟨rfl, rfl, hleft.bare⟩
      · refine ⟨rfl, ?_, hleft.bare⟩
        simp only [List.map_cons, List.map_nil, EvalError.bare_toDiagnostic, he]

end

/-- What every session knows does not look at places. -/
theorem Machine.blind_standard {m : Machine} (h : ∀ run ∈ m.host, HostFunction.Blind run) :
    ∀ run ∈ m.standard.host, HostFunction.Blind run := by
  intro run hrun
  obtain hrun | rfl := Array.mem_push.1 hrun
  · exact h run hrun
  · exact fun _ _ _ _ => rfl

/-- Places decide nothing. Tokens of the same kinds are parsed to the same statements and errors,
the same statements do the same on the same machines, and texts that are lexed to the same tokens
and errors come out the same in a session, all but for places. The same kinds of tokens would not be
enough for texts: of the empty text and of one with too many blanks a lone end of file is read, and
only the second is an error. White space and comments may change as long as both texts are within
the limit; past it nothing of a text is read. -/
theorem places_never_matter (names : NameTable) {tokens tokens' : List Token}
    (hkinds : tokens.map (·.kind) = tokens'.map (·.kind)) {ss ss' : List Stmt}
    (hss : Stmt.allBare ss = Stmt.allBare ss') {m m' : Machine} (hm : m.bare = m'.bare)
    (hhost : ∀ run ∈ m.host, HostFunction.Blind run) (loops : Nat) :
    (Stmt.allBare (parse names tokens).statements =
        Stmt.allBare (parse names tokens').statements ∧
      (parse names tokens).errors.map ParseError.bare =
        (parse names tokens').errors.map ParseError.bare) ∧
    ((interpret loops ss m).1.mapError Halt.bare =
        (interpret loops ss' m').1.mapError Halt.bare ∧
      (interpret loops ss m).2.bare = (interpret loops ss' m').2.bare) ∧
    (∀ source source' sourceName sourceName' : String,
      (lex source m.names).bare = (lex source' m'.names).bare →
        let came := Session.run loops ⟨m⟩ sourceName source
        let came' := Session.run loops ⟨m'⟩ sourceName' source'
        came.1.1 = came'.1.1 ∧ came.1.2.map Diagnostic.bare = came'.1.2.map Diagnostic.bare ∧
          came.2.machine.bare = came'.2.machine.bare) ∧
    (∀ source source' : String, Text.content source = Text.content source' →
      source.utf8ByteSize ≤ Span.maxOffset → source'.utf8ByteSize ≤ Span.maxOffset →
        (lex source m.names).bare = (lex source' m'.names).bare) ∧
    ∀ source : String, Span.maxOffset < source.utf8ByteSize →
      lex source m.names =
        ⟨[⟨.eof, Span.point 0⟩], [⟨.sourceTooLarge source.utf8ByteSize, .nowhere⟩], m.names⟩ := by
  refine ⟨parse_bare names hkinds, interpret_bare loops hss hm hhost, ?_, ?_, ?_⟩
  · intro source source' sourceName sourceName' hlex
    rw [Session.run, Session.run]
    exact @runCompiled_bare { m with log := m.log.add (.enter (.run sourceName)) }
      { m' with log := m'.log.add (.enter (.run sourceName')) } hm _ _ hlex hhost loops
  · intro source source' hcontent hsize hsize'
    have hnames : m.names = m'.names := congrArg (·.names) hm
    rw [hnames]
    exact lex_respaced hcontent hsize hsize' m'.names
  · exact fun source hlarge => lex_tooLarge hlarge m.names

/-- Two ways to place the tokens of a program, and two ways to write one. -/
theorem places_never_matter_for_print :
    (parse .empty [⟨.keyword .printKw, ⟨0, 5⟩⟩]).errors.map ParseError.bare =
        (parse .empty [⟨.keyword .printKw, ⟨7, 12⟩⟩]).errors.map ParseError.bare ∧
      (interpret 0 [.print ⟨0, 8⟩ (.literal ⟨6, 7⟩ .nil)] ({} : Machine).standard).2.bare =
        (interpret 0 [.print ⟨3, 5⟩ (.literal ⟨2, 9⟩ .nil)] ({} : Machine).standard).2.bare ∧
      (Session.run 0 ⟨({} : Machine).standard⟩ "first" "print nil;").1.1 =
        (Session.run 0 ⟨({} : Machine).standard⟩ "second" "print\n  nil ; // nothing").1.1 := by
  have hhost := Machine.blind_standard (m := {}) nofun
  obtain ⟨⟨-, herrors⟩, ⟨-, hleft⟩, hcomes, hlexes, -⟩ :=
    @places_never_matter .empty [⟨.keyword .printKw, ⟨0, 5⟩⟩] [⟨.keyword .printKw, ⟨7, 12⟩⟩] rfl
      [.print ⟨0, 8⟩ (.literal ⟨6, 7⟩ .nil)] [.print ⟨3, 5⟩ (.literal ⟨2, 9⟩ .nil)] rfl
      ({} : Machine).standard ({} : Machine).standard rfl hhost 0
  have hlex := hlexes "print nil;" "print\n  nil ; // nothing" (by decide) (by decide) (by decide)
  exact ⟨herrors, hleft, (hcomes _ _ "first" "second" hlex).1⟩

end Tarn
