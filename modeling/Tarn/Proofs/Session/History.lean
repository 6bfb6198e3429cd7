import Tarn.Proofs.Semantics.Blame
import Tarn.Proofs.Session.Submission

/-! Sessions with a history. Functions stay when the text that declared them is gone, so an error
may be put on a place in that text. -/
namespace Tarn

open Semantics

namespace Codebase

/-- The code of one text or another, none of which is too large. -/
def texts (sources : List String) : Codebase where
  Has ps := ∃ source ∈ sources, source.utf8ByteSize ≤ Span.maxOffset ∧
    PlacesInside source.utf8ByteSize ps
  mono := by
    rintro ps qs ⟨source, hsource, hsize, hps⟩ hqs
    exact ⟨source, hsource, hsize, fun q hq => hps q (hqs q hq)⟩

/-- The code of some statements, and the bodies of the functions in a world. -/
def program (stmts : List Stmt) (w : World) : Codebase where
  Has ps := (∀ p ∈ ps, p ∈ Stmt.allPlaces stmts) ∨
    ∃ f, w.Holds f ∧ ∀ p ∈ ps, p ∈ f.decl.body.places
  mono := by
    rintro ps qs (hps | ⟨f, hf, hps⟩) hqs
    · exact .inl fun q hq => hps q (hqs q hq)
    · exact .inr ⟨f, hf, fun q hq => hps q (hqs q hq)⟩

theorem known_program (stmts : List Stmt) (w : World) : w.Known (program stmts w) :=
  World.only_iff.2 fun f hf => .inr ⟨f, hf, fun _ hp => hp⟩

end Codebase

namespace Session

/-- `History sources s`: the session `s` has run the texts `sources`, the last one first, each of
them to its end. -/
inductive History : List String → Session → Prop where
  | start {m : Machine} (henv : m.env = {}) (hhost : m.host = #[]) : History [] (Session.start m)
  | run {sources s} (loops : Nat) (name source : String) (h : History sources s)
      (hend : (s.run loops name source).1.1 ≠ .unfinished) :
      History (source :: sources) (s.run loops name source).2
  | compile {sources s} (source : String) (h : History sources s) :
      History sources (s.compile source).2
  | global? {sources s} (name : String) (h : History sources s) :
      History sources (s.global? name).2
  | takeOutput {sources s} (h : History sources s) : History sources s.takeOutput.2
  /-- Time goes by. -/
  | tick {sources s} (now : Float) (h : History sources s) :
      History sources ⟨{ s.machine with clock := now }⟩

/-- The functions of the host that every session has. -/
def standardHost : Array HostFunction := #[HostFunction.clock]

theorem known_of_host {S : Context} (C : Codebase) (h : S.host = standardHost) : S.Known C := by
  rw [Context.Known, Context.Only, h]
  rintro run hrun clock args v - hv
  obtain rfl := List.mem_singleton.1 (Array.mem_toList_iff.2 hrun)
  rw [HostFunction.clock_eq_ok hv]
  refine Value.only_of_ne ?_
  rintro f ⟨⟩

namespace History

variable {sources : List String} {s : Session}

theorem host (h : History sources s) : s.machine.host = standardHost := by
  induction h with
  | @start m henv hhost =>
    show m.host.push _ = standardHost
    rw [hhost]
    rfl
  | run loops name source h hend ih =>
    obtain ⟨_, _, -, -, hhost⟩ | hunfinished | ⟨-, _, -, hhost, -⟩ :=
      run_cases loops _ name source
    · exact hhost.trans ih
    · exact absurd hunfinished hend
    · exact hhost.trans ih
  | compile _ _ ih | global? _ _ ih | takeOutput _ ih | tick _ _ ih => exact ih

/-- Every function was declared by a text of the history. -/
theorem known (h : History sources s) : s.machine.world.Known (.texts sources) := by
  induction h with
  | @start m henv hhost =>
    have hworld : m.world.Known (.texts []) := by
      rintro frame hframe
      rw [Machine.world, henv] at hframe
      rw [Array.mem_singleton.1 hframe]
      exact Frame.only_nil
    refine hworld.define Environment.global (m.names.intern "clock").1 (Value.only_of_ne ?_)
    simp
  | @run sources s loops name source h hend ih =>
    have hgrow : s.machine.world.Known (.texts (source :: sources)) := by
      refine World.only_iff.2 fun f hf => ?_
      obtain ⟨text, htext, hplaces⟩ := World.only_iff.1 ih f hf
      exact ⟨text, List.mem_cons_of_mem _ htext, hplaces⟩
    obtain ⟨_, _, -, hworld, -⟩ | hunfinished | ⟨hcompiles, r, -, -, hruns⟩ :=
      run_cases loops s name source
    · rw [hworld]
      exact hgrow
    · exact absurd hunfinished hend
    · have hsize := Machine.size_le_of_compiles hcompiles
      have hstmts : (Codebase.texts (source :: sources)).Has
          (Stmt.allPlaces (s.compile source).1.statements) :=
        ⟨source, List.mem_cons_self, hsize, s.machine.compile_placesInside hsize⟩
      exact (hruns.known (known_of_host _ h.host) hstmts hgrow).1
  | compile _ _ ih | global? _ _ ih | takeOutput _ ih | tick _ _ ih => exact ih

/-- The place that an error is blamed on is in the text that is run or in a function that was there
before, and in any case in one of the texts. -/
theorem exists_place (h : History sources s) {source : String} {e : EvalError} {w' : World}
    (hcompiles : (s.compile source).1.hasErrors = false)
    (hruns : Runs (s.compile source).2.machine.context s.machine.env.current s.machine.callDepth
      s.machine.world (s.compile source).1.statements (.error e) w') :
    ∃ place, e.span = some place ∧ (place.Inside source.utf8ByteSize ∨
        ∃ f, s.machine.world.Holds f ∧ place ∈ f.decl.body.places) ∧
      ∃ text ∈ source :: sources, text.utf8ByteSize ≤ Span.maxOffset ∧
        place.Inside text.utf8ByteSize := by
  have hsize := Machine.size_le_of_compiles hcompiles
  have hown := s.machine.compile_placesInside hsize
  have hknown := Codebase.known_program (s.compile source).1.statements s.machine.world
  obtain ⟨-, place, hplace, hfrom⟩ :=
    hruns.known (known_of_host _ h.host) (Or.inl fun _ hp => hp) hknown
  refine ⟨place, hplace, ?_⟩
  obtain hfrom | ⟨f, hf, hfrom⟩ := hfrom
  · have hinside := hown place (hfrom place List.mem_cons_self)
    exact ⟨.inl hinside, source, List.mem_cons_self, hsize, hinside⟩
  · have hbody := hfrom place List.mem_cons_self
    obtain ⟨text, htext, htextsize, hplaces⟩ := World.only_iff.1 h.known f hf
    exact ⟨.inr ⟨f, hf, hbody⟩, text, List.mem_cons_of_mem _ htext, htextsize, hplaces place hbody⟩

end History

/-- A run-time error is reported once, at a place in the text that is run or in an earlier one. The
report leaves the text that is run just if the place is outside of it, which happens only to places
in functions that were there before. -/
theorem runtimeError_leaves_iff {sources : List String} {s : Session} (h : History sources s)
    (loops : Nat) (name source : String) {diagnostics : List Diagnostic}
    (hrun : (s.run loops name source).1 = (.runtimeError, diagnostics)) :
    ∃ d place, diagnostics = [d] ∧ d.primarySpan? = some place ∧
      (source.utf8ByteSize < d.offset + d.length ↔ ¬ place.Inside source.utf8ByteSize ∧
        ∃ f, s.machine.world.Holds f ∧ place ∈ f.decl.body.places) ∧
      ∃ text ∈ source :: sources, place.Inside text.utf8ByteSize := by
  obtain ⟨_, _, hrefused, -, -⟩ | hunfinished | ⟨hcompiles, r, hreport, -, hruns⟩ :=
    run_cases loops s name source
  · cases hrun.symm.trans hrefused
  · rw [hrun] at hunfinished
    cases hunfinished
  rw [hrun] at hreport
  cases r with
  | ok _ => cases hreport
  | error e =>
    obtain ⟨-, rfl⟩ := Prod.mk.inj hreport
    obtain ⟨place, hplace, hfrom, text, htext, htextsize, hinside⟩ :=
      h.exists_place hcompiles hruns
    have hspan := e.primarySpan?_toDiagnostic.trans hplace
    refine ⟨_, place, rfl, hspan, ?_, text, htext, hinside⟩
    have hmark : _ ↔ place.Inside source.utf8ByteSize :=
      Span.mark_le_iff hinside.start_le (Nat.le_trans hinside.stop_le htextsize)
    rw [Diagnostic.offset_eq hspan, Diagnostic.length_eq hspan, ← Nat.not_le, hmark]
    constructor
    · intro houtside
      exact ⟨houtside, hfrom.resolve_left houtside⟩
    · rintro ⟨houtside, -⟩
      exact houtside

/-- The session in which a function that fails was declared. -/
def declared : Session := ((Session.start {}).run 1 "first" "fun f() \x7b return 1 + nil; \x7d").2

/-- The function is called from a text that is shorter than the place that is blamed. -/
theorem runtimeError_leaves_call : (declared.run 1 "second" "f();").1.1 = .runtimeError ∧
    ¬ Span.Inside ⟨19, 20⟩ 4 ∧
    ∃ f, declared.machine.world.Holds f ∧ ⟨19, 20⟩ ∈ f.decl.body.places := by
  have hhistory : History ["fun f() \x7b return 1 + nil; \x7d"] declared :=
    .run 1 "first" _ (.start rfl rfl) (by decide +kernel)
  have hrun : (declared.run 1 "second" "f();").1 =
      (.runtimeError, [(⟨.invalidAddOperands, some ⟨19, 20⟩⟩ : EvalError).toDiagnostic]) := by
    decide +kernel
  obtain ⟨d, place, hd, hplace, hleaves, -⟩ := runtimeError_leaves_iff hhistory 1 "second" "f();" hrun
  obtain rfl := List.singleton_inj.1 hd
  obtain rfl := Option.some.inj ((EvalError.primarySpan?_toDiagnostic _).symm.trans hplace)
  refine ⟨congrArg Prod.fst hrun, hleaves.1 ?_⟩
  decide

end Session

end Tarn
