import Tarn.Proofs.Semantics.Termination
import Tarn.Proofs.Session.Compilation

/-! Sessions in which no text has a loop. Every text of theirs comes to an end, since the depth of
calls is bounded, whatever functions call each other, are passed on or stem from earlier texts. -/
namespace Tarn

open Semantics

/-- No token of the text is `while` or `for`. -/
def Text.LoopFree (source : String) : Prop := Grammar.LoopFree (lex source .empty).tokens

instance (source : String) : Decidable (Text.LoopFree source) :=
  inferInstanceAs (Decidable (∀ t ∈ (lex source .empty).tokens, t.kind.startsLoop = false))

theorem TokenKind.Alike.startsLoop_eq {L : Likeness} {k k' : TokenKind}
    (h : TokenKind.Alike L k k') : k.startsLoop = k'.startsLoop := by
  cases h <;> rfl

/-- Which names are known already does not matter. -/
theorem Text.LoopFree.tokens {source : String} (h : Text.LoopFree source) (names : NameTable) :
    Grammar.LoopFree (lex source names).tokens := by
  obtain ⟨-, -, htokens⟩ := lex_alike source names .empty
  have hkinds : (lex source names).tokens.map (·.kind.startsLoop) =
      (lex source .empty).tokens.map (·.kind.startsLoop) := by
    rw [← List.forall₂_eq_eq_eq, List.forall₂_map_left_iff, List.forall₂_map_right_iff]
    exact htokens.imp fun _ _ ht => ht.1.startsLoop_eq
  rw [Grammar.LoopFree, ← List.forall_mem_map (P := (· = false)), hkinds, List.forall_mem_map]
  exact h

namespace Machine

theorem loopFree_empty {m : Machine} (henv : m.env = {}) (hhost : m.host = #[]) : m.LoopFree := by
  refine ⟨?_, ?_⟩
  · rw [henv]
    exact Environment.only_default
  · rw [hhost]
    exact nofun

theorem LoopFree.standard {m : Machine} (h : m.LoopFree) : m.standard.LoopFree := by
  refine ⟨h.env.defineIn _ _ (Value.only_of_ne nofun), ?_⟩
  intro run hrun
  obtain hrun | rfl := Array.mem_push.1 hrun
  · exact h.host run hrun
  · rintro clock args v - hv
    rw [HostFunction.clock_eq_ok hv]
    exact Value.only_of_ne nofun

theorem compile_loopFree (m : Machine) {source : String} (h : Text.LoopFree source) :
    Stmt.AllLoopFree (m.compile source).1.statements := by
  obtain ⟨ts, span, hts, hreal⟩ := lex_tokens source m.names
  have hfree := h.tokens m.names
  have hd := parse_derives (lex source m.names).names (Grammar.atEnd_eof span) hreal
  rw [hts] at hfree
  rw [← hts] at hd
  exact hd.loopFree hfree.left

end Machine

namespace Session

/-- `LoopFree s`: the session has come from a machine without loops by texts without loops. -/
inductive LoopFree : Session → Prop where
  | start {m : Machine} (hm : m.LoopFree) : LoopFree (Session.start m)
  | run {s} (loops : Nat) (name : String) {source : String} (hsource : Text.LoopFree source)
      (h : LoopFree s) : LoopFree (s.run loops name source).2
  | compile {s} (source : String) (h : LoopFree s) : LoopFree (s.compile source).2
  | global? {s} (name : String) (h : LoopFree s) : LoopFree (s.global? name).2
  | takeOutput {s} (h : LoopFree s) : LoopFree s.takeOutput.2
  /-- Time goes by. -/
  | tick {s} (now : Float) (h : LoopFree s) :
      LoopFree ⟨{ s.machine with clock := now }⟩

/-- Whatever the bound for loops is, the text comes to the same end, which is none. -/
theorem runCompiled_same {m : Machine} (hm : m.LoopFree) {source : String}
    (hsource : Text.LoopFree source) (loops loops' : Nat) :
    runCompiled loops m source = runCompiled loops' m source ∧
      (runCompiled loops m source).1.1 ≠ .unfinished ∧
      (runCompiled loops m source).2.LoopFree := by
  rcases herrors : (m.compile source).1.hasErrors with _ | _
  · obtain ⟨log, hrun⟩ := runCompiled_compiled herrors
    have hlog : Machine.LoopFree { (m.compile source).2 with log } := ⟨hm.env, hm.host⟩
    obtain ⟨heq, hends, hm'⟩ :=
      (interpret_same loops loops' (m.compile_loopFree hsource)).ends hlog
    rw [hrun loops, hrun loops', ← heq]
    refine ⟨rfl, ?_, hm'⟩
    generalize (interpret loops _ _).1 = x at hends
    obtain (e | _) | _ := x
    · rintro ⟨⟩
    · exact absurd rfl hends
    · rintro ⟨⟩
  · simp only [runCompiled, herrors, if_true]
    exact ⟨trivial, by rintro ⟨⟩, hm.env, hm.host⟩

theorem LoopFree.machine {s : Session} (h : s.LoopFree) : s.machine.LoopFree := by
  induction h with
  | start hm => exact hm.standard
  | @run s loops name source hsource h ih =>
    obtain ⟨-, -, hm⟩ :=
      runCompiled_same (m := s.entered name) ⟨ih.env, ih.host⟩ hsource loops loops
    rw [run_eq]
    exact ⟨hm.env, hm.host⟩
  | compile _ _ ih | global? _ _ ih | takeOutput _ ih | tick _ _ ih => exact ⟨ih.env, ih.host⟩

/-- In a session whose texts have no loops, a text without loops comes to an end, and this does not
depend on the bound for loops. If it compiles, the end is the one that the semantics gives it. -/
theorem run_terminates {s : Session} (h : s.LoopFree) (name : String) {source : String}
    (hsource : Text.LoopFree source) :
    ∃ outcome diagnostics t, outcome ≠ .unfinished ∧
      (∀ loops, s.run loops name source = ((outcome, diagnostics), t)) ∧
      ((s.compile source).1.hasErrors = false → ∃ r, (outcome, diagnostics) = report r ∧
        Runs (s.compile source).2.machine.context s.machine.env.current s.machine.callDepth
          s.machine.world (s.compile source).1.statements r t.machine.world) := by
  have hm := h.machine
  have hsame (loops : Nat) :=
    runCompiled_same (m := s.entered name) ⟨hm.env, hm.host⟩ hsource 0 loops
  have hends : (s.run 0 name source).1.1 ≠ .unfinished := by
    rw [run_eq]
    exact (hsame 0).2.1
  refine ⟨_, (s.run 0 name source).1.2, (s.run 0 name source).2, hends, fun loops => ?_,
    fun hcompiles => ?_⟩
  · rw [run_eq loops, run_eq 0, (hsame loops).1]
  · obtain ⟨r, hreport, -, hruns⟩ := (run_runs 0 name hcompiles).resolve_left hends
    exact ⟨r, hreport, hruns⟩

/-- A session that nests three calls at most, with a function that applies its argument to
itself. -/
def selfApplying : Session :=
  ((Session.start { maxCallDepth := 3 }).run 0 "first" "fun f(g) \x7b return g(g); \x7d").2

/-- Applied to itself, the function calls itself until it may not. -/
theorem run_terminates_selfApplying : selfApplying.LoopFree ∧ Text.LoopFree "f(f);" ∧
    ∃ diagnostics t, ∀ loops,
      selfApplying.run loops "second" "f(f);" = ((.runtimeError, diagnostics), t) := by
  have hsession : selfApplying.LoopFree :=
    .run 0 "first" (by decide +kernel) (.start (Machine.loopFree_empty rfl rfl))
  have hsource : Text.LoopFree "f(f);" := by decide +kernel
  obtain ⟨outcome, diagnostics, t, -, hrun, -⟩ := run_terminates hsession "second" hsource
  obtain rfl : (selfApplying.run 0 "second" "f(f);").1.1 = outcome := by rw [hrun]
  have houtcome : (selfApplying.run 0 "second" "f(f);").1.1 = .runtimeError := by decide +kernel
  rw [houtcome] at hrun
  exact ⟨hsession, hsource, diagnostics, t, hrun⟩

end Session

end Tarn
