import Tarn.Proofs.Likeness.Running
import Tarn.Proofs.Session.Compilation
import Tarn.Proofs.Session.History

/-! Sessions that differ in the numbers of their names and in their logs. Nothing that a session
gives away shows the difference. -/
namespace Tarn

namespace Machine

/-- Only places in functions that stand in the world matter for what the machine holds. -/
theorem holds_of_mem {m : Machine} {i : FrameId} {name : Name} {f : Closure}
    (h : (name, Value.function f) ∈ m.env.frame i) : m.world.Holds f := by
  rw [Environment.frame, Array.getD_eq_getD_getElem?] at h
  rcases hi : m.env.frames[i]? with _ | frame
  · rw [hi] at h
    cases h
  · rw [hi] at h
    exact ⟨frame, Array.mem_of_getElem? hi, name, h⟩

/-- The machine when it has learned names. -/
def learned (m : Machine) (t : NameTable) (log : Log) : Machine := { m with names := t, log }

/-- Where the places are the same, machines stay alike when they learn names. -/
theorem Alike.grow {t t' u u' : NameTable} {m m' : Machine} (h : Alike (.inPlace t t') m m')
    (hu : t.Extends u) (hu' : t'.Extends u') (log log' : Log) :
    Alike (.inPlace u u') (m.learned u log) (m'.learned u' log') := by
  have hnames : (Likeness.inPlace t t').NamesIn (.inPlace u u') :=
    Likeness.namesIn_of_extends hu hu'
  exact ⟨rfl, rfl, h.env.imp hnames fun _ _ _ _ _ _ _ => id, h.output, h.callDepth,
    h.maxCallDepth, h.functionCount, h.host, h.uniform, h.clock⟩

end Machine

namespace Session

/-- What makes no difference to anything but logs. -/
def Alike (s s' : Session) : Prop :=
  Machine.Alike (.inPlace s.machine.names s'.machine.names) s.machine s'.machine

/-- Binds a function of the host globally. -/
def register (s : Session) (name : String) (arity : Nat) (run : HostFunction) : Session :=
  ⟨s.machine.defineNative name arity run⟩

/-- The session when the clock shows another time. -/
def tick (s : Session) (now : Float) : Session := ⟨{ s.machine with clock := now }⟩

theorem alike_of_machines {t t' : NameTable} {m m' : Machine}
    (h : Machine.Alike (.inPlace t t') m m') : Alike ⟨m⟩ ⟨m'⟩ := by
  obtain rfl : m.names = t := h.left
  obtain rfl : m'.names = t' := h.right
  exact h

/-- Programs that end alike in the same places come out the same. -/
theorem ended_eq {t t' : NameTable} {r r' : Except Halt Unit}
    (h : EndsAlike (Halt.Alike (.inPlace t t')) (fun _ _ => True) r r') : ended r = ended r' := by
  cases h with
  | ok => rfl
  | error h =>
    cases h with
    | failed fault hp =>
      obtain rfl := hp
      rfl
    | exhausted => rfl

namespace Alike

variable {s s' : Session} (h : s.Alike s')
include h

theorem compile (source : String) : (s.compile source).2.Alike (s'.compile source).2 :=
  alike_of_machines (h.grow (s.machine.extends_compile source) (s'.machine.extends_compile source)
    _ _)

/-- A session that has only read more texts is alike. -/
theorem compile_left (source : String) (log : Log) :
    Alike ⟨{ (s.compile source).2.machine with log }⟩ s' :=
  alike_of_machines (h.grow (s.machine.extends_compile source) (.refl _) log s'.machine.log)

theorem takeOutput : s.takeOutput.1 = s'.takeOutput.1 ∧ s.takeOutput.2.Alike s'.takeOutput.2 := by
  refine ⟨congrArg Output.text h.output, ?_⟩
  exact ⟨rfl, rfl, h.env, congrArg Output.clear h.output, h.callDepth, h.maxCallDepth,
    h.functionCount, h.host, h.uniform, h.clock⟩

theorem tick (now : Float) : (s.tick now).Alike (s'.tick now) :=
  ⟨rfl, rfl, h.env, h.output, h.callDepth, h.maxCallDepth, h.functionCount, h.host, h.uniform, rfl⟩

theorem global? (name : String) :
    Option.Rel (Value.Alike (.inPlace (s.global? name).2.machine.names
        (s'.global? name).2.machine.names)) (s.global? name).1 (s'.global? name).1 ∧
      (s.global? name).2.Alike (s'.global? name).2 := by
  have hgrown := h.grow (s.machine.names.extends_intern name) (s'.machine.names.extends_intern name)
    s.machine.log s'.machine.log
  exact ⟨hgrown.env.lookupIn (.intern _ _ name) Environment.global, alike_of_machines hgrown⟩

/-- The same function of the host is bound in both. -/
theorem register (name : String) (arity : Nat) {run : HostFunction} (hrun : run.Uniform) :
    (s.register name arity run).Alike (s'.register name arity run) := by
  have hgrown := h.grow (s.machine.names.extends_intern name) (s'.machine.names.extends_intern name)
    s.machine.log s'.machine.log
  have hbound := hgrown.env.bindAt 0 (.intern _ _ name) (.native ⟨s.machine.host.size, name, arity⟩)
  refine ⟨rfl, rfl, ?_, h.output, h.callDepth, h.maxCallDepth, h.functionCount,
    congrArg (·.push run) h.host, fun other hother => ?_, h.clock⟩
  · simp only [Session.register, Machine.defineNative, ← h.host]
    exact hbound
  · obtain hother | rfl := Array.mem_push.1 hother
    · exact h.uniform other hother
    · exact hrun

theorem run (loops : Nat) (name source : String) :
    (s.run loops name source).1 = (s'.run loops name source).1 ∧
      (s.run loops name source).2.Alike (s'.run loops name source).2 := by
  obtain ⟨hstmts, hdiagnostics⟩ := s.machine.compile_alike s'.machine source
  have herrors : (s'.compile source).1.hasErrors = (s.compile source).1.hasErrors :=
    congrArg (fun ds : List Diagnostic => !ds.isEmpty) hdiagnostics.symm
  have hread (log log' : Log) := h.grow (s.machine.extends_compile source)
    (s'.machine.extends_compile source) log log'
  rcases hcompiles : (s.compile source).1.hasErrors with _ | _
  · obtain ⟨log, log₁, hrun⟩ := run_compiled loops name hcompiles
    obtain ⟨log', log₁', hrun'⟩ := run_compiled loops name (herrors.trans hcompiles)
    obtain ⟨hends, hmachines⟩ := interpret_alike loops hstmts (hread log log')
    rw [hrun, hrun']
    exact ⟨ended_eq hends, alike_of_machines (hmachines.withLog log₁ log₁')⟩
  · obtain ⟨log, hrun⟩ := run_refused loops name hcompiles
    obtain ⟨log', hrun'⟩ := run_refused loops name (herrors.trans hcompiles)
    rw [hrun, hrun']
    refine ⟨?_, alike_of_machines (hread log log')⟩
    exact congrArg (fun ds : List Diagnostic => (Outcome.compileError ds.length, ds)) hdiagnostics

end Alike

/-- Sessions in which nothing is bound are alike, whatever names they know. -/
theorem blank_alike {m : Machine} (henv : m.env = {}) (hhost : m.host = #[]) (t : NameTable)
    (log : Log) : (⟨m⟩ : Session).Alike ⟨m.learned t log⟩ := by
  refine ⟨rfl, rfl, ⟨rfl, fun i => ?_, rfl⟩, rfl, rfl, rfl, rfl, rfl, fun run hrun => ?_, rfl⟩
  · rw [Machine.learned, henv]
    cases i <;> exact .nil
  · rw [hhost] at hrun
    exact absurd hrun (Array.not_mem_empty run)

/-- What the clock shows does not depend on the arguments. -/
theorem uniform_clock : HostFunction.clock.Uniform := by
  intro _ now _ _ _
  rw [HostFunction.clock, HostFunction.clock]
  split
  · exact .error rfl
  · exact .ok (.number now)

/-- New sessions are alike, whatever names they know. -/
theorem start_alike {m : Machine} (henv : m.env = {}) (hhost : m.host = #[]) (t : NameTable)
    (log : Log) : (start m).Alike (start (m.learned t log)) :=
  (blank_alike henv hhost t log).register "clock" 0 uniform_clock

/-- Every session is alike to itself: the names in it are all known. -/
theorem History.alike {sources : List String} {s : Session} (h : History sources s) :
    s.Alike s := by
  induction h with
  | @start m henv hhost => exact start_alike henv hhost m.names m.log
  | run loops name source _ _ ih => exact (ih.run loops name source).2
  | compile source _ ih => exact ih.compile source
  | global? name _ ih => exact (ih.global? name).2
  | takeOutput _ ih => exact ih.takeOutput.2
  | tick now _ ih => exact ih.tick now

end Session

end Tarn
