import Tarn.Proofs.Unnamed.Acts
import Tarn.Proofs.Unnamed.Running

/-! Two sessions of which one has a global binding that code does not use. What a text names can be
read off its identifiers. -/
namespace Tarn

/-- The identifiers of a text, in the order in which they stand there. -/
def identifiers (source : String) : List String :=
  let lexed := lex source .empty
  lexed.tokens.filterMap fun t =>
    match t.kind with
    | .identifier n => some (lexed.names.spelling n)
    | _ => none

/-- The name of a text other than `x`. -/
def NameTable.Other (t : NameTable) (x : String) (n : Name) : Prop :=
  ∃ text, text ≠ x ∧ t.find? text = some n

namespace NameTable.Other

variable {t u : NameTable} {x : String} {n k : Name}

theorem mono (h : t.Other x n) (hu : t.Extends u) : u.Other x n := by
  obtain ⟨text, hne, hn⟩ := h
  exact ⟨text, hne, hu text n hn⟩

theorem ne (h : t.Other x n) (hk : t.find? x = some k) : n ≠ k := by
  rintro rfl
  obtain ⟨text, hne, hn⟩ := h
  exact hne ((spelling_of_find? hn).symm.trans (spelling_of_find? hk))

end NameTable.Other

/-- Code names nothing but what stands in its text. Texts of strings do not count, although they
have names in the same table. -/
theorem Machine.compile_other (m : Machine) {source x : String} (hx : x ∉ identifiers source) :
    AllNames ((m.compile source).2.names.Other x)
      (Stmt.allNames (m.compile source).1.statements) := by
  obtain ⟨ts, span, hts, hreal⟩ := lex_tokens source m.names
  have hd := parse_derives (lex source m.names).names (Grammar.atEnd_eof span) hreal
  rw [← hts] at hd
  refine hd.names fun t ht n hn => ?_
  -- With no names known before, the text has the same identifiers.
  obtain ⟨-, -, halike⟩ := lex_alike source m.names .empty
  obtain ⟨i, hi, rfl⟩ := List.mem_iff_getElem.1 (hts ▸ List.mem_append_left _ ht)
  have hi' := halike.length_eq ▸ hi
  have hkind := (halike.get hi hi').kind
  simp only [List.get_eq_getElem, hn] at hkind
  generalize hn' : (lex source .empty).tokens[i].kind = kind at hkind
  cases hkind with
  | identifier hsame =>
    obtain ⟨text, hfind, hfind'⟩ := hsame
    refine ⟨text, ?_, hfind⟩
    rintro rfl
    refine hx (List.mem_filterMap.2 ⟨_, List.getElem_mem hi', ?_⟩)
    rw [hn']
    exact congrArg some (NameTable.spelling_of_find? hfind')

variable {S : Surplus}

namespace Surplus

/-- More names are known. -/
def learned (S : Surplus) (t : NameTable) : Surplus := { S with names := t }

/-- Both hosts get one more function. -/
def registered (S : Surplus) (run : HostFunction) (hrun : run.Generic)
    (hnext : S.place S.host.size = S.host'.size) : Surplus where
  names := S.names
  used := S.used
  kept := S.kept
  host := S.host.push run
  host' := S.host'.push run
  place := S.place
  injective := S.injective
  found i := by
    have hlast : S.place i = S.host'.size ↔ i = S.host.size := by
      rw [← hnext]
      exact S.injective.eq_iff
    simp only [Array.getElem?_push, hlast, S.found]
  generic other hother := by
    obtain hother | rfl := Array.mem_push.1 hother
    · exact S.generic other hother
    · exact hrun

end Surplus

theorem Machine.Beside.learned {m m' : Machine} (h : Machine.Beside S m m') (t : NameTable)
    (log log' : Log) : Machine.Beside (S.learned t) (m.learned t log) (m'.learned t log') :=
  ⟨rfl, rfl, h.env.transfer rfl rfl rfl, h.output, h.callDepth, h.maxCallDepth, h.functionCount,
    h.host, h.host', h.clock⟩

theorem EndsAlike.unit_eq {ε : Type} {x y : Except ε Unit}
    (h : EndsAlike Eq (fun _ _ => True) x y) : x = y := by
  cases h with
  | ok => rfl
  | error h => rw [h]

namespace Session

abbrev Beside (S : Surplus) (s s' : Session) : Prop := Machine.Beside S s.machine s'.machine

namespace Beside

variable {s s' : Session} (h : s.Beside S s')
include h

/-- Both read the same. -/
theorem compile_eq (source : String) : (s'.compile source).1 = (s.compile source).1 ∧
    (s'.compile source).2.machine.names = (s.compile source).2.machine.names := by
  have hnames : s'.machine.names = s.machine.names := h.names'.trans h.names.symm
  constructor
  all_goals simp only [Session.compile, Machine.compile, hnames]

theorem read (source : String) (log log' : Log) :
    Machine.Beside (S.learned (s.compile source).2.machine.names)
      { (s.compile source).2.machine with log }
      { (s'.compile source).2.machine with log := log' } := by
  change Machine.Beside _ _ (s'.machine.learned (s'.compile source).2.machine.names log')
  rw [(h.compile_eq source).2]
  exact h.learned _ log log'

theorem compile (source : String) :
    (s.compile source).2.Beside (S.learned (s.compile source).2.machine.names)
      (s'.compile source).2 := h.read source _ _

/-- A text that names nothing else than code may comes out the same. -/
theorem run (loops : Nat) (name : String) {source : String}
    (hcode : AllNames S.used (Stmt.allNames (s.compile source).1.statements)) :
    (s.run loops name source).1 = (s'.run loops name source).1 ∧
      (s.run loops name source).2.Beside (S.learned (s.compile source).2.machine.names)
        (s'.run loops name source).2 := by
  have hcompiled := (h.compile_eq source).1
  rcases herrors : (s.compile source).1.hasErrors with _ | _
  · obtain ⟨log, log₁, hrun⟩ := run_compiled loops name herrors
    obtain ⟨log', log₁', hrun'⟩ := run_compiled (s := s') loops name (hcompiled ▸ herrors)
    obtain ⟨hends, hmachines⟩ := interpret_unaware
      (S := S.learned (s.compile source).2.machine.names) loops _ hcode (h.read source log log')
    rw [hrun, hrun', hcompiled]
    exact ⟨congrArg ended hends.unit_eq, Machine.Coupling.withLog hmachines log₁ log₁'⟩
  · obtain ⟨log, hrun⟩ := run_refused loops name herrors
    obtain ⟨log', hrun'⟩ := run_refused (s := s') loops name (hcompiled ▸ herrors)
    rw [hrun, hrun', hcompiled]
    exact ⟨rfl, h.read source log log'⟩

theorem tick (now : Float) : (s.tick now).Beside S (s'.tick now) :=
  ⟨h.names, h.names', h.env, h.output, h.callDepth, h.maxCallDepth, h.functionCount, h.host,
    h.host', rfl⟩

theorem takeOutput :
    s.takeOutput.1 = s'.takeOutput.1 ∧ s.takeOutput.2.Beside S s'.takeOutput.2 := by
  refine ⟨congrArg Output.text h.output, ?_⟩
  exact ⟨h.names, h.names', h.env, congrArg Output.clear h.output, h.callDepth, h.maxCallDepth,
    h.functionCount, h.host, h.host', h.clock⟩

theorem submit (x : Submission)
    (hcode : AllNames S.used (Stmt.allNames (s.compile x.source).1.statements)) :
    (s.submit x).1 = (s'.submit x).1 ∧
      (s.submit x).2.Beside (S.learned (s.compile x.source).2.machine.names) (s'.submit x).2 := by
  obtain ⟨hresult, hran⟩ := (h.tick x.now).run x.loops x.name hcode
  obtain ⟨hprinted, hnext⟩ := hran.takeOutput
  refine ⟨?_, hnext⟩
  exact congrArg₂ (fun result text => Answer.mk result.1 result.2 text) hresult hprinted

theorem global? (name : String) :
    (s.global? name).2.Beside (S.learned (s.machine.names.intern name).2) (s'.global? name).2 := by
  change Machine.Beside _ _ (s'.machine.learned (s'.machine.names.intern name).2 s'.machine.log)
  rw [h.names', ← h.names]
  exact h.learned _ s.machine.log _

/-- The same function of the host is bound in both, under a name that code may use. -/
theorem register {name : String} (hname : S.used (s.machine.names.intern name).1) (arity : Nat)
    {run : HostFunction} (hrun : run.Generic) (hnext : S.place S.host.size = S.host'.size) :
    (s.register name arity run).Beside
      ((S.learned (s.machine.names.intern name).2).registered run hrun hnext)
      (s'.register name arity run) := by
  have hgrown := h.learned (s.machine.names.intern name).2 s.machine.log s'.machine.log
  have hbound := hgrown.env.bindAt 0 hname (.native ⟨S.host.size, name, arity⟩)
  have hnames : s'.machine.names = s.machine.names := h.names'.trans h.names.symm
  refine ⟨rfl, ?_, ?_, h.output, h.callDepth, h.maxCallDepth, h.functionCount,
    congrArg (·.push run) h.host, congrArg (·.push run) h.host', h.clock⟩
  · simp only [Session.register, Machine.defineNative, hnames]
    rfl
  · simp only [Session.register, Machine.defineNative, hnames, h.host, h.host', ← hnext]
    exact hbound.transfer rfl rfl rfl

end Beside

end Session

end Tarn
