import Tarn.Proofs.Likeness.Parallel
import Tarn.Proofs.Semantics.Views

/-! What two programs do to two machines alike, whatever else holds of the machines: they log, count
calls and move between scopes. -/
namespace Tarn

open Semantics

/-- The machines stand in the same scope, and no part of `R` is about logs, the depth of calls as
such or the scope as such. -/
class Machine.Coupling (R : Machine → Machine → Prop) : Prop where
  current {m m' : Machine} (h : R m m') : m.env.current = m'.env.current
  withLog {m m' : Machine} (h : R m m') (log log' : Log) : R { m with log } { m' with log := log' }
  withCurrent {m m' : Machine} (h : R m m') (scope : Scope) :
    R { m with env := { m.env with current := scope } }
      { m' with env := { m'.env with current := scope } }
  withDepth {m m' : Machine} (h : R m m') (f : Nat → Nat) :
    R { m with callDepth := f m.callDepth } { m' with callDepth := f m'.callDepth }
  /-- Both make an empty frame. -/
  child {m m' : Machine} (h : R m m') (outer : Scope) :
    (m.env.child outer []).1 = (m'.env.child outer []).1 ∧
      R { m with env := (m.env.child outer []).2 } { m' with env := (m'.env.child outer []).2 }

/-- What is logged is all that is done about an error. -/
theorem Eval.loggingErrors_run {α : Type} (p : Eval α) (m : Machine) :
    ∃ log, loggingErrors p m = ((p m).1, { (p m).2 with log }) := by
  unfold loggingErrors
  rcases p m with ⟨(e | _) | a, m₁⟩
  · exact ⟨_, rfl⟩
  · exact ⟨m₁.log, rfl⟩
  · exact ⟨m₁.log, rfl⟩

namespace Parallel

open Machine

variable {R : Machine → Machine → Prop} [Coupling R] {E : Halt → Halt → Prop} {α β : Type}
  {P : α → β → Prop} {p : Eval α} {q : Eval β}

theorem log (e e' : Event) : Parallel R E (fun _ _ => True) (Eval.log e) (Eval.log e') :=
  .update fun hm => Coupling.withLog hm _ _

theorem announce (s s' : Stmt) : Parallel R E (fun _ _ => True) s.announce s'.announce := by
  intro m m' hm
  obtain ⟨log, hrun⟩ := announce_run s m
  obtain ⟨log', hrun'⟩ := announce_run s' m'
  rw [hrun, hrun']
  exact ⟨.ok trivial, Coupling.withLog hm log log'⟩

theorem during (a a' : Activity) (h : Parallel R E P p q) :
    Parallel R E P (Eval.during a p) (Eval.during a' q) := by
  intro m m' hm
  obtain ⟨hends, hm'⟩ := h (Coupling.withLog hm (m.log.add (.enter a)) (m'.log.add (.enter a')))
  exact ⟨hends, Coupling.withLog hm' _ _⟩

theorem loggingErrors (h : Parallel R E P p q) :
    Parallel R E P (Eval.loggingErrors p) (Eval.loggingErrors q) := by
  intro m m' hm
  obtain ⟨hends, hm'⟩ := h hm
  obtain ⟨log, hrun⟩ := Eval.loggingErrors_run p m
  obtain ⟨log', hrun'⟩ := Eval.loggingErrors_run q m'
  rw [hrun, hrun']
  exact ⟨hends, Coupling.withLog hm' log log'⟩

theorem inside (scope : Scope) (h : Parallel R E P p q) :
    Parallel R E P (Eval.inside scope p) (Eval.inside scope q) := by
  intro m m' hm
  obtain ⟨hends, hm'⟩ := h (Coupling.withCurrent hm scope)
  have hback := Coupling.withCurrent hm' m.env.current
  refine ⟨hends, ?_⟩
  simp only [Eval.inside, Environment.enter, Environment.restore, ← Coupling.current hm]
  exact hback

theorem inCall (h : Parallel R E P p q) : Parallel R E P (Eval.inCall p) (Eval.inCall q) := by
  intro m m' hm
  obtain ⟨hends, hm'⟩ := h (Coupling.withDepth hm (· + 1))
  exact ⟨hends, Coupling.withDepth hm' (· - 1)⟩

theorem inFreshScope (h : Parallel R E P p q) :
    Parallel R E P (Eval.inFreshScope p) (Eval.inFreshScope q) := by
  refine get.bind fun {m m'} hm => ?_
  rw [← Coupling.current hm]
  have hmade (outer : Scope) :
      Parallel R E Eq (Eval.newScope outer []) (Eval.newScope outer []) := by
    intro m m' hm
    obtain ⟨hscope, hpushed⟩ := Coupling.child hm outer
    exact ⟨.ok hscope, hpushed⟩
  refine (hmade _).bind ?_
  rintro scope _ rfl
  exact h.inside scope

omit [Coupling R] in
/-- Loops go round the same number of times. -/
theorem iterate {Q : Flow → Flow → Prop} (hexhausted : E .exhausted .exhausted)
    (hnormal : Q .normal .normal)
    (hkinds : ∀ {f f'}, Q f f' → (f = .normal ∧ f' = .normal) ∨
      ∃ v v', f = .returned v ∧ f' = .returned v')
    {test test' : Eval Bool} {body body' : Eval Flow} (ht : Parallel R E Eq test test')
    (hb : Parallel R E Q body body') (fuel : Nat) :
    Parallel R E Q (Tarn.iterate test body fuel) (Tarn.iterate test' body' fuel) := by
  induction fuel with
  | zero => exact throw hexhausted
  | succ fuel ih =>
    refine ht.bind ?_
    rintro goes _ rfl
    refine ite Iff.rfl (hb.bind fun {f f'} hflow => ?_) (pure hnormal)
    obtain ⟨rfl, rfl⟩ | ⟨v, v', rfl, rfl⟩ := hkinds hflow
    · exact ih
    · exact pure hflow

end Parallel

end Tarn
