import Tarn.Proofs.Semantics.Completeness
import Tarn.Proofs.Semantics.Soundness

/-! The machine with its one current scope, against the semantics that has the scope as an
argument. -/
namespace Tarn

open Semantics

/-- What the machine does with more and more rounds for its loops is what `R` says, and leaves the
machine in the scope and the depth in which it was. -/
structure Machine.Refines {α : Type} (m : Machine) (p : Nat → Eval α) (R : Meaning α) :
    Prop where
  /-- Whenever the machine ends, `R` says so. -/
  sound : ∀ loops r m', p loops m = (Result.halt r, m') →
    m'.Views m.context m.env.current m.callDepth m'.world ∧ R m.world r m'.world
  /-- Whenever `R` says so, the machine ends, unless the bound for its loops is too small. -/
  complete : ∀ r w', R m.world r w' → ∃ enough, ∀ loops ≥ enough, ∃ m',
    p loops m = (Result.halt r, m') ∧ m'.Views m.context m.env.current m.callDepth w'

namespace Machine

variable {α : Type} {m : Machine}

theorem refines_of {p : Nat → Eval α} {R : Meaning α}
    (hsound : ∀ loops, Follows m.context m.env.current m.callDepth (p loops) R)
    (hcomplete : ∀ r w', R m.world r w' →
      Settles m.context m.env.current m.callDepth p m.world r w') : m.Refines p R := by
  constructor
  · intro loops r m' hrun
    obtain ⟨w', hm', hR⟩ := hsound loops m.views_world hrun
    rw [hm'.world_eq]
    exact ⟨hm', hR⟩
  · intro r w' hR
    obtain ⟨enough, h⟩ := Filter.eventually_atTop.mp (hcomplete r w' hR)
    exact ⟨enough, fun loops hloops => h loops hloops m.views_world⟩

/-- What `R` says is said once. -/
theorem Refines.unique {p : Nat → Eval α} {R : Meaning α} (h : m.Refines p R) {r r' : Result α}
    {w w' : World} (hR : R m.world r w) (hR' : R m.world r' w') : r = r' ∧ w = w' := by
  obtain ⟨k, hk⟩ := h.complete r w hR
  obtain ⟨k', hk'⟩ := h.complete r' w' hR'
  obtain ⟨m₁, hrun, hm₁⟩ := hk (max k k') (Nat.le_max_left k k')
  obtain ⟨m₂, hrun', hm₂⟩ := hk' (max k k') (Nat.le_max_right k k')
  obtain ⟨hr, rfl⟩ := Prod.mk.inj (hrun.symm.trans hrun')
  exact ⟨Result.halt_injective hr, hm₁.world_eq.symm.trans hm₂.world_eq⟩

end Machine

/-- Statements inside a body and whole programs end on the machine as they do in the semantics: with
the same value or error, the same output, and the same bindings in every frame. -/
theorem machine_refines_semantics (m : Machine) (stmts : List Stmt) :
    m.Refines (fun loops => Stmt.execAll loops (invokeUpTo loops (m.maxCallDepth - m.callDepth)) stmts)
      (fun w r w' => ExecutesAll m.context m.env.current m.callDepth w stmts r w') ∧
    m.Refines (fun loops => interpret loops stmts)
      (fun w r w' => Runs m.context m.env.current m.callDepth w stmts r w') := by
  constructor
  · exact Machine.refines_of
      (fun loops => follows_execAll (followsCalls_invokeUpTo (S := m.context) loops rfl) stmts)
      fun r w' h => h.settles
  · exact Machine.refines_of (fun loops => follows_interpret loops stmts) fun r w' h => h.settles

end Tarn
