import Tarn.Proofs.Session.Interning

/-! Whole lives of sessions: texts are run, and between them functions of the host are registered,
texts are read and global names are looked up. -/
namespace Tarn

open Session

/-- What may be done with a session. -/
inductive Act where
  | submit (x : Submission)
  /-- A function of the host is bound globally. -/
  | register (name : String) (arity : Nat) (run : HostFunction)
  /-- A text is read and not run. -/
  | read (source : String)
  | look (name : String)

namespace Session

/-- Only what is run is answered. -/
def perform (s : Session) : Act → Option Answer × Session
  | .submit x =>
      let (answer, s) := s.submit x
      (some answer, s)
  | .register name arity run => (none, s.register name arity run)
  | .read source => (none, (s.compile source).2)
  | .look name => (none, (s.global? name).2)

/-- The answers to all acts, and the session after them. -/
def carryOut (s : Session) : List Act → List Answer × Session
  | [] => ([], s)
  | act :: acts =>
      let (answer, s) := s.perform act
      let (answers, s) := s.carryOut acts
      (answer.toList ++ answers, s)

/-- What acts keep on one session, and do alike on two, holds of two whole lives. -/
theorem carryOut_related {R : Session → Session → Prop} {acts : List Act}
    (hstep : ∀ act ∈ acts, ∀ {s s'}, R s s' →
      (s.perform act).1 = (s'.perform act).1 ∧ R (s.perform act).2 (s'.perform act).2)
    {s s' : Session} (h : R s s') :
    (s.carryOut acts).1 = (s'.carryOut acts).1 ∧ R (s.carryOut acts).2 (s'.carryOut acts).2 := by
  induction acts generalizing s s' with
  | nil => exact ⟨rfl, h⟩
  | cons act acts ih =>
    obtain ⟨hanswer, hnext⟩ := hstep act List.mem_cons_self h
    obtain ⟨hanswers, hend⟩ := ih (fun act hact => hstep act (List.mem_cons_of_mem _ hact)) hnext
    exact ⟨congrArg₂ (fun answer answers => Option.toList answer ++ answers) hanswer hanswers, hend⟩

namespace Alike

variable {s s' : Session} (h : s.Alike s')
include h

theorem perform {act : Act}
    (hact : ∀ name arity run, act = .register name arity run → run.Uniform) :
    (s.perform act).1 = (s'.perform act).1 ∧ (s.perform act).2.Alike (s'.perform act).2 := by
  cases act with
  | submit x =>
    obtain ⟨hanswer, hnext⟩ := h.submit x
    exact ⟨congrArg some hanswer, hnext⟩
  | register name arity run => exact ⟨rfl, h.register name arity (hact name arity run rfl)⟩
  | read source => exact ⟨rfl, h.compile source⟩
  | look name => exact ⟨rfl, (h.global? name).2⟩

/-- The numbers of names do not show, whatever is done. -/
theorem carryOut {acts : List Act}
    (hacts : ∀ name arity run, Act.register name arity run ∈ acts → run.Uniform) :
    (s.carryOut acts).1 = (s'.carryOut acts).1 ∧
      (s.carryOut acts).2.Alike (s'.carryOut acts).2 := by
  refine carryOut_related (fun act hact s s' hs => hs.perform ?_) h
  rintro name arity run rfl
  exact hacts name arity run hact

end Alike

end Session

end Tarn
