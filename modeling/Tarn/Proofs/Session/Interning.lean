import Tarn.Proofs.Session.Refusal

/-! Sessions that start with different names in their tables, and that learn more from what they are
asked. The numbers of the names are all that tells them apart, and no answer shows a number. -/
namespace Tarn.Session

/-- What a session may be asked: to run a text, or what a name stands for globally. The question
makes the name known if it was not. -/
inductive Request where
  | run (x : Submission)
  | lookup (name : String)

/-- The text that is to be run. -/
def Request.submission? : Request → Option Submission
  | run x => some x
  | lookup _ => none

/-- The answers to the texts among the requests, and the session after all requests. -/
def serve (s : Session) : List Request → List Answer × Session
  | [] => ([], s)
  | .run x :: later =>
      let (answer, s) := s.submit x
      let (answers, s) := s.serve later
      (answer :: answers, s)
  | .lookup name :: later => (s.global? name).2.serve later

namespace Alike

variable {s s' : Session} (h : s.Alike s')
include h

/-- A question that only the first session is asked. -/
theorem global?_left (name : String) : (s.global? name).2.Alike s' :=
  alike_of_machines (h.grow (s.machine.names.extends_intern name) (.refl _) s.machine.log
    s'.machine.log)

/-- A question that only the second session is asked. -/
theorem global?_right (name : String) : s.Alike (s'.global? name).2 :=
  alike_of_machines (h.grow (.refl _) (s'.machine.names.extends_intern name) s.machine.log
    s'.machine.log)

/-- Questions before the next text may differ, and so may their number. -/
theorem serve {requests requests' : List Request}
    (hsame : requests.filterMap Request.submission? = requests'.filterMap Request.submission?) :
    (s.serve requests).1 = (s'.serve requests').1 ∧
      (s.serve requests).2.Alike (s'.serve requests').2 := by
  induction requests generalizing s s' requests' with
  | nil =>
    -- Only questions are left for the second session.
    induction requests' generalizing s' with
    | nil => exact ⟨rfl, h⟩
    | cons request' later' ih =>
      cases request' with
      | run x => cases hsame
      | lookup name => exact ih (h.global?_right name) hsame
  | cons request later ih =>
    cases request with
    | lookup name => exact ih (h.global?_left name) hsame
    | run x =>
      -- The second session comes to the same text once its questions are dealt with.
      induction requests' generalizing s' with
      | nil => cases hsame
      | cons request' later' ih' =>
        cases request' with
        | lookup name => exact ih' (h.global?_right name) hsame
        | run x' =>
          obtain ⟨hx, hlater⟩ := List.cons.inj hsame
          obtain rfl : x = x' := hx
          obtain ⟨hanswer, hnext⟩ := h.submit x
          obtain ⟨hanswers, hend⟩ := ih hnext hlater
          exact ⟨congrArg₂ List.cons hanswer hanswers, hend⟩

end Alike

/-- Two new sessions are given the same texts, in the same order. It does not matter which names
either of them knew before, nor which questions it is asked before, between and after the texts: the
outcomes, the reports and what is printed are the same, and so is the answer to every question that
follows. Functions in such answers are spelled alike and are otherwise the same. While they run a
text the same clock is shown to both. -/
theorem serve_start_eq {m : Machine} (henv : m.env = {}) (hhost : m.host = #[])
    (t t' : NameTable) (log log' : Log) {requests requests' : List Request}
    (hsame : requests.filterMap Request.submission? = requests'.filterMap Request.submission?) :
    let served := (start (m.learned t log)).serve requests
    let served' := (start (m.learned t' log')).serve requests'
    served.1 = served'.1 ∧
      ∀ name, Option.Rel (Value.Alike (.inPlace (served.2.global? name).2.machine.names
          (served'.2.global? name).2.machine.names))
        (served.2.global? name).1 (served'.2.global? name).1 := by
  have hnew : (start (m.learned t log)).Alike (start (m.learned t' log')) :=
    start_alike (m := m.learned t log) henv hhost t' log'
  obtain ⟨hanswers, hend⟩ := hnew.serve hsame
  exact ⟨hanswers, fun name => (hend.global? name).1⟩

/-- A text that declares a function and calls it, and one that does not compile. -/
def declaring : List Submission :=
  [⟨1, "first", "fun f(y) \x7b return y; \x7d print f(\"a\");", 0⟩,
    ⟨1, "second", "fun g(y, y) \x7b\x7d", 0⟩]

/-- The second session knows the names in another order, and is asked for one that it does not
know. -/
theorem serve_start_eq_declaring :
    let m : Machine := {}
    let t := ((NameTable.empty.intern "y").2.intern "f").2
    let served := (start (m.learned .empty {})).serve (declaring.map .run)
    let served' := (start (m.learned t {})).serve (.lookup "z" :: declaring.map .run)
    served.1 = served'.1 ∧
      served.1.map (fun answer => (answer.outcome, answer.printed)) =
        [(.ok, "a\n"), (.compileError 1, "")] ∧
      (served.2.global? "f").1.map Value.toString = some "<fn f>" ∧
      Option.Rel (Value.Alike (.inPlace (served.2.global? "f").2.machine.names
          (served'.2.global? "f").2.machine.names))
        (served.2.global? "f").1 (served'.2.global? "f").1 := by
  have hsame : (declaring.map Request.run).filterMap Request.submission? =
      (.lookup "z" :: declaring.map .run : List Request).filterMap Request.submission? := rfl
  intro m t
  have hserve := serve_start_eq (m := m) rfl rfl .empty t {} {} hsame
  exact ⟨hserve.1, by decide +kernel, by decide +kernel, hserve.2 "f"⟩

end Tarn.Session
