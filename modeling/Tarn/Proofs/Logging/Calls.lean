import Tarn.Proofs.Semantics.Views

/-! What running programs log. Their enters and exits are those of calls, and whatever a part of a
program logs closes every call that it opens, also if it fails. -/
namespace Tarn

open Semantics

namespace Event

/-- The event is one of a running program. -/
def ofProgram : Event → Bool
  | evaluating _ | execute _ | enter (.call _) | exit (.call _) => true
  | _ => false

end Event

namespace Log

/-- The calls that are open after an event, the innermost one first. An exit has to be that of the
innermost call, and no more than `limit` calls may be open; enters and exits of runs are not among
calls. -/
def openCalls (limit : Nat) (calls : List String) : Event → Option (List String)
  | .enter (.call f) => if calls.length < limit then some (f :: calls) else none
  | .exit (.call f) =>
      match calls with
      | g :: rest => if g = f then some rest else none
      | [] => none
  | .enter (.run _) | .exit (.run _) => none
  | _ => some calls

/-- No call is open before the events or after them. In between calls are properly nested, and no
more than `limit` of them are ever open. -/
def Balanced (limit : Nat) (es : List Event) : Prop := es.foldlM (openCalls limit) [] = some []

instance (limit : Nat) (es : List Event) : Decidable (Balanced limit es) :=
  inferInstanceAs (Decidable (_ = _))

example : Balanced 2 [.enter (.call "f"), .enter (.call "g"), .exit (.call "g"), .exit (.call "f")] ∧
    ¬ Balanced 1 [.enter (.call "f"), .enter (.call "g"), .exit (.call "g"), .exit (.call "f")] := by
  decide

/-- Whatever calls are open, the same ones are open after the events, if `n` more may be. -/
def Closes (n : Nat) (es : List Event) : Prop :=
  ∀ limit calls, calls.length + n ≤ limit → es.foldlM (openCalls limit) calls = some calls

namespace Closes

variable {n : Nat} {a b es : List Event} {e : Event}

theorem nil : Closes n [] := fun _ _ _ => rfl

theorem append (ha : Closes n a) (hb : Closes n b) : Closes n (a ++ b) := by
  intro limit calls h
  rw [List.foldlM_append, ha limit calls h]
  exact hb limit calls h

theorem mono {n' : Nat} (h : Closes n es) (hn : n ≤ n') : Closes n' es :=
  fun limit calls hle => h limit calls (by omega)

/-- A call that is closed again needs room for one more. -/
theorem call (f : String) (h : Closes n es) :
    Closes (n + 1) (.enter (.call f) :: (es ++ [.exit (.call f)])) := by
  intro limit calls hle
  have hroom : calls.length < limit := by omega
  have hinside := h limit (f :: calls) (by rw [List.length_cons]; omega)
  rw [List.foldlM_cons, openCalls, if_pos hroom]
  change (es ++ [Event.exit (.call f)]).foldlM (openCalls limit) (f :: calls) = some calls
  rw [List.foldlM_append, hinside]
  change List.foldlM (openCalls limit) (f :: calls) [Event.exit (.call f)] = some calls
  simp [openCalls]

theorem of_points (h : ∀ e ∈ es, ∀ limit calls, openCalls limit calls e = some calls) :
    Closes n es := by
  induction es with
  | nil => exact nil
  | cons e es ih =>
    intro limit calls hle
    rw [List.foldlM_cons, h e List.mem_cons_self]
    exact ih (fun e he => h e (List.mem_cons_of_mem _ he)) limit calls hle

theorem point {e : Event} (h : ∀ limit calls, openCalls limit calls e = some calls) :
    Closes n [e] := by
  apply of_points
  intro e' he'
  rwa [List.mem_singleton.1 he']

theorem balanced (h : Closes n es) : Balanced n es := by
  have hroom : ([] : List String).length + n ≤ n := by simp
  exact h n [] hroom

end Closes

/-- The events are those of a part of a program that calls no more than `n` deep. -/
structure Program (n : Nat) (es : List Event) : Prop where
  closes : Closes n es
  ofProgram : ∀ e ∈ es, e.ofProgram = true

namespace Program

variable {n : Nat} {a b es : List Event}

theorem nil : Program n [] := ⟨.nil, nofun⟩

theorem append (ha : Program n a) (hb : Program n b) : Program n (a ++ b) := by
  refine ⟨ha.closes.append hb.closes, ?_⟩
  intro e he
  rcases List.mem_append.1 he with he | he
  · exact ha.ofProgram e he
  · exact hb.ofProgram e he

theorem mono {n' : Nat} (h : Program n es) (hn : n ≤ n') : Program n' es :=
  ⟨h.closes.mono hn, h.ofProgram⟩

theorem call (f : String) (h : Program n es) :
    Program (n + 1) (.enter (.call f) :: (es ++ [.exit (.call f)])) := by
  refine ⟨h.closes.call f, ?_⟩
  intro e he
  simp only [List.mem_cons, List.mem_append, List.not_mem_nil, or_false] at he
  rcases he with rfl | he | rfl
  · rfl
  · exact h.ofProgram e he
  · rfl

/-- One event that neither opens nor closes a call. -/
theorem singleton {e : Event} (hopen : ∀ limit calls, openCalls limit calls e = some calls)
    (he : e.ofProgram = true) : Program n [e] := by
  refine ⟨.point hopen, ?_⟩
  intro e' he'
  rwa [List.mem_singleton.1 he']

end Program

variable {log : Log}

theorem keeps_debug (h : log.level.isSome) : log.keeps .debug = true := by
  unfold keeps
  rcases hlevel : log.level with _ | _ | _
  · simp [hlevel] at h
  · rfl
  · rfl

theorem level_add (log : Log) (e : Event) : (log.add e).level = log.level := by
  unfold add
  split <;> rfl

theorem events_add (log : Log) (e : Event) : (log.add e).events.toList =
    log.events.toList ++ if log.keeps e.level then [e] else [] := by
  unfold add
  split <;> simp

end Log

/-- The machine `m'` comes from `m` by steps that log the events, in this order. -/
structure Machine.Adds (m : Machine) (es : List Event) (m' : Machine) : Prop where
  level : m'.log.level = m.log.level
  maxCallDepth : m'.maxCallDepth = m.maxCallDepth
  events : m'.log.events.toList = m.log.events.toList ++ es

namespace Machine.Adds

variable {m m₁ m₂ m' : Machine} {es es' : List Event}

theorem of_log (hlog : m'.log = m.log) (hdepth : m'.maxCallDepth = m.maxCallDepth) :
    m.Adds [] m' := ⟨by rw [hlog], hdepth, by rw [hlog, List.append_nil]⟩

theorem trans (h : m.Adds es m₁) (h' : m₁.Adds es' m₂) : m.Adds (es ++ es') m₂ :=
  ⟨h'.level.trans h.level, h'.maxCallDepth.trans h.maxCallDepth,
    by rw [h'.events, h.events, List.append_assoc]⟩

/-- An event is kept if it is wanted. -/
theorem log (m : Machine) (e : Event) :
    m.Adds (if m.log.keeps e.level then [e] else []) { m with log := m.log.add e } :=
  ⟨m.log.level_add e, rfl, m.log.events_add e⟩

theorem log_debug (h : m.log.level.isSome) {e : Event} (he : e.level = .debug) :
    m.Adds [e] { m with log := m.log.add e } := by
  have hkept := log m e
  rwa [he, if_pos (Log.keeps_debug h)] at hkept

theorem isSome (h : m.Adds es m') (hlevel : m.log.level.isSome) : m'.log.level.isSome := by
  rwa [h.level]

end Machine.Adds

namespace Eval

variable {α β : Type} {n : Nat} {p : Eval α}

/-- However `p` ends, it logs the events of a part of a program that calls no more than `n` deep. -/
def Logs (n : Nat) (p : Eval α) : Prop :=
  ∀ m : Machine, m.log.level.isSome → ∃ es, m.Adds es (p m).2 ∧ Log.Program n es

namespace Logs

theorem of_log (h : ∀ m, (p m).2.log = m.log ∧ (p m).2.maxCallDepth = m.maxCallDepth) : Logs n p :=
  fun m _ => ⟨[], .of_log (h m).1 (h m).2, .nil⟩

theorem pure (a : α) : Logs n (Pure.pure a : Eval α) := of_log fun _ => ⟨rfl, rfl⟩

theorem throw (h : Halt) : Logs n (MonadExcept.throw h : Eval α) := of_log fun _ => ⟨rfl, rfl⟩

theorem fail (fault : Fault) (span : Span) : Logs n (Eval.fail fault span : Eval α) := throw _

theorem blame (span : Span) (x : Except Fault α) : Logs n (Eval.blame span x) := by
  cases x with
  | ok a => exact pure a
  | error fault => exact fail fault span

theorem bind {f : α → Eval β} (hp : Logs n p) (hf : ∀ a, Logs n (f a)) : Logs n (p >>= f) := by
  intro m hlevel
  obtain ⟨es, hadds, hes⟩ := hp m hlevel
  rw [bind_run]
  rcases hrun : p m with ⟨_ | a, m₁⟩
  · rw [hrun] at hadds
    exact ⟨es, hadds, hes⟩
  · rw [hrun] at hadds
    obtain ⟨es', hadds', hes'⟩ := hf a m₁ (hadds.isSome hlevel)
    exact ⟨es ++ es', hadds.trans hadds', hes.append hes'⟩

theorem get_bind {f : Machine → Eval α} (h : ∀ m, Logs n (f m)) :
    Logs n (MonadState.get >>= f) := fun m => h m m

theorem ite {c : Prop} [Decidable c] {q : Eval α} (h : Logs n p) (h' : Logs n q) :
    Logs n (if c then p else q) := by
  split
  · exact h
  · exact h'

/-- An event that neither opens nor closes a call may be left out. -/
theorem log {e : Event} (hopen : ∀ limit calls, Log.openCalls limit calls e = some calls)
    (he : e.ofProgram = true) : Logs n (Eval.log e) := by
  intro m _
  refine ⟨_, .log m e, ?_⟩
  split
  · exact .singleton hopen he
  · exact .nil

theorem execute (span : Span) : Logs n (Eval.log (.execute span)) := log (fun _ _ => rfl) rfl

/-- Enter and exit of a call are logged whether the call ends well or not. -/
theorem during (f : String) (h : Logs n p) : Logs (n + 1) (Eval.during (.call f) p) := by
  intro m hlevel
  have hfirst : m.Adds [.enter (.call f)] { m with log := m.log.add (.enter (.call f)) } :=
    .log_debug hlevel rfl
  obtain ⟨es, hadds, hes⟩ := h _ (hfirst.isSome hlevel)
  have hlast := Machine.Adds.log_debug ((hfirst.trans hadds).isSome hlevel) (e := .exit (.call f)) rfl
  refine ⟨.enter (.call f) :: (es ++ [.exit (.call f)]), ?_, hes.call f⟩
  have hall := hfirst.trans (hadds.trans hlast)
  exact hall

theorem inCall (h : Logs n p) : Logs n (Eval.inCall p) := by
  intro m hlevel
  obtain ⟨es, hadds, hes⟩ := h { m with callDepth := m.callDepth + 1 } hlevel
  exact ⟨es, ⟨hadds.level, hadds.maxCallDepth, hadds.events⟩, hes⟩

theorem inside (scope : Scope) (h : Logs n p) : Logs n (Eval.inside scope p) := by
  intro m hlevel
  obtain ⟨es, hadds, hes⟩ := h { m with env := (m.env.enter scope).2 } hlevel
  exact ⟨es, ⟨hadds.level, hadds.maxCallDepth, hadds.events⟩, hes⟩

theorem newScope (outer : Scope) (bindings : Frame) : Logs n (Eval.newScope outer bindings) :=
  of_log fun _ => ⟨rfl, rfl⟩

theorem inFreshScope (h : Logs n p) : Logs n (Eval.inFreshScope p) :=
  (get_bind fun _ => pure _).bind fun outer => (newScope outer []).bind fun scope => h.inside scope

theorem undefined (name : Name) (span : Span) : Logs n (Eval.undefined name span : Eval α) :=
  (get_bind fun _ => pure _).bind fun _ => fail _ span

theorem lookup (name : Name) (span : Span) : Logs n (Eval.lookup name span) := by
  refine get_bind fun m => ?_
  cases m.env.lookup name with
  | some value => exact pure value
  | none => exact undefined name span

theorem rebind (name : Name) (value : Value) (span : Span) :
    Logs n (Eval.rebind name value span) := by
  intro m hlevel
  rw [Eval.rebind, get_run]
  rcases m.env.owner? m.env.current name with _ | i
  · exact undefined name span m hlevel
  · exact ⟨[], .of_log rfl rfl, .nil⟩

theorem define (name : Name) (value : Value) : Logs n (Eval.define name value) :=
  of_log fun _ => ⟨rfl, rfl⟩

theorem declare (decl : FunctionDecl) : Logs n (Tarn.declare decl) := of_log fun _ => ⟨rfl, rfl⟩

theorem callNative (f : Native) (args : List Value) (paren : Span) :
    Logs n (Tarn.callNative f args paren) := by
  refine get_bind fun m => ?_
  rcases m.host[f.id]? with _ | run
  · exact fail _ paren
  · dsimp only
    cases run m.clock args with
    | ok value => exact pure value
    | error e => exact throw _

end Logs

end Eval

end Tarn
