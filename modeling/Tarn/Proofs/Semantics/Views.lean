import Tarn.Proofs.Semantics.BigStep

/-! Machines and the worlds that they stand for. What a machine does is compared with a relation
between worlds, one combinator at a time. -/
namespace Tarn

/-- The machine stands in the scope, inside `depth` function bodies, in the world `w`. -/
structure Machine.Views (m : Machine) (S : Context) (scope : Scope) (depth : Nat) (w : World) :
    Prop where
  names : m.names = S.names
  host : m.host = S.host
  clock : m.clock = S.clock
  maxCallDepth : m.maxCallDepth = S.maxCallDepth
  callDepth : m.callDepth = depth
  env : m.env = w.env scope
  output : m.output = w.output
  functionCount : m.functionCount = w.functionCount

namespace Machine

def context (m : Machine) : Context := ⟨m.names, m.host, m.clock, m.maxCallDepth⟩

def world (m : Machine) : World := ⟨m.env.frames, m.output, m.functionCount⟩

/-- Every machine stands somewhere. -/
theorem views_world (m : Machine) : m.Views m.context m.env.current m.callDepth m.world :=
  ⟨rfl, rfl, rfl, rfl, rfl, rfl, rfl, rfl⟩

theorem Views.world_eq {m : Machine} {S scope depth w} (h : m.Views S scope depth w) :
    m.world = w := by
  obtain ⟨frames, output, functionCount⟩ := w
  rw [world, h.env, h.output, h.functionCount]
  rfl

variable {m : Machine} {S : Context} {scope : Scope} {depth : Nat} {w : World}

theorem Views.at (h : m.Views S scope depth w) (s : Scope) :
    { m with env := { m.env with current := s } }.Views S s depth w :=
  ⟨h.names, h.host, h.clock, h.maxCallDepth, h.callDepth, by rw [h.env]; rfl, h.output,
    h.functionCount⟩

theorem Views.withLog (h : m.Views S scope depth w) (log : Log) :
    { m with log }.Views S scope depth w :=
  ⟨h.names, h.host, h.clock, h.maxCallDepth, h.callDepth, h.env, h.output, h.functionCount⟩

theorem Views.withDepth (h : m.Views S scope depth w) (d : Nat) :
    { m with callDepth := d }.Views S scope d w :=
  ⟨h.names, h.host, h.clock, h.maxCallDepth, rfl, h.env, h.output, h.functionCount⟩

theorem Views.push (h : m.Views S scope depth w) (outer : Scope) (bindings : Frame) :
    { m with env := (m.env.child outer bindings).2 }.Views S scope depth (w.push bindings) :=
  ⟨h.names, h.host, h.clock, h.maxCallDepth, h.callDepth, by rw [h.env]; rfl, h.output,
    h.functionCount⟩

theorem Views.fresh (h : m.Views S scope depth w) (outer : Scope) (bindings : Frame) :
    (m.env.child outer bindings).1 = w.fresh outer := by
  rw [h.env]
  rfl

theorem Views.define (h : m.Views S scope depth w) (name : Name) (value : Value) :
    { m with env := m.env.define name value }.Views S scope depth (w.define scope name value) := by
  refine ⟨h.names, h.host, h.clock, h.maxCallDepth, h.callDepth, ?_, h.output, h.functionCount⟩
  rw [h.env]
  cases scope <;> rfl

theorem Views.assign (h : m.Views S scope depth w) (i : FrameId) (name : Name) (value : Value) :
    { m with env := m.env.bindAt i name value }.Views S scope depth (w.assign i name value) :=
  ⟨h.names, h.host, h.clock, h.maxCallDepth, h.callDepth, by rw [h.env]; rfl, h.output,
    h.functionCount⟩

theorem Views.println (h : m.Views S scope depth w) (line : String) :
    { m with output := m.output.println line }.Views S scope depth (w.println line) :=
  ⟨h.names, h.host, h.clock, h.maxCallDepth, h.callDepth, h.env, by rw [h.output]; rfl,
    h.functionCount⟩

/-- The function value that a declaration makes. -/
theorem Views.declare (h : m.Views S scope depth w) (decl : FunctionDecl) :
    { m with
      functionCount := m.functionCount + 1
      env := m.env.define decl.name (.function
        ⟨m.functionCount, m.names.spelling decl.name, decl, m.env.current⟩) }.Views S scope depth
      (S.declare w scope decl) := by
  refine ⟨h.names, h.host, h.clock, h.maxCallDepth, h.callDepth, ?_, h.output, ?_⟩
  · rw [h.env, h.names, h.functionCount]
    cases scope <;> rfl
  · rw [h.functionCount]
    rfl

end Machine

/-- What a machine gives for a result. -/
def Result.halt {α : Type} : Result α → Except Halt α
  | .ok a => .ok a
  | .error e => .error (.failed e)

theorem Result.halt_injective {α : Type} {r r' : Result α} (h : r.halt = r'.halt) : r = r' := by
  cases r with
  | ok a => cases r' with
    | ok b => exact congrArg _ (Except.ok.inj h)
    | error e => cases h
  | error e => cases r' with
    | ok b => cases h
    | error e' => exact congrArg _ (Halt.failed.inj (Except.error.inj h))

namespace Semantics

variable {S : Context} {scope : Scope} {depth : Nat} {α β : Type}

/-- A relation between worlds, with a result. -/
abbrev Meaning (α : Type) := World → Result α → World → Prop

/-- One after the other; the second is left out if the first fails. -/
def Meaning.next (R : Meaning α) (Q : α → Meaning β) : Meaning β := fun w r w' =>
  (∃ a w₁, R w (.ok a) w₁ ∧ Q a w₁ r w') ∨ ∃ e, r = .error e ∧ R w (.error e) w'

/-- Whatever `p` ends with is meant by `R`, and the scope and the depth are those from before. -/
def Follows (S : Context) (scope : Scope) (depth : Nat) (p : Eval α) (R : Meaning α) : Prop :=
  ∀ ⦃w m r m'⦄, m.Views S scope depth w → p m = (Result.halt r, m') →
    ∃ w', m'.Views S scope depth w' ∧ R w r w'

/-- From the world `w`, `p` ends with `r` in the world `w'`. -/
def Reaches (S : Context) (scope : Scope) (depth : Nat) (p : Eval α) (w : World) (r : Result α)
    (w' : World) : Prop :=
  ∀ ⦃m⦄, m.Views S scope depth w → ∃ m', p m = (r.halt, m') ∧ m'.Views S scope depth w'

theorem bind_run (p : Eval α) (f : α → Eval β) (m : Machine) :
    (p >>= f) m = match p m with
      | (.ok a, m') => f a m'
      | (.error h, m') => (.error h, m') := by
  simp only [bind, ExceptT.bind, ExceptT.mk, StateT.bind, ExceptT.bindCont]
  rcases p m with ⟨_ | _, m'⟩ <;> rfl

theorem get_run (f : Machine → Eval α) (m : Machine) : (MonadState.get >>= f) m = f m m := rfl

theorem callNative_run {m : Machine} {w : World} (hm : m.Views S scope depth w) (f : Native)
    (args : List Value) (paren : Span) :
    callNative f args paren m = ((S.native f args paren).halt, m) := by
  rw [callNative, get_run, Context.native, ← hm.host, ← hm.clock]
  rcases m.host[f.id]? with _ | run
  · rfl
  · dsimp only
    rcases run m.clock args with e | value <;> rfl

/-- Announcing a statement changes nothing but the log. -/
theorem announce_run (s : Stmt) (m : Machine) :
    ∃ log, s.announce m = (.ok (), { m with log }) := by
  rw [Stmt.announce, get_run]
  rcases s.shown? with _ | e
  · exact ⟨m.log, rfl⟩
  · dsimp only
    split
    · exact ⟨_, rfl⟩
    · exact ⟨m.log, rfl⟩

/-- A conditional without an `else` has an empty one. -/
theorem exec_block (loops : Nat) (invoke : Invoke) (body : Block) :
    (Stmt.block body).exec loops invoke = (do
      Eval.log (.execute body.span)
      Eval.inFreshScope (Stmt.execAll loops invoke body.stmts)) := by
  cases body
  rw [Stmt.exec]

theorem exec_loop (loops : Nat) (invoke : Invoke) (span : Span) (condition : Expr) (body : Block) :
    (Stmt.loop span condition body).exec loops invoke = (do
      Eval.log (.execute span)
      iterate (condition.test invoke) (Eval.inFreshScope (Stmt.execAll loops invoke body.stmts))
        loops) := by
  cases body
  rw [Stmt.exec]

theorem exec_conditional (loops : Nat) (invoke : Invoke) (span : Span) (condition : Expr)
    (thenBranch : Block) (elseBranch : Option Block) :
    (Stmt.conditional span condition thenBranch elseBranch).exec loops invoke = (do
      Eval.log (.execute span)
      if ← condition.test invoke then
        Eval.inFreshScope (Stmt.execAll loops invoke thenBranch.stmts)
      else
        match elseBranch with
        | none => return .normal
        | some ⟨_, stmts⟩ => Eval.inFreshScope (Stmt.execAll loops invoke stmts)) := by
  cases thenBranch
  rcases elseBranch with _ | ⟨_, _⟩ <;> rw [Stmt.exec]

namespace Follows

variable {p : Eval α} {R : Meaning α}

theorem mono {R' : Meaning α} (h : Follows S scope depth p R)
    (hR : ∀ {w r w'}, R w r w' → R' w r w') : Follows S scope depth p R' := by
  intro w m r m' hm hp
  obtain ⟨w', hm', hr⟩ := h hm hp
  exact ⟨w', hm', hR hr⟩

theorem bind {f : α → Eval β} {Q : α → Meaning β} (hp : Follows S scope depth p R)
    (hf : ∀ a, Follows S scope depth (f a) (Q a)) :
    Follows S scope depth (p >>= f) (R.next Q) := by
  intro w m r m' hm heq
  rw [bind_run] at heq
  rcases hrun : p m with ⟨h | a, m₁⟩
  · rw [hrun] at heq
    obtain ⟨hr, rfl⟩ := Prod.mk.inj heq
    cases r with
    | ok b => cases hr
    | error e =>
      obtain rfl := Except.error.inj hr
      obtain ⟨w', hm', hR⟩ := hp (r := .error e) hm hrun
      exact ⟨w', hm', .inr ⟨e, rfl, hR⟩⟩
  · rw [hrun] at heq
    obtain ⟨w₁, hm₁, hR⟩ := hp (r := .ok a) hm hrun
    obtain ⟨w', hm', hQ⟩ := hf a hm₁ heq
    exact ⟨w', hm', .inl ⟨a, w₁, hR, hQ⟩⟩

/-- What ends at once, with the machine as it was. -/
theorem of_run {r₀ : World → Result α}
    (h : ∀ ⦃w m⦄, m.Views S scope depth w → p m = ((r₀ w).halt, m)) :
    Follows S scope depth p fun w r w' => r = r₀ w ∧ w' = w := by
  intro w m r m' hm heq
  rw [h hm] at heq
  obtain ⟨hr, rfl⟩ := Prod.mk.inj heq
  exact ⟨w, hm, (Result.halt_injective hr).symm, rfl⟩

theorem pure (a : α) : Follows S scope depth (Pure.pure a) fun w r w' => r = .ok a ∧ w' = w :=
  of_run fun _ _ _ => rfl

theorem error (e : EvalError) : Follows S scope depth (throw (.failed e) : Eval α)
    fun w r w' => r = .error e ∧ w' = w :=
  of_run fun _ _ _ => rfl

theorem exhausted : Follows S scope depth (throw .exhausted : Eval α) R := by
  intro w m r m' _ heq
  obtain ⟨hr, -⟩ := Prod.mk.inj heq
  cases r <;> cases hr

theorem update {f : Machine → Machine} {g : World → World}
    (h : ∀ {m w}, m.Views S scope depth w → (f m).Views S scope depth (g w)) :
    Follows S scope depth (modify f) fun w r w' => r = .ok () ∧ w' = g w := by
  intro w m r m' hm heq
  obtain ⟨hr, rfl⟩ := Prod.mk.inj heq
  cases r with
  | ok a => exact ⟨g w, h hm, rfl, rfl⟩
  | error e => cases hr

/-- An entry in the log changes nothing else. -/
theorem log_bind (e : Event) (h : Follows S scope depth p R) :
    Follows S scope depth (Eval.log e >>= fun _ => p) R := by
  intro w m r m' hm heq
  exact h (hm.withLog _) heq

theorem blame (span : Span) (x : Except Fault α) :
    Follows S scope depth (Eval.blame span x) fun w r w' => r = blamed span x ∧ w' = w := by
  cases x with
  | ok a => exact pure a
  | error fault => exact error _

theorem spelling (name : Name) : Follows S scope depth (Eval.spelling name)
    fun w r w' => r = .ok (S.names.spelling name) ∧ w' = w := by
  refine of_run fun w m hm => ?_
  rw [← hm.names]
  rfl

theorem undefined (name : Name) (span : Span) : Follows S scope depth
    (Eval.undefined name span : Eval α) fun w r w' => r = S.undefined name span ∧ w' = w := by
  refine of_run fun w m hm => ?_
  rw [Context.undefined, ← hm.names]
  rfl

theorem ite {q : Eval α} {Q : Meaning α} (hp : Follows S scope depth p R)
    (hq : Follows S scope depth q Q) (c : Bool) : Follows S scope depth (if c then p else q)
      fun w r w' => (c = true ∧ R w r w') ∨ (c = false ∧ Q w r w') := by
  cases c with
  | true => exact hp.mono fun h => .inl ⟨rfl, h⟩
  | false => exact hq.mono fun h => .inr ⟨rfl, h⟩

/-- What goes on after a statement that ends normally. -/
theorem unlessReturned {p : Eval Flow} {R : Meaning Flow} (h : Follows S scope depth p R)
    (flow : Flow) : Follows S scope depth
      (match flow with
        | .normal => p
        | .returned value => return .returned value)
      fun w r w' => (flow = .normal ∧ R w r w') ∨ (flow ≠ .normal ∧ r = .ok flow ∧ w' = w) := by
  cases flow with
  | normal => exact h.mono fun h => .inl ⟨rfl, h⟩
  | returned value => exact (pure _).mono fun h => .inr ⟨nofun, h⟩

/-- What a call makes of the end of its body. -/
theorem value (flow : Flow) : Follows S scope depth
    (match flow with
      | .returned value => return value
      | .normal => return .nil)
    fun w r w' => r = .ok flow.value ∧ w' = w := by
  cases flow <;> exact pure _

/-- What a statement outside all functions makes of its end. -/
theorem atTop (span : Span) (flow : Flow) : Follows S scope depth
    (match flow with
      | .normal => return ()
      | .returned _ => Eval.fail (.internal "`return` reached top-level code") span)
    fun w r w' => r = flow.atTop span ∧ w' = w := by
  cases flow with
  | normal => exact pure ()
  | returned v => exact blame span (.error _)

theorem inside {s : Scope} (h : Follows S s depth p R) :
    Follows S scope depth (Eval.inside s p) R := by
  intro w m r m' hm heq
  rcases hrun : p { m with env := { m.env with current := s } } with ⟨r₁, m₁⟩
  obtain ⟨rfl, rfl⟩ : r₁ = r.halt ∧ { m₁ with env := { m₁.env with current := m.env.current } } =
      m' := by
    rw [Eval.inside, Environment.enter] at heq
    dsimp only at heq
    rw [hrun] at heq
    exact Prod.mk.inj heq
  obtain ⟨w', hm', hR⟩ := h (hm.at s) hrun
  refine ⟨w', ?_, hR⟩
  rw [hm.env]
  exact hm'.at scope

theorem inCall (h : Follows S scope (depth + 1) p R) :
    Follows S scope depth (Eval.inCall p) R := by
  intro w m r m' hm heq
  rcases hrun : p { m with callDepth := m.callDepth + 1 } with ⟨r₁, m₁⟩
  obtain ⟨rfl, rfl⟩ : r₁ = r.halt ∧ { m₁ with callDepth := m₁.callDepth - 1 } = m' := by
    rw [Eval.inCall, hrun] at heq
    exact Prod.mk.inj heq
  rw [hm.callDepth] at hrun
  obtain ⟨w', hm', hR⟩ := h (hm.withDepth (depth + 1)) hrun
  refine ⟨w', ?_, hR⟩
  rw [hm'.callDepth]
  exact hm'.withDepth depth

theorem during (a : Activity) (h : Follows S scope depth p R) :
    Follows S scope depth (Eval.during a p) R := by
  intro w m r m' hm heq
  rcases hrun : p { m with log := m.log.add (.enter a) } with ⟨r₁, m₁⟩
  obtain ⟨rfl, rfl⟩ : r₁ = r.halt ∧ { m₁ with log := m₁.log.add (.exit a) } = m' := by
    rw [Eval.during, hrun] at heq
    exact Prod.mk.inj heq
  obtain ⟨w', hm', hR⟩ := h (hm.withLog _) hrun
  exact ⟨w', hm'.withLog _, hR⟩

theorem loggingErrors (h : Follows S scope depth p R) :
    Follows S scope depth (Eval.loggingErrors p) R := by
  intro w m r m' hm heq
  rw [Eval.loggingErrors] at heq
  split at heq
  next e m₁ hrun =>
    obtain ⟨hr, rfl⟩ := Prod.mk.inj heq
    rw [hr] at hrun
    obtain ⟨w', hm', hR⟩ := h hm hrun
    exact ⟨w', hm'.withLog _, hR⟩
  next => exact h hm heq

/-- What goes on after a frame is made finds it as the last one. -/
theorem newScope_bind {f : Scope → Eval α} {R : Scope → Meaning α}
    (h : ∀ s, Follows S scope depth (f s) (R s)) (outer : Scope) (bindings : Frame) :
    Follows S scope depth (Eval.newScope outer bindings >>= f)
      fun w r w' => R (w.fresh outer) (w.push bindings) r w' := by
  intro w m r m' hm heq
  refine h (w.fresh outer) (hm.push outer bindings) ?_
  rw [← hm.fresh outer bindings]
  exact heq

theorem inFreshScope {R : Scope → Meaning α} (h : ∀ s, Follows S s depth p (R s)) :
    Follows S scope depth (Eval.inFreshScope p)
      fun w r w' => R (w.fresh scope) (w.push []) r w' := by
  intro w m r m' hm heq
  have hcurrent : m.env.current = scope := by rw [hm.env]; rfl
  refine newScope_bind (fun s => inside (h s)) scope [] hm ?_
  rw [← hcurrent]
  exact heq

end Follows

namespace Reaches

variable {p : Eval α} {w w₁ w₂ : World} {r : Result α}

/-- What ends at once, with the machine as it was. -/
theorem of_run (h : ∀ ⦃m⦄, m.Views S scope depth w → p m = (r.halt, m)) :
    Reaches S scope depth p w r w := fun m hm => ⟨m, h hm, hm⟩

theorem pure (a : α) (w : World) : Reaches S scope depth (Pure.pure a) w (.ok a) w :=
  of_run fun _ _ => rfl

theorem bind {f : α → Eval β} {a : α} {r : Result β}
    (hp : Reaches S scope depth p w (.ok a) w₁) (hf : Reaches S scope depth (f a) w₁ r w₂) :
    Reaches S scope depth (p >>= f) w r w₂ := by
  intro m hm
  obtain ⟨m₁, hrun, hm₁⟩ := hp hm
  obtain ⟨m₂, hrun', hm₂⟩ := hf hm₁
  refine ⟨m₂, ?_, hm₂⟩
  rw [bind_run, hrun]
  exact hrun'

theorem bind_error {f : α → Eval β} {e : EvalError}
    (hp : Reaches S scope depth p w (.error e) w₁) :
    Reaches S scope depth (p >>= f) w (.error e) w₁ := by
  intro m hm
  obtain ⟨m₁, hrun, hm₁⟩ := hp hm
  refine ⟨m₁, ?_, hm₁⟩
  rw [bind_run, hrun]
  rfl

/-- What follows only looks at the value. -/
theorem bind_result {f : α → Eval β} {x : α → Result β} (hp : Reaches S scope depth p w r w₁)
    (hf : ∀ a w, Reaches S scope depth (f a) w (x a) w) :
    Reaches S scope depth (p >>= f) w (r.bind x) w₁ := by
  cases r with
  | ok a => exact hp.bind (hf a w₁)
  | error e => exact hp.bind_error

theorem map {f : α → β} (hp : Reaches S scope depth p w r w₁) :
    Reaches S scope depth (p >>= fun a => Pure.pure (f a)) w (r.map f) w₁ := by
  cases r with
  | ok a => exact hp.bind (pure _ w₁)
  | error e => exact hp.bind_error

theorem update {f : Machine → Machine}
    (h : ∀ {m}, m.Views S scope depth w → (f m).Views S scope depth w₁) :
    Reaches S scope depth (modify f) w (.ok ()) w₁ := fun _ hm => ⟨_, rfl, h hm⟩

theorem log_bind (e : Event) (h : Reaches S scope depth p w r w₁) :
    Reaches S scope depth (Eval.log e >>= fun _ => p) w r w₁ := fun _ hm => h (hm.withLog _)

theorem blame (span : Span) (x : Except Fault α) (w : World) :
    Reaches S scope depth (Eval.blame span x) w (blamed span x) w := by
  cases x <;> exact of_run fun _ _ => rfl

theorem spelling (name : Name) (w : World) :
    Reaches S scope depth (Eval.spelling name) w (.ok (S.names.spelling name)) w := by
  refine of_run fun m hm => ?_
  rw [← hm.names]
  rfl

theorem undefined (name : Name) (span : Span) (w : World) :
    Reaches S scope depth (Eval.undefined name span : Eval α) w (S.undefined name span) w := by
  refine of_run fun m hm => ?_
  rw [Context.undefined, ← hm.names]
  rfl

/-- A statement that does not end normally is the last one. -/
theorem unlessReturned {p q : Eval Flow} {r : Result Flow}
    (h : Reaches S scope depth p w r w₁) (hr : r ≠ .ok .normal) :
    Reaches S scope depth (p >>= fun flow => match flow with
      | .normal => q
      | .returned value => return .returned value) w r w₁ := by
  rcases r with e | _ | v
  · exact h.bind_error
  · exact absurd rfl hr
  · exact h.bind (pure _ w₁)

/-- What a call makes of the end of its body. -/
theorem value {p : Eval Flow} {r : Result Flow} (h : Reaches S scope depth p w r w₁) :
    Reaches S scope depth (p >>= fun flow => match flow with
      | .returned value => return value
      | .normal => return .nil) w (r.map Flow.value) w₁ := by
  rcases r with e | _ | v
  · exact h.bind_error
  · exact h.bind (pure _ w₁)
  · exact h.bind (pure _ w₁)

/-- What a statement outside all functions makes of its end. -/
theorem atTop (span : Span) (flow : Flow) (w : World) : Reaches S scope depth
    (match flow with
      | .normal => return ()
      | .returned _ => Eval.fail (.internal "`return` reached top-level code") span)
    w (flow.atTop span) w := by
  cases flow with
  | normal => exact pure () w
  | returned v => exact blame span (.error _) w

theorem inside {s : Scope} (h : Reaches S s depth p w r w₁) :
    Reaches S scope depth (Eval.inside s p) w r w₁ := by
  intro m hm
  obtain ⟨m₁, hrun, hm₁⟩ := h (hm.at s)
  refine ⟨{ m₁ with env := { m₁.env with current := m.env.current } }, ?_, ?_⟩
  · rw [Eval.inside, Environment.enter]
    dsimp only
    rw [hrun]
    rfl
  · rw [hm.env]
    exact hm₁.at scope

theorem inCall (h : Reaches S scope (depth + 1) p w r w₁) :
    Reaches S scope depth (Eval.inCall p) w r w₁ := by
  intro m hm
  obtain ⟨m₁, hrun, hm₁⟩ := h (hm.withDepth (depth + 1))
  refine ⟨{ m₁ with callDepth := m₁.callDepth - 1 }, ?_, ?_⟩
  · rw [Eval.inCall, hm.callDepth, hrun]
  · rw [hm₁.callDepth]
    exact hm₁.withDepth depth

theorem during (a : Activity) (h : Reaches S scope depth p w r w₁) :
    Reaches S scope depth (Eval.during a p) w r w₁ := by
  intro m hm
  obtain ⟨m₁, hrun, hm₁⟩ := h (hm.withLog _)
  refine ⟨{ m₁ with log := m₁.log.add (.exit a) }, ?_, hm₁.withLog _⟩
  rw [Eval.during, hrun]

theorem loggingErrors (h : Reaches S scope depth p w r w₁) :
    Reaches S scope depth (Eval.loggingErrors p) w r w₁ := by
  intro m hm
  obtain ⟨m₁, hrun, hm₁⟩ := h hm
  cases r with
  | ok a => exact ⟨m₁, by rw [Eval.loggingErrors, hrun]; rfl, hm₁⟩
  | error e =>
    exact ⟨{ m₁ with log := m₁.log.add (.runtimeError e.code e.message) },
      by rw [Eval.loggingErrors, hrun]; rfl, hm₁.withLog _⟩

/-- What goes on after a frame is made finds it as the last one. -/
theorem newScope_bind {f : Scope → Eval α} {outer : Scope} {bindings : Frame}
    (h : Reaches S scope depth (f (w.fresh outer)) (w.push bindings) r w₁) :
    Reaches S scope depth (Eval.newScope outer bindings >>= f) w r w₁ := by
  intro m hm
  obtain ⟨m₁, hrun, hm₁⟩ := h (hm.push outer bindings)
  refine ⟨m₁, ?_, hm₁⟩
  rw [← hm.fresh outer bindings] at hrun
  exact hrun

theorem inFreshScope (h : Reaches S (w.fresh scope) depth p (w.push []) r w₁) :
    Reaches S scope depth (Eval.inFreshScope p) w r w₁ := by
  intro m hm
  have hcurrent : m.env.current = scope := by rw [hm.env]; rfl
  obtain ⟨m₁, hrun, hm₁⟩ := newScope_bind (f := fun s => Eval.inside s p) h.inside hm
  refine ⟨m₁, ?_, hm₁⟩
  rw [← hcurrent] at hrun
  exact hrun

end Reaches

end Semantics

end Tarn
