import Tarn.Proofs.Scoping.Confinement
import Tarn.Proofs.Scoping.Operations
import Tarn.Proofs.Semantics.Position

/-! The scopes of running programs. Functions are bound to names in frames, and hold on to frames
themselves; around each other the frames are a tree with the global one as its root. -/
namespace Tarn

open Semantics

/-- The function closes over a scope of the forest. -/
def Parents.Keeps (p : Parents) (n : Nat) (f : Closure) : Prop := p.Scoped n f.scope

/-- If the result is a value, it is as `Q` says. -/
def Result.Gives {α : Type} (Q : α → Prop) (r : Result α) : Prop := ∀ a, r = .ok a → Q a

namespace Result

variable {α β : Type} {Q : α → Prop} {Q' : β → Prop} {r : Result α}

theorem gives_error (e : EvalError) : Result.Gives Q (.error e) := nofun

theorem gives_ok {a : α} (h : Q a) : Result.Gives Q (.ok a) := by
  rintro _ ⟨⟩
  exact h

theorem Gives.map {f : α → β} (h : r.Gives Q) (hf : ∀ a, Q a → Q' (f a)) :
    Result.Gives Q' (r.map f) := by
  cases r with
  | ok a => exact gives_ok (hf a (h a rfl))
  | error e => exact gives_error e

theorem gives_bind_blamed {f : α → Except Fault β} {place : Span} (hf : ∀ a b, f a = .ok b → Q' b) :
    Result.Gives Q' (r.bind fun a => blamed place (f a)) := by
  cases r with
  | error e => exact gives_error e
  | ok a =>
    rw [Except.bind]
    rcases hb : f a with fault | b
    · exact gives_error _
    · exact gives_ok (hf a b hb)

end Result

namespace Semantics

/-- The scope is a chain in a forest with one root, and so are those of all functions in the world. -/
structure Planted (p : Parents) (scope : Scope) (w : World) : Prop where
  forest : p.Forest w.frames.size
  oneRoot : p.OneRoot w.frames.size
  scope : p.Scoped w.frames.size scope
  held : w.Only (p.Keeps w.frames.size)

/-- The world has more frames, and those that it had lie where they lay. -/
structure Grown (p : Parents) (w : World) (p' : Parents) (w' : World) : Prop where
  size : w.frames.size ≤ w'.frames.size
  extends_ : p.Extends w.frames.size p'

/-- What is left behind in `w'` is planted as before, and the functions in it are as `Q` says. -/
def Grows (p : Parents) (scope : Scope) (w : World) (Q : (Closure → Prop) → Prop) (w' : World) : Prop :=
  ∃ p', Grown p w p' w' ∧ Planted p' scope w' ∧ Q (p'.Keeps w'.frames.size)

variable {p p' p'' : Parents} {scope : Scope} {w w' w'' w₁ w₂ : World} {S : Context}
  {Q Q' : (Closure → Prop) → Prop}

theorem Grown.refl : Grown p w p w := ⟨Nat.le_refl _, .refl⟩

theorem Grown.trans (h : Grown p w p' w') (h' : Grown p' w' p'' w'') : Grown p w p'' w'' :=
  ⟨Nat.le_trans h.size h'.size, h.extends_.trans h.size h'.extends_⟩

theorem Grown.scoped (h : Grown p w p' w') {s : Scope} (hs : p.Scoped w.frames.size s) :
    p'.Scoped w'.frames.size s := hs.mono h.extends_ h.size

theorem Grown.value (h : Grown p w p' w') {v : Value} (hv : v.Only (p.Keeps w.frames.size)) :
    v.Only (p'.Keeps w'.frames.size) := fun f hf => h.scoped (hv f hf)

theorem Grown.push {outer : Scope} {bindings : Frame} :
    Grown p w (p.push w.frames.size outer) (w.push bindings) := by
  have hsize : (w.push bindings).frames.size = w.frames.size + 1 := Array.size_push _
  exact ⟨hsize ▸ Nat.le_succ _, Parents.extends_push⟩

namespace Planted

theorem rescope (h : Planted p scope w) {s : Scope} (hs : p.Scoped w.frames.size s) :
    Planted p s w := ⟨h.forest, h.oneRoot, hs, h.held⟩

/-- The world with one more frame, seen from inside this frame. -/
theorem push (h : Planted p scope w) {outer : Scope} {bindings : Frame}
    (houter : p.Scoped w.frames.size outer) (hbindings : bindings.Only (p.Keeps w.frames.size)) :
    Planted (p.push w.frames.size outer) (w.fresh outer) (w.push bindings) := by
  have hgrown : Grown p w (p.push w.frames.size outer) (w.push bindings) := .push
  have hsize : (w.push bindings).frames.size = w.frames.size + 1 := Array.size_push _
  refine ⟨?_, ?_, ?_, ?_⟩
  · rw [hsize]
    exact h.forest.push houter.lt
  · rw [hsize]
    exact h.oneRoot.push houter.chain.ne_nil
  · rw [hsize]
    exact houter.push
  · have hheld : (w.push bindings).Only (p.Keeps w.frames.size) := h.held.push hbindings
    exact fun frame hframe b hb f hf => hgrown.scoped (hheld frame hframe b hb f hf)

end Planted

namespace Grows

theorem refl (hw : Planted p scope w) (hQ : Q (p.Keeps w.frames.size)) : Grows p scope w Q w :=
  ⟨p, .refl, hw, hQ⟩

theorem mono (h : Grows p scope w Q w') (hQ : ∀ P, Q P → Q' P) : Grows p scope w Q' w' := by
  obtain ⟨p', hgrown, hw', h⟩ := h
  exact ⟨p', hgrown, hw', hQ _ h⟩

/-- A value that was there before is still as it should be. -/
theorem keeping (h : Grows p scope w Q w') {v : Value} (hv : v.Only (p.Keeps w.frames.size)) :
    Grows p scope w (fun P => v.Only P ∧ Q P) w' := by
  obtain ⟨p', hgrown, hw', h⟩ := h
  exact ⟨p', hgrown, hw', hgrown.value hv, h⟩

theorem next (h : Grows p scope w Q w₁)
    (h' : ∀ p₁, Planted p₁ scope w₁ → Q (p₁.Keeps w₁.frames.size) → Grows p₁ scope w₁ Q' w₂) :
    Grows p scope w Q' w₂ := by
  obtain ⟨p₁, hgrown, hw₁, hQ⟩ := h
  obtain ⟨p₂, hgrown', hw₂, hQ'⟩ := h' p₁ hw₁ hQ
  exact ⟨p₂, hgrown.trans hgrown', hw₂, hQ'⟩

/-- What happens in a new frame happens in the same forest. -/
theorem enter {outer : Scope} {bindings : Frame} (hw : Planted p scope w)
    (houter : p.Scoped w.frames.size outer) (hbindings : bindings.Only (p.Keeps w.frames.size))
    (h : Planted (p.push w.frames.size outer) (w.fresh outer) (w.push bindings) →
      Grows (p.push w.frames.size outer) (w.fresh outer) (w.push bindings) Q w') :
    Grows p scope w Q w' := by
  obtain ⟨p', hgrown, hw', hQ⟩ := h (hw.push houter hbindings)
  have hgrown' := Grown.push.trans hgrown
  exact ⟨p', hgrown', hw'.rescope (hgrown'.scoped hw.scope), hQ⟩

/-- Without a new frame the forest is the same. -/
theorem of_size (hw : Planted p scope w) (hsize : w'.frames.size = w.frames.size)
    (hheld : w'.Only (p.Keeps w.frames.size)) (hQ : Q (p.Keeps w.frames.size)) :
    Grows p scope w Q w' := by
  refine ⟨p, ⟨Nat.le_of_eq hsize.symm, .refl⟩, ⟨?_, ?_, ?_, ?_⟩, ?_⟩
  · exact hsize ▸ hw.forest
  · exact hsize ▸ hw.oneRoot
  · exact hsize ▸ hw.scope
  · exact hsize ▸ hheld
  · exact hsize ▸ hQ

end Grows

mutual

/-- An expression leaves the forest as it is or with more frames, and its value, if that is a
function, closes over a scope in it. -/
theorem Evaluates.planted (hS : ∀ P, S.Only P) {p : Parents} {scope : Scope} {depth : Nat}
    {w w' : World} {e : Expr} {r : Result Value} : Evaluates S scope depth w e r w' →
    Planted p scope w → Grows p scope w (fun P => r.Gives (Value.Only P)) w'
  | .literal, hw => .refl hw (Result.gives_ok (S.only_literal _))
  | .var h, hw => .refl hw (Result.gives_ok (hw.held.lookup h))
  | .undefined _, hw => .refl hw (Result.gives_error _)
  | .grouping h, hw => h.planted hS hw
  | .unary h, hw => (h.planted hS hw).mono fun _ _ =>
      Result.gives_bind_blamed fun _ _ => UnaryOp.only_apply _ _
  | .binary h h', hw => (h.planted hS hw).next fun _ hw₁ _ =>
      (h'.planted hS hw₁).mono fun _ _ =>
        Result.gives_bind_blamed fun _ _ => BinaryOp.only_apply _ _ _
  | .binaryFails h, hw | .logicalFails h, hw | .assignFails h, hw | .calleeFails h, hw =>
      (h.planted hS hw).mono fun _ _ => Result.gives_error _
  | .decided h _, hw => h.planted hS hw
  | .undecided h _ h', hw => (h.planted hS hw).next fun _ hw₁ _ => h'.planted hS hw₁
  | .assign (v := v) h _, hw => (h.planted hS hw).next fun _ hw₁ hv =>
      .of_size hw₁ (Array.size_modify ..) (hw₁.held.assign _ _ (hv v rfl)) hv
  | .assignUndefined h _, hw => (h.planted hS hw).mono fun _ _ => Result.gives_error _
  | .call hf ha h, hw => (hf.planted hS hw).next fun _ hw₁ hv =>
      ((ha.planted hS hw₁).keeping (hv _ rfl)).next fun _ hw₂ hvs =>
        h.planted hS hw₂ hvs.1 (hvs.2 _ rfl)
  | .argumentsFail hf ha, hw => (hf.planted hS hw).next fun _ hw₁ _ =>
      (ha.planted hS hw₁).mono fun _ _ => Result.gives_error _

theorem EvaluatesAll.planted (hS : ∀ P, S.Only P) {p : Parents} {scope : Scope} {depth : Nat}
    {w w' : World} {es : List Expr} {r : Result (List Value)} : EvaluatesAll S scope depth w es r w' →
    Planted p scope w → Grows p scope w (fun P => r.Gives fun vs => ∀ v ∈ vs, v.Only P) w'
  | .nil, hw => .refl hw (Result.gives_ok nofun)
  | .cons (v := v) h hs, hw => (h.planted hS hw).next fun _ hw₁ hv =>
      ((hs.planted hS hw₁).keeping (hv v rfl)).mono fun _ hvs =>
        hvs.2.map fun _ hrest => List.forall_mem_cons.2 ⟨hvs.1, hrest⟩
  | .fails h, hw => (h.planted hS hw).mono fun _ _ => Result.gives_error _

/-- The frame of a call lies in the scope that the function closes over. -/
theorem Applies.planted (hS : ∀ P, S.Only P) {p : Parents} {scope : Scope} {depth : Nat}
    {w w' : World} {v : Value} {args : List Value} {paren : Span} {r : Result Value} :
    Applies S depth w v args paren r w' → Planted p scope w → v.Only (p.Keeps w.frames.size) →
    (∀ a ∈ args, a.Only (p.Keeps w.frames.size)) →
    Grows p scope w (fun P => r.Gives (Value.Only P)) w'
  | .notCallable .., hw, _, _ | .arity _, hw, _, _ | .nativeArity _, hw, _, _
  | .tooDeep .., hw, _, _ => .refl hw (Result.gives_error _)
  | .native (f := f) _, hw, _, hargs => by
    refine .refl hw ?_
    rw [Context.native]
    rcases hrun : S.host[f.id]? with _ | run
    · exact Result.gives_error _
    · dsimp only
      rcases hresult : run S.clock args with e | v
      · exact Result.gives_error _
      · exact Result.gives_ok (hS _ run (Array.mem_of_getElem? hrun) S.clock args v hargs hresult)
  | .body (f := f) _ _ hb, hw, hf, hargs =>
      .enter hw (hf f rfl) (Frame.only_bindParams f.decl.params hargs) fun hw₁ =>
        (hb.planted hS hw₁).mono fun _ hr => hr.map fun _ hflow => hflow.value

theorem EvaluatesOption.planted (hS : ∀ P, S.Only P) {p : Parents} {scope : Scope} {depth : Nat}
    {w w' : World} {value : Option Expr} {r : Result Value} :
    EvaluatesOption S scope depth w value r w' → Planted p scope w →
    Grows p scope w (fun P => r.Gives (Value.Only P)) w'
  | .none, hw => .refl hw (Result.gives_ok (Value.only_of_ne nofun))
  | .some h, hw => h.planted hS hw

/-- A function that is declared closes over the scope of its declaration. -/
theorem Executes.planted (hS : ∀ P, S.Only P) {p : Parents} {scope : Scope} {depth : Nat}
    {w w' : World} {s : Stmt} {r : Result Flow} : Executes S scope depth w s r w' →
    Planted p scope w → Grows p scope w (fun P => r.Gives (Flow.Only P)) w'
  | .block h, hw => .enter hw hw.scope Frame.only_nil fun hw₁ => h.planted hS hw₁
  | .expression h, hw => (h.planted hS hw).mono fun _ hr => hr.map fun _ _ => trivial
  | .function, hw => .of_size hw (World.size_define ..) (hw.held.declare S scope fun _ _ => hw.scope)
      (Result.gives_ok trivial)
  | .thenBranch h _ hb, hw | .elseBranch h _ hb, hw => (h.planted hS hw).next fun _ hw₁ _ =>
      .enter hw₁ hw₁.scope Frame.only_nil fun hw₂ => hb.planted hS hw₂
  | .noBranch h _, hw => (h.planted hS hw).mono fun _ _ => Result.gives_ok trivial
  | .conditionFails h, hw | .printFails h, hw =>
      (h.planted hS hw).mono fun _ _ => Result.gives_error _
  | .print (v := v) h, hw => (h.planted hS hw).next fun _ hw₁ _ =>
      .of_size hw₁ rfl (hw₁.held.println v.toString) (Result.gives_ok trivial)
  | .result h, hw => (h.planted hS hw).mono fun _ hr => hr.map fun _ hv => hv
  | .loop h, hw => h.planted hS hw
  | .var (v := v) h, hw => (h.planted hS hw).next fun _ hw₁ hv =>
      .of_size hw₁ (World.size_define ..) (hw₁.held.define _ _ (hv v rfl)) (Result.gives_ok trivial)
  | .varFails h, hw => (h.planted hS hw).mono fun _ _ => Result.gives_error _

theorem ExecutesAll.planted (hS : ∀ P, S.Only P) {p : Parents} {scope : Scope} {depth : Nat}
    {w w' : World} {ss : List Stmt} {r : Result Flow} : ExecutesAll S scope depth w ss r w' →
    Planted p scope w → Grows p scope w (fun P => r.Gives (Flow.Only P)) w'
  | .nil, hw => .refl hw (Result.gives_ok trivial)
  | .cons h hs, hw => (h.planted hS hw).next fun _ hw₁ _ => hs.planted hS hw₁
  | .stops h _, hw => h.planted hS hw

theorem Loops.planted (hS : ∀ P, S.Only P) {p : Parents} {scope : Scope} {depth : Nat}
    {w w' : World} {condition : Expr} {stmts : List Stmt} {r : Result Flow} :
    Loops S scope depth w condition stmts r w' → Planted p scope w →
    Grows p scope w (fun P => r.Gives (Flow.Only P)) w'
  | .done h _, hw => (h.planted hS hw).mono fun _ _ => Result.gives_ok trivial
  | .round h _ hb hl, hw => (h.planted hS hw).next fun _ hw₁ _ =>
      .next (.enter hw₁ hw₁.scope Frame.only_nil fun hw₂ => hb.planted hS hw₂) fun _ hw₃ _ =>
        hl.planted hS hw₃
  | .stops h _ hb _, hw => (h.planted hS hw).next fun _ hw₁ _ =>
      .enter hw₁ hw₁.scope Frame.only_nil fun hw₂ => hb.planted hS hw₂
  | .fails h, hw => (h.planted hS hw).mono fun _ _ => Result.gives_error _

end

theorem Runs.planted (hS : ∀ P, S.Only P) {p : Parents} {scope : Scope} {depth : Nat}
    {w w' : World} {stmts : List Stmt} {r : Result Unit} (h : Runs S scope depth w stmts r w')
    (hw : Planted p scope w) : Grows p scope w (fun _ => True) w' := by
  induction h generalizing p with
  | nil => exact .refl hw trivial
  | cons h _ ih => exact (h.planted hS hw).next fun _ hw₁ _ => ih hw₁
  | fails h | returns h => exact (h.planted hS hw).mono fun _ _ => trivial

end Semantics

/-- All functions among the values that the job is about are as `P` says. -/
def Job.Only (P : Closure → Prop) : Job → Prop
  | .call f values _ => f.Only P ∧ ∀ v ∈ values, v.Only P
  | _ => True

/-- The task stands in the forest, with all functions that it has at hand. -/
structure Task.Planted (p : Parents) (t : Task) : Prop where
  world : Semantics.Planted p t.scope t.world
  job : t.job.Only (p.Keeps t.world.frames.size)

namespace Semantics

variable {S : Context} {p : Parents}

/-- Whatever a task has done before it comes to one of its parts, the part stands in the forest. -/
theorem Spawns.planted (hS : ∀ P, S.Only P) {t t' : Task} (h : Spawns S t t') (ht : t.Planted p) :
    ∃ p', Grown p t.world p' t'.world ∧ t'.Planted p' := by
  obtain ⟨hw, hjob⟩ := ht
  cases h with
  | grouping | operand | left | deciding | assigned | callee | argument | expression | condition
  | print | result | var | some | loop | test | statement => exact ⟨p, .refl, hw, trivial⟩
  | right h | undecided h | arguments h | otherArguments h =>
    obtain ⟨p', hgrown, hw', -⟩ := h.planted hS hw
    exact ⟨p', hgrown, hw', trivial⟩
  | otherStatements h =>
    obtain ⟨p', hgrown, hw', -⟩ := h.planted hS hw
    exact ⟨p', hgrown, hw', trivial⟩
  | called hf ha =>
    obtain ⟨p', hgrown, hw', hf, hargs⟩ := (hf.planted hS hw).next fun _ hw₁ hv =>
      (ha.planted hS hw₁).keeping (hv _ rfl)
    exact ⟨p', hgrown, hw', hf, hargs _ rfl⟩
  | body =>
    obtain ⟨hf, hargs⟩ := hjob
    exact ⟨_, .push, hw.push (hf _ rfl) (Frame.only_bindParams _ hargs), trivial⟩
  | block => exact ⟨_, .push, hw.push hw.scope Frame.only_nil, trivial⟩
  | thenBranch h | elseBranch h | round h =>
    obtain ⟨p', hgrown, hw', -⟩ := h.planted hS hw
    exact ⟨_, hgrown.trans .push, hw'.push hw'.scope Frame.only_nil, trivial⟩
  | again h hv hb =>
    obtain ⟨p', hgrown, hw', -⟩ := (h.planted hS hw).next fun _ hw₁ _ =>
      .enter hw₁ hw₁.scope Frame.only_nil fun hw₂ => hb.planted hS hw₂
    exact ⟨p', hgrown, hw', trivial⟩

/-- `Within S t stack t'`: in the course of the task `t` comes `t'`, and `stack` are the scopes of the
tasks that have it as a part, the innermost first. To these scopes the machine comes back. -/
inductive Within (S : Context) (t : Task) : List Scope → Task → Prop where
  | start : Within S t [] t
  | part {stack t₁ t₂} (h : Within S t stack t₁) (hspawns : Spawns S t₁ t₂) :
      Within S t (t₁.scope :: stack) t₂

theorem Within.planted (hS : ∀ P, S.Only P) {t t' : Task} {stack : List Scope}
    (h : Within S t stack t') (ht : t.Planted p) :
    ∃ p', t'.Planted p' ∧ ∀ s ∈ stack, p'.Scoped t'.world.frames.size s := by
  induction h with
  | start => exact ⟨p, ht, nofun⟩
  | part _ hspawns ih =>
    obtain ⟨p₁, ht₁, hstack⟩ := ih
    obtain ⟨p₂, hgrown, ht₂⟩ := hspawns.planted hS ht₁
    exact ⟨p₂, ht₂, List.forall_mem_cons.2 ⟨hgrown.scoped ht₁.world.scope, fun s hs =>
      hgrown.scoped (hstack s hs)⟩⟩

end Semantics

/-- The scopes that are in use while the task begins: its own, those of the tasks around it, and those
that functions close over, in frames or among the values at hand. -/
inductive Task.Uses (t : Task) (stack : List Scope) : Scope → Prop where
  | current : Uses t stack t.scope
  | around {s} (h : s ∈ stack) : Uses t stack s
  | held {f} (h : t.world.Holds f) : Uses t stack f.scope
  | called {f args paren} (h : t.job = .call (.function f) args paren) : Uses t stack f.scope
  | passed {f args paren v} (h : t.job = .call v args paren) (hf : .function f ∈ args) :
      Uses t stack f.scope

theorem Task.Planted.scoped {t : Task} {stack : List Scope} {p : Parents} (ht : t.Planted p)
    (hstack : ∀ s ∈ stack, p.Scoped t.world.frames.size s) {s : Scope} (hs : t.Uses stack s) :
    p.Scoped t.world.frames.size s := by
  obtain ⟨hw, hjob⟩ := ht
  cases hs with
  | current => exact hw.scope
  | around h => exact hstack s h
  | held h => exact World.only_iff.1 hw.held _ h
  | called h =>
    rw [h] at hjob
    exact hjob.1 _ rfl
  | passed h hf =>
    rw [h] at hjob
    exact hjob.2 _ hf _ rfl

namespace Machine

variable {m : Machine}

theorem Interpreter.planted (h : m.Interpreter) (hhost : ∀ P, m.context.Only P) :
    ∃ p, Semantics.Planted p m.env.current m.world := by
  induction h with
  | @fresh m henv hdepth =>
    have hworld : m.world = ⟨#[[]], m.output, m.functionCount⟩ := by rw [world, henv]
    rw [hworld, henv]
    refine ⟨fun _ => none, ?_, fun i hi _ => Nat.lt_one_iff.1 hi, ?_, ?_⟩
    · rintro i - j ⟨⟩
    · exact ⟨.root rfl, fun _ hi => List.mem_singleton.1 hi ▸ Nat.one_pos⟩
    · exact Environment.only_default
  | @defineNative m name arity f h ih =>
    have hold : ∀ P, m.context.Only P :=
      fun P run hrun => hhost P run (Array.mem_push_of_mem _ hrun)
    obtain ⟨p, hw⟩ := ih hold
    have hsize : (m.defineNative name arity f).world.frames.size = m.world.frames.size :=
      Array.size_modify ..
    refine ⟨p, hsize ▸ hw.forest, hsize ▸ hw.oneRoot, hsize ▸ hw.scope, ?_⟩
    rw [hsize]
    refine (hw.held.env []).defineIn Environment.global _ (Value.only_of_ne ?_)
    rintro f ⟨⟩
  | meanwhile names output clock log h ih =>
    obtain ⟨p, hw⟩ := ih hhost
    exact ⟨p, hw.forest, hw.oneRoot, hw.scope, hw.held⟩
  | @interpret m m' loops stmts r h hrun ih =>
    obtain ⟨w', hm', hruns⟩ := follows_interpret loops stmts m.views_world hrun
    have hold : ∀ P, m.context.Only P := by
      intro P run hhost'
      refine hhost P run ?_
      rw [context, hm'.host]
      exact hhost'
    obtain ⟨p, hw⟩ := ih hold
    obtain ⟨p', -, hw', -⟩ := hruns.planted hold hw
    have hcurrent : m'.env.current = m.env.current := by
      rw [hm'.env]
      rfl
    rw [hm'.world_eq, hcurrent]
    exact ⟨p', hw'⟩

/-- At every moment of every run, all scopes that are in use are chains in one forest of frames, which
has the global scope as its only root. Lookups and assignments in them end, and take hold of no frame
twice. -/
theorem Interpreter.scopes_in_use (h : m.Interpreter) (hhost : ∀ P, m.context.Only P)
    {stmts : List Stmt} {stack : List Scope} {t : Task}
    (ht : Within m.context (m.task stmts) stack t) : ∃ p : Parents,
      p.Forest t.world.frames.size ∧ p.OneRoot t.world.frames.size ∧
        ∀ s, t.Uses stack s → p.Sound (t.world.env s) s ∧ s.getLast? = some 0 := by
  obtain ⟨p, hw⟩ := h.planted hhost
  have hstart : (m.task stmts).Planted p := ⟨hw, trivial⟩
  obtain ⟨p', hplanted, hstack⟩ := ht.planted hhost hstart
  have hforest := hplanted.world.forest
  have hroot := hplanted.world.oneRoot
  refine ⟨p', hforest, hroot, fun s hs => ?_⟩
  have hscoped := hplanted.scoped hstack hs
  exact ⟨hscoped.sound hforest _, hscoped.getLast?_eq hroot⟩

end Machine

/-- Scopes are chains in a forest of frames, in which lookups and assignments end and take hold of no
frame twice. The global scope is the only root at every moment of every program; in the hands of a
host it is, as long as no scope is copied that lies in no other. -/
theorem scopes_form_a_forest (ops : List Operation) :
    (∃ p : Parents, p.Forest (Workspace.after ops).env.frames.size ∧
      (∀ s ∈ (Workspace.after ops).scopes, p.Sound (Workspace.after ops).env s) ∧
      ((∀ s ∈ (Workspace.after ops).scopes, s.getLast? = some 0) ↔ Workspace.NoRootCloned ops)) ∧
    ∀ m : Machine, m.Interpreter → (∀ P, m.context.Only P) →
      ∀ (stmts : List Stmt) (stack : List Scope) (t : Task),
        Within m.context (m.task stmts) stack t → ∃ p : Parents,
          p.Forest t.world.frames.size ∧ p.OneRoot t.world.frames.size ∧
            ∀ s, t.Uses stack s → p.Sound (t.world.env s) s ∧ s.getLast? = some 0 :=
  ⟨Workspace.scopes_after ops, fun _ h hhost _ _ _ => h.scopes_in_use hhost⟩

/-- The scope that a function closes over. -/
def Value.scope? : Value → Option Scope
  | .function f => some f.scope
  | _ => none

/-- The variable of a block is seen by a function that is kept when the block has ended. -/
def leftover : CompileOutput × Machine :=
  ({} : Machine).compile
    "var f; \x7b var own = true; fun inner() \x7b return own; \x7d f = inner; \x7d"

/-- The copy of the global scope is a second root. The kept function closes over the scope of the
block, which is a chain up to the one root. -/
theorem scopes_form_a_forest_leftover :
    (¬ ∀ s ∈ (Workspace.after [.save .current, .clone (.saved 0)]).scopes, s.getLast? = some 0) ∧
    ∃ m f p, interpret 1 leftover.1.statements leftover.2 = (.ok (), m) ∧ m.world.Holds f ∧
      f.scope = [1, 0] ∧ Parents.Sound p (m.world.env f.scope) f.scope := by
  constructor
  · obtain ⟨⟨-, -, -, hglobal⟩, -⟩ := scopes_form_a_forest [.save .current, .clone (.saved 0)]
    intro hall
    exact hglobal.1 hall [.save .current] (.clone (.saved 0)) [] rfl ⟨[0], rfl, rfl⟩
  · have hends : (interpret 1 leftover.1.statements leftover.2).1 = .ok () := by decide +kernel
    have hkept : (((interpret 1 leftover.1.statements leftover.2).2.env.frame 0).find? ⟨1⟩).bind
        Value.scope? = some [1, 0] := by decide +kernel
    have hhost : (interpret 1 leftover.1.statements leftover.2).2.host.size = 0 := by
      decide +kernel
    rcases hrun : interpret 1 leftover.1.statements leftover.2 with ⟨r, m⟩
    rw [hrun] at hends hkept hhost
    obtain rfl : r = Result.halt (.ok ()) := hends
    obtain ⟨v, hv, hscope⟩ := Option.bind_eq_some_iff.1 hkept
    cases v with
    | function f =>
      have hfresh : ({} : Machine).Interpreter := .fresh rfl rfl
      have hm : m.Interpreter := .interpret 1 _ _ (.meanwhile _ _ _ _ hfresh) hrun
      have hheld : m.world.Holds f := by
        have hall : m.world.Only m.world.Holds := World.only_iff.2 fun _ h => h
        exact ((hall.env []).frame 0).find? hv f rfl
      have honly : ∀ P, m.context.Only P := by
        intro P run hrun
        change run ∈ m.host at hrun
        rw [Array.eq_empty_of_size_eq_zero hhost] at hrun
        exact absurd hrun (Array.not_mem_empty run)
      obtain ⟨-, hforest⟩ := scopes_form_a_forest []
      obtain ⟨p, -, -, hsound⟩ := hforest m hm honly [] [] _ .start
      exact ⟨m, f, p, rfl, hheld, Option.some.inj hscope, (hsound _ (.held hheld)).1⟩
    | _ => cases hscope

end Tarn
