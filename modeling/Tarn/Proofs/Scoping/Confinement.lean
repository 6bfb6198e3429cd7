import Tarn.Proofs.Scoping.Bindings
import Tarn.Proofs.Semantics.Origin
import Tarn.Proofs.Semantics.Position

/-! What a running program does to the frames that there were when it began. Only an assignment that
is carried out, and a declaration in the innermost of these frames, leaves a trace in them. -/
namespace Tarn

open Semantics

/-- The name that a declaration binds. -/
def Stmt.declared? : Stmt → Option Name
  | .function _ decl => some decl.name
  | .var _ name _ _ => some name
  | _ => none

namespace Frame

/-- A name that is not bound is bound behind the others. -/
theorem names_bind_new {f : Frame} {name : Name} (h : f.binds name = false) (value : Value) :
    (f.bind name value).names = f.names ++ [name] := by
  induction f with
  | nil => rfl
  | cons b f ih =>
    obtain ⟨n, v⟩ := b
    unfold bind
    unfold binds find? at h
    by_cases hn : n = name
    · rw [if_pos hn] at h
      cases h
    · rw [if_neg hn] at h
      rw [if_neg hn]
      exact congrArg (n :: ·) (ih h)

end Frame

namespace World

def frame (w : World) (i : FrameId) : Frame := (w.env []).frame i

variable {w : World} {i j : FrameId} {name other : Name} {v : Value}

theorem frame_push (bindings : Frame) (hi : i < w.frames.size) :
    (w.push bindings).frame i = w.frame i := by
  have hchild := Environment.frame_child (w.env []) [] bindings i
  have hold : i ≠ (w.env []).frames.size := Nat.ne_of_lt hi
  rw [if_neg hold] at hchild
  exact hchild

/-- An assignment changes one binding. -/
theorem find?_assign (hother : ((w.assign i name v).frame j).find? other ≠ (w.frame j).find? other) :
    i = j ∧ name = other := by
  have hframe : (w.assign i name v).frame j =
      if i = j ∧ i < w.frames.size then (w.frame j).bind name v else w.frame j :=
    Environment.frame_bindAt (w.env []) i j name v
  rw [hframe] at hother
  split at hother
  next hij =>
    rw [Frame.find?_bind] at hother
    split at hother
    next hname => exact ⟨hij.1, hname⟩
    next => exact absurd rfl hother
  next => exact absurd rfl hother

/-- A declaration changes one binding, in the innermost frame of the scope. -/
theorem find?_define {scope : Scope}
    (hother : ((w.define scope name v).frame j).find? other ≠ (w.frame j).find? other) :
    scope.head? = some j ∧ name = other := by
  cases scope with
  | nil => exact absurd rfl hother
  | cons i scope =>
    obtain ⟨rfl, hname⟩ := find?_assign (i := i) hother
    exact ⟨rfl, hname⟩

theorem size_define (w : World) (scope : Scope) (name : Name) (v : Value) :
    (w.define scope name v).frames.size = w.frames.size := by
  cases scope with
  | nil => rfl
  | cons i scope => exact Array.size_modify ..

end World

namespace Semantics

/-- In the course of the task an assignment to the name was carried out, when the nearest binding of
the name was in the frame. -/
def Assigned (S : Context) (t : Task) (i : FrameId) (name : Name) : Prop :=
  ∃ scope depth w w' span nameSpan value v,
    Comprises S t ⟨scope, depth, w, .expr (.assign span name nameSpan value)⟩ ∧
    Evaluates S scope depth w value (.ok v) w' ∧ (w'.env scope).owner? scope name = some i

theorem Assigned.step {S : Context} {t t' : Task} {i : FrameId} {name : Name} (ht : Spawns S t t')
    (h : Assigned S t' i name) : Assigned S t i name := by
  obtain ⟨scope, depth, w, w', span, nameSpan, value, v, hpart, hassign⟩ := h
  exact ⟨scope, depth, w, w', span, nameSpan, value, v, hpart.head ht, hassign⟩

/-- Between the beginning of the task and the world `w'`, the bindings in frames that there were have
changed only by assignments of the task, and as `may` allows. -/
structure Confined (S : Context) (may : FrameId → Name → Prop) (t : Task) (w' : World) : Prop where
  size : t.world.frames.size ≤ w'.frames.size
  slot {i : FrameId} {name : Name} (hi : i < t.world.frames.size)
    (hne : (w'.frame i).find? name ≠ (t.world.frame i).find? name) :
    Assigned S t i name ∨ may i name

namespace Confined

variable {S : Context} {may : FrameId → Name → Prop} {t : Task} {w₁ w₂ : World} {scope : Scope}
  {depth : Nat} {job : Job}

theorem refl : Confined S may t t.world := ⟨Nat.le_refl _, fun _ hne => absurd rfl hne⟩

/-- A part of the task goes on where the parts before it have ended. -/
theorem next (h : Confined S may t w₁) (ht : Spawns S t ⟨scope, depth, w₁, job⟩)
    (h' : Confined S may ⟨scope, depth, w₁, job⟩ w₂) : Confined S may t w₂ := by
  refine ⟨Nat.le_trans h.size h'.size, fun {i name} hi hne => ?_⟩
  by_cases hsame : (w₂.frame i).find? name = (w₁.frame i).find? name
  · exact h.slot hi (hsame ▸ hne)
  · exact (h'.slot (Nat.lt_of_lt_of_le hi h.size) hsame).imp_left (Assigned.step ht)

/-- What a part declares in a new frame is not declared in frames that there were. -/
theorem enter {bindings : Frame} (h : Confined S may t w₁)
    (ht : Spawns S t ⟨scope, depth, w₁.push bindings, job⟩)
    (h' : Confined S (fun i _ => i = w₁.frames.size) ⟨scope, depth, w₁.push bindings, job⟩ w₂) :
    Confined S may t w₂ := by
  have hsize : (w₁.push bindings).frames.size = w₁.frames.size + 1 := Array.size_push _
  have hle : w₁.frames.size + 1 ≤ w₂.frames.size := hsize ▸ h'.size
  refine ⟨Nat.le_trans h.size (Nat.le_of_succ_le hle), fun {i name} hi hne => ?_⟩
  have hi₁ : i < w₁.frames.size := Nat.lt_of_lt_of_le hi h.size
  by_cases hsame : (w₂.frame i).find? name = (w₁.frame i).find? name
  · exact h.slot hi (hsame ▸ hne)
  · have hinner : i < (w₁.push bindings).frames.size := hsize ▸ Nat.lt_succ_of_lt hi₁
    rw [← World.frame_push bindings hi₁] at hsame
    obtain hassigned | hnew := h'.slot hinner hsame
    · exact .inl (hassigned.step ht)
    · exact absurd hnew (Nat.ne_of_lt hi₁)

theorem assign {i : FrameId} {name : Name} (h : Confined S may t w₁) (hi : Assigned S t i name)
    (v : Value) : Confined S may t (w₁.assign i name v) := by
  refine ⟨?_, fun {j other} hj hne => ?_⟩
  · exact Nat.le_trans h.size (Nat.le_of_eq (Array.size_modify ..).symm)
  · by_cases hsame : ((w₁.assign i name v).frame j).find? other = (w₁.frame j).find? other
    · exact h.slot hj (hsame ▸ hne)
    · obtain ⟨rfl, rfl⟩ := World.find?_assign hsame
      exact .inl hi

theorem define {name : Name} (h : Confined S may t w₁)
    (hmay : ∀ i, scope.head? = some i → may i name) (v : Value) :
    Confined S may t (w₁.define scope name v) := by
  refine ⟨?_, fun {j other} hj hne => ?_⟩
  · exact Nat.le_trans h.size (Nat.le_of_eq (World.size_define ..).symm)
  · by_cases hsame : ((w₁.define scope name v).frame j).find? other = (w₁.frame j).find? other
    · exact h.slot hj (hsame ▸ hne)
    · obtain ⟨hhead, rfl⟩ := World.find?_define hsame
      exact .inr (hmay j hhead)

end Confined

mutual

theorem Evaluates.confined {S : Context} {may : FrameId → Name → Prop} {scope : Scope}
    {depth : Nat} {w w' : World} {e : Expr} {r : Result Value} :
    Evaluates S scope depth w e r w' → Confined S may ⟨scope, depth, w, .expr e⟩ w'
  | .literal | .var _ | .undefined _ => .refl
  | .grouping h => .next .refl .grouping h.confined
  | .unary h => .next .refl .operand h.confined
  | .binary h h' => .next (.next .refl .left h.confined) (.right h) h'.confined
  | .binaryFails h => .next .refl .left h.confined
  | .decided h _ => .next .refl .deciding h.confined
  | .undecided h ha h' => .next (.next .refl .deciding h.confined) (.undecided h ha) h'.confined
  | .logicalFails h => .next .refl .deciding h.confined
  | .assign h hi => .assign (.next .refl .assigned h.confined) ⟨_, _, _, _, _, _, _, _, .refl, h, hi⟩ _
  | .assignUndefined h _ | .assignFails h => .next .refl .assigned h.confined
  | .call hf ha h => .next (.next (.next .refl .callee hf.confined) (.arguments hf) ha.confined)
      (.called hf ha) h.confined
  | .calleeFails hf => .next .refl .callee hf.confined
  | .argumentsFail hf ha => .next (.next .refl .callee hf.confined) (.arguments hf) ha.confined

theorem EvaluatesAll.confined {S : Context} {may : FrameId → Name → Prop} {scope : Scope}
    {depth : Nat} {w w' : World} {es : List Expr} {r : Result (List Value)} :
    EvaluatesAll S scope depth w es r w' → Confined S may ⟨scope, depth, w, .args es⟩ w'
  | .nil => .refl
  | .cons h hs => .next (.next .refl .argument h.confined) (.otherArguments h) hs.confined
  | .fails h => .next .refl .argument h.confined

theorem Applies.confined {S : Context} {may : FrameId → Name → Prop} {scope : Scope}
    {depth : Nat} {w w' : World} {f : Value} {args : List Value} {paren : Span} {r : Result Value} :
    Applies S depth w f args paren r w' → Confined S may ⟨scope, depth, w, .call f args paren⟩ w'
  | .notCallable .. | .arity _ | .nativeArity _ | .native _ | .tooDeep .. => .refl
  | .body h hd hb => .enter .refl (.body h hd) (hb.confined fun _ hi _ => (Option.some.inj hi).symm)

theorem EvaluatesOption.confined {S : Context} {may : FrameId → Name → Prop} {scope : Scope}
    {depth : Nat} {w w' : World} {value : Option Expr} {r : Result Value} :
    EvaluatesOption S scope depth w value r w' → Confined S may ⟨scope, depth, w, .option value⟩ w'
  | .none => .refl
  | .some h => .next .refl .some h.confined

/-- What a statement declares has to be allowed in the innermost frame. -/
theorem Executes.confined {S : Context} {may : FrameId → Name → Prop} {scope : Scope}
    {depth : Nat} {w w' : World} {s : Stmt} {r : Result Flow} : Executes S scope depth w s r w' →
    (∀ name, s.declared? = some name → ∀ i, scope.head? = some i → may i name) →
    Confined S may ⟨scope, depth, w, .stmt s⟩ w'
  | .block h, _ => .enter .refl .block (h.confined fun _ hi _ => (Option.some.inj hi).symm)
  | .expression h, _ => .next .refl .expression h.confined
  | .function, hmay => by
    have hcounted (s : Stmt) : Confined S may ⟨scope, depth, w, .stmt s⟩
        { w with functionCount := w.functionCount + 1 } :=
      ⟨Nat.le_refl _, fun _ hne => absurd rfl hne⟩
    exact (hcounted _).define (hmay _ rfl) _
  | .thenBranch h hv hb, _ => .enter (.next .refl .condition h.confined) (.thenBranch h hv)
      (hb.confined fun _ hi _ => (Option.some.inj hi).symm)
  | .elseBranch h hv hb, _ => .enter (.next .refl .condition h.confined) (.elseBranch h hv)
      (hb.confined fun _ hi _ => (Option.some.inj hi).symm)
  | .noBranch h _, _ | .conditionFails h, _ => .next .refl .condition h.confined
  | .print h, _ =>
      have hprint := Confined.next .refl .print h.confined
      ⟨hprint.size, hprint.slot⟩
  | .printFails h, _ => .next .refl .print h.confined
  | .result h, _ => .next .refl .result h.confined
  | .loop h, _ => .next .refl .loop h.confined
  | .var h, hmay => .define (.next .refl .var h.confined) (hmay _ rfl) _
  | .varFails h, _ => .next .refl .var h.confined

theorem ExecutesAll.confined {S : Context} {may : FrameId → Name → Prop} {scope : Scope}
    {depth : Nat} {w w' : World} {ss : List Stmt} {r : Result Flow} :
    ExecutesAll S scope depth w ss r w' → (∀ i, scope.head? = some i → ∀ name, may i name) →
    Confined S may ⟨scope, depth, w, .stmts ss⟩ w'
  | .nil, _ => .refl
  | .cons h hs, hmay => .next (.next .refl .statement (h.confined fun name _ i hi => hmay i hi name))
      (.otherStatements h) (hs.confined hmay)
  | .stops h _, hmay => .next .refl .statement (h.confined fun name _ i hi => hmay i hi name)

theorem Loops.confined {S : Context} {may : FrameId → Name → Prop} {scope : Scope}
    {depth : Nat} {w w' : World} {condition : Expr} {stmts : List Stmt} {r : Result Flow} :
    Loops S scope depth w condition stmts r w' →
    Confined S may ⟨scope, depth, w, .loop condition stmts⟩ w'
  | .done h _ | .fails h => .next .refl .test h.confined
  | .round h hv hb hl => .next (.enter (.next .refl .test h.confined) (.round h hv)
      (hb.confined fun _ hi _ => (Option.some.inj hi).symm)) (.again h hv hb) hl.confined
  | .stops h hv hb _ => .enter (.next .refl .test h.confined) (.round h hv)
      (hb.confined fun _ hi _ => (Option.some.inj hi).symm)

end

end Semantics

/-- The names in a frame are those from before, and one more that is declared there. -/
inductive Frame.Gains (f f' : Frame) (declared? : Option Name) (innermost : Prop) : Prop where
  | same (h : f'.names = f.names)
  | declared {name : Name} (hname : declared? = some name) (hin : innermost)
      (hnew : name ∉ f.names) (h : f'.names = f.names ++ [name])

namespace Environment

/-- A declaration adds at most its name, in the innermost frame. -/
theorem gains_define (env : Environment) (name : Name) (value : Value) (i : FrameId) :
    (env.frame i).Gains ((env.define name value).frame i) (some name)
      (env.current.head? = some i) := by
  unfold define
  rcases hcurrent : env.current with _ | ⟨j, scope⟩
  · exact .same rfl
  · change (env.frame i).Gains ((env.bindAt j name value).frame i) _ _
    rw [frame_bindAt]
    split
    next hij =>
      obtain ⟨rfl, -⟩ := hij
      rcases hbinds : (env.frame j).binds name with _ | _
      · refine .declared rfl rfl (fun hmem => ?_) (Frame.names_bind_new hbinds value)
        rw [← Frame.binds_iff, hbinds] at hmem
        cases hmem
      · exact .same (Frame.names_bind hbinds value)
    next => exact .same rfl

end Environment

namespace Machine

/-- What a part of a program does to the frames that there are when the machine begins with it. They
bind the names that they bind, and the innermost one the name that is declared as well. A binding
changes its value only by an assignment that is carried out, or by the declaration. -/
structure Leaves (m : Machine) (job : Job) (declared? : Option Name) (m' : Machine) : Prop where
  size : m.env.frames.size ≤ m'.env.frames.size
  names {i : FrameId} (hi : i < m.env.frames.size) :
    (m.env.frame i).Gains (m'.env.frame i) declared? (m.env.current.head? = some i)
  values {i : FrameId} {name : Name} (hi : i < m.env.frames.size)
    (hne : (m'.env.frame i).find? name ≠ (m.env.frame i).find? name) :
    Assigned m.context ⟨m.env.current, m.callDepth, m.world, job⟩ i name ∨
      (declared? = some name ∧ m.env.current.head? = some i)

end Machine

namespace Eval

variable {α : Type} {p : Eval α} {m : Machine}

/-- What declares nothing outside of its own frames. -/
theorem KeepsNames.gains (h : KeepsNames Scope.Nowhere p) {i : FrameId}
    (hi : i < m.env.frames.size) (declared? : Option Name) (innermost : Prop) :
    (m.env.frame i).Gains ((p m).2.env.frame i) declared? innermost :=
  .same ((h m).names hi id)

/-- A declaration comes after whatever gives it its value. -/
theorem KeepsNames.gains_define {p : Eval Value} (h : KeepsNames Scope.Nowhere p) {i : FrameId}
    (hi : i < m.env.frames.size) (name : Name) (flow : Flow) :
    (m.env.frame i).Gains
      (((p >>= fun v => Eval.define name v >>= fun _ => Pure.pure flow) m).2.env.frame i)
      (some name) (m.env.current.head? = some i) := by
  have hm := h m
  rw [bind_run]
  rcases hrun : p m with ⟨_ | v, m₁⟩
  · rw [hrun] at hm
    exact .same (hm.names hi id)
  · rw [hrun] at hm
    have hgains := m₁.env.gains_define name v i
    rw [hm.current] at hgains
    cases hgains with
    | same hsame => exact .same (hsame.trans (hm.names hi id))
    | declared hname hin hnew hsame =>
      rw [hm.names hi id] at hnew hsame
      exact .declared hname hin hnew hsame

end Eval

open Eval

theorem Stmt.exec_gains (loops : Nat) {invoke : Invoke} (h : invoke.KeepsNames) (s : Stmt)
    {m : Machine} {i : FrameId} (hi : i < m.env.frames.size) :
    (m.env.frame i).Gains ((s.exec loops invoke m).2.env.frame i) s.declared?
      (m.env.current.head? = some i) := by
  cases s with
  | block body => exact (Stmt.block_keepsNames loops h body).gains hi ..
  | expression span e =>
    exact ((KeepsNames.log _).bind fun _ => (e.eval_keepsNames h).bind fun _ => .pure _).gains hi ..
  | function span decl =>
    exact m.env.gains_define decl.name
      (.function ⟨m.functionCount, m.names.spelling decl.name, decl, m.env.current⟩) i
  | conditional span condition thenBranch elseBranch =>
    rw [exec_conditional]
    refine KeepsNames.gains ((KeepsNames.log _).bind fun _ =>
      (condition.test_keepsNames h).bind fun _ => .ite (thenBranch.exec_keepsNames loops h) ?_) hi ..
    rcases elseBranch with _ | ⟨_, stmts⟩
    · exact .pure _
    · exact .inFreshScope (Stmt.execAll_keepsNames loops h stmts)
  | print span e =>
    exact ((KeepsNames.log _).bind fun _ => (e.eval_keepsNames h).bind fun _ =>
      (KeepsNames.of_env fun _ => rfl).bind fun _ => .pure _).gains hi ..
  | result span keyword value =>
    exact ((KeepsNames.log _).bind fun _ =>
      (evalOptional_keepsNames h value).bind fun _ => .pure _).gains hi ..
  | loop span condition body =>
    rw [exec_loop]
    exact ((KeepsNames.log _).bind fun _ => iterate_keepsNames (condition.test_keepsNames h)
      (body.exec_keepsNames loops h) loops).gains hi ..
  | var span name nameSpan initializer =>
    rw [Stmt.exec, ← bind_assoc]
    exact ((KeepsNames.log _).bind fun _ => evalOptional_keepsNames h initializer).gains_define hi ..

namespace Machine

/-- Declarations stay in their scope. An expression declares nothing in the frames that there are, a
statement at most the name that it declares itself; calls, loops and closures make no difference. -/
theorem declarations_stay_inside (m m' : Machine) (loops : Nat) :
    (∀ (e : Expr) (r : Result Value),
      e.eval (m.invoke loops) m = (r.halt, m') → m.Leaves (.expr e) none m') ∧
    (∀ (s : Stmt) (r : Result Flow),
      s.exec loops (m.invoke loops) m = (r.halt, m') → m.Leaves (.stmt s) s.declared? m') := by
  have hcalls : FollowsCalls m.context m.callDepth (m.invoke loops) :=
    followsCalls_invokeUpTo loops rfl
  have hinvoke : (m.invoke loops).KeepsNames := invokeUpTo_keepsNames loops _
  constructor
  · intro e r hrun
    obtain ⟨w', hm', hevaluates⟩ := follows_eval hcalls e m.views_world hrun
    rw [← hm'.world_eq] at hevaluates
    have hconfined : Confined m.context (fun _ _ => False) _ _ := hevaluates.confined
    refine ⟨hconfined.size, fun {i} hi => ?_, fun hi hne => .inl ?_⟩
    · have hgains := (e.eval_keepsNames hinvoke).gains hi none (m.env.current.head? = some i)
      rw [hrun] at hgains
      exact hgains
    · exact (hconfined.slot hi hne).resolve_right id
  · intro s r hrun
    obtain ⟨w', hm', hexecutes⟩ := follows_exec hcalls s m.views_world hrun
    rw [← hm'.world_eq] at hexecutes
    have hconfined : Confined m.context
        (fun i name => s.declared? = some name ∧ m.env.current.head? = some i) _ _ :=
      hexecutes.confined fun name hname i hi => ⟨hname, hi⟩
    refine ⟨hconfined.size, fun hi => ?_, hconfined.slot⟩
    have hgains := s.exec_gains loops hinvoke hi
    rw [hrun] at hgains
    exact hgains

/-- A function is declared that assigns to a variable of its own and to a global one. -/
def keeper : Machine :=
  let (c, m) := ({} : Machine).compile
    "var kept; fun keep(a) \x7b var own = a; \x7b own = true; \x7d kept = own; \x7d"
  (interpret 1 c.statements m).2

def keeperCalled : CompileOutput × Machine := keeper.compile "var end = keep(nil);"

def keeperCall : Stmt := keeperCalled.1.statements.headD (.block ⟨Span.nowhere, []⟩)

/-- The call makes two frames. In the global one `kept` gets a value, and `end` is declared. -/
theorem declarations_stay_inside_keeper :
    ∃ m', keeperCall.exec 1 (keeperCalled.2.invoke 1) keeperCalled.2 = (.ok .normal, m') ∧
      keeperCalled.2.Leaves (.stmt keeperCall) keeperCall.declared? m' ∧
      m'.env.frames.size = keeperCalled.2.env.frames.size + 2 ∧
      (m'.env.frame 0).names =
        (keeperCalled.2.env.frame 0).names ++ keeperCall.declared?.toList ∧
      ((keeperCalled.2.env.frame 0).find? ⟨1⟩).map Value.isTruthy = some false ∧
      ((m'.env.frame 0).find? ⟨1⟩).map Value.isTruthy = some true := by
  have hends : (match (keeperCall.exec 1 (keeperCalled.2.invoke 1) keeperCalled.2).1 with
      | .ok .normal => true
      | _ => false) = true := by decide +kernel
  have hsize : (keeperCall.exec 1 (keeperCalled.2.invoke 1) keeperCalled.2).2.env.frames.size =
      keeperCalled.2.env.frames.size + 2 := by decide +kernel
  have hnames : ((keeperCall.exec 1 (keeperCalled.2.invoke 1) keeperCalled.2).2.env.frame 0).names =
      (keeperCalled.2.env.frame 0).names ++ keeperCall.declared?.toList := by decide +kernel
  have hkept : (((keeperCall.exec 1 (keeperCalled.2.invoke 1) keeperCalled.2).2.env.frame 0).find?
      ⟨1⟩).map Value.isTruthy = some true := by decide +kernel
  rcases hrun : keeperCall.exec 1 (keeperCalled.2.invoke 1) keeperCalled.2 with ⟨r, m'⟩
  rw [hrun] at hends hsize hnames hkept
  obtain rfl : r = Result.halt (.ok .normal) := by
    split at hends
    next h => exact h
    next => cases hends
  exact ⟨m', rfl, (declarations_stay_inside _ m' 1).2 _ _ hrun, hsize, hnames, by decide +kernel,
    hkept⟩

end Machine

end Tarn
