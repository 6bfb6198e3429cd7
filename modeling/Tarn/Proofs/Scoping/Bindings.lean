import Tarn.Proofs.Likeness.Machines
import Tarn.Proofs.Semantics.Views

/-! Which names a running program binds in the frames that exist. Only declarations bind new names,
in the innermost frame, and what runs in a fresh scope declares nothing outside of it. -/
namespace Tarn

open Semantics

namespace Frame

def names (f : Frame) : List Name := f.map (·.1)

variable {f : Frame} {name : Name}

theorem binds_iff : f.binds name = true ↔ name ∈ f.names := by
  induction f with
  | nil => simp [binds, find?, names]
  | cons b f ih =>
    obtain ⟨n, v⟩ := b
    by_cases hn : n = name
    · simp [binds, find?, names, hn]
    · have hbinds : binds ((n, v) :: f) name = binds f name := by
        unfold binds
        rw [find?, if_neg hn]
      rw [hbinds, ih]
      simp [names, Ne.symm hn]

/-- What is bound anew stays in its place. -/
theorem names_bind (h : f.binds name = true) (value : Value) :
    (f.bind name value).names = f.names := by
  induction f with
  | nil => cases h
  | cons b f ih =>
    obtain ⟨n, v⟩ := b
    unfold bind
    by_cases hn : n = name
    · rw [if_pos hn]
      rfl
    · unfold binds find? at h
      rw [if_neg hn] at h
      rw [if_neg hn]
      exact congrArg (n :: ·) (ih h)

end Frame

/-- The machine is back in its scope. The frames that there were bind the same names, and more only
where `may` allows it. -/
structure Machine.KeepsNames (may : FrameId → Prop) (m m' : Machine) : Prop where
  current : m'.env.current = m.env.current
  size : m.env.frames.size ≤ m'.env.frames.size
  names {i : FrameId} (hi : i < m.env.frames.size) (hmay : ¬ may i) :
    (m'.env.frame i).names = (m.env.frame i).names

/-- The same names are visible, bound in the same frames. -/
def Machine.SeesAs (m m' : Machine) : Prop :=
  ∀ name, m.env.owner? m.env.current name = m'.env.owner? m'.env.current name

/-- The machine in a fresh scope. -/
def Machine.fresh (m : Machine) : Machine :=
  { m with env := { (m.env.child m.env.current []).2 with
                    current := (m.env.child m.env.current []).1 } }

namespace Machine

variable {may : FrameId → Prop} {m m' m'' : Machine}

theorem KeepsNames.refl (m : Machine) : m.KeepsNames may m := ⟨rfl, Nat.le_refl _, fun _ _ => rfl⟩

theorem KeepsNames.trans (h : m.KeepsNames may m') (h' : m'.KeepsNames may m'') :
    m.KeepsNames may m'' where
  current := h'.current.trans h.current
  size := Nat.le_trans h.size h'.size
  names hi hmay := (h'.names (Nat.lt_of_lt_of_le hi h.size) hmay).trans (h.names hi hmay)

theorem SeesAs.trans (h : m.SeesAs m') (h' : m'.SeesAs m'') : m.SeesAs m'' :=
  fun name => (h name).trans (h' name)

/-- Frames that bind the same names are found alike. -/
theorem owner?_eq {env env' : Environment} {scope : Scope}
    (h : ∀ i ∈ scope, (env'.frame i).names = (env.frame i).names) (name : Name) :
    env'.owner? scope name = env.owner? scope name := by
  unfold Environment.owner?
  induction scope with
  | nil => rfl
  | cons i scope ih =>
    obtain ⟨hi, hscope⟩ := List.forall_mem_cons.1 h
    have hbinds : (env'.frame i).binds name = (env.frame i).binds name := by
      rw [Bool.eq_iff_iff, Frame.binds_iff, Frame.binds_iff, hi]
    rw [List.find?_cons, List.find?_cons, hbinds, ih hscope]

variable (hm : ∀ i ∈ m.env.current, i < m.env.frames.size)
include hm

theorem KeepsNames.seesAs (h : m.KeepsNames (fun _ => False) m') : m'.SeesAs m := by
  intro name
  rw [h.current]
  exact owner?_eq (fun i hi => h.names (hm i hi) id) name

theorem KeepsNames.lt (h : m.KeepsNames may m') :
    ∀ i ∈ m'.env.current, i < m'.env.frames.size := by
  rw [h.current]
  exact fun i hi => Nat.lt_of_lt_of_le (hm i hi) h.size

theorem fresh_seesAs : m.fresh.SeesAs m := by
  intro name
  have hold (i : FrameId) (hi : i ∈ m.env.current) :
      (m.env.child m.env.current []).2.frame i = m.env.frame i := by
    rw [Environment.frame_child, if_neg (Nat.ne_of_lt (hm i hi))]
  have hnew : (m.env.child m.env.current []).2.frame m.env.frames.size = [] := by
    rw [Environment.frame_child, if_pos rfl]
  change Environment.owner? (m.env.child m.env.current []).2 (m.env.frames.size :: m.env.current) name
    = m.env.owner? m.env.current name
  rw [Environment.owner?, List.find?_cons, hnew]
  exact owner?_eq (fun i hi => by rw [hold i hi]) name

theorem fresh_lt : ∀ i ∈ m.fresh.env.current, i < m.fresh.env.frames.size := by
  have hsize : m.fresh.env.frames.size = m.env.frames.size + 1 := Array.size_push _
  rw [hsize]
  exact List.forall_mem_cons.2 ⟨Nat.lt_succ_self _, fun i hi => Nat.lt_succ_of_lt (hm i hi)⟩

end Machine

namespace Scope

/-- Nothing is declared in frames that exist. -/
def Nowhere (_ : Scope) (_ : FrameId) : Prop := False

/-- Declarations go to the innermost frame. -/
def Innermost (scope : Scope) (i : FrameId) : Prop := scope.head? = some i

end Scope

namespace Eval

variable {α β : Type} {may : Scope → FrameId → Prop} {p : Eval α}

/-- However `p` ends, new names are bound only where `may` allows it. -/
def KeepsNames (may : Scope → FrameId → Prop) (p : Eval α) : Prop :=
  ∀ m : Machine, m.KeepsNames (may m.env.current) (p m).2

namespace KeepsNames

theorem weaken (h : KeepsNames Scope.Nowhere p) : KeepsNames may p :=
  fun m => ⟨(h m).current, (h m).size, fun hi _ => (h m).names hi id⟩

theorem of_env (h : ∀ m, (p m).2.env = m.env) : KeepsNames may p := fun m =>
  ⟨by rw [h], Nat.le_of_eq (by rw [h]), fun _ _ => by rw [h]⟩

theorem pure (a : α) : KeepsNames may (Pure.pure a : Eval α) := of_env fun _ => rfl

theorem throw (h : Halt) : KeepsNames may (MonadExcept.throw h : Eval α) := of_env fun _ => rfl

theorem fail (fault : Fault) (span : Span) : KeepsNames may (Eval.fail fault span : Eval α) :=
  throw _

theorem blame (span : Span) (x : Except Fault α) : KeepsNames may (Eval.blame span x) := by
  cases x with
  | ok a => exact pure a
  | error fault => exact fail fault span

theorem log (e : Event) : KeepsNames may (Eval.log e) := of_env fun _ => rfl

theorem bind {f : α → Eval β} (hp : KeepsNames may p) (hf : ∀ a, KeepsNames may (f a)) :
    KeepsNames may (p >>= f) := by
  intro m
  have hm := hp m
  rw [bind_run]
  rcases hrun : p m with ⟨_ | a, m₁⟩
  · rw [hrun] at hm
    exact hm
  · rw [hrun] at hm
    have hrest := hf a m₁
    rw [hm.current] at hrest
    exact hm.trans hrest

theorem get_bind {f : Machine → Eval α} (h : ∀ m, KeepsNames may (f m)) :
    KeepsNames may (MonadState.get >>= f) := fun m => h m m

theorem ite {c : Prop} [Decidable c] {q : Eval α} (h : KeepsNames may p) (h' : KeepsNames may q) :
    KeepsNames may (if c then p else q) := by
  split
  · exact h
  · exact h'

theorem during (a : Activity) (h : KeepsNames may p) : KeepsNames may (Eval.during a p) := by
  intro m
  have hm := h { m with log := m.log.add (.enter a) }
  exact ⟨hm.current, hm.size, hm.names⟩

theorem inCall (h : KeepsNames may p) : KeepsNames may (Eval.inCall p) := by
  intro m
  have hm := h { m with callDepth := m.callDepth + 1 }
  exact ⟨hm.current, hm.size, hm.names⟩

/-- What is declared in a new scope is declared in a frame that there was not. -/
theorem inNewScope (h : KeepsNames Scope.Innermost p) (outer : Scope) (bindings : Frame) :
    KeepsNames may (Eval.newScope outer bindings >>= fun scope => Eval.inside scope p) := by
  apply weaken
  intro m
  have hm := h { m with env := { (m.env.child outer bindings).2 with
                                 current := (m.env.child outer bindings).1 } }
  have hsize : (m.env.child outer bindings).2.frames.size = m.env.frames.size + 1 :=
    Array.size_push _
  refine ⟨rfl, ?_, ?_⟩
  · have hle := hm.size
    change (m.env.child outer bindings).2.frames.size ≤ _ at hle
    rw [hsize] at hle
    exact Nat.le_of_succ_le hle
  · intro i hi _
    have hold : (m.env.child outer bindings).2.frame i = m.env.frame i := by
      rw [Environment.frame_child, if_neg (Nat.ne_of_lt hi)]
    -- The innermost frame is the new one.
    have hother : ¬ Scope.Innermost (m.env.child outer bindings).1 i := by
      intro hhead
      exact Nat.ne_of_gt hi (Option.some.inj hhead)
    have hi' : i < (m.env.child outer bindings).2.frames.size := by
      rw [hsize]
      exact Nat.lt_succ_of_lt hi
    exact (hm.names hi' hother).trans (congrArg Frame.names hold)

theorem inFreshScope (h : KeepsNames Scope.Innermost p) : KeepsNames may (Eval.inFreshScope p) :=
  (get_bind fun _ => pure _).bind fun outer => inNewScope h outer []

theorem undefined (name : Name) (span : Span) :
    KeepsNames may (Eval.undefined name span : Eval α) :=
  (get_bind fun _ => pure _).bind fun _ => fail _ span

theorem lookup (name : Name) (span : Span) : KeepsNames may (Eval.lookup name span) := by
  refine get_bind fun m => ?_
  cases m.env.lookup name with
  | some value => exact pure value
  | none => exact undefined name span

/-- A name is bound anew where it is bound. -/
theorem rebind (name : Name) (value : Value) (span : Span) :
    KeepsNames may (Eval.rebind name value span) := by
  intro m
  rw [Eval.rebind, get_run]
  rcases howner : m.env.owner? m.env.current name with _ | i
  · exact undefined name span m
  · have hbinds : (m.env.frame i).binds name = true := by
      unfold Environment.owner? at howner
      exact @List.find?_some _ (fun i => (m.env.frame i).binds name) i _ howner
    refine ⟨rfl, Nat.le_of_eq (Array.size_modify ..).symm, fun {j} _ _ => ?_⟩
    change ((m.env.bindAt i name value).frame j).names = _
    rw [Environment.frame_bindAt]
    split
    next hij =>
      obtain ⟨rfl, -⟩ := hij
      exact Frame.names_bind hbinds value
    next => rfl

theorem define (name : Name) (value : Value) :
    KeepsNames Scope.Innermost (Eval.define name value) := by
  intro m
  change m.KeepsNames _ { m with env := m.env.define name value }
  unfold Environment.define
  rcases hcurrent : m.env.current with _ | ⟨i, scope⟩
  · exact .refl m
  · refine ⟨rfl, Nat.le_of_eq (Array.size_modify ..).symm, fun {j} _ hother => ?_⟩
    change ((m.env.bindAt i name value).frame j).names = _
    rw [Environment.frame_bindAt, if_neg]
    rintro ⟨rfl, -⟩
    exact hother rfl

theorem declare (decl : FunctionDecl) : KeepsNames Scope.Innermost (Tarn.declare decl) := by
  intro m
  have hm := define decl.name (.function
    ⟨m.functionCount, m.names.spelling decl.name, decl, m.env.current⟩) m
  exact ⟨hm.current, hm.size, hm.names⟩

theorem callNative (f : Native) (args : List Value) (paren : Span) :
    KeepsNames may (Tarn.callNative f args paren) := by
  refine get_bind fun m => ?_
  rcases m.host[f.id]? with _ | run
  · exact fail _ paren
  · dsimp only
    cases run m.clock args with
    | ok value => exact pure value
    | error e => exact throw _

end KeepsNames

end Eval

open Eval

/-- Bodies of functions declare nothing in frames that exist. -/
def Invoke.KeepsNames (invoke : Invoke) : Prop :=
  ∀ f args paren, Eval.KeepsNames Scope.Nowhere (invoke f args paren)

variable {may : Scope → FrameId → Prop} {invoke : Invoke}

theorem Value.call_keepsNames (h : invoke.KeepsNames) (f : Value) (args : List Value)
    (paren : Span) : Eval.KeepsNames may (f.call invoke args paren) := by
  cases f with
  | function f => exact .ite (h f args paren).weaken (.fail _ paren)
  | native f => exact .ite (.callNative f args paren) (.fail _ paren)
  | nil | bool | number | string => exact .fail _ paren

mutual

theorem Expr.eval_keepsNames {may : Scope → FrameId → Prop} {invoke : Invoke}
    (h : invoke.KeepsNames) : (e : Expr) → Eval.KeepsNames may (e.eval invoke)
  | .literal _ .nil => .pure _
  | .literal _ (.bool _) => .pure _
  | .literal _ (.number _) => .pure _
  | .literal _ (.string _) => (KeepsNames.get_bind fun _ => .pure _).bind fun _ => .pure _
  | .var span name => .lookup name span
  | .grouping _ inner => by
    rw [Expr.eval]
    exact inner.eval_keepsNames h
  | .unary _ _ opSpan operand => (operand.eval_keepsNames h).bind fun _ => .blame opSpan _
  | .binary _ _ opSpan left right => (left.eval_keepsNames h).bind fun _ =>
      (right.eval_keepsNames h).bind fun _ => .blame opSpan _
  | .logical _ op _ left right => by
    refine (left.eval_keepsNames h).bind fun v => ?_
    have hright : Eval.KeepsNames may (right.eval invoke) := right.eval_keepsNames h
    cases op <;> cases v.isTruthy
    · exact .pure v
    · exact hright
    · exact hright
    · exact .pure v
  | .assign _ name nameSpan value => (value.eval_keepsNames h).bind fun v =>
      .rebind name v nameSpan
  | .call _ callee paren args => (callee.eval_keepsNames h).bind fun f =>
      (Expr.evalAll_keepsNames h args).bind fun vs => Value.call_keepsNames h f vs paren

theorem Expr.evalAll_keepsNames {may : Scope → FrameId → Prop} {invoke : Invoke}
    (h : invoke.KeepsNames) : (es : List Expr) → Eval.KeepsNames may (Expr.evalAll invoke es)
  | [] => .pure _
  | e :: es => (e.eval_keepsNames h).bind fun _ => (Expr.evalAll_keepsNames h es).bind fun _ =>
      .pure _

end

section

variable (h : invoke.KeepsNames)
include h

theorem Expr.test_keepsNames (e : Expr) : Eval.KeepsNames may (e.test invoke) :=
  (e.eval_keepsNames h).bind fun _ => .pure _

theorem evalOptional_keepsNames (e : Option Expr) : Eval.KeepsNames may (evalOptional invoke e) := by
  cases e with
  | none => exact .pure _
  | some e => exact e.eval_keepsNames h

end

theorem iterate_keepsNames {test : Eval Bool} {body : Eval Flow} (ht : Eval.KeepsNames may test)
    (hb : Eval.KeepsNames may body) (fuel : Nat) :
    Eval.KeepsNames may (iterate test body fuel) := by
  induction fuel with
  | zero => exact .throw _
  | succ fuel ih =>
    refine ht.bind fun _ => .ite (hb.bind fun flow => ?_) (.pure _)
    cases flow with
    | normal => exact ih
    | returned v => exact .pure _

mutual

theorem Stmt.exec_keepsNames (loops : Nat) {invoke : Invoke} (h : invoke.KeepsNames) :
    (s : Stmt) → Eval.KeepsNames Scope.Innermost (s.exec loops invoke)
  | .block body => by
    rw [exec_block]
    exact (KeepsNames.log _).bind fun _ => body.exec_keepsNames loops h
  | .expression _ e => (KeepsNames.log _).bind fun _ => (e.eval_keepsNames h).bind fun _ => .pure _
  | .function _ decl => (KeepsNames.log _).bind fun _ => (KeepsNames.declare decl).bind fun _ =>
      .pure _
  | .conditional _ condition thenBranch none => by
    rw [exec_conditional]
    exact (KeepsNames.log _).bind fun _ => (condition.test_keepsNames h).bind fun _ =>
      .ite (thenBranch.exec_keepsNames loops h) (.pure _)
  | .conditional _ condition thenBranch (some ⟨_, others⟩) => by
    rw [exec_conditional]
    exact (KeepsNames.log _).bind fun _ => (condition.test_keepsNames h).bind fun _ =>
      .ite (thenBranch.exec_keepsNames loops h) (.inFreshScope (Stmt.execAll_keepsNames loops h others))
  | .print _ e => (KeepsNames.log _).bind fun _ => (e.eval_keepsNames h).bind fun _ =>
      (KeepsNames.of_env fun _ => rfl).bind fun _ => .pure _
  | .result _ _ value => (KeepsNames.log _).bind fun _ =>
      (evalOptional_keepsNames h value).bind fun _ => .pure _
  | .loop _ condition body => by
    rw [exec_loop]
    exact (KeepsNames.log _).bind fun _ => iterate_keepsNames (condition.test_keepsNames h)
      (body.exec_keepsNames loops h) loops
  | .var _ name _ initializer => (KeepsNames.log _).bind fun _ =>
      (evalOptional_keepsNames h initializer).bind fun v => (KeepsNames.define name v).bind fun _ =>
        .pure _

/-- Statements in a fresh scope. -/
theorem Block.exec_keepsNames {may : Scope → FrameId → Prop} (loops : Nat) {invoke : Invoke}
    (h : invoke.KeepsNames) : (body : Block) →
    Eval.KeepsNames may (inFreshScope (Stmt.execAll loops invoke body.stmts))
  | ⟨_, stmts⟩ => .inFreshScope (Stmt.execAll_keepsNames loops h stmts)

theorem Stmt.execAll_keepsNames (loops : Nat) {invoke : Invoke} (h : invoke.KeepsNames) :
    (stmts : List Stmt) → Eval.KeepsNames Scope.Innermost (Stmt.execAll loops invoke stmts)
  | [] => .pure _
  | s :: stmts => (s.exec_keepsNames loops h).bind fun flow => by
      cases flow with
      | normal => exact Stmt.execAll_keepsNames loops h stmts
      | returned v => exact .pure _

end

theorem Stmt.block_keepsNames (loops : Nat) {invoke : Invoke} (h : invoke.KeepsNames)
    (body : Block) : Eval.KeepsNames Scope.Nowhere ((Stmt.block body).exec loops invoke) := by
  rw [exec_block]
  exact (KeepsNames.log _).bind fun _ => body.exec_keepsNames loops h

theorem invokeUpTo_keepsNames (loops depth : Nat) : (invokeUpTo loops depth).KeepsNames := by
  induction depth with
  | zero =>
    intro f args paren
    exact .during _ (.get_bind fun _ => .fail _ paren)
  | succ depth ih =>
    intro f args paren
    have hcall : Eval.KeepsNames Scope.Nowhere
        (newScope f.scope (bindParams f.decl.params args) >>= fun scope =>
          inCall (inside scope (Stmt.execAll loops (invokeUpTo loops depth) f.decl.body.stmts))) :=
      .inNewScope (.inCall (Stmt.execAll_keepsNames loops ih f.decl.body.stmts)) _ _
    unfold invokeUpTo
    rw [← bind_assoc]
    refine .during _ (hcall.bind fun flow => ?_)
    cases flow with
    | normal => exact .pure _
    | returned v => exact .pure v

/-- A loop that begins on `m` tests whether it goes on on `m'`, at first or after some rounds. -/
inductive Rounds (test : Eval Bool) (body : Eval Flow) (m : Machine) : Machine → Prop where
  | first : Rounds test body m m
  | next {m₁ m₂ m₃} (h : Rounds test body m m₁) (ht : test m₁ = (.ok true, m₂))
      (hb : body m₂ = (.ok .normal, m₃)) : Rounds test body m m₃

/-- However often the loop goes round, it declares nothing in frames that there were. -/
theorem Rounds.keepsNames {test : Eval Bool} {body : Eval Flow} {m m' : Machine}
    (ht : Eval.KeepsNames Scope.Nowhere test) (hb : Eval.KeepsNames Scope.Nowhere body)
    (h : Rounds test body m m') : m.KeepsNames (fun _ => False) m' := by
  induction h with
  | first => exact .refl m
  | @next m₁ m₂ m₃ _ htest hbody ih =>
    have hm₂ := ht m₁
    have hm₃ := hb m₂
    rw [htest] at hm₂
    rw [hbody] at hm₃
    exact ih.trans (hm₂.trans hm₃)

end Tarn
