import Tarn.Machine.Run
import Tarn.Proofs.Bare.Trees

/-! Machines without the places in the functions that they hold, and without their log. -/
namespace Tarn

section Idempotence

/-! Nothing is left to forget. -/

@[simp] theorem Expr.bare_bare (e : Expr) : e.bare.bare = e.bare := by
  apply Expr.bare.induct (fun e => e.bare.bare = e.bare)
    (fun es => Expr.allBare (Expr.allBare es) = Expr.allBare es)
  all_goals
    intros
    simp only [Expr.bare, Expr.allBare, *]

@[simp] theorem Param.map_bare_map_bare (ps : List Param) :
    (ps.map Param.bare).map Param.bare = ps.map Param.bare := by
  simp [Param.bare]

theorem Expr.optionBare_bare (e : Option Expr) :
    (e.map Expr.bare).map Expr.bare = e.map Expr.bare := by
  cases e <;> simp

theorem Block.bare_bare (b : Block) : b.bare.bare = b.bare := by
  apply Block.bare.induct (fun s => s.bare.bare = s.bare) (fun b => b.bare.bare = b.bare)
    (fun ss => Stmt.allBare (Stmt.allBare ss) = Stmt.allBare ss)
  all_goals
    intros
    simp only [Stmt.bare, Block.bare, Stmt.allBare, Expr.bare_bare, Expr.optionBare_bare,
      Param.map_bare_map_bare, *]

theorem FunctionDecl.bare_bare (d : FunctionDecl) : d.bare.bare = d.bare := by
  simp only [FunctionDecl.bare, Param.map_bare_map_bare, Block.bare_bare]

end Idempotence

def Closure.bare (f : Closure) : Closure := { f with decl := f.decl.bare }

def Value.bare : Value → Value
  | .function f => .function f.bare
  | v => v

def Frame.bare (f : Frame) : Frame := f.map fun b => (b.1, b.2.bare)

def Environment.bare (env : Environment) : Environment :=
  { env with frames := env.frames.map Frame.bare }

/-- The machine with all places in its functions forgotten, and its log. -/
def Machine.bare (m : Machine) : Machine := { m with env := m.env.bare, log := {} }

def Flow.bare : Flow → Flow
  | .normal => .normal
  | .returned v => .returned v.bare

/-- The error with its place forgotten. -/
def EvalError.bare (e : EvalError) : EvalError := ⟨e.fault, e.span.map fun _ => .nowhere⟩

/-- Why a program does not go on, but not where. -/
def Halt.bare : Halt → Halt
  | .failed e => .failed e.bare
  | .exhausted => .exhausted

/-- The function of the host does not look at the places in its arguments. -/
def HostFunction.Blind (run : HostFunction) : Prop :=
  ∀ (clock : Float) (args args' : List Value), args.map Value.bare = args'.map Value.bare →
    ((run clock args).map Value.bare).mapError (·.fault) =
      ((run clock args').map Value.bare).mapError (·.fault)

namespace Value

variable (v w : Value)

@[simp] theorem isTruthy_bare : v.bare.isTruthy = v.isTruthy := by
  cases v <;> rfl

@[simp] theorem toString_bare : v.bare.toString = v.toString := by
  cases v <;> rfl

@[simp] theorem equals_bare : v.bare.equals w.bare = v.equals w := by
  cases v <;> cases w <;> rfl

variable {v w}

/-- Only functions know places. -/
theorem eq_of_bare_eq (h : v.bare = w.bare) (hv : ∀ f, v ≠ .function f) : w = v := by
  cases v <;> cases w <;> simp_all [bare]

theorem exists_of_bare_eq {f : Closure} (h : (Value.function f).bare = w.bare) :
    ∃ g, w = .function g ∧ f.bare = g.bare := by
  cases w <;> simp_all [bare]

end Value

theorem Flow.cases_of_bare_eq {flow flow' : Flow} (h : flow.bare = flow'.bare) :
    (flow = .normal ∧ flow' = .normal) ∨
      ∃ v v', flow = .returned v ∧ flow' = .returned v' ∧ v.bare = v'.bare := by
  cases flow <;> cases flow'
  · exact .inl ⟨rfl, rfl⟩
  · cases h
  · cases h
  · exact .inr ⟨_, _, rfl, rfl, Flow.returned.inj h⟩

theorem Flow.kinds_of_bare_eq {flow flow' : Flow} (h : flow.bare = flow'.bare) :
    (flow = .normal ∧ flow' = .normal) ∨ ∃ v v', flow = .returned v ∧ flow' = .returned v' := by
  refine (cases_of_bare_eq h).imp_right ?_
  rintro ⟨v, v', hflow, hflow', -⟩
  exact ⟨v, v', hflow, hflow'⟩

theorem Halt.cases_of_bare_eq {h h' : Halt} (heq : h.bare = h'.bare) :
    (h = .exhausted ∧ h' = .exhausted) ∨
      ∃ e e', h = .failed e ∧ h' = .failed e' ∧ e.bare = e'.bare := by
  cases h <;> cases h'
  · exact .inr ⟨_, _, rfl, rfl, Halt.failed.inj heq⟩
  · cases heq
  · cases heq
  · exact .inl ⟨rfl, rfl⟩

theorem bothNumbers_bare (op : BinaryOp) (v w : Value) {f : Float → Float → Value}
    (hf : ∀ a b, (f a b).bare = f a b) :
    bothNumbers op v.bare w.bare f = (bothNumbers op v w f).map Value.bare := by
  cases v with
  | number a =>
    cases w with
    | number b => exact congrArg Except.ok (hf a b).symm
    | _ => rfl
  | _ => rfl

theorem BinaryOp.apply_bare (op : BinaryOp) (v w : Value) :
    op.apply v.bare w.bare = (op.apply v w).map Value.bare := by
  cases op with
  | equal | notEqual =>
    rw [apply, apply, Value.equals_bare]
    rfl
  | sub | mul | less | lessEqual | greater | greaterEqual =>
    exact bothNumbers_bare _ v w fun _ _ => rfl
  | add => cases v <;> cases w <;> rfl
  | div =>
    cases v with
    | number a =>
      cases w with
      | number b =>
        simp only [apply, Value.bare]
        split <;> rfl
      | _ => rfl
    | _ => rfl

theorem UnaryOp.apply_bare (op : UnaryOp) (v : Value) :
    op.apply v.bare = (op.apply v).map Value.bare := by
  cases op <;> cases v <;> rfl

namespace Frame

variable (f : Frame) (name : Name) (v : Value)

@[simp] theorem find?_bare : f.bare.find? name = (f.find? name).map Value.bare := by
  induction f with
  | nil => rfl
  | cons b f ih =>
    obtain ⟨n, w⟩ := b
    by_cases h : n = name <;> simp_all [bare, find?]

@[simp] theorem binds_bare : f.bare.binds name = f.binds name := by
  simp [binds]

theorem bare_bind : (f.bind name v).bare = f.bare.bind name v.bare := by
  induction f with
  | nil => rfl
  | cons b f ih =>
    obtain ⟨n, w⟩ := b
    by_cases h : n = name <;> simp_all [bare, bind]

end Frame

theorem bindParams_bare (ps : List Param) (args : List Value) :
    (bindParams ps args).bare = bindParams (ps.map Param.bare) (args.map Value.bare) := by
  suffices ∀ f : Frame, ((ps.zip args).foldl (fun frame entry => frame.bind entry.1.name entry.2)
      f).bare = ((ps.map Param.bare).zip (args.map Value.bare)).foldl
        (fun frame entry => frame.bind entry.1.name entry.2) f.bare from this []
  induction ps generalizing args with
  | nil => exact fun f => rfl
  | cons p ps ih =>
    cases args with
    | nil => exact fun f => rfl
    | cons v args =>
      intro f
      rw [List.map_cons, List.map_cons, List.zip_cons_cons, List.zip_cons_cons, List.foldl_cons,
        List.foldl_cons, ih, Frame.bare_bind]
      rfl

namespace Environment

variable (env : Environment) (name : Name) (v : Value)

@[simp] theorem frame_bare (i : FrameId) : env.bare.frame i = (env.frame i).bare := by
  simp only [frame, bare, Array.getD_eq_getD_getElem?, Array.getElem?_map]
  cases env.frames[i]? <;> rfl

@[simp] theorem owner?_bare (scope : Scope) :
    env.bare.owner? scope name = env.owner? scope name := by
  simp [owner?]

theorem lookup_bare : env.bare.lookup name = (env.lookup name).map Value.bare := by
  rw [lookup, lookup, lookupIn, lookupIn, owner?_bare, show env.bare.current = env.current from rfl]
  cases env.owner? env.current name with
  | none => rfl
  | some i => simp

theorem bare_bindAt (i : FrameId) :
    (env.bindAt i name v).bare = env.bare.bindAt i name v.bare := by
  have hframes : (env.frames.modify i (·.bind name v)).map Frame.bare =
      (env.frames.map Frame.bare).modify i (·.bind name v.bare) := by
    refine Array.ext (by simp) fun j hj hj' => ?_
    simp only [Array.getElem_map, Array.getElem_modify]
    split
    · exact Frame.bare_bind _ name v
    · rfl
  rw [bare, bindAt, hframes]
  rfl

theorem bare_define : (env.define name v).bare = env.bare.define name v.bare := by
  obtain ⟨frames, scope⟩ := env
  cases scope with
  | nil => rfl
  | cons i scope => exact bare_bindAt _ name v i

theorem child_bare (outer : Scope) (f : Frame) :
    env.bare.child outer f.bare = ((env.child outer f).1, (env.child outer f).2.bare) := by
  simp [child, bare]

end Environment

end Tarn
