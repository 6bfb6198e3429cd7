import Tarn.Machine.Run
import Tarn.Proofs.Likeness.Parallel
import Tarn.Proofs.Likeness.Trees
import Tarn.Proofs.Semantics.Held

/-! Machines that differ in names and places only, and in what they log. Names decide which bindings
are found, and places decide nothing. -/
namespace Tarn

/-- The declarations are alike but for the places before the body, which no call looks at. -/
structure FunctionDecl.AlikeInside (L : Likeness) (d d' : FunctionDecl) : Prop where
  name : L.name d.name d'.name
  params : List.Forall₂ (fun p p' : Param => L.name p.name p'.name) d.params d'.params
  body : Block.Alike L d.body d'.body

/-- The values are the same, or functions that were made at the same time in the same scope by
declarations that are alike. -/
inductive Value.Alike (L : Likeness) : Value → Value → Prop where
  | nil : Alike L .nil .nil
  | bool (b : Bool) : Alike L (.bool b) (.bool b)
  | number (x : Float) : Alike L (.number x) (.number x)
  | string (text : String) : Alike L (.string text) (.string text)
  | function {d d'} (id : Nat) (name : String) (scope : Scope)
      (hd : FunctionDecl.AlikeInside L d d') :
      Alike L (.function ⟨id, name, d, scope⟩) (.function ⟨id, name, d', scope⟩)
  | native (f : Native) : Alike L (.native f) (.native f)

/-- The same names are bound in the same order. -/
abbrev Frame.Alike (L : Likeness) : Frame → Frame → Prop :=
  List.Forall₂ fun b b' => L.name b.1 b'.1 ∧ Value.Alike L b.2 b'.2

structure Environment.Alike (L : Likeness) (env env' : Environment) : Prop where
  size : env.frames.size = env'.frames.size
  frame (i : FrameId) : Frame.Alike L (env.frame i) (env'.frame i)
  current : env.current = env'.current

/-- The function of the host does not tell apart what is alike. -/
def HostFunction.Uniform (run : HostFunction) : Prop :=
  ∀ (L : Likeness) (clock : Float) {args args' : List Value},
    List.Forall₂ (Value.Alike L) args args' →
    EndsAlike (fun e e' : EvalError => e.fault = e'.fault) (Value.Alike L) (run clock args)
      (run clock args')

structure Machine.Alike (L : Likeness) (m m' : Machine) : Prop where
  left : m.names = L.left
  right : m'.names = L.right
  env : Environment.Alike L m.env m'.env
  output : m.output = m'.output
  callDepth : m.callDepth = m'.callDepth
  maxCallDepth : m.maxCallDepth = m'.maxCallDepth
  functionCount : m.functionCount = m'.functionCount
  host : m.host = m'.host
  uniform : ∀ run ∈ m.host, HostFunction.Uniform run
  clock : m.clock = m'.clock

/-- The same fault at places that are alike, or both are cut off. -/
inductive Halt.Alike (L : Likeness) : Halt → Halt → Prop where
  | failed {p p'} (fault : Fault) (hp : L.place p p') :
      Alike L (.failed ⟨fault, some p⟩) (.failed ⟨fault, some p'⟩)
  | exhausted : Alike L .exhausted .exhausted

inductive Flow.Alike (L : Likeness) : Flow → Flow → Prop where
  | normal : Alike L .normal .normal
  | returned {v v'} (hv : Value.Alike L v v') : Alike L (.returned v) (.returned v')

variable {L : Likeness}

namespace Value.Alike

variable {v v' w w' : Value}

theorem isTruthy_eq (h : Value.Alike L v v') : v.isTruthy = v'.isTruthy := by
  cases h <;> rfl

theorem toString_eq (h : Value.Alike L v v') : v.toString = v'.toString := by
  cases h <;> rfl

theorem equals_eq (h : Value.Alike L v v') (h' : Value.Alike L w w') :
    v.equals w = v'.equals w' := by
  cases h <;> cases h' <;> rfl

end Value.Alike

theorem Value.Alike.of_data {v : Value} (h : v.IsData) : Value.Alike L v v := by
  cases v with
  | nil => exact .nil
  | bool b => exact .bool b
  | number x => exact .number x
  | string text => exact .string text
  | function | native => exact h.elim

theorem BinaryOp.apply_alike {v v' w w' : Value} (h : Value.Alike L v v')
    (h' : Value.Alike L w w') (op : BinaryOp) :
    EndsAlike Eq (Value.Alike L) (op.apply v w) (op.apply v' w') := by
  have heq : op.apply v w = op.apply v' w' := by
    cases op with
    | equal | notEqual => rw [apply, apply, h.equals_eq h']
    | _ => cases h <;> cases h' <;> rfl
  exact .of_eq heq fun h => .of_data (op.isData_apply v w h)

theorem UnaryOp.apply_alike {v v' : Value} (h : Value.Alike L v v') (op : UnaryOp) :
    EndsAlike Eq (Value.Alike L) (op.apply v) (op.apply v') := by
  have heq : op.apply v = op.apply v' := by cases op <;> cases h <;> rfl
  exact .of_eq heq fun h => .of_data (op.isData_apply v h)

namespace Frame.Alike

variable {f f' : Frame} {n n' : Name}

theorem find? (h : Frame.Alike L f f') (hn : L.name n n') :
    Option.Rel (Value.Alike L) (f.find? n) (f'.find? n') := by
  induction h with
  | nil => exact .none
  | @cons b b' f f' hb _ ih =>
    obtain ⟨m, v⟩ := b
    obtain ⟨m', v'⟩ := b'
    rw [Frame.find?, Frame.find?]
    by_cases hm : m = n
    · rw [if_pos hm, if_pos ((Likeness.name_iff hb.1 hn).1 hm)]
      exact .some hb.2
    · rw [if_neg hm, if_neg (mt (Likeness.name_iff hb.1 hn).2 hm)]
      exact ih

/-- What stands for nothing is not bound. -/
theorem find?_eq_none (h : Frame.Alike L f f') (hn : ∀ n', ¬ L.name n n') : f.find? n = none := by
  induction h with
  | nil => rfl
  | @cons b _ _ _ hb _ ih =>
    obtain ⟨m, v⟩ := b
    rw [Frame.find?, if_neg, ih]
    rintro rfl
    exact hn _ hb.1

theorem binds_eq (h : Frame.Alike L f f') (hn : L.name n n') : f.binds n = f'.binds n' := by
  have hfind := h.find? hn
  rw [Frame.binds, Frame.binds]
  generalize f.find? n = x at hfind ⊢
  generalize f'.find? n' = y at hfind ⊢
  cases hfind <;> rfl

theorem bind (h : Frame.Alike L f f') (hn : L.name n n') {v v' : Value}
    (hv : Value.Alike L v v') : Frame.Alike L (f.bind n v) (f'.bind n' v') := by
  induction h with
  | nil => exact .cons ⟨hn, hv⟩ .nil
  | @cons b b' f f' hb hf ih =>
    obtain ⟨m, w⟩ := b
    obtain ⟨m', w'⟩ := b'
    rw [Frame.bind, Frame.bind]
    by_cases hm : m = n
    · rw [if_pos hm, if_pos ((Likeness.name_iff hb.1 hn).1 hm)]
      exact .cons ⟨hb.1, hv⟩ hf
    · rw [if_neg hm, if_neg (mt (Likeness.name_iff hb.1 hn).2 hm)]
      exact .cons hb ih

end Frame.Alike

/-- A relation between frames that binding keeps holds of the frames of two calls. -/
theorem bindParams_related {F : Frame → Frame → Prop} {N : Name → Name → Prop}
    {V : Value → Value → Prop} (hnil : F [] [])
    (hbind : ∀ {f f' n n' v v'}, N n n' → F f f' → V v v' → F (f.bind n v) (f'.bind n' v'))
    {ps ps' : List Param} (hps : List.Forall₂ (fun p p' : Param => N p.name p'.name) ps ps')
    {args args' : List Value} (hargs : List.Forall₂ V args args') :
    F (bindParams ps args) (bindParams ps' args') := by
  suffices ∀ {f f' : Frame}, F f f' →
      F ((ps.zip args).foldl (fun frame entry => frame.bind entry.1.name entry.2) f)
        ((ps'.zip args').foldl (fun frame entry => frame.bind entry.1.name entry.2) f')
    from this hnil
  induction hps generalizing args args' with
  | nil => exact id
  | cons hp _ ih =>
    cases hargs with
    | nil => exact id
    | cons hv hargs => exact fun hf => ih hargs (hbind hp hf hv)

theorem bindParams_alike {ps ps' : List Param}
    (hps : List.Forall₂ (fun p p' : Param => L.name p.name p'.name) ps ps')
    {args args' : List Value} (hargs : List.Forall₂ (Value.Alike L) args args') :
    Frame.Alike L (bindParams ps args) (bindParams ps' args') :=
  bindParams_related .nil (fun hn hf hv => hf.bind hn hv) hps hargs

namespace Environment

theorem frame_bindAt (env : Environment) (i j : FrameId) (name : Name) (value : Value) :
    (env.bindAt i name value).frame j =
      if i = j ∧ i < env.frames.size then (env.frame j).bind name value else env.frame j := by
  simp only [bindAt, frame, Array.getD_eq_getD_getElem?, Array.getElem?_modify]
  by_cases hij : i = j
  · subst hij
    by_cases hi : i < env.frames.size <;> simp [hi]
  · simp [hij]

theorem frame_child (env : Environment) (outer : Scope) (bindings : Frame) (i : FrameId) :
    (env.child outer bindings).2.frame i =
      if i = env.frames.size then bindings else env.frame i := by
  simp only [child, frame, Array.getD_eq_getD_getElem?, Array.getElem?_push]
  split <;> rfl

namespace Alike

variable {env env' : Environment} (h : Environment.Alike L env env') {n n' : Name}
include h

theorem owner?_eq (hn : L.name n n') (scope : Scope) :
    env.owner? scope n = env'.owner? scope n' := by
  rw [owner?, owner?]
  congr 1
  funext i
  exact (h.frame i).binds_eq hn

theorem lookupIn (hn : L.name n n') (scope : Scope) :
    Option.Rel (Value.Alike L) (env.lookupIn scope n) (env'.lookupIn scope n') := by
  rw [Environment.lookupIn, Environment.lookupIn, h.owner?_eq hn]
  cases env'.owner? scope n' with
  | none => exact .none
  | some i => exact (h.frame i).find? hn

theorem lookupIn_eq_none (hn : ∀ n', ¬ L.name n n') (scope : Scope) :
    env.lookupIn scope n = none := by
  have howner : env.owner? scope n = none := by
    refine List.find?_eq_none.2 fun i _ => ?_
    rw [Frame.binds, (h.frame i).find?_eq_none hn]
    exact Bool.false_ne_true
  rw [Environment.lookupIn, howner]
  rfl

theorem withCurrent {scope scope' : Scope} (hscope : scope = scope') :
    Environment.Alike L { env with current := scope } { env' with current := scope' } :=
  ⟨h.size, h.frame, hscope⟩

theorem bindAt (i : FrameId) (hn : L.name n n') {v v' : Value} (hv : Value.Alike L v v') :
    Environment.Alike L (env.bindAt i n v) (env'.bindAt i n' v') := by
  refine ⟨?_, fun j => ?_, h.current⟩
  · simp [Environment.bindAt, h.size]
  · rw [frame_bindAt, frame_bindAt, h.size]
    split
    · exact (h.frame j).bind hn hv
    · exact h.frame j

theorem define (hn : L.name n n') {v v' : Value} (hv : Value.Alike L v v') :
    Environment.Alike L (env.define n v) (env'.define n' v') := by
  rw [Environment.define, Environment.define, h.current]
  cases env'.current with
  | nil => exact h
  | cons i scope => exact h.bindAt i hn hv

theorem child (outer : Scope) {f f' : Frame} (hf : Frame.Alike L f f') :
    (env.child outer f).1 = (env'.child outer f').1 ∧
      Environment.Alike L (env.child outer f).2 (env'.child outer f').2 := by
  refine ⟨congrArg (· :: outer) h.size, ?_, fun i => ?_, h.current⟩
  · simp [Environment.child, h.size]
  · rw [frame_child, frame_child, h.size]
    split
    · exact hf
    · exact h.frame i

end Alike

end Environment

section Imp

/-! What is alike stays so if its names do, and the places in the bodies of functions. -/

variable {L L' : Likeness} (hn : L.NamesIn L')
include hn

theorem Value.Alike.imp {v v' : Value} (h : Value.Alike L v v')
    (hk : ∀ f, v = .function f → L.Keeps L' f.decl.body.places) : Value.Alike L' v v' := by
  cases h with
  | nil => exact .nil
  | bool b => exact .bool b
  | number x => exact .number x
  | string text => exact .string text
  | native f => exact .native f
  | function id name scope hd =>
    exact .function id name scope
      ⟨hn hd.name, hd.params.imp fun _ _ hp => hn hp, hd.body.imp hn (hk _ rfl)⟩

theorem Frame.Alike.imp {f f' : Frame} (h : Frame.Alike L f f')
    (hk : ∀ name g, (name, Value.function g) ∈ f → L.Keeps L' g.decl.body.places) :
    Frame.Alike L' f f' := by
  induction h with
  | nil => exact .nil
  | @cons b _ _ _ hb _ ih =>
    obtain ⟨name, v⟩ := b
    refine .cons ⟨hn hb.1, hb.2.imp hn ?_⟩ (ih fun name g hg => hk name g (.tail _ hg))
    rintro g rfl
    exact hk name g List.mem_cons_self

theorem Environment.Alike.imp {env env' : Environment} (h : Environment.Alike L env env')
    (hk : ∀ i name f, (name, Value.function f) ∈ env.frame i → L.Keeps L' f.decl.body.places) :
    Environment.Alike L' env env' :=
  ⟨h.size, fun i => (h.frame i).imp hn (hk i), h.current⟩

end Imp

end Tarn
