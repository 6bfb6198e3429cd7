import Tarn.Proofs.Grammar.Names
import Tarn.Proofs.Likeness.Coupling
import Tarn.Proofs.Likeness.Machines

/-! Two machines of which one has a global binding that no code names. Its host may have more
functions, so those that both know may be counted differently. -/
namespace Tarn

/-- The values are the same but for the number that a function of the host has. Of functions of the
program `P` holds. -/
inductive Value.Renumbered (P : Closure → Prop) (place : Nat → Nat) : Value → Value → Prop where
  | nil : Renumbered P place .nil .nil
  | bool (b : Bool) : Renumbered P place (.bool b) (.bool b)
  | number (x : Float) : Renumbered P place (.number x) (.number x)
  | string (text : String) : Renumbered P place (.string text) (.string text)
  | function (f : Closure) (h : P f) : Renumbered P place (.function f) (.function f)
  | native (f : Native) : Renumbered P place (.native f) (.native { f with id := place f.id })

/-- The function of the host makes no functions of its own, and does not look at the numbers of
those of the host. -/
def HostFunction.Generic (run : HostFunction) : Prop :=
  ∀ (P : Closure → Prop) {place : Nat → Nat}, Function.Injective place →
    ∀ (clock : Float) {args args' : List Value},
      List.Forall₂ (Value.Renumbered P place) args args' →
      EndsAlike Eq (Value.Renumbered P place) (run clock args) (run clock args')

/-- What tells the machines apart. -/
structure Surplus where
  /-- The names that both machines know. -/
  names : NameTable
  /-- The names that code may use. -/
  used : Name → Prop
  /-- What other names stand for globally on the machine that has more bindings. -/
  kept : Name → Option Value
  /-- The functions of the host. -/
  host : Array HostFunction
  /-- Those of the other host, which may be more. -/
  host' : Array HostFunction
  /-- The number in the other host of each function. -/
  place : Nat → Nat
  injective : Function.Injective place
  found (i : Nat) : host'[place i]? = host[i]?
  generic : ∀ run ∈ host, HostFunction.Generic run

abbrev Value.Beside (S : Surplus) : Value → Value → Prop :=
  Value.Renumbered (fun f => AllNames S.used f.decl.body.names) S.place

inductive Flow.Beside (S : Surplus) : Flow → Flow → Prop where
  | normal : Beside S .normal .normal
  | returned {v v'} (hv : Value.Beside S v v') : Beside S (.returned v) (.returned v')

/-- The frames bind the same, as far as code can see. -/
def Frame.Beside (S : Surplus) (f f' : Frame) : Prop :=
  ∀ n, S.used n → Option.Rel (Value.Beside S) (f.find? n) (f'.find? n)

structure Environment.Beside (S : Surplus) (env env' : Environment) : Prop where
  size : env.frames.size = env'.frames.size
  nonempty : 0 < env'.frames.size
  frame (i : FrameId) : Frame.Beside S (env.frame i) (env'.frame i)
  current : env.current = env'.current
  kept {n : Name} (hn : ¬ S.used n) : (env'.frame 0).find? n = S.kept n

structure Machine.Beside (S : Surplus) (m m' : Machine) : Prop where
  names : m.names = S.names
  names' : m'.names = S.names
  env : Environment.Beside S m.env m'.env
  output : m.output = m'.output
  callDepth : m.callDepth = m'.callDepth
  maxCallDepth : m.maxCallDepth = m'.maxCallDepth
  functionCount : m.functionCount = m'.functionCount
  host : m.host = S.host
  host' : m'.host = S.host'
  clock : m.clock = m'.clock

/-- Only names that may be used and the numbers of the host's functions matter to what is bound. -/
theorem Environment.Beside.transfer {S S' : Surplus} {env env' : Environment}
    (h : Environment.Beside S env env') (hused : S.used = S'.used) (hkept : S.kept = S'.kept)
    (hplace : S.place = S'.place) : Environment.Beside S' env env' := by
  cases S
  cases S'
  cases hused
  cases hkept
  cases hplace
  exact ⟨h.size, h.nonempty, h.frame, h.current, h.kept⟩

namespace Value.Renumbered

variable {P : Closure → Prop} {place : Nat → Nat} {v v' w w' : Value}

theorem of_data (h : v.IsData) : Value.Renumbered P place v v := by
  cases v with
  | nil => exact .nil
  | bool b => exact .bool b
  | number x => exact .number x
  | string text => exact .string text
  | function | native => exact h.elim

theorem isTruthy_eq (h : Value.Renumbered P place v v') : v.isTruthy = v'.isTruthy := by
  cases h <;> rfl

theorem toString_eq (h : Value.Renumbered P place v v') : v.toString = v'.toString := by
  cases h <;> rfl

theorem equals_eq (hplace : Function.Injective place) (h : Value.Renumbered P place v v')
    (h' : Value.Renumbered P place w w') : v.equals w = v'.equals w' := by
  cases h with
  | native f =>
    cases h' with
    | native g =>
      have hid : (f.id = g.id) = (place f.id = place g.id) := propext hplace.eq_iff.symm
      simp only [Value.equals, BEq.beq, hid]
    | _ => rfl
  | _ => cases h' <;> rfl

end Value.Renumbered

section

variable {P : Closure → Prop} {place : Nat → Nat} {v v' w w' : Value}

theorem UnaryOp.apply_renumbered (h : Value.Renumbered P place v v') (op : UnaryOp) :
    EndsAlike Eq (Value.Renumbered P place) (op.apply v) (op.apply v') := by
  have heq : op.apply v = op.apply v' := by cases op <;> cases h <;> rfl
  exact .of_eq heq fun h => .of_data (op.isData_apply v h)

theorem BinaryOp.apply_renumbered (hplace : Function.Injective place)
    (h : Value.Renumbered P place v v') (h' : Value.Renumbered P place w w') (op : BinaryOp) :
    EndsAlike Eq (Value.Renumbered P place) (op.apply v w) (op.apply v' w') := by
  have heq : op.apply v w = op.apply v' w' := by
    cases op with
    | equal | notEqual => rw [apply, apply, h.equals_eq hplace h']
    | _ => cases h <;> cases h' <;> rfl
  exact .of_eq heq fun h => .of_data (op.isData_apply v w h)

end

variable {S : Surplus}

namespace Frame.Beside

variable {f f' : Frame} {n : Name}

theorem nil : Frame.Beside S [] [] := fun _ _ => .none

theorem binds_eq (h : Frame.Beside S f f') (hn : S.used n) : f.binds n = f'.binds n := by
  have hfind := h n hn
  rw [Frame.binds, Frame.binds]
  generalize f.find? n = x at hfind ⊢
  generalize f'.find? n = y at hfind ⊢
  cases hfind <;> rfl

theorem bind (h : Frame.Beside S f f') (n : Name) {v v' : Value} (hv : Value.Beside S v v') :
    Frame.Beside S (f.bind n v) (f'.bind n v') := by
  intro other hother
  rw [Frame.find?_bind, Frame.find?_bind]
  split
  · exact .some hv
  · exact h other hother

end Frame.Beside

theorem bindParams_beside (params : List Param) {args args' : List Value}
    (hargs : List.Forall₂ (Value.Beside S) args args') :
    Frame.Beside S (bindParams params args) (bindParams params args') :=
  bindParams_related .nil (fun {_ _ n _ _ _} hn hf hv => hn ▸ hf.bind n hv)
    (List.forall₂_same.2 fun _ _ => rfl) hargs

namespace Environment.Beside

variable {env env' : Environment} (h : Environment.Beside S env env') {n : Name}
include h

theorem owner?_eq (hn : S.used n) (scope : Scope) : env.owner? scope n = env'.owner? scope n := by
  rw [owner?, owner?]
  congr 1
  funext i
  exact (h.frame i).binds_eq hn

theorem lookupIn (hn : S.used n) (scope : Scope) :
    Option.Rel (Value.Beside S) (env.lookupIn scope n) (env'.lookupIn scope n) := by
  rw [Environment.lookupIn, Environment.lookupIn, h.owner?_eq hn]
  cases env'.owner? scope n with
  | none => exact .none
  | some i => exact h.frame i n hn

theorem withCurrent (scope : Scope) :
    Environment.Beside S { env with current := scope } { env' with current := scope } :=
  ⟨h.size, h.nonempty, h.frame, rfl, h.kept⟩

theorem bindAt (i : FrameId) (hn : S.used n) {v v' : Value} (hv : Value.Beside S v v') :
    Environment.Beside S (env.bindAt i n v) (env'.bindAt i n v') := by
  have hsize (env : Environment) (v : Value) : (env.bindAt i n v).frames.size = env.frames.size :=
    Array.size_modify ..
  refine ⟨?_, ?_, fun j => ?_, h.current, fun {other} hother => ?_⟩
  · rw [hsize, hsize, h.size]
  · rw [hsize]
    exact h.nonempty
  · rw [frame_bindAt, frame_bindAt, h.size]
    split
    · exact (h.frame j).bind n hv
    · exact h.frame j
  · rw [← h.kept hother, frame_bindAt]
    split
    · have hne : n ≠ other := fun heq => hother (heq ▸ hn)
      rw [Frame.find?_bind, if_neg hne]
    · rfl

theorem define (hn : S.used n) {v v' : Value} (hv : Value.Beside S v v') :
    Environment.Beside S (env.define n v) (env'.define n v') := by
  rw [Environment.define, Environment.define, h.current]
  cases env'.current with
  | nil => exact h
  | cons i scope => exact h.bindAt i hn hv

theorem child (outer : Scope) {f f' : Frame} (hf : Frame.Beside S f f') :
    (env.child outer f).1 = (env'.child outer f').1 ∧
      Environment.Beside S (env.child outer f).2 (env'.child outer f').2 := by
  refine ⟨congrArg (· :: outer) h.size, ?_, ?_, fun i => ?_, h.current, fun hn => ?_⟩
  · simp [Environment.child, h.size]
  · simp [Environment.child]
  · rw [frame_child, frame_child, h.size]
    split
    · exact hf
    · exact h.frame i
  · rw [frame_child, if_neg (Nat.ne_of_lt h.nonempty)]
    exact h.kept hn

end Environment.Beside

end Tarn
