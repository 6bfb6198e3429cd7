import Tarn.Proofs.Likeness.Machines
import Tarn.Proofs.Semantics.Held

/-! Machines of which one has extra frames, in which nothing is bound. Scopes that differ in extra
frames only see the same bindings. -/
namespace Tarn

/-- The values are the same, or functions that differ in the scope that they were declared in, as
`R` allows. -/
inductive Value.Rescoped (R : Scope → Scope → Prop) : Value → Value → Prop where
  | nil : Rescoped R .nil .nil
  | bool (b : Bool) : Rescoped R (.bool b) (.bool b)
  | number (x : Float) : Rescoped R (.number x) (.number x)
  | string (text : String) : Rescoped R (.string text) (.string text)
  | function {scope scope'} (id : Nat) (name : String) (decl : FunctionDecl) (h : R scope scope') :
      Rescoped R (.function ⟨id, name, decl, scope⟩) (.function ⟨id, name, decl, scope'⟩)
  | native (f : Native) : Rescoped R (.native f) (.native f)

/-- The same names are bound in the same order. -/
abbrev Frame.Rescoped (R : Scope → Scope → Prop) : Frame → Frame → Prop :=
  List.Forall₂ fun b b' => b.1 = b'.1 ∧ Value.Rescoped R b.2 b'.2

inductive Flow.Rescoped (R : Scope → Scope → Prop) : Flow → Flow → Prop where
  | normal : Rescoped R .normal .normal
  | returned {v v'} (hv : Value.Rescoped R v v') : Rescoped R (.returned v) (.returned v')

/-- The function of the host does not look at the scopes of functions. -/
def HostFunction.Parametric (run : HostFunction) : Prop :=
  ∀ (R : Scope → Scope → Prop) (clock : Float) {args args' : List Value},
    List.Forall₂ (Value.Rescoped R) args args' →
    EndsAlike Eq (Value.Rescoped R) (run clock args) (run clock args')

section Rescoped

variable {R R' : Scope → Scope → Prop} {v v' w w' : Value}

namespace Value.Rescoped

theorem mono (hR : ∀ {s s'}, R s s' → R' s s') (h : Value.Rescoped R v v') :
    Value.Rescoped R' v v' := by
  cases h with
  | nil => exact .nil
  | bool b => exact .bool b
  | number x => exact .number x
  | string text => exact .string text
  | function id name decl h => exact .function id name decl (hR h)
  | native f => exact .native f

theorem isTruthy_eq (h : Value.Rescoped R v v') : v.isTruthy = v'.isTruthy := by
  cases h <;> rfl

theorem toString_eq (h : Value.Rescoped R v v') : v.toString = v'.toString := by
  cases h <;> rfl

theorem equals_eq (h : Value.Rescoped R v v') (h' : Value.Rescoped R w w') :
    v.equals w = v'.equals w' := by
  cases h <;> cases h' <;> rfl

/-- A value stays the same if its scope may stay. -/
theorem of_only (h : v.Only fun f => R f.scope f.scope) : Value.Rescoped R v v := by
  cases v with
  | nil => exact .nil
  | bool b => exact .bool b
  | number x => exact .number x
  | string text => exact .string text
  | function f => exact .function f.id f.name f.decl (h f rfl)
  | native f => exact .native f

end Value.Rescoped

theorem UnaryOp.apply_rescoped (h : Value.Rescoped R v v') (op : UnaryOp) :
    EndsAlike Eq (Value.Rescoped R) (op.apply v) (op.apply v') := by
  have heq : op.apply v = op.apply v' := by cases op <;> cases h <;> rfl
  exact .of_eq heq fun h => .of_only (op.only_apply v h)

theorem BinaryOp.apply_rescoped (h : Value.Rescoped R v v') (h' : Value.Rescoped R w w')
    (op : BinaryOp) : EndsAlike Eq (Value.Rescoped R) (op.apply v w) (op.apply v' w') := by
  have heq : op.apply v w = op.apply v' w' := by
    cases op with
    | equal | notEqual => rw [apply, apply, h.equals_eq h']
    | _ => cases h <;> cases h' <;> rfl
  exact .of_eq heq fun h => .of_only (op.only_apply v w h)

namespace Frame.Rescoped

variable {f f' : Frame} {name : Name}

theorem mono (hR : ∀ {s s'}, R s s' → R' s s') (h : Frame.Rescoped R f f') :
    Frame.Rescoped R' f f' :=
  h.imp fun _ _ hb => ⟨hb.1, hb.2.mono hR⟩

theorem find? (h : Frame.Rescoped R f f') (name : Name) :
    Option.Rel (Value.Rescoped R) (f.find? name) (f'.find? name) := by
  induction h with
  | nil => exact .none
  | @cons b b' f f' hb _ ih =>
    obtain ⟨n, v⟩ := b
    obtain ⟨n', v'⟩ := b'
    obtain ⟨rfl, hv⟩ := hb
    unfold Frame.find?
    by_cases hn : n = name
    · rw [if_pos hn, if_pos hn]
      exact .some hv
    · rw [if_neg hn, if_neg hn]
      exact ih

theorem binds_eq (h : Frame.Rescoped R f f') (name : Name) : f.binds name = f'.binds name := by
  have hfind := h.find? name
  unfold Frame.binds
  generalize f.find? name = x at hfind ⊢
  generalize f'.find? name = y at hfind ⊢
  cases hfind <;> rfl

theorem bind (h : Frame.Rescoped R f f') (name : Name) (hv : Value.Rescoped R v v') :
    Frame.Rescoped R (f.bind name v) (f'.bind name v') := by
  induction h with
  | nil => exact .cons ⟨rfl, hv⟩ .nil
  | @cons b b' f f' hb hf ih =>
    obtain ⟨n, w⟩ := b
    obtain ⟨n', w'⟩ := b'
    obtain ⟨rfl, hw⟩ := hb
    unfold Frame.bind
    by_cases hn : n = name
    · rw [if_pos hn, if_pos hn]
      exact .cons ⟨rfl, hv⟩ hf
    · rw [if_neg hn, if_neg hn]
      exact .cons ⟨rfl, hw⟩ ih

end Frame.Rescoped

theorem bindParams_rescoped (params : List Param) {args args' : List Value}
    (h : List.Forall₂ (Value.Rescoped R) args args') :
    Frame.Rescoped R (bindParams params args) (bindParams params args') :=
  bindParams_related .nil (fun {_ _ n _ _ _} hn hf hv => hn ▸ hf.bind n hv)
    (List.forall₂_same.2 fun _ _ => rfl) h

end Rescoped

/-- For each frame of a machine the one that stands for it in a machine with fewer frames. Extra
frames have none. -/
abbrev Thinning := List (Option FrameId)

/-- The second scope is the first one without extra frames. -/
inductive Scope.Thins (ρ : Thinning) : Scope → Scope → Prop where
  | nil : Thins ρ [] []
  | kept {i j s s'} (h : ρ[i]? = some (some j)) (hs : Thins ρ s s') : Thins ρ (i :: s) (j :: s')
  | extra {i s s'} (h : ρ[i]? = some none) (hs : Thins ρ s s') : Thins ρ (i :: s) s'

/-- Besides, what is declared in both scopes is declared in frames that stand for each other. -/
inductive Scope.Anchored (ρ : Thinning) : Scope → Scope → Prop where
  | nil : Anchored ρ [] []
  | kept {i j s s'} (h : ρ[i]? = some (some j)) (hs : Scope.Thins ρ s s') :
      Anchored ρ (i :: s) (j :: s')

abbrev Value.Thins (ρ : Thinning) : Value → Value → Prop := Value.Rescoped (Scope.Thins ρ)

abbrev Frame.Thins (ρ : Thinning) : Frame → Frame → Prop := Frame.Rescoped (Scope.Thins ρ)

abbrev Flow.Thins (ρ : Thinning) : Flow → Flow → Prop := Flow.Rescoped (Scope.Thins ρ)

/-- The second environment is the first one without extra frames, which are empty. -/
structure Environment.Thins (ρ : Thinning) (env env' : Environment) : Prop where
  length : ρ.length = env.frames.size
  lt {i j : FrameId} (h : ρ[i]? = some (some j)) : j < env'.frames.size
  injective {i i' j : FrameId} (h : ρ[i]? = some (some j)) (h' : ρ[i']? = some (some j)) : i = i'
  kept {i j : FrameId} (h : ρ[i]? = some (some j)) :
    Frame.Thins ρ (env.frame i) (env'.frame j)
  extra {i : FrameId} (h : ρ[i]? = some none) : env.frame i = []

section Thinning

variable {ρ ρ' : Thinning} {s s' : Scope}

theorem Thinning.getElem?_mono (h : ρ <+: ρ') {i : FrameId} {x : Option FrameId}
    (hi : ρ[i]? = some x) : ρ'[i]? = some x := by
  obtain ⟨more, rfl⟩ := h
  rw [List.getElem?_append_left (List.getElem?_eq_some_iff.1 hi).1]
  exact hi

theorem Thinning.getElem?_concat {x y : Option FrameId} {i : Nat} :
    (ρ ++ [x])[i]? = some y ↔ ρ[i]? = some y ∨ i = ρ.length ∧ x = y := by
  by_cases hi : i < ρ.length
  · rw [List.getElem?_append_left hi]
    exact ⟨.inl, fun h => h.resolve_right fun hlast => Nat.ne_of_lt hi hlast.1⟩
  · have hnone : ρ[i]? = none := List.getElem?_eq_none (Nat.not_lt.1 hi)
    rw [hnone, List.getElem?_append_right (Nat.not_lt.1 hi), List.getElem?_singleton]
    by_cases hlast : i = ρ.length
    · simp [hlast]
    · have hbehind : i - ρ.length ≠ 0 := by omega
      simp [hlast, hbehind]

namespace Scope

theorem Thins.mono (h : Scope.Thins ρ s s') (hρ : ρ <+: ρ') : Scope.Thins ρ' s s' := by
  induction h with
  | nil => exact .nil
  | kept hi _ ih => exact .kept (Thinning.getElem?_mono hρ hi) ih
  | extra hi _ ih => exact .extra (Thinning.getElem?_mono hρ hi) ih

theorem Anchored.mono (h : Scope.Anchored ρ s s') (hρ : ρ <+: ρ') : Scope.Anchored ρ' s s' := by
  cases h with
  | nil => exact .nil
  | kept hi hs => exact .kept (Thinning.getElem?_mono hρ hi) (hs.mono hρ)

theorem Anchored.thins (h : Scope.Anchored ρ s s') : Scope.Thins ρ s s' := by
  cases h with
  | nil => exact .nil
  | kept hi hs => exact .kept hi hs

/-- All frames of the first scope exist. -/
theorem Thins.lt (h : Scope.Thins ρ s s') : ∀ i ∈ s, i < ρ.length := by
  induction h with
  | nil => exact nofun
  | kept hi _ ih | extra hi _ ih =>
    exact List.forall_mem_cons.2 ⟨(List.getElem?_eq_some_iff.1 hi).1, ih⟩

end Scope

theorem Value.Thins.mono {v v' : Value} (h : Value.Thins ρ v v') (hρ : ρ <+: ρ') :
    Value.Thins ρ' v v' :=
  Value.Rescoped.mono (fun hs => hs.mono hρ) h

theorem Frame.Thins.mono {f f' : Frame} (h : Frame.Thins ρ f f') (hρ : ρ <+: ρ') :
    Frame.Thins ρ' f f' :=
  Frame.Rescoped.mono (fun hs => hs.mono hρ) h

namespace Environment.Thins

variable {env env' : Environment} {name : Name} {v v' : Value} (h : Environment.Thins ρ env env')
include h

theorem lt_left {i : FrameId} {x : Option FrameId} (hi : ρ[i]? = some x) : i < env.frames.size :=
  h.length ▸ (List.getElem?_eq_some_iff.1 hi).1

theorem ne_size {i : FrameId} {x : Option FrameId} (hi : ρ[i]? = some x) : i ≠ env.frames.size :=
  Nat.ne_of_lt (h.lt_left hi)

/-- The nearest binding of a name is in frames that stand for each other. -/
theorem owner? (hs : Scope.Thins ρ s s') (name : Name) :
    Option.Rel (fun i j => ρ[i]? = some (some j)) (env.owner? s name) (env'.owner? s' name) := by
  unfold Environment.owner?
  induction hs with
  | nil => exact .none
  | @kept i j _ _ hi _ ih =>
    rw [List.find?_cons, List.find?_cons, (h.kept hi).binds_eq name]
    cases (env'.frame j).binds name with
    | true => exact .some hi
    | false => exact ih
  | extra hi _ ih =>
    rw [List.find?_cons, h.extra hi]
    exact ih

theorem lookupIn (hs : Scope.Thins ρ s s') (name : Name) :
    Option.Rel (Value.Thins ρ) (env.lookupIn s name) (env'.lookupIn s' name) := by
  have howner := h.owner? hs name
  unfold Environment.lookupIn
  generalize env.owner? s name = x at howner ⊢
  generalize env'.owner? s' name = y at howner ⊢
  cases howner with
  | none => exact .none
  | some hi => exact (h.kept hi).find? name

theorem withCurrent (scope scope' : Scope) :
    Environment.Thins ρ { env with current := scope } { env' with current := scope' } :=
  ⟨h.length, h.lt, h.injective, h.kept, h.extra⟩

theorem bindAt {i j : FrameId} (hi : ρ[i]? = some (some j)) (name : Name)
    (hv : Value.Thins ρ v v') :
    Environment.Thins ρ (env.bindAt i name v) (env'.bindAt j name v') := by
  have hilt : i < env.frames.size := h.lt_left hi
  have hjlt : j < env'.frames.size := h.lt hi
  constructor
  · simp [Environment.bindAt, h.length]
  · intro k l hk
    simpa [Environment.bindAt] using h.lt hk
  · exact h.injective
  · intro k l hk
    rw [frame_bindAt, frame_bindAt]
    by_cases hik : i = k
    · subst hik
      obtain rfl : j = l := Option.some.inj (Option.some.inj (hi.symm.trans hk))
      rw [if_pos ⟨rfl, hilt⟩, if_pos ⟨rfl, hjlt⟩]
      exact (h.kept hk).bind name hv
    · -- Only one frame stands for each, so a different frame stands for a different one.
      have hjl : j ≠ l := by
        rintro rfl
        exact hik (h.injective hi hk)
      rw [if_neg (fun hif => hik hif.1), if_neg (fun hif => hjl hif.1)]
      exact h.kept hk
  · intro k hk
    have hik : i ≠ k := by
      rintro rfl
      cases hi.symm.trans hk
    rw [frame_bindAt, if_neg (fun hif => hik hif.1)]
    exact h.extra hk

theorem defineIn (hs : Scope.Anchored ρ s s') (name : Name)
    (hv : Value.Thins ρ v v') :
    Environment.Thins ρ (env.defineIn s name v) (env'.defineIn s' name v') := by
  cases hs with
  | nil => exact h
  | kept hi _ => exact h.bindAt hi name hv

/-- Two new frames stand for each other. -/
theorem child (hs : Scope.Thins ρ s s') {f f' : Frame}
    (hf : Frame.Thins ρ f f') :
    Scope.Anchored (ρ ++ [some env'.frames.size]) (env.child s f).1 (env'.child s' f').1 ∧
      Environment.Thins (ρ ++ [some env'.frames.size]) (env.child s f).2 (env'.child s' f').2 := by
  have hρ : ρ <+: ρ ++ [some env'.frames.size] := List.prefix_append _ _
  have hnew : (ρ ++ [some env'.frames.size])[env.frames.size]? = some (some env'.frames.size) :=
    Thinning.getElem?_concat.2 (.inr ⟨h.length.symm, rfl⟩)
  refine ⟨.kept hnew (hs.mono hρ), ?_, ?_, ?_, ?_, ?_⟩
  · simp [Environment.child, h.length]
  · intro i j hi
    simp only [Environment.child, Array.size_push]
    obtain hi | ⟨-, hj⟩ := Thinning.getElem?_concat.1 hi
    · exact Nat.lt_succ_of_lt (h.lt hi)
    · rw [Option.some.inj hj]
      exact Nat.lt_succ_self j
  · intro i i' j hi hi'
    obtain hi | ⟨rfl, hj⟩ := Thinning.getElem?_concat.1 hi
    · obtain hi' | ⟨-, hj⟩ := Thinning.getElem?_concat.1 hi'
      · exact h.injective hi hi'
      · exact absurd (Option.some.inj hj) (Nat.ne_of_gt (h.lt hi))
    · obtain hi' | ⟨rfl, -⟩ := Thinning.getElem?_concat.1 hi'
      · exact absurd (Option.some.inj hj) (Nat.ne_of_gt (h.lt hi'))
      · rfl
  · intro i j hi
    rw [frame_child, frame_child]
    obtain hi | ⟨rfl, hj⟩ := Thinning.getElem?_concat.1 hi
    · rw [if_neg (h.ne_size hi), if_neg (Nat.ne_of_lt (h.lt hi))]
      exact Frame.Thins.mono (h.kept hi) hρ
    · rw [if_pos h.length, if_pos (Option.some.inj hj).symm]
      exact Frame.Thins.mono hf hρ
  · intro i hi
    rw [frame_child]
    obtain hi | ⟨-, hnone⟩ := Thinning.getElem?_concat.1 hi
    · rw [if_neg (h.ne_size hi)]
      exact h.extra hi
    · cases hnone

/-- A new frame of the first environment is an extra one as long as it is empty. -/
theorem childExtra (hs : Scope.Thins ρ s s') :
    Scope.Thins (ρ ++ [none]) (env.child s []).1 s' ∧
      Environment.Thins (ρ ++ [none]) (env.child s []).2 env' := by
  have hρ : ρ <+: ρ ++ [none] := List.prefix_append _ _
  have hnew : (ρ ++ [none])[env.frames.size]? = some none :=
    Thinning.getElem?_concat.2 (.inr ⟨h.length.symm, rfl⟩)
  have hkept {i j : FrameId} (hi : (ρ ++ [none])[i]? = some (some j)) : ρ[i]? = some (some j) :=
    (Thinning.getElem?_concat.1 hi).resolve_right fun hlast => nomatch hlast.2
  refine ⟨.extra hnew (hs.mono hρ), ?_, ?_, ?_, ?_, ?_⟩
  · simp [Environment.child, h.length]
  · intro i j hi
    exact h.lt (hkept hi)
  · intro i i' j hi hi'
    exact h.injective (hkept hi) (hkept hi')
  · intro i j hi
    rw [frame_child, if_neg (h.ne_size (hkept hi))]
    exact Frame.Thins.mono (h.kept (hkept hi)) hρ
  · intro i hi
    rw [frame_child]
    by_cases hlast : i = env.frames.size
    · rw [if_pos hlast]
    · rw [if_neg hlast]
      obtain hi | ⟨hi, -⟩ := Thinning.getElem?_concat.1 hi
      · exact h.extra hi
      · exact absurd (hi.trans h.length) hlast

end Environment.Thins

end Thinning

/-- The second machine is the first one without extra frames, and without its log. They stand in the
scopes `s` and `s'`. -/
structure Machine.Thins (ρ : Thinning) (s s' : Scope) (m m' : Machine) : Prop where
  names : m.names = m'.names
  env : Environment.Thins ρ m.env m'.env
  left : m.env.current = s
  right : m'.env.current = s'
  output : m.output = m'.output
  callDepth : m.callDepth = m'.callDepth
  maxCallDepth : m.maxCallDepth = m'.maxCallDepth
  functionCount : m.functionCount = m'.functionCount
  host : m.host = m'.host
  parametric : ∀ run ∈ m.host, HostFunction.Parametric run
  clock : m.clock = m'.clock

namespace Machine.Thins

variable {ρ ρ' : Thinning} {s s' t t' : Scope} {m m' : Machine} (h : Machine.Thins ρ s s' m m')
include h

theorem withLog (log log' : Log) :
    Machine.Thins ρ s s' { m with log } { m' with log := log' } :=
  { h with }

theorem withEnv {env env' : Environment} (henv : Environment.Thins ρ' env env')
    (hleft : env.current = t) (hright : env'.current = t') :
    Machine.Thins ρ' t t' { m with env } { m' with env := env' } :=
  { h with env := henv, left := hleft, right := hright }

theorem withCurrent (t t' : Scope) : Machine.Thins ρ t t' { m with env := { m.env with current := t } }
    { m' with env := { m'.env with current := t' } } :=
  h.withEnv (h.env.withCurrent t t') rfl rfl

theorem withDepth {depth depth' : Nat} (hdepth : depth = depth') :
    Machine.Thins ρ s s' { m with callDepth := depth } { m' with callDepth := depth' } :=
  { h with callDepth := hdepth }

theorem println (line : String) :
    Machine.Thins ρ s s' { m with output := m.output.println line }
      { m' with output := m'.output.println line } :=
  { h with output := congrArg (·.println line) h.output }

theorem define (hs : Scope.Anchored ρ s s') (name : Name) {v v' : Value}
    (hv : Value.Thins ρ v v') :
    Machine.Thins ρ s s' { m with env := m.env.define name v }
      { m' with env := m'.env.define name v' } := by
  have henv : Environment.Thins ρ (m.env.define name v) (m'.env.define name v') := by
    rw [Environment.define, Environment.define, h.left, h.right]
    exact h.env.defineIn hs name hv
  have hcurrent (env : Environment) (v : Value) : (env.define name v).current = env.current := by
    unfold Environment.define Environment.defineIn
    split <;> rfl
  exact h.withEnv henv ((hcurrent _ _).trans h.left) ((hcurrent _ _).trans h.right)

theorem declare (hs : Scope.Anchored ρ s s') (decl : FunctionDecl) :
    Machine.Thins ρ s s'
      { m with
        functionCount := m.functionCount + 1
        env := m.env.define decl.name (.function
          ⟨m.functionCount, m.names.spelling decl.name, decl, m.env.current⟩) }
      { m' with
        functionCount := m'.functionCount + 1
        env := m'.env.define decl.name (.function
          ⟨m'.functionCount, m'.names.spelling decl.name, decl, m'.env.current⟩) } := by
  have hv : Value.Thins ρ
      (.function ⟨m.functionCount, m.names.spelling decl.name, decl, m.env.current⟩)
      (.function ⟨m'.functionCount, m'.names.spelling decl.name, decl, m'.env.current⟩) := by
    rw [h.functionCount, h.names, h.left, h.right]
    exact .function _ _ decl hs.thins
  exact { h.define hs decl.name hv with functionCount := congrArg (· + 1) h.functionCount }

end Machine.Thins

/-- All frames that a scope of the machine sees exist. -/
structure Machine.WellScoped (m : Machine) : Prop where
  current : ∀ i ∈ m.env.current, i < m.env.frames.size
  functions : m.env.Only fun f => ∀ i ∈ f.scope, i < m.env.frames.size

/-- Nothing is extra. -/
def Thinning.all (n : Nat) : Thinning := (List.range n).map some

section WellScoped

variable {n : Nat} {ρ : Thinning} {s s' : Scope} {m m' : Machine}

theorem Thinning.getElem?_all {i j : Nat} :
    (Thinning.all n)[i]? = some (some j) ↔ i < n ∧ i = j := by
  simp [Thinning.all, List.getElem?_eq_some_iff]

theorem Scope.thins_all (hs : ∀ i ∈ s, i < n) : Scope.Thins (.all n) s s := by
  induction s with
  | nil => exact .nil
  | cons i s ih =>
    obtain ⟨hi, hs⟩ := List.forall_mem_cons.1 hs
    exact .kept (Thinning.getElem?_all.2 ⟨hi, rfl⟩) (ih hs)

theorem Scope.anchored_all (hs : ∀ i ∈ s, i < n) : Scope.Anchored (.all n) s s := by
  cases s with
  | nil => exact .nil
  | cons i s =>
    obtain ⟨hi, hs⟩ := List.forall_mem_cons.1 hs
    exact .kept (Thinning.getElem?_all.2 ⟨hi, rfl⟩) (Scope.thins_all hs)

theorem Frame.rescoped_all {frame : Frame} (h : frame.Only fun f => ∀ i ∈ f.scope, i < n) :
    Frame.Thins (.all n) frame frame := by
  refine List.forall₂_same.2 fun b hb => ⟨rfl, .of_only ?_⟩
  intro f hf
  exact Scope.thins_all (h b hb f hf)

/-- A machine is itself without the frames that it does not have. -/
theorem Machine.WellScoped.thins (h : m.WellScoped) (hhost : ∀ run ∈ m.host, run.Parametric) :
    Machine.Thins (.all m.env.frames.size) m.env.current m.env.current m m := by
  have henv : Environment.Thins (.all m.env.frames.size) m.env m.env := by
    constructor
    · simp [Thinning.all]
    · intro i j hi
      obtain ⟨hlt, rfl⟩ := Thinning.getElem?_all.1 hi
      exact hlt
    · intro i i' j hi hi'
      exact (Thinning.getElem?_all.1 hi).2.trans (Thinning.getElem?_all.1 hi').2.symm
    · intro i j hi
      obtain ⟨-, rfl⟩ := Thinning.getElem?_all.1 hi
      exact Frame.rescoped_all (h.functions.frame i)
    · intro i hi
      simp [Thinning.all] at hi
  exact ⟨rfl, henv, rfl, rfl, rfl, rfl, rfl, rfl, rfl, hhost, rfl⟩

/-- All frames exist that the scopes of functions in the frame see. -/
theorem Frame.Rescoped.only {f f' : Frame} (h : Frame.Thins ρ f f') :
    f.Only fun g => ∀ i ∈ g.scope, i < ρ.length := by
  induction h with
  | nil => exact Frame.only_nil
  | @cons b b' _ _ hb _ ih =>
    obtain ⟨name, v⟩ := b
    obtain ⟨name', v'⟩ := b'
    have hv : v.Only fun g => ∀ i ∈ g.scope, i < ρ.length := by
      rintro g rfl
      obtain ⟨-, hv⟩ := hb
      cases hv with
      | function _ _ _ hs => exact hs.lt
    exact List.forall_mem_cons.2 ⟨hv, ih⟩

/-- Where frames stand for each other, the scopes in them exist. -/
theorem Machine.Thins.wellScoped (h : Machine.Thins ρ s s' m m') (hs : Scope.Thins ρ s s') :
    m.WellScoped := by
  constructor
  · rw [h.left, ← h.env.length]
    exact hs.lt
  · intro frame hframe
    rw [← h.env.length]
    obtain ⟨i, hi⟩ := Array.mem_iff_getElem?.1 hframe
    have hframe : m.env.frame i = frame := by
      rw [Environment.frame, Array.getD_eq_getD_getElem?, hi]
      rfl
    have hlt : i < ρ.length := by
      rw [h.env.length]
      exact (Array.getElem?_eq_some_iff.1 hi).1
    rcases hρ : ρ[i]? with _ | _ | j
    · exact absurd (List.getElem?_eq_none_iff.1 hρ) (Nat.not_le.2 hlt)
    · rw [← hframe, h.env.extra hρ]
      exact Frame.only_nil
    · rw [← hframe]
      exact (h.env.kept hρ).only

end WellScoped

end Tarn
