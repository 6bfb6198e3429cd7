import Tarn.Proofs.Semantics.BigStep

/-! Which functions a program can come by. What holds of all functions in the values at hand holds
of those that are looked up, bound and computed. -/
namespace Tarn

variable {P : Closure → Prop}

/-- The value is no function, or one of which `P` holds. -/
def Value.Only (P : Closure → Prop) (v : Value) : Prop := ∀ f, v = .function f → P f

def Flow.Only (P : Closure → Prop) : Flow → Prop
  | .normal => True
  | .returned v => v.Only P

def Frame.Only (P : Closure → Prop) (frame : Frame) : Prop := ∀ b ∈ frame, b.2.Only P

def Environment.Only (P : Closure → Prop) (env : Environment) : Prop :=
  ∀ frame ∈ env.frames, Frame.Only P frame

/-- The function of the host gives no functions but such as it is given. -/
def HostFunction.Only (P : Closure → Prop) (run : HostFunction) : Prop :=
  ∀ clock args v, (∀ a ∈ args, a.Only P) → run clock args = .ok v → v.Only P

theorem Value.only_of_ne {v : Value} (h : ∀ f, v ≠ .function f) : v.Only P :=
  fun f hf => absurd hf (h f)

/-- The value is no function. -/
def Value.IsData : Value → Prop
  | .function _ | .native _ => False
  | _ => True

theorem Value.IsData.only {v : Value} (h : v.IsData) : v.Only P := by
  rintro f rfl
  exact h.elim

theorem UnaryOp.isData_apply (op : UnaryOp) (operand : Value) {v : Value}
    (h : op.apply operand = .ok v) : v.IsData := by
  cases op with
  | neg =>
    simp only [apply] at h
    split at h
    · rw [← Except.ok.inj h]
      trivial
    · cases h
  | not =>
    rw [← Except.ok.inj h]
    trivial

theorem UnaryOp.only_apply (op : UnaryOp) (operand : Value) {v : Value}
    (h : op.apply operand = .ok v) : v.Only P := (op.isData_apply operand h).only

theorem bothNumbers_isData {op : BinaryOp} {left right v : Value} {f : Float → Float → Value}
    (hf : ∀ a b, (f a b).IsData) (h : bothNumbers op left right f = .ok v) : v.IsData := by
  unfold bothNumbers at h
  split at h
  · rw [← Except.ok.inj h]
    exact hf _ _
  · cases h

theorem BinaryOp.isData_apply (op : BinaryOp) (left right : Value) {v : Value}
    (h : op.apply left right = .ok v) : v.IsData := by
  have hnumber {x : Float} : (Value.number x).IsData := trivial
  have hbool {b : Bool} : (Value.bool b).IsData := trivial
  cases op with
  | equal | notEqual =>
    rw [← Except.ok.inj h]
    trivial
  | sub | mul => exact bothNumbers_isData (fun _ _ => hnumber) h
  | less | lessEqual | greater | greaterEqual => exact bothNumbers_isData (fun _ _ => hbool) h
  | add =>
    simp only [apply] at h
    split at h
    · rw [← Except.ok.inj h]
      trivial
    · rw [← Except.ok.inj h]
      trivial
    · cases h
  | div =>
    simp only [apply] at h
    split at h
    · split at h
      · cases h
      · rw [← Except.ok.inj h]
        trivial
    · cases h

theorem BinaryOp.only_apply (op : BinaryOp) (left right : Value) {v : Value}
    (h : op.apply left right = .ok v) : v.Only P := (op.isData_apply left right h).only

namespace Frame

@[simp] theorem only_nil : Frame.Only P [] := by
  intro b hb
  cases hb

theorem Only.bind {frame : Frame} {name : Name} {value : Value} (h : frame.Only P)
    (hvalue : value.Only P) : (frame.bind name value).Only P := by
  induction frame with
  | nil =>
    rintro b hb
    obtain rfl := List.mem_singleton.1 hb
    exact hvalue
  | cons b frame ih =>
    obtain ⟨n, v⟩ := b
    obtain ⟨hv, hframe⟩ := List.forall_mem_cons.1 h
    rw [Frame.bind]
    split
    · exact List.forall_mem_cons.2 ⟨hvalue, hframe⟩
    · exact List.forall_mem_cons.2 ⟨hv, ih hframe⟩

theorem Only.find? {frame : Frame} {name : Name} {value : Value} (h : frame.Only P)
    (hfind : frame.find? name = some value) : value.Only P := by
  induction frame with
  | nil => cases hfind
  | cons b frame ih =>
    obtain ⟨n, v⟩ := b
    obtain ⟨hv, hframe⟩ := List.forall_mem_cons.1 h
    rw [Frame.find?] at hfind
    split at hfind
    · rw [← Option.some.inj hfind]
      exact hv
    · exact ih hframe hfind

theorem only_bindParams (params : List Param) {args : List Value} (h : ∀ a ∈ args, a.Only P) :
    (bindParams params args).Only P := by
  rw [bindParams]
  refine List.foldlRecOn _ _ only_nil fun frame hframe b hb => ?_
  exact hframe.bind (h _ (List.of_mem_zip hb).2)

end Frame

namespace Environment

variable {env : Environment}

theorem only_default : ({} : Environment).Only P := by
  intro frame hframe
  rw [Array.mem_singleton.1 hframe]
  exact Frame.only_nil

theorem Only.frame (h : env.Only P) (i : FrameId) : (env.frame i).Only P := by
  rw [Environment.frame, Array.getD_eq_getD_getElem?]
  rcases hi : env.frames[i]? with _ | frame
  · exact Frame.only_nil
  · exact h _ (Array.mem_of_getElem? hi)

theorem Only.lookupIn {scope : Scope} {name : Name} {v : Value} (h : env.Only P)
    (hv : env.lookupIn scope name = some v) : v.Only P := by
  rw [Environment.lookupIn] at hv
  obtain ⟨i, -, hv⟩ := Option.bind_eq_some_iff.1 hv
  exact (h.frame i).find? hv

theorem Only.bindAt (h : env.Only P) (i : FrameId) (name : Name) {value : Value}
    (hvalue : value.Only P) : (env.bindAt i name value).Only P := by
  intro frame hframe
  rw [Environment.bindAt, Array.mem_iff_getElem?] at hframe
  obtain ⟨j, hj⟩ := hframe
  rw [Array.getElem?_modify] at hj
  split at hj
  · obtain ⟨old, hold, rfl⟩ := Option.map_eq_some_iff.1 hj
    exact (h _ (Array.mem_of_getElem? hold)).bind hvalue
  · exact h _ (Array.mem_of_getElem? hj)

theorem Only.defineIn (h : env.Only P) (scope : Scope) (name : Name) {value : Value}
    (hvalue : value.Only P) : (env.defineIn scope name value).Only P := by
  cases scope with
  | nil => exact h
  | cons i scope => exact h.bindAt i name hvalue

theorem Only.child (h : env.Only P) (outer : Scope) {bindings : Frame}
    (hbindings : bindings.Only P) : (env.child outer bindings).2.Only P := by
  intro frame hframe
  obtain hframe | rfl := Array.mem_push.1 hframe
  · exact h _ hframe
  · exact hbindings

end Environment

/-- One of the values is this function. -/
def World.Holds (w : World) (f : Closure) : Prop :=
  ∃ frame ∈ w.frames, ∃ name, (name, Value.function f) ∈ frame

def World.Only (P : Closure → Prop) (w : World) : Prop := ∀ frame ∈ w.frames, Frame.Only P frame

/-- The functions of the host give no functions but such as they are given. -/
def Context.Only (P : Closure → Prop) (S : Context) : Prop := ∀ run ∈ S.host, run.Only P

theorem Context.only_literal (S : Context) (value : Literal) : (S.literal value).Only P := by
  cases value <;> exact Value.only_of_ne nofun

theorem Flow.Only.value {flow : Flow} (h : flow.Only P) : flow.value.Only P := by
  cases flow with
  | normal => exact Value.only_of_ne nofun
  | returned v => exact h

namespace World

variable {w : World}

/-- What holds of a world holds of the functions in it. -/
theorem only_iff : w.Only P ↔ ∀ f, w.Holds f → P f := by
  constructor
  · rintro h f ⟨frame, hframe, name, hf⟩
    exact h frame hframe _ hf f rfl
  · rintro h frame hframe ⟨name, v⟩ hv f rfl
    exact h f ⟨frame, hframe, name, hv⟩

theorem Only.env (h : w.Only P) (scope : Scope) : (w.env scope).Only P := h

theorem Only.lookup {scope : Scope} {name : Name} {v : Value} (h : w.Only P)
    (hv : (w.env scope).lookup name = some v) : v.Only P :=
  (h.env scope).lookupIn hv

theorem Only.assign (h : w.Only P) (i : FrameId) (name : Name) {value : Value}
    (hvalue : value.Only P) : (w.assign i name value).Only P :=
  (h.env []).bindAt i name hvalue

theorem Only.define (h : w.Only P) (scope : Scope) (name : Name) {value : Value}
    (hvalue : value.Only P) : (w.define scope name value).Only P :=
  (h.env scope).defineIn scope name hvalue

theorem Only.push {bindings : Frame} (h : w.Only P) (hbindings : bindings.Only P) :
    (w.push bindings).Only P :=
  (h.env []).child [] hbindings

theorem Only.println (h : w.Only P) (line : String) : (w.println line).Only P := h

theorem Only.declare (h : w.Only P) (S : Context) (scope : Scope) {decl : FunctionDecl}
    (hdecl : ∀ id name, P ⟨id, name, decl, scope⟩) : (S.declare w scope decl).Only P := by
  have hw : { w with functionCount := w.functionCount + 1 }.Only P := h
  refine hw.define scope decl.name ?_
  rintro f ⟨⟩
  exact hdecl _ _

end World

end Tarn
