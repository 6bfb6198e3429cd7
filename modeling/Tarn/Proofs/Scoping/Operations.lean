import Mathlib.Data.List.Induction
import Tarn.Proofs.Scoping.Assignment
import Tarn.Proofs.Scoping.Chains

/-! An environment in the hands of a host, which may put scopes aside, come back to them and copy
them. -/
namespace Tarn

/-- An environment, the scopes that were current when others were entered, and scopes put aside. -/
structure Workspace where
  env : Environment := {}
  stack : List Scope := []
  saved : Array Scope := #[]

/-- A scope that the host has a handle of. -/
inductive Place where
  | current
  | global
  | saved (i : Nat)

inductive Operation where
  | define (place : Place) (name : Name) (value : Value)
  | assign (place : Place) (name : Name) (value : Value)
  /-- Makes the scope current. -/
  | enter (place : Place)
  /-- Makes a new scope inside the given one, and makes it current. -/
  | enterChild (place : Place)
  | restore
  | save (place : Place)
  /-- Puts a copy of the scope aside: the same bindings inside the same scope. -/
  | clone (place : Place)

namespace Workspace

/-- The scope, if there is such a handle. -/
def scope? (w : Workspace) : Place → Option Scope
  | .current => some w.env.current
  | .global => some Environment.global
  | .saved i => w.saved[i]?

def enter (w : Workspace) (s : Scope) : Workspace :=
  let (previous, env) := w.env.enter s
  { w with env, stack := previous :: w.stack }

def restore (w : Workspace) : Workspace :=
  match w.stack with
  | [] => w
  | s :: stack => { w with env := w.env.restore s, stack }

/-- Puts a copy of the first frame of a scope aside. -/
def clone (w : Workspace) (s : Scope) : Workspace :=
  let (copy, env) := w.env.child s.tail (w.env.frame (s.headD 0))
  { w with env, saved := w.saved.push copy }

/-- Carries out an operation, unless it is one on a handle that there is not. -/
def perform (w : Workspace) (op : Operation) : Workspace :=
  match op with
  | .define place name value => on place fun s => { w with env := w.env.defineIn s name value }
  | .assign place name value =>
      on place fun s => { w with env := (w.env.assignIn s name value).2 }
  | .enter place => on place w.enter
  | .enterChild place => on place fun s =>
      let (inner, env) := w.env.child s []
      { w with env }.enter inner
  | .restore => w.restore
  | .save place => on place fun s => { w with saved := w.saved.push s }
  | .clone place => on place w.clone
where
  on (place : Place) (act : Scope → Workspace) : Workspace := ((w.scope? place).map act).getD w

/-- After some operations on a fresh environment. -/
def after (ops : List Operation) : Workspace := ops.foldl perform {}

/-- All scopes that there are handles of. -/
def scopes (w : Workspace) : List Scope :=
  Environment.global :: w.env.current :: w.stack ++ w.saved.toList

/-- The operation copies a scope that lies in no other. -/
def ClonesRoot (w : Workspace) : Operation → Prop
  | .clone place => ∃ s, w.scope? place = some s ∧ s.tail = []
  | _ => False

/-- All scopes at hand are chains in the forest. -/
structure Planted (p : Parents) (w : Workspace) : Prop where
  nonempty : 0 < w.env.frames.size
  forest : p.Forest w.env.frames.size
  current : p.Scoped w.env.frames.size w.env.current
  stack : ∀ s ∈ w.stack, p.Scoped w.env.frames.size s
  saved : ∀ s ∈ w.saved, p.Scoped w.env.frames.size s

variable {p : Parents} {w w' : Workspace} {s : Scope} {place : Place} {op : Operation}

namespace Planted

theorem global (h : w.Planted p) : p.Scoped w.env.frames.size Environment.global := by
  have hroot : p 0 = none := by
    rcases hp : p 0 with _ | j
    · rfl
    · exact absurd (h.forest 0 h.nonempty j hp) (Nat.not_lt_zero j)
  exact ⟨.root hroot, fun i hi => List.mem_singleton.1 hi ▸ h.nonempty⟩

theorem of_mem (h : w.Planted p) : ∀ s ∈ w.scopes, p.Scoped w.env.frames.size s :=
  List.forall_mem_append.2 ⟨List.forall_mem_cons.2 ⟨h.global, List.forall_mem_cons.2
    ⟨h.current, h.stack⟩⟩, fun s hs => h.saved s (Array.mem_toList_iff.1 hs)⟩

theorem of_scope? (h : w.Planted p) (hs : w.scope? place = some s) : p.Scoped w.env.frames.size s := by
  cases place with
  | current => exact Option.some.inj hs ▸ h.current
  | global => exact Option.some.inj hs ▸ h.global
  | saved i => exact h.saved s (Array.mem_of_getElem? hs)

theorem start : Planted (fun _ => none) {} where
  nonempty := Nat.one_pos
  forest := nofun
  current := ⟨.root rfl, fun _ hi => List.mem_singleton.1 hi ▸ Nat.one_pos⟩
  stack := nofun
  saved := nofun

/-- Bindings are not what the forest is made of. -/
theorem withFrames (h : w.Planted p) {env : Environment} (hsize : env.frames.size = w.env.frames.size)
    (hcurrent : env.current = w.env.current) : { w with env }.Planted p := by
  cases env with | mk frames current =>
  obtain rfl := hcurrent
  obtain ⟨hnonempty, hforest, hcurrent, hstack, hsaved⟩ := h
  rw [← hsize] at hnonempty hforest hcurrent hstack hsaved
  exact ⟨hnonempty, hforest, hcurrent, hstack, hsaved⟩

theorem enter (h : w.Planted p) (hs : p.Scoped w.env.frames.size s) : (w.enter s).Planted p :=
  ⟨h.nonempty, h.forest, hs, List.forall_mem_cons.2 ⟨h.current, h.stack⟩, h.saved⟩

theorem restore (h : w.Planted p) : w.restore.Planted p := by
  unfold Workspace.restore
  rcases hstack : w.stack with _ | ⟨s, stack⟩
  · exact h
  · obtain ⟨hs, hrest⟩ := List.forall_mem_cons.1 (hstack ▸ h.stack)
    exact ⟨h.nonempty, h.forest, hs, hrest, h.saved⟩

theorem save (h : w.Planted p) (hs : p.Scoped w.env.frames.size s) :
    { w with saved := w.saved.push s }.Planted p := by
  refine ⟨h.nonempty, h.forest, h.current, h.stack, fun t ht => ?_⟩
  obtain ht | rfl := Array.mem_push.1 ht
  · exact h.saved t ht
  · exact hs

/-- A new frame, in a scope or in none. -/
theorem child (h : w.Planted p) {outer : Scope} (bindings : Frame)
    (houter : ∀ i ∈ outer, i < w.env.frames.size) :
    { w with env := (w.env.child outer bindings).2 }.Planted (p.push w.env.frames.size outer) := by
  have hsize : (w.env.child outer bindings).2.frames.size = w.env.frames.size + 1 :=
    Array.size_push _
  have hmono {s : Scope} (hs : p.Scoped w.env.frames.size s) :
      (p.push w.env.frames.size outer).Scoped (w.env.child outer bindings).2.frames.size s :=
    hs.mono Parents.extends_push (hsize ▸ Nat.le_succ _)
  exact ⟨hsize ▸ Nat.succ_pos _, hsize ▸ h.forest.push houter, hmono h.current,
    fun s hs => hmono (h.stack s hs), fun s hs => hmono (h.saved s hs)⟩

theorem enterChild (h : w.Planted p) (hs : p.Scoped w.env.frames.size s) :
    ({ w with env := (w.env.child s []).2 }.enter (w.env.child s []).1).Planted
      (p.push w.env.frames.size s) := by
  refine (h.child [] hs.lt).enter ?_
  have hsize : (w.env.child s []).2.frames.size = w.env.frames.size + 1 := Array.size_push _
  rw [hsize]
  exact hs.push

/-- A copy lies in what its original lies in. -/
theorem clone (h : w.Planted p) (hs : p.Scoped w.env.frames.size s) :
    (w.clone s).Planted (p.push w.env.frames.size s.tail) := by
  have hlt : ∀ i ∈ s.tail, i < w.env.frames.size := fun i hi => hs.lt i (List.mem_of_mem_tail hi)
  refine (h.child (w.env.frame (s.headD 0)) hlt).save ?_
  have hsize : (w.env.child s.tail (w.env.frame (s.headD 0))).2.frames.size =
      w.env.frames.size + 1 := Array.size_push _
  rw [hsize]
  by_cases htail : s.tail = []
  · rw [htail]
    exact .newRoot
  · exact (hs.tail htail).push

end Planted

/-- In `w'` all scopes are chains in a forest as well, with one root as before unless `another`. -/
def Goes (p : Parents) (w : Workspace) (another : Prop) (w' : Workspace) : Prop :=
  ∃ p', w'.Planted p' ∧
    (¬ another → p.OneRoot w.env.frames.size → p'.OneRoot w'.env.frames.size)

namespace Planted

variable {another : Prop}

theorem goes_on {act : Scope → Workspace} (h : w.Planted p)
    (hact : ∀ s, w.scope? place = some s → Goes p w another (act s)) :
    Goes p w another (perform.on w place act) := by
  unfold perform.on
  rcases hs : w.scope? place with _ | s
  · exact ⟨p, h, fun _ hroot => hroot⟩
  · exact hact s hs

theorem goes_withFrames (h : w.Planted p) {env : Environment}
    (hsize : env.frames.size = w.env.frames.size) (hcurrent : env.current = w.env.current) :
    Goes p w another { w with env } :=
  ⟨p, h.withFrames hsize hcurrent, fun _ hroot => hsize ▸ hroot⟩

/-- An operation adds at most one frame to the forest, and a root only when it copies one. -/
theorem goes (h : w.Planted p) (op : Operation) : Goes p w (w.ClonesRoot op) (w.perform op) := by
  cases op with
  | define place name value =>
    refine h.goes_on fun s _ => h.goes_withFrames ?_ ?_ <;> cases s
    · rfl
    · exact Array.size_modify ..
    · rfl
    · rfl
  | assign place name value =>
    refine h.goes_on fun s _ => ?_
    obtain ⟨i, hi⟩ | hs := w.env.nearest_or_unbound s name
    · rw [hi.assignIn]
      exact h.goes_withFrames (Array.size_modify ..) rfl
    · rw [hs.assignIn]
      exact h.goes_withFrames rfl rfl
  | enter place =>
    exact h.goes_on fun s hs => ⟨p, h.enter (h.of_scope? hs), fun _ hroot => hroot⟩
  | enterChild place =>
    refine h.goes_on fun s hs => ?_
    have hs := h.of_scope? hs
    have hsize : (w.env.child s []).2.frames.size = w.env.frames.size + 1 := Array.size_push _
    refine ⟨_, h.enterChild hs, fun _ hroot => ?_⟩
    change Parents.OneRoot _ (w.env.child s []).2.frames.size
    rw [hsize]
    exact hroot.push hs.chain.ne_nil
  | restore =>
    have hframes : w.restore.env.frames = w.env.frames := by
      unfold Workspace.restore
      split <;> rfl
    refine ⟨p, h.restore, fun _ hroot => ?_⟩
    rw [perform, hframes]
    exact hroot
  | save place =>
    exact h.goes_on fun s hs => ⟨p, h.save (h.of_scope? hs), fun _ hroot => hroot⟩
  | clone place =>
    refine h.goes_on fun s hs => ?_
    have hs' := h.of_scope? hs
    have hsize : (w.clone s).env.frames.size = w.env.frames.size + 1 := Array.size_push _
    refine ⟨_, h.clone hs', fun hclones hroot => ?_⟩
    rw [hsize]
    exact hroot.push fun htail => hclones ⟨s, hs, htail⟩

end Planted

/-- No copy is made of a scope that lies in no other. -/
def NoRootCloned (ops : List Operation) : Prop :=
  ∀ before op later, ops = before ++ op :: later → ¬ (after before).ClonesRoot op

theorem after_concat (ops : List Operation) (op : Operation) :
    after (ops ++ [op]) = (after ops).perform op := List.foldl_concat ..

theorem NoRootCloned.init {ops : List Operation} (h : NoRootCloned (ops ++ [op])) :
    NoRootCloned ops :=
  fun before op' later hops => h before op' (later ++ [op]) (by rw [hops, List.append_assoc]; rfl)

/-- After any operations the scopes at hand are chains in one forest. -/
theorem after_planted (ops : List Operation) : ∃ p, (after ops).Planted p ∧
    (NoRootCloned ops → p.OneRoot (after ops).env.frames.size) := by
  induction ops using List.reverseRecOn with
  | nil => exact ⟨_, .start, fun _ i hi _ => Nat.lt_one_iff.1 hi⟩
  | append_singleton ops op ih =>
    obtain ⟨p, hplanted, hroot⟩ := ih
    obtain ⟨p', hplanted', hroot'⟩ := hplanted.goes op
    rw [after_concat]
    exact ⟨p', hplanted', fun h => hroot' (h ops op [] rfl) (hroot h.init)⟩

/-- What is put aside stays there. -/
theorem saved_subset_perform (w : Workspace) (op : Operation) :
    ∀ s ∈ w.saved, s ∈ (w.perform op).saved := by
  have hon {place : Place} {act : Scope → Workspace} (hact : ∀ s, ∀ t ∈ w.saved, t ∈ (act s).saved) :
      ∀ t ∈ w.saved, t ∈ (perform.on w place act).saved := by
    unfold perform.on
    rcases w.scope? place with _ | s
    · exact fun _ ht => ht
    · exact hact s
  cases op with
  | define | assign | enter | enterChild => exact hon fun _ _ ht => ht
  | restore =>
    intro s hs
    change s ∈ w.restore.saved
    unfold restore
    split <;> exact hs
  | save | clone => exact hon fun _ _ ht => Array.mem_push_of_mem _ ht

theorem saved_subset_after (before later : List Operation) :
    ∀ s ∈ (after before).saved, s ∈ (after (before ++ later)).saved := by
  induction later using List.reverseRecOn with
  | nil =>
    rw [List.append_nil]
    exact fun _ hs => hs
  | append_singleton later op ih =>
    rw [← List.append_assoc, after_concat]
    exact fun s hs => saved_subset_perform _ op s (ih s hs)

/-- A copy of a scope that lies in no other is a second root, and stays at hand. -/
theorem exists_root_saved {ops : List Operation} (h : ¬ NoRootCloned ops) :
    ∃ i, 0 < i ∧ [i] ∈ (after ops).saved := by
  simp only [NoRootCloned, not_forall, not_not] at h
  obtain ⟨before, op, later, rfl, hclones⟩ := h
  obtain ⟨p, hplanted, -⟩ := after_planted before
  refine ⟨(after before).env.frames.size, hplanted.nonempty, ?_⟩
  have hsaved : [(after before).env.frames.size] ∈ ((after before).perform op).saved := by
    cases op with
    | clone place =>
      obtain ⟨s, hs, htail⟩ := hclones
      have hperform : (after before).perform (.clone place) = (after before).clone s := by
        rw [perform, perform.on, hs]
        rfl
      rw [hperform, clone, htail]
      exact Array.mem_push_self
    | _ => exact absurd hclones id
  rw [← after_concat] at hsaved
  rw [← List.singleton_append, ← List.append_assoc]
  exact saved_subset_after _ later _ hsaved

/-- Whatever a host does with the scopes, each of them is a parent chain in a forest, from which
lookups and assignments end without taking hold of a frame twice. The global scope is at the end of
all of them just if none that lies in no other was copied. -/
theorem scopes_after (ops : List Operation) : ∃ p : Parents,
    p.Forest (after ops).env.frames.size ∧
    (∀ s ∈ (after ops).scopes, p.Sound (after ops).env s) ∧
    ((∀ s ∈ (after ops).scopes, s.getLast? = some 0) ↔ NoRootCloned ops) := by
  obtain ⟨p, hplanted, hroot⟩ := after_planted ops
  refine ⟨p, hplanted.forest, fun s hs => (hplanted.of_mem s hs).sound hplanted.forest _, ?_⟩
  constructor
  · intro hglobal
    by_contra hcloned
    obtain ⟨i, hi, hsaved⟩ := exists_root_saved hcloned
    have hlast : some i = some 0 :=
      hglobal [i] (List.mem_append_right _ (Array.mem_toList_iff.2 hsaved))
    exact absurd (Option.some.inj hlast) (Nat.ne_of_gt hi)
  · exact fun h s hs => (hplanted.of_mem s hs).getLast?_eq (hroot h)

/-- The copy of the global scope lies in no other scope. -/
example : [1] ∈ (after [.save .current, .clone (.saved 0)]).scopes := by decide

end Workspace

end Tarn
