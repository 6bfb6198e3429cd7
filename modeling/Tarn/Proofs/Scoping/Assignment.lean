import Tarn.Proofs.Likeness.Machines
import Tarn.Proofs.Semantics.Views

/-! Assignments and the nearest binding. A lookup and an assignment go outward separately, and stop in
the same frame. -/
namespace Tarn

namespace Environment

/-- Binds a name anew in the first frame of the scope that binds it, and tells whether there is one. -/
def assignIn (env : Environment) : Scope → Name → Value → Bool × Environment
  | [], _, _ => (false, env)
  | i :: outer, name, value =>
      if (env.frame i).binds name then (true, env.bindAt i name value)
      else env.assignIn outer name value

/-- Seen from the scope, the nearest binding of the name is in the frame `i`. -/
def Nearest (env : Environment) (s : Scope) (name : Name) (i : FrameId) : Prop :=
  ∃ inner outer, s = inner ++ i :: outer ∧ (∀ j ∈ inner, (env.frame j).binds name = false) ∧
    (env.frame i).binds name = true

/-- Seen from the scope, the name is not bound. -/
def Unbound (env : Environment) (s : Scope) (name : Name) : Prop :=
  ∀ i ∈ s, (env.frame i).binds name = false

variable {env env' : Environment} {s : Scope} {name : Name} {i j : FrameId} {value : Value}

theorem nearest_or_unbound (env : Environment) (s : Scope) (name : Name) :
    (∃ i, env.Nearest s name i) ∨ env.Unbound s name := by
  induction s with
  | nil => exact .inr nofun
  | cons i s ih =>
    rcases hi : (env.frame i).binds name with _ | _
    · obtain ⟨j, inner, outer, rfl, hinner, hj⟩ | hs := ih
      · exact .inl ⟨j, i :: inner, outer, rfl, List.forall_mem_cons.2 ⟨hi, hinner⟩, hj⟩
      · exact .inr (List.forall_mem_cons.2 ⟨hi, hs⟩)
    · exact .inl ⟨i, [], s, rfl, nofun, hi⟩

theorem Nearest.binds (h : env.Nearest s name i) : (env.frame i).binds name = true := by
  obtain ⟨-, -, -, -, hi⟩ := h
  exact hi

/-- Where the same names are bound, the nearest binding is the same. -/
theorem Nearest.congr (h : env.Nearest s name i)
    (hbinds : ∀ j, (env'.frame j).binds name = (env.frame j).binds name) :
    env'.Nearest s name i := by
  obtain ⟨inner, outer, rfl, hinner, hi⟩ := h
  exact ⟨inner, outer, rfl, fun j hj => (hbinds j).trans (hinner j hj), (hbinds i).trans hi⟩

section Lookup

theorem lookupIn_cons_of_binds (hi : (env.frame i).binds name = true) :
    env.lookupIn (i :: s) name = (env.frame i).find? name := by
  rw [lookupIn, owner?, List.find?_cons, hi]
  rfl

theorem lookupIn_cons (hi : (env.frame i).binds name = false) :
    env.lookupIn (i :: s) name = env.lookupIn s name := by
  rw [lookupIn, owner?, List.find?_cons, hi]
  rfl

theorem Nearest.lookupIn (h : env.Nearest s name i) :
    env.lookupIn s name = (env.frame i).find? name := by
  obtain ⟨inner, outer, rfl, hinner, hi⟩ := h
  induction inner with
  | nil => exact lookupIn_cons_of_binds hi
  | cons j inner ih =>
    obtain ⟨hj, hinner⟩ := List.forall_mem_cons.1 hinner
    exact (lookupIn_cons hj).trans (ih hinner)

theorem Unbound.lookupIn (h : env.Unbound s name) : env.lookupIn s name = none := by
  induction s with
  | nil => rfl
  | cons i s ih =>
    obtain ⟨hi, hs⟩ := List.forall_mem_cons.1 h
    exact (lookupIn_cons hi).trans (ih hs)

theorem lookupIn_isSome_iff : (env.lookupIn s name).isSome ↔ ∃ i, env.Nearest s name i := by
  constructor
  · intro h
    refine (nearest_or_unbound env s name).resolve_right fun hs => ?_
    rw [hs.lookupIn] at h
    cases h
  · rintro ⟨i, hi⟩
    rw [hi.lookupIn]
    exact hi.binds

end Lookup

section Assign

theorem Nearest.assignIn (h : env.Nearest s name i) :
    env.assignIn s name value = (true, env.bindAt i name value) := by
  obtain ⟨inner, outer, rfl, hinner, hi⟩ := h
  induction inner with
  | nil => exact if_pos hi
  | cons j inner ih =>
    obtain ⟨hj, hinner⟩ := List.forall_mem_cons.1 hinner
    exact (if_neg (Bool.eq_false_iff.1 hj)).trans (ih hinner)

theorem Unbound.assignIn (h : env.Unbound s name) : env.assignIn s name value = (false, env) := by
  induction s with
  | nil => rfl
  | cons i s ih =>
    obtain ⟨hi, hs⟩ := List.forall_mem_cons.1 h
    exact (if_neg (Bool.eq_false_iff.1 hi)).trans (ih hs)

theorem assignIn_fst_iff :
    (env.assignIn s name value).1 = true ↔ ∃ i, env.Nearest s name i := by
  constructor
  · intro h
    refine (nearest_or_unbound env s name).resolve_right fun hs => ?_
    rw [hs.assignIn] at h
    cases h
  · rintro ⟨i, hi⟩
    rw [hi.assignIn]

theorem Nearest.owner?_eq (h : env.Nearest s name i) : env.owner? s name = some i := by
  obtain ⟨inner, outer, rfl, hinner, hi⟩ := h
  exact List.find?_eq_some_iff_append.2 ⟨hi, inner, outer, rfl, fun j hj => by
    rw [hinner j hj]
    rfl⟩

theorem Unbound.owner?_eq (h : env.Unbound s name) : env.owner? s name = none :=
  List.find?_eq_none.2 fun i hi => Bool.eq_false_iff.1 (h i hi)

/-- What an assignment expression does with its value. -/
theorem rebind_run (name : Name) (value : Value) (span : Span) (m : Machine) :
    Eval.rebind name value span m = match m.env.assignIn m.env.current name value with
      | (true, env) => (.ok value, { m with env })
      | (false, env) => Eval.undefined name span { m with env } := by
  rw [Eval.rebind, Semantics.get_run]
  obtain ⟨i, hi⟩ | hs := nearest_or_unbound m.env m.env.current name
  · rw [hi.owner?_eq, hi.assignIn]
    rfl
  · rw [hs.owner?_eq, hs.assignIn]

end Assign

/-- A binding that there is gets the value, and nothing else changes. -/
theorem find?_bindAt (hi : (env.frame i).binds name = true) (value : Value) (j : FrameId)
    (other : Name) : ((env.bindAt i name value).frame j).find? other =
      if j = i ∧ other = name then some value else (env.frame j).find? other := by
  have hsize : i < env.frames.size := by
    by_contra hsize
    rw [frame, Array.getD_eq_getD_getElem?, Array.getElem?_eq_none (Nat.le_of_not_lt hsize)] at hi
    cases hi
  rw [frame_bindAt]
  by_cases hj : i = j
  · subst hj
    rw [if_pos ⟨rfl, hsize⟩, Frame.find?_bind]
    by_cases hother : name = other
    · rw [if_pos hother, if_pos ⟨rfl, hother.symm⟩]
    · rw [if_neg hother, if_neg fun h => hother h.2.symm]
  · rw [if_neg fun h => hj h.1, if_neg fun h => hj h.1.symm]

theorem binds_bindAt (hi : (env.frame i).binds name = true) (value : Value) (j : FrameId)
    (other : Name) :
    ((env.bindAt i name value).frame j).binds other = (env.frame j).binds other := by
  rw [Frame.binds, find?_bindAt hi]
  split
  next h =>
    obtain ⟨rfl, rfl⟩ := h
    exact hi.symm
  next => rfl

/-- After an assignment, a lookup that ends in the assigned binding gives the value. -/
theorem Nearest.lookupIn_bindAt {t : Scope} (h : env.Nearest t name i) (value : Value) :
    (env.bindAt i name value).lookupIn t name = some value := by
  have hi := h.binds
  have h' : (env.bindAt i name value).Nearest t name i := h.congr fun j => binds_bindAt hi value j name
  rw [h'.lookupIn, find?_bindAt hi, if_pos ⟨rfl, rfl⟩]

/-- Any other lookup gives what it gave. -/
theorem lookupIn_bindAt_of_not {t : Scope} {other : Name} (hi : (env.frame i).binds name = true)
    (value : Value) (hother : ¬ (other = name ∧ env.Nearest t name i)) :
    (env.bindAt i name value).lookupIn t other = env.lookupIn t other := by
  have hbinds (j : FrameId) := binds_bindAt hi value j other
  obtain ⟨j, hj⟩ | ht := nearest_or_unbound env t other
  · have hslot : ¬ (j = i ∧ other = name) := by
      rintro ⟨rfl, rfl⟩
      exact hother ⟨rfl, hj⟩
    rw [(hj.congr hbinds).lookupIn, hj.lookupIn, find?_bindAt hi, if_neg hslot]
  · have ht' : (env.bindAt i name value).Unbound t other := fun j hj => (hbinds j).trans (ht j hj)
    rw [ht'.lookupIn, ht.lookupIn]

/-- An assignment succeeds just where a lookup does. It gives the value to the nearest binding, in one
frame, and every scope sees this there and nothing else. If it does not succeed, all is as before. -/
theorem assignment_agrees_with_lookup (env : Environment) (s : Scope) (name : Name) (value : Value) :
    ((env.assignIn s name value).1 = true ↔ (env.lookupIn s name).isSome) ∧
    ((env.assignIn s name value).1 = true → ∃ i, env.Nearest s name i ∧
      (∀ j other, ((env.assignIn s name value).2.frame j).find? other =
        if j = i ∧ other = name then some value else (env.frame j).find? other) ∧
      ∀ t, (env.Nearest t name i → (env.assignIn s name value).2.lookupIn t name = some value) ∧
        (¬ env.Nearest t name i →
          (env.assignIn s name value).2.lookupIn t name = env.lookupIn t name) ∧
        ∀ other ≠ name, (env.assignIn s name value).2.lookupIn t other = env.lookupIn t other) ∧
    ((env.assignIn s name value).1 = false → (env.assignIn s name value).2 = env) := by
  refine ⟨assignIn_fst_iff.trans lookupIn_isSome_iff.symm, fun h => ?_, fun h => ?_⟩
  · obtain ⟨i, hnearest⟩ := assignIn_fst_iff.1 h
    have hi := hnearest.binds
    rw [hnearest.assignIn]
    refine ⟨i, hnearest, find?_bindAt hi value, fun t => ⟨fun ht => ht.lookupIn_bindAt value, ?_, ?_⟩⟩
    · exact fun ht => lookupIn_bindAt_of_not hi value fun h => ht h.2
    · exact fun other hother => lookupIn_bindAt_of_not hi value fun h => hother h.1
  · obtain ⟨i, hnearest⟩ | hs := nearest_or_unbound env s name
    · rw [hnearest.assignIn] at h
      cases h
    · rw [hs.assignIn]

end Environment

end Tarn
