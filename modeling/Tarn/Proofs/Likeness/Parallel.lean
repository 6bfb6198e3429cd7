import Tarn.Name

/-! Two programs side by side. From related states they end alike, in related states again. -/
namespace Tarn

/-- Both end with a value, or both with an error, and the two are related. -/
inductive EndsAlike {ε α β : Type} (E : ε → ε → Prop) (P : α → β → Prop) :
    Except ε α → Except ε β → Prop where
  | ok {a b} (h : P a b) : EndsAlike E P (.ok a) (.ok b)
  | error {e e'} (h : E e e') : EndsAlike E P (.error e) (.error e')

theorem EndsAlike.of_eq {ε α : Type} {P : α → α → Prop} {x y : Except ε α} (hxy : x = y)
    (h : ∀ {a}, x = .ok a → P a a) : EndsAlike Eq P x y := by
  subst hxy
  cases x with
  | ok a => exact .ok (h rfl)
  | error e => exact .error rfl

section

variable {σ ε α β γ δ : Type} {R : σ → σ → Prop} {E : ε → ε → Prop} {P : α → β → Prop}
  {Q : γ → δ → Prop}

/-- `R` holds of the states all along; what the two end with, `P` and `E` relate. -/
def Parallel (R : σ → σ → Prop) (E : ε → ε → Prop) (P : α → β → Prop)
    (p : ExceptT ε (StateM σ) α) (q : ExceptT ε (StateM σ) β) : Prop :=
  ∀ ⦃s s'⦄, R s s' → EndsAlike E P (p s).1 (q s').1 ∧ R (p s).2 (q s').2

namespace Parallel

theorem pure {a : α} {b : β} (h : P a b) : Parallel R E P (Pure.pure a) (Pure.pure b) :=
  fun _ _ hs => ⟨.ok h, hs⟩

theorem throw {e e' : ε} (h : E e e') :
    Parallel R E P (MonadExcept.throw e) (MonadExcept.throw e') := fun _ _ hs => ⟨.error h, hs⟩

theorem bind {p : ExceptT ε (StateM σ) α} {q : ExceptT ε (StateM σ) β}
    {f : α → ExceptT ε (StateM σ) γ} {g : β → ExceptT ε (StateM σ) δ} (hp : Parallel R E P p q)
    (hf : ∀ {a b}, P a b → Parallel R E Q (f a) (g b)) : Parallel R E Q (p >>= f) (q >>= g) := by
  intro s s' hs
  obtain ⟨hends, hstates⟩ := hp hs
  simp only [Bind.bind, ExceptT.bind, ExceptT.mk, StateT.bind, ExceptT.bindCont]
  rcases hrun : p s with ⟨x, s₁⟩
  rcases hrun' : q s' with ⟨y, s₁'⟩
  rw [hrun, hrun'] at hends hstates
  cases hends with
  | ok h => exact hf h hstates
  | error h => exact ⟨.error h, hstates⟩

theorem map {p : ExceptT ε (StateM σ) α} {q : ExceptT ε (StateM σ) β} {f : α → γ} {g : β → δ}
    (hp : Parallel R E P p q) (hf : ∀ {a b}, P a b → Q (f a) (g b)) :
    Parallel R E Q (f <$> p) (g <$> q) := by
  rw [map_eq_pure_bind, map_eq_pure_bind]
  exact hp.bind fun h => pure (hf h)

theorem get : Parallel R E R MonadState.get MonadState.get := fun _ _ hs => ⟨.ok hs, hs⟩

theorem update {f g : σ → σ} (h : ∀ {s s'}, R s s' → R (f s) (g s')) :
    Parallel R E (fun _ _ => True) (modify f) (modify g) :=
  fun _ _ hs => ⟨.ok trivial, h hs⟩

theorem ite {p p' : ExceptT ε (StateM σ) α} {q q' : ExceptT ε (StateM σ) β} {c c' : Prop}
    [Decidable c] [Decidable c'] (hc : c ↔ c') (h : Parallel R E P p q)
    (h' : Parallel R E P p' q') :
    Parallel R E P (if c then p else p') (if c' then q else q') := by
  by_cases hcase : c
  · rw [if_pos hcase, if_pos (hc.1 hcase)]
    exact h
  · rw [if_neg hcase, if_neg fun h => hcase (hc.2 h)]
    exact h'

end Parallel

end

end Tarn
