import Tarn.Proofs.Scoping.Thinning
import Tarn.Proofs.Semantics.Views

/-! Running on a machine and on the same one without extra frames. Both end alike, and what is made
on the way stands for each other. -/
namespace Tarn

open Semantics

namespace Eval

variable {α β γ δ : Type} {ρ : Thinning} {s s' : Scope} {P : Thinning → α → β → Prop}
  {Q : Thinning → γ → δ → Prop} {p : Eval α} {q : Eval β}

/-- On a machine in the scope `s` and the same one without extra frames in the scope `s'` the two
end alike, and in the same scopes again. The frames that there were keep standing for each other. -/
def Tracks (ρ : Thinning) (s s' : Scope) (P : Thinning → α → β → Prop) (p : Eval α) (q : Eval β) :
    Prop :=
  ∀ ⦃m m'⦄, Machine.Thins ρ s s' m m' → ∃ ρ', ρ <+: ρ' ∧ EndsAlike Eq (P ρ') (p m).1 (q m').1 ∧
    Machine.Thins ρ' s s' (p m).2 (q m').2

namespace Tracks

theorem pure {a : α} {b : β} (h : P ρ a b) : Tracks ρ s s' P (Pure.pure a) (Pure.pure b) :=
  fun _ _ hm => ⟨ρ, List.prefix_rfl, .ok h, hm⟩

theorem throw (h : Halt) :
    Tracks ρ s s' P (MonadExcept.throw h) (MonadExcept.throw h) :=
  fun _ _ hm => ⟨ρ, List.prefix_rfl, .error rfl, hm⟩

theorem fail (fault : Fault) (span : Span) :
    Tracks ρ s s' P (Eval.fail fault span) (Eval.fail fault span) := throw _

theorem bind {f : α → Eval γ} {g : β → Eval δ} (hp : Tracks ρ s s' P p q)
    (hf : ∀ {ρ' a b}, ρ <+: ρ' → P ρ' a b → Tracks ρ' s s' Q (f a) (g b)) :
    Tracks ρ s s' Q (p >>= f) (q >>= g) := by
  intro m m' hm
  obtain ⟨ρ₁, hρ₁, hends, hm₁⟩ := hp hm
  rw [bind_run, bind_run]
  rcases hrun : p m with ⟨x, m₁⟩
  rcases hrun' : q m' with ⟨y, m₁'⟩
  rw [hrun, hrun'] at hends hm₁
  cases hends with
  | ok h =>
    obtain ⟨ρ₂, hρ₂, hends, hm₂⟩ := hf hρ₁ h hm₁
    exact ⟨ρ₂, hρ₁.trans hρ₂, hends, hm₂⟩
  | error h => exact ⟨ρ₁, hρ₁, .error h, hm₁⟩

theorem get_bind {f : Machine → Eval α} {g : Machine → Eval β}
    (h : ∀ {m m'}, Machine.Thins ρ s s' m m' → Tracks ρ s s' P (f m) (g m')) :
    Tracks ρ s s' P (MonadState.get >>= f) (MonadState.get >>= g) := fun _ _ hm => h hm hm

theorem update {f g : Machine → Machine}
    (h : ∀ {m m'}, Machine.Thins ρ s s' m m' → Machine.Thins ρ s s' (f m) (g m')) :
    Tracks ρ s s' (fun _ _ _ => True) (modify f : Eval Unit) (modify g) :=
  fun _ _ hm => ⟨ρ, List.prefix_rfl, .ok trivial, h hm⟩

theorem ite {c c' : Prop} [Decidable c] [Decidable c'] {p' : Eval α} {q' : Eval β} (hc : c ↔ c')
    (h : Tracks ρ s s' P p q) (h' : Tracks ρ s s' P p' q') :
    Tracks ρ s s' P (if c then p else p') (if c' then q else q') := by
  by_cases hcase : c
  · rw [if_pos hcase, if_pos (hc.1 hcase)]
    exact h
  · rw [if_neg hcase, if_neg fun h => hcase (hc.2 h)]
    exact h'

theorem blame (span : Span) {x : Except Fault α} {y : Except Fault β} (h : EndsAlike Eq (P ρ) x y) :
    Tracks ρ s s' P (Eval.blame span x) (Eval.blame span y) := by
  cases h with
  | ok h => exact pure h
  | error h =>
    subst h
    exact fail _ span

theorem log (e e' : Event) :
    Tracks ρ s s' (fun _ _ _ => True) (Eval.log e) (Eval.log e') :=
  update fun hm => hm.withLog _ _

/-- What only the first one logs makes no difference. -/
theorem log_left (e : Event) (h : Tracks ρ s s' P p q) :
    Tracks ρ s s' P (Eval.log e >>= fun _ => p) q :=
  fun _ m' hm => h (hm.withLog _ m'.log)

theorem during (a : Activity) (h : Tracks ρ s s' P p q) :
    Tracks ρ s s' P (Eval.during a p) (Eval.during a q) := by
  intro m m' hm
  obtain ⟨ρ', hρ, hends, hm'⟩ := h (hm.withLog (m.log.add (.enter a)) (m'.log.add (.enter a)))
  exact ⟨ρ', hρ, hends, hm'.withLog _ _⟩

theorem loggingErrors (h : Tracks ρ s s' P p q) :
    Tracks ρ s s' P (Eval.loggingErrors p) (Eval.loggingErrors q) := by
  intro m m' hm
  obtain ⟨ρ', hρ, hends, hm'⟩ := h hm
  simp only [Eval.loggingErrors]
  rcases hp : p m with ⟨x, m₁⟩
  rcases hq : q m' with ⟨y, m₁'⟩
  rw [hp, hq] at hends hm'
  cases hends with
  | ok h => exact ⟨ρ', hρ, .ok h, hm'⟩
  | @error e e' h =>
    subst h
    cases e with
    | failed e => exact ⟨ρ', hρ, .error rfl, hm'.withLog _ _⟩
    | exhausted => exact ⟨ρ', hρ, .error rfl, hm'⟩

theorem inside {t t' : Scope} (h : Tracks ρ t t' P p q) :
    Tracks ρ s s' P (Eval.inside t p) (Eval.inside t' q) := by
  intro m m' hm
  obtain ⟨ρ', hρ, hends, hm'⟩ := h (hm.withCurrent t t')
  have henv := hm'.env.withCurrent m.env.current m'.env.current
  exact ⟨ρ', hρ, hends, hm'.withEnv henv hm.left hm.right⟩

theorem inCall (h : Tracks ρ s s' P p q) :
    Tracks ρ s s' P (Eval.inCall p) (Eval.inCall q) := by
  intro m m' hm
  obtain ⟨ρ', hρ, hends, hm'⟩ := h (hm.withDepth (congrArg (· + 1) hm.callDepth))
  exact ⟨ρ', hρ, hends, hm'.withDepth (congrArg (· - 1) hm'.callDepth)⟩

theorem newScope {t t' : Scope} (ht : Scope.Thins ρ t t') {f f' : Frame} (hf : Frame.Thins ρ f f') :
    Tracks ρ s s' Scope.Anchored (Eval.newScope t f) (Eval.newScope t' f') := by
  intro m m' hm
  obtain ⟨hscope, henv⟩ := hm.env.child ht hf
  exact ⟨_, List.prefix_append _ _, .ok hscope, hm.withEnv henv hm.left hm.right⟩

theorem currentScope (hs : Scope.Thins ρ s s') :
    Tracks ρ s s' Scope.Thins Eval.currentScope Eval.currentScope :=
  get_bind fun hm => pure (by rw [hm.left, hm.right]; exact hs)

theorem inFreshScope (hs : Scope.Thins ρ s s')
    (h : ∀ {ρ' t t'}, ρ <+: ρ' → Scope.Anchored ρ' t t' → Tracks ρ' t t' P p q) :
    Tracks ρ s s' P (Eval.inFreshScope p) (Eval.inFreshScope q) :=
  (currentScope hs).bind fun hρ ht => (newScope ht .nil).bind fun hρ' ht' =>
    inside (h (hρ.trans hρ') ht')

/-- The first one makes a fresh scope that the second one does without. -/
theorem inFreshScope_left (hs : Scope.Thins ρ s s')
    (h : ∀ {ρ' t}, ρ <+: ρ' → Scope.Thins ρ' t s' → Tracks ρ' t s' P p q) :
    Tracks ρ s s' P (Eval.inFreshScope p) q := by
  intro m m' hm
  rw [← hm.left] at hs
  obtain ⟨hscope, henv⟩ := hm.env.childExtra hs
  obtain ⟨ρ', hρ, hends, hm'⟩ := h (List.prefix_append ρ [none]) hscope
    (hm.withEnv (henv.withCurrent (m.env.child m.env.current []).1 m'.env.current) rfl hm.right)
  -- The first machine goes back to its scope. The second one has not left its own.
  have hback := hm'.env.withCurrent m.env.current (q m').2.env.current
  exact ⟨ρ', (List.prefix_append ρ [none]).trans hρ, hends, hm'.withEnv hback hm.left hm'.right⟩

theorem spelling (name : Name) :
    Tracks ρ s s' (fun _ a b => a = b) (Eval.spelling name) (Eval.spelling name) :=
  get_bind fun hm => pure (by rw [hm.names])

theorem undefined (name : Name) (span : Span) :
    Tracks ρ s s' P (Eval.undefined name span) (Eval.undefined name span) := by
  refine (spelling name).bind ?_
  rintro ρ' text _ - rfl
  exact fail _ span

theorem lookup (hs : Scope.Thins ρ s s') (name : Name) (span : Span) :
    Tracks ρ s s' Value.Thins (Eval.lookup name span) (Eval.lookup name span) := by
  refine get_bind fun {m m'} hm => ?_
  have hfound := hm.env.lookupIn hs name
  unfold Environment.lookup
  rw [hm.left, hm.right]
  generalize m.env.lookupIn s name = x at hfound ⊢
  generalize m'.env.lookupIn s' name = y at hfound ⊢
  cases hfound with
  | some hv => exact pure hv
  | none => exact undefined name span

theorem rebind (hs : Scope.Thins ρ s s') (name : Name) {v v' : Value} (hv : Value.Thins ρ v v')
    (span : Span) :
    Tracks ρ s s' Value.Thins (Eval.rebind name v span) (Eval.rebind name v' span) := by
  refine get_bind fun {m m'} hm => ?_
  have howner := hm.env.owner? hs name
  rw [hm.left, hm.right]
  generalize m.env.owner? s name = x at howner ⊢
  generalize m'.env.owner? s' name = y at howner ⊢
  cases howner with
  | none => exact undefined name span
  | some hi =>
    have hbound := hm.withEnv (hm.env.bindAt hi name hv) hm.left hm.right
    exact (update fun _ => hbound).bind fun hρ _ => pure (hv.mono hρ)

theorem define (hs : Scope.Anchored ρ s s') (name : Name) {v v' : Value} (hv : Value.Thins ρ v v') :
    Tracks ρ s s' (fun _ _ _ => True) (Eval.define name v) (Eval.define name v') :=
  update fun hm => hm.define hs name hv

theorem declare (hs : Scope.Anchored ρ s s') (decl : FunctionDecl) :
    Tracks ρ s s' (fun _ _ _ => True) (Tarn.declare decl) (Tarn.declare decl) :=
  fun _ _ hm => ⟨ρ, List.prefix_rfl, .ok trivial, hm.declare hs decl⟩

theorem callNative (f : Native) {args args' : List Value}
    (hargs : List.Forall₂ (Value.Thins ρ) args args') (paren : Span) :
    Tracks ρ s s' Value.Thins (Tarn.callNative f args paren) (Tarn.callNative f args' paren) := by
  refine get_bind fun {m m'} hm => ?_
  rw [← hm.host, ← hm.clock]
  rcases hrun : m.host[f.id]? with _ | run
  · exact fail _ paren
  · have hends := hm.parametric run (Array.mem_of_getElem? hrun) (Scope.Thins ρ) m.clock hargs
    dsimp only
    generalize run m.clock args = x at hends ⊢
    generalize run m.clock args' = y at hends ⊢
    cases hends with
    | ok hv => exact pure hv
    | error he =>
      subst he
      exact throw _

end Tracks

end Eval

end Tarn
