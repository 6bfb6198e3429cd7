import Tarn.Proofs.Parsing.StatementSoundness
import Tarn.Proofs.Scoping.Bindings
import Tarn.Proofs.Scoping.Running

/-! What a `for` means. It is read as a `while` in a block, with one frame more around the body than
the loop needs, and no program notices the difference. -/
namespace Tarn

open Grammar Eval Semantics Tarn.Parser

/-- The clauses of a `for`. -/
structure ForLoop where
  initializer : Option Stmt
  condition : Option Expr
  increment : Option Expr
  body : Block

namespace ForLoop

variable (l : ForLoop)

/-- Whether the loop goes on; without a condition it always does. -/
def test (invoke : Invoke) : Eval Bool :=
  match l.condition with
  | some e => e.test invoke
  | none => return true

/-- The body in a fresh scope, and then the increment, unless the body returns. -/
def round (loops : Nat) (invoke : Invoke) : Eval Flow := do
  match ← inFreshScope (Stmt.execAll loops invoke l.body.stmts) with
  | .normal =>
      let _ ← evalOptional invoke l.increment
      return .normal
  | .returned value => return .returned value

/-- In a fresh scope of its own the loop runs its initializer, and then rounds while it goes on. -/
def exec (loops : Nat) (invoke : Invoke) : Eval Flow :=
  inFreshScope do
    match ← Stmt.execAll loops invoke l.initializer.toList with
    | .normal => iterate (l.test invoke) (l.round loops invoke) loops
    | .returned value => return .returned value

/-- The condition of the `while`. A missing one stands where its semicolon starts. -/
def conditionTree (semicolon : Span) : Expr :=
  l.condition.getD (.literal (Span.point semicolon.start) (.bool true))

/-- What the `while` repeats. -/
def roundTree : List Stmt :=
  .block l.body :: (l.increment.map fun e => .expression e.span e).toList

/-- The tree that is made of the loop. -/
def tree (span semicolon bodySpan : Span) : Stmt :=
  .block ⟨span, l.initializer.toList ++
    [.loop span (l.conditionTree semicolon) ⟨bodySpan, l.roundTree⟩]⟩

/-- `l.Spelled mode inside ts rs`: the tokens `ts` form the loop with the remarks `rs`, each clause
from its own tokens. -/
inductive Spelled (mode : Mode) (inside : Bool) : List Token → List Remark → Prop where
  | mk {f ts ts₁ s ts₂ ts₃ rs rs₁ rs₂ rs₃} (hf : f.kind = .keyword .forKw)
      (hi : Initializer mode ts l.initializer rs) (hc : OptionalExpression mode ts₁ l.condition rs₁)
      (hs : s.kind = .symbol .semicolon) (hn : OptionalExpression mode ts₂ l.increment rs₂)
      (hb : Braces mode inside ts₃ l.body rs₃) :
      Spelled mode inside (f :: (ts ++ (ts₁ ++ s :: (ts₂ ++ ts₃)))) (rs ++ (rs₁ ++ (rs₂ ++ rs₃)))

end ForLoop

theorem Grammar.exists_tree_eq (span : Span) (initializer : Option Stmt) (condition : Option Expr)
    (semicolon : Span) (increment : Option Expr) (body : Block) : ∃ bodySpan,
      forTree span initializer condition semicolon increment body =
        ForLoop.tree ⟨initializer, condition, increment, body⟩ span semicolon bodySpan := by
  cases increment with
  | none => exact ⟨body.span, rfl⟩
  | some e => exact ⟨body.span.merge e.span, rfl⟩

/-- What starts with `for` is a loop. -/
theorem Grammar.Declaration.toForLoop {mode : Mode} {inside : Bool} {t : Token} {ts : List Token}
    {stmt : Stmt} {rs : List Remark} (h : Declaration mode inside (t :: ts) stmt rs)
    (ht : t.kind = .keyword .forKw) : ∃ (l : ForLoop) (span semicolon bodySpan : Span),
      l.Spelled mode inside (t :: ts) rs ∧ stmt = l.tree span semicolon bodySpan := by
  have hstart {p : TokenKind → Bool} (hp : StartsWith p (t :: ts)) : p (.keyword .forKw) = true :=
    ht ▸ hp.of_cons
  cases h with
  | @forLoop _ _ _ _ s _ _ initializer condition increment body _ _ _ _ hf hi hc hs hn hb =>
    obtain ⟨bodySpan, htree⟩ := exists_tree_eq (t.span.merge body.span) initializer condition s.span
      increment body
    exact ⟨⟨initializer, condition, increment, body⟩, _, s.span, bodySpan,
      .mk hf hi hc hs hn hb, htree⟩
  | function hk | print hk | result hk | whileLoop hk => cases ht.symm.trans hk
  | conditional h => cases hstart h.startsWith
  | var h => cases h with
    | plain hk | initialized hk => cases ht.symm.trans hk
  | expression h => cases hstart h.startsWith
  | block h => cases hstart h.startsWith

section

variable (loops : Nat) (invoke : Invoke)

theorem Stmt.execAll_append (stmts stmts' : List Stmt) :
    Stmt.execAll loops invoke (stmts ++ stmts') = (do
      match ← Stmt.execAll loops invoke stmts with
      | .normal => Stmt.execAll loops invoke stmts'
      | .returned value => return .returned value) := by
  induction stmts with
  | nil => rfl
  | cons stmt stmts ih =>
    rw [List.cons_append, Stmt.execAll, Stmt.execAll, ih, bind_assoc]
    refine congrArg _ (funext fun flow => ?_)
    cases flow <;> rfl

theorem Stmt.execAll_singleton (stmt : Stmt) :
    Stmt.execAll loops invoke [stmt] = stmt.exec loops invoke := by
  have hpure : (fun flow : Flow => match flow with
      | .normal => Stmt.execAll loops invoke []
      | .returned value => (return .returned value : Eval Flow)) = pure := by
    funext flow
    cases flow <;> rfl
  rw [Stmt.execAll]
  exact (congrArg _ hpure).trans (bind_pure _)

end

namespace ForLoop

variable (l : ForLoop) {loops : Nat} {invoke : Invoke} (h : invoke.Tracks) {ρ : Thinning}
  {s s' : Scope}
include h

theorem test_tracks (hs : Scope.Thins ρ s s') (semicolon : Span) :
    Eval.Tracks ρ s s' (fun _ a b => a = b) ((l.conditionTree semicolon).test invoke)
      (l.test invoke) := by
  unfold conditionTree test
  cases l.condition with
  | none => exact .pure rfl
  | some e => exact e.test_tracks h hs

/-- The frame around the body and the increment stays empty. -/
theorem round_tracks (hs : Scope.Thins ρ s s') :
    Eval.Tracks ρ s s' Flow.Thins (inFreshScope (Stmt.execAll loops invoke l.roundTree))
      (l.round loops invoke) := by
  apply Tracks.inFreshScope_left hs
  intro ρ₁ t _ ht
  unfold roundTree round
  rw [Stmt.execAll, exec_block]
  refine (Tracks.log_left _ (l.body.exec_tracks loops h ht)).bind fun {ρ₂ _ _} hρ hflow => ?_
  cases hflow with
  | returned hv => exact .pure (.returned hv)
  | normal =>
    cases l.increment with
    | none => exact .pure .normal
    | some e =>
      have hstatement := e.eval_tracks h (ht.mono hρ)
      change Eval.Tracks ρ₂ t s' Flow.Thins (Stmt.execAll loops invoke [.expression e.span e]) _
      rw [Stmt.execAll_singleton, Stmt.exec]
      exact .log_left _ (hstatement.bind fun _ _ => .pure .normal)

/-- The tree does what the loop does. -/
theorem tree_tracks (hs : Scope.Thins ρ s s') (span semicolon bodySpan : Span) :
    Eval.Tracks ρ s s' Flow.Thins ((l.tree span semicolon bodySpan).exec loops invoke)
      (l.exec loops invoke) := by
  unfold tree exec
  rw [exec_block]
  -- The scope of the block is that of the loop.
  refine .log_left _ (.inFreshScope hs fun _ ht => ?_)
  rw [Stmt.execAll_append]
  refine (Stmt.execAll_tracks loops h ht l.initializer.toList).bind fun hρ hflow => ?_
  cases hflow with
  | returned hv => exact .pure (.returned hv)
  | normal =>
    change Eval.Tracks _ _ _ _ (Stmt.execAll loops invoke
      [.loop span (l.conditionTree semicolon) ⟨bodySpan, l.roundTree⟩]) _
    rw [Stmt.execAll_singleton, exec_loop]
    have ht := ht.thins.mono hρ
    exact .log_left _ (iterate_tracks (fun hρ => l.test_tracks h (ht.mono hρ) semicolon)
      (fun hρ => l.round_tracks h (ht.mono hρ)) loops)

end ForLoop

/-- From `m` both end alike, up to frames that only the first one makes and in which nothing is
bound; `ρ` tells which frames those are. -/
structure Machine.EndsLike (m : Machine) (ρ : Thinning) (p q : Eval Flow) : Prop where
  flow : EndsAlike Eq (Flow.Thins ρ) (p m).1 (q m).1
  output : (p m).2.output = (q m).2.output
  bindings (i : FrameId) (hi : i < m.env.frames.size) :
    Frame.Thins ρ ((p m).2.env.frame i) ((q m).2.env.frame i)
  machines : Machine.Thins ρ m.env.current m.env.current (p m).2 (q m).2

/-- Programs that do not notice extra frames end alike on a machine. -/
theorem Eval.Tracks.endsLike {m : Machine} {p q : Eval Flow} (hm : m.WellScoped)
    (hhost : ∀ run ∈ m.host, run.Parametric)
    (h : Tracks (.all m.env.frames.size) m.env.current m.env.current Flow.Thins p q) :
    ∃ ρ, Thinning.all m.env.frames.size <+: ρ ∧ m.EndsLike ρ p q := by
  obtain ⟨ρ, hρ, hflow, hmachines⟩ := h (hm.thins hhost)
  refine ⟨ρ, hρ, hflow, hmachines.output, fun i hi => ?_, hmachines⟩
  exact hmachines.env.kept (Thinning.getElem?_mono hρ (Thinning.getElem?_all.2 ⟨hi, rfl⟩))

namespace ForLoop

/-- The machine on which the `while` begins if the loop begins on `m`, with any log. -/
def begun (l : ForLoop) (loops : Nat) (invoke : Invoke) (m : Machine) (log : Log) : Machine :=
  { (Stmt.execAll loops invoke l.initializer.toList m.fresh).2 with log }

/-- If the `while` of the loop begins on `m`, then it tests its condition on `m'` at some time. -/
def Reaches (l : ForLoop) (semicolon : Span) (loops : Nat) (invoke : Invoke) (m m' : Machine) :
    Prop :=
  Rounds ((l.conditionTree semicolon).test invoke)
    (inFreshScope (Stmt.execAll loops invoke l.roundTree)) m m'

/-- In every round of a `while` that begins on `m`, all clauses of the loop see the names that are
visible on `m`. -/
structure Hygienic (l : ForLoop) (semicolon : Span) (loops : Nat) (invoke : Invoke) (m : Machine) :
    Prop where
  condition {m₁} (h : l.Reaches semicolon loops invoke m m₁) : m₁.SeesAs m
  body {m₁ m₂} (h : l.Reaches semicolon loops invoke m m₁)
    (ht : (l.conditionTree semicolon).test invoke m₁ = (.ok true, m₂)) : m₂.fresh.SeesAs m
  increment {m₁ m₂} (h : l.Reaches semicolon loops invoke m m₁)
    (ht : (l.conditionTree semicolon).test invoke m₁ = (.ok true, m₂)) :
    ((Stmt.block l.body).exec loops invoke m₂.fresh).2.SeesAs m

theorem begun_lt (l : ForLoop) (loops : Nat) {invoke : Invoke} (h : invoke.KeepsNames)
    {m : Machine} (hm : ∀ i ∈ m.env.current, i < m.env.frames.size) (log : Log) :
    ∀ i ∈ (l.begun loops invoke m log).env.current,
      i < (l.begun loops invoke m log).env.frames.size := by
  intro i hi
  have hkeeps := Stmt.execAll_keepsNames loops h l.initializer.toList m.fresh
  exact hkeeps.lt (Machine.fresh_lt hm) i hi

theorem hygienic (l : ForLoop) {loops : Nat} {invoke : Invoke} (h : invoke.KeepsNames)
    {m : Machine} (hm : ∀ i ∈ m.env.current, i < m.env.frames.size) (semicolon : Span) :
    l.Hygienic semicolon loops invoke m := by
  have htest : Eval.KeepsNames Scope.Nowhere ((l.conditionTree semicolon).test invoke) :=
    Expr.test_keepsNames h _
  have hround : Eval.KeepsNames Scope.Nowhere
      (inFreshScope (Stmt.execAll loops invoke l.roundTree)) :=
    .inFreshScope (Stmt.execAll_keepsNames loops h l.roundTree)
  have hentered {m₁ m₂ : Machine} (h : l.Reaches semicolon loops invoke m m₁)
      (ht : (l.conditionTree semicolon).test invoke m₁ = (.ok true, m₂)) :
      m.KeepsNames (fun _ => False) m₂ := by
    have hm₂ := htest m₁
    rw [ht] at hm₂
    exact (Rounds.keepsNames htest hround h).trans hm₂
  constructor
  · intro m₁ h
    exact (Rounds.keepsNames htest hround h).seesAs hm
  · intro m₁ m₂ h ht
    have hm₂ := hentered h ht
    exact (Machine.fresh_seesAs (hm₂.lt hm)).trans (hm₂.seesAs hm)
  · intro m₁ m₂ hreaches ht
    have hm₂ := hentered hreaches ht
    have hfresh := (Machine.fresh_seesAs (hm₂.lt hm)).trans (hm₂.seesAs hm)
    have hbody := Stmt.block_keepsNames loops h l.body m₂.fresh
    exact (hbody.seesAs (Machine.fresh_lt (hm₂.lt hm))).trans hfresh

end ForLoop

/-- A `for` is read as a tree that does what the loop does: from every machine both end alike, print
the same and leave the same bindings, but for frames in which nothing is bound. Besides, in no round
do the clauses see other names than those that were visible behind the initializer, and behind the
loop the names are visible that were visible before it. -/
theorem for_means_loop {s s' : ParseState} {n : Nat} {stmt : Stmt}
    (hfor : s.cursor.current.kind = .keyword .forKw)
    (hparse : Succeeds (declarationUpTo n) s stmt s') :
    ∃ (l : ForLoop) (span semicolon bodySpan : Span),
      (∃ ts rs, s.Reads ts rs s' ∧ l.Spelled .recovering s.inside ts rs) ∧
      stmt = l.tree span semicolon bodySpan ∧
      ∀ (loops depth : Nat) (m : Machine), m.WellScoped → (∀ run ∈ m.host, run.Parametric) →
        (∃ ρ, Thinning.all m.env.frames.size <+: ρ ∧
          m.EndsLike ρ (stmt.exec loops (invokeUpTo loops depth))
            (l.exec loops (invokeUpTo loops depth))) ∧
        (∀ log, l.Hygienic semicolon loops (invokeUpTo loops depth)
          (l.begun loops (invokeUpTo loops depth) m log)) ∧
        (stmt.exec loops (invokeUpTo loops depth) m).2.SeesAs m := by
  obtain ⟨ts, rs, hreads, hd⟩ := declarationUpTo_sound n hparse
  obtain ⟨t, ts, rfl, ht⟩ := hd.startsWith
  rw [hreads.current] at hfor
  obtain ⟨l, span, semicolon, bodySpan, hspelled, rfl⟩ := hd.toForLoop hfor
  refine ⟨l, span, semicolon, bodySpan, ⟨_, rs, hreads, hspelled⟩, rfl, ?_⟩
  intro loops depth m hm hhost
  have hkeeps := invokeUpTo_keepsNames loops depth
  have htracks : Tracks _ _ _ Flow.Thins
      ((l.tree span semicolon bodySpan).exec loops (invokeUpTo loops depth))
      (l.exec loops (invokeUpTo loops depth)) :=
    l.tree_tracks (invokeUpTo_tracks loops depth) (Scope.thins_all hm.current) span semicolon bodySpan
  have hafter : m.KeepsNames (fun _ => False)
      ((l.tree span semicolon bodySpan).exec loops (invokeUpTo loops depth) m).2 :=
    Stmt.block_keepsNames loops hkeeps _ m
  have hbegun := l.begun_lt loops hkeeps hm.current
  exact ⟨htracks.endsLike hm hhost, fun log => l.hygienic hkeeps (hbegun log) semicolon,
    hafter.seesAs hm.current⟩

/-- `for var go = true; go; go = false { var seen = go; print seen; }` -/
def flagTokens : List Token :=
  [⟨.keyword .forKw, ⟨0, 3⟩⟩, ⟨.keyword .varKw, ⟨4, 7⟩⟩, ⟨.identifier ⟨1⟩, ⟨8, 10⟩⟩,
    ⟨.symbol .equal, ⟨11, 12⟩⟩, ⟨.keyword .trueKw, ⟨13, 17⟩⟩, ⟨.symbol .semicolon, ⟨17, 18⟩⟩,
    ⟨.identifier ⟨1⟩, ⟨19, 21⟩⟩, ⟨.symbol .semicolon, ⟨21, 22⟩⟩, ⟨.identifier ⟨1⟩, ⟨23, 25⟩⟩,
    ⟨.symbol .equal, ⟨26, 27⟩⟩, ⟨.keyword .falseKw, ⟨28, 33⟩⟩, ⟨.symbol .leftBrace, ⟨34, 35⟩⟩,
    ⟨.keyword .varKw, ⟨36, 39⟩⟩, ⟨.identifier ⟨2⟩, ⟨40, 44⟩⟩, ⟨.symbol .equal, ⟨45, 46⟩⟩,
    ⟨.identifier ⟨1⟩, ⟨47, 49⟩⟩, ⟨.symbol .semicolon, ⟨49, 50⟩⟩, ⟨.keyword .printKw, ⟨51, 56⟩⟩,
    ⟨.identifier ⟨2⟩, ⟨57, 61⟩⟩, ⟨.symbol .semicolon, ⟨61, 62⟩⟩, ⟨.symbol .rightBrace, ⟨63, 64⟩⟩]

/-- The loop goes round once, and so does its tree. -/
theorem for_means_loop_flag : ∃ (stmt : Stmt) (s' : ParseState) (l : ForLoop),
    (start .empty flagTokens).cursor.current.kind = .keyword .forKw ∧
    Succeeds (declarationUpTo 2) (start .empty flagTokens) stmt s' ∧
    ({} : Machine).standard.WellScoped ∧
    (stmt.exec 2 (invokeUpTo 2 0) ({} : Machine).standard).2.output = .captured "true\n" ∧
    (l.exec 2 (invokeUpTo 2 0) ({} : Machine).standard).2.output = .captured "true\n" := by
  have hprints : ((answer (declarationUpTo 2) (start .empty flagTokens)).1.toOption.map fun stmt =>
      (stmt.exec 2 (invokeUpTo 2 0) ({} : Machine).standard).2.output) =
        some (.captured "true\n") := by decide +kernel
  have hhost := Machine.parametric_standard (m := {}) nofun
  have hm : ({} : Machine).standard.WellScoped := by
    have hfresh : Machine.Interpreter {} := .fresh rfl rfl
    exact (hfresh.defineNative "clock" 0 _).wellScoped hhost
  rcases hparse : answer (declarationUpTo 2) (start .empty flagTokens) with ⟨_ | stmt, s'⟩
  · rw [hparse] at hprints
    cases hprints
  · rw [hparse] at hprints
    have hprinted := Option.some.inj hprints
    obtain ⟨l, span, semicolon, bodySpan, -, -, hmeans⟩ := for_means_loop rfl hparse
    obtain ⟨⟨ρ, -, hends⟩, -, -⟩ := hmeans 2 0 ({} : Machine).standard hm hhost
    exact ⟨stmt, s', l, rfl, hparse, hm, hprinted, hends.output.symm.trans hprinted⟩

end Tarn
