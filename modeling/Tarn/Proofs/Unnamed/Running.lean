import Tarn.Proofs.Unnamed.Machines

/-! Code runs the same with a global binding that it does not name as without it. -/
namespace Tarn

open Semantics

variable {S : Surplus}

namespace Machine.Beside

variable {m m' : Machine} (h : Machine.Beside S m m')
include h

theorem withEnv {env env' : Environment} (henv : Environment.Beside S env env') :
    Machine.Beside S { m with env } { m' with env := env' } :=
  ⟨h.names, h.names', henv, h.output, h.callDepth, h.maxCallDepth, h.functionCount, h.host,
    h.host', h.clock⟩

theorem println (line : String) : Machine.Beside S { m with output := m.output.println line }
    { m' with output := m'.output.println line } :=
  ⟨h.names, h.names', h.env, congrArg (·.println line) h.output, h.callDepth, h.maxCallDepth,
    h.functionCount, h.host, h.host', h.clock⟩

theorem declare {decl : FunctionDecl} (hname : S.used decl.name)
    (hbody : AllNames S.used decl.body.names) :
    Machine.Beside S
      { m with
        functionCount := m.functionCount + 1
        env := m.env.define decl.name (.function
          ⟨m.functionCount, m.names.spelling decl.name, decl, m.env.current⟩) }
      { m' with
        functionCount := m'.functionCount + 1
        env := m'.env.define decl.name (.function
          ⟨m'.functionCount, m'.names.spelling decl.name, decl, m'.env.current⟩) } := by
  refine ⟨h.names, h.names', h.env.define hname ?_, h.output, h.callDepth, h.maxCallDepth,
    congrArg (· + 1) h.functionCount, h.host, h.host', h.clock⟩
  rw [h.functionCount, h.names, h.names', h.env.current]
  exact .function _ hbody

end Machine.Beside

instance : Machine.Coupling (Machine.Beside S) where
  current h := h.env.current
  withLog h _ _ := ⟨h.names, h.names', h.env, h.output, h.callDepth, h.maxCallDepth,
    h.functionCount, h.host, h.host', h.clock⟩
  withCurrent h scope := h.withEnv (h.env.withCurrent scope)
  withDepth h f := ⟨h.names, h.names', h.env, h.output, congrArg f h.callDepth, h.maxCallDepth,
    h.functionCount, h.host, h.host', h.clock⟩
  child h outer := ⟨(h.env.child outer .nil).1, h.withEnv (h.env.child outer .nil).2⟩

namespace Eval

variable {α β : Type} {P : α → β → Prop}

/-- On the one machine the first program does what the second does on the other. -/
abbrev Unaware (S : Surplus) (P : α → β → Prop) (p : Eval α) (q : Eval β) : Prop :=
  Parallel (Machine.Beside S) Eq P p q

namespace Unaware

variable {n : Name} {v v' : Value} (span : Span)

theorem fail (fault : Fault) : Unaware S P (Eval.fail fault span) (Eval.fail fault span) :=
  .throw rfl

theorem blame {x : Except Fault α} {y : Except Fault β} (h : EndsAlike Eq P x y) :
    Unaware S P (Eval.blame span x) (Eval.blame span y) := by
  cases h with
  | ok h => exact .pure h
  | error h =>
    subst h
    exact fail span _

theorem newScope (outer : Scope) {f f' : Frame} (hf : Frame.Beside S f f') :
    Unaware S Eq (Eval.newScope outer f) (Eval.newScope outer f') := by
  intro m m' hm
  obtain ⟨hscope, henv⟩ := hm.env.child outer hf
  exact ⟨.ok hscope, hm.withEnv henv⟩

theorem spelling (n : Name) : Unaware S Eq (Eval.spelling n) (Eval.spelling n) :=
  Parallel.get.bind fun hm => .pure (by rw [hm.names, hm.names'])

theorem undefined (n : Name) : Unaware S P (Eval.undefined n span) (Eval.undefined n span) := by
  refine (spelling n).bind ?_
  rintro text _ rfl
  exact fail span _

theorem lookup (hn : S.used n) :
    Unaware S (Value.Beside S) (Eval.lookup n span) (Eval.lookup n span) := by
  refine Parallel.get.bind fun {m m'} hm => ?_
  have hfound := hm.env.lookupIn hn m.env.current
  rw [Environment.lookup, Environment.lookup, ← hm.env.current]
  generalize m.env.lookupIn _ _ = x at hfound ⊢
  generalize m'.env.lookupIn _ _ = y at hfound ⊢
  cases hfound with
  | some hv => exact .pure hv
  | none => exact undefined span n

theorem rebind (hn : S.used n) (hv : Value.Beside S v v') :
    Unaware S (Value.Beside S) (Eval.rebind n v span) (Eval.rebind n v' span) := by
  refine Parallel.get.bind fun {m m'} hm => ?_
  rw [← hm.env.current, ← hm.env.owner?_eq hn]
  cases m.env.owner? m.env.current n with
  | some i =>
    exact (Parallel.update fun _ => hm.withEnv (hm.env.bindAt i hn hv)).bind fun _ => .pure hv
  | none => exact undefined span n

theorem define (hn : S.used n) (hv : Value.Beside S v v') :
    Unaware S (fun _ _ => True) (Eval.define n v) (Eval.define n v') :=
  .update fun hm => hm.withEnv (hm.env.define hn hv)

theorem declare {decl : FunctionDecl} (hname : S.used decl.name)
    (hbody : AllNames S.used decl.body.names) :
    Unaware S (fun _ _ => True) (Tarn.declare decl) (Tarn.declare decl) :=
  fun _ _ hm => ⟨.ok trivial, hm.declare hname hbody⟩

/-- The function that is found under the other number is the same. -/
theorem callNative (f : Native) {args args' : List Value}
    (hargs : List.Forall₂ (Value.Beside S) args args') :
    Unaware S (Value.Beside S) (Tarn.callNative f args span)
      (Tarn.callNative { f with id := S.place f.id } args' span) := by
  refine Parallel.get.bind fun {m m'} hm => ?_
  rw [hm.host', S.found, ← hm.host, ← hm.clock]
  rcases hrun : m.host[f.id]? with _ | run
  · exact fail span _
  · have hgeneric := S.generic run (hm.host ▸ Array.mem_of_getElem? hrun)
    have hends := hgeneric _ S.injective m.clock hargs
    dsimp only
    generalize run m.clock args = x at hends ⊢
    generalize run m.clock args' = y at hends ⊢
    cases hends with
    | ok hv => exact .pure hv
    | error he =>
      subst he
      exact .throw rfl

end Unaware

end Eval

open Eval

/-- Bodies of functions run the same. -/
def Invoke.Unaware (S : Surplus) (invoke : Invoke) : Prop :=
  ∀ ⦃f : Closure⦄ ⦃args args' : List Value⦄ (paren : Span), AllNames S.used f.decl.body.names →
    List.Forall₂ (Value.Beside S) args args' →
    Eval.Unaware S (Value.Beside S) (invoke f args paren) (invoke f args' paren)

theorem Value.call_unaware {invoke : Invoke} (h : invoke.Unaware S) {f f' : Value}
    (hf : Value.Beside S f f') {args args' : List Value}
    (hargs : List.Forall₂ (Value.Beside S) args args') (paren : Span) :
    Unaware S (Value.Beside S) (f.call invoke args paren) (f'.call invoke args' paren) := by
  have hlength := hargs.length_eq
  cases hf with
  | function f hf =>
    simp only [Value.call, hlength]
    exact .ite Iff.rfl (h paren hf hargs) (Unaware.fail paren _)
  | native f =>
    simp only [Value.call, hlength]
    exact .ite Iff.rfl (Unaware.callNative paren f hargs) (Unaware.fail paren _)
  | nil | bool | number | string => exact Unaware.fail paren _

mutual

theorem Expr.eval_unaware {S : Surplus} {invoke : Invoke} (h : invoke.Unaware S) :
    (e : Expr) → AllNames S.used e.names →
      Unaware S (Value.Beside S) (e.eval invoke) (e.eval invoke)
  | .literal _ .nil, _ => .pure .nil
  | .literal _ (.bool b), _ => .pure (.bool b)
  | .literal _ (.number _), _ => .pure (.number _)
  | .literal _ (.string text), _ => by
    refine (Unaware.spelling text).bind ?_
    rintro spelled _ rfl
    exact .pure (.string spelled)
  | .var span _, hns => Unaware.lookup span hns.head
  | .grouping _ inner, hns => by
    rw [Expr.eval]
    exact inner.eval_unaware h hns
  | .unary _ op opSpan operand, hns => (operand.eval_unaware h hns).bind fun hv =>
      Unaware.blame opSpan (op.apply_renumbered hv)
  | .binary _ op opSpan left right, hns => (left.eval_unaware h hns.left).bind fun hv =>
      (right.eval_unaware h hns.right).bind fun hw =>
        Unaware.blame opSpan (op.apply_renumbered S.injective hv hw)
  | .logical _ op _ left right, hns => by
    refine (left.eval_unaware h hns.left).bind fun {v v'} hv => ?_
    have hright := right.eval_unaware h hns.right
    rw [← hv.isTruthy_eq]
    cases op <;> cases v.isTruthy
    · exact .pure hv
    · exact hright
    · exact hright
    · exact .pure hv
  | .assign _ _ nameSpan value, hns => (value.eval_unaware h hns.tail).bind fun hv =>
      Unaware.rebind nameSpan hns.head hv
  | .call _ callee paren args, hns => (callee.eval_unaware h hns.left).bind fun hf =>
      (Expr.evalAll_unaware h args hns.right).bind fun hargs => Value.call_unaware h hf hargs paren

theorem Expr.evalAll_unaware {S : Surplus} {invoke : Invoke} (h : invoke.Unaware S) :
    (es : List Expr) → AllNames S.used (Expr.allNames es) →
      Unaware S (List.Forall₂ (Value.Beside S)) (Expr.evalAll invoke es) (Expr.evalAll invoke es)
  | [], _ => .pure .nil
  | e :: es, hns => (e.eval_unaware h hns.left).bind fun hv =>
      (Expr.evalAll_unaware h es hns.right).bind fun hvs => .pure (.cons hv hvs)

end

section

variable {invoke : Invoke} (h : invoke.Unaware S)
include h

theorem Expr.test_unaware (e : Expr) (hns : AllNames S.used e.names) :
    Unaware S Eq (e.test invoke) (e.test invoke) :=
  (e.eval_unaware h hns).bind fun hv => .pure hv.isTruthy_eq

theorem evalOptional_unaware (e : Option Expr) (hns : AllNames S.used (Expr.optionNames e)) :
    Unaware S (Value.Beside S) (evalOptional invoke e) (evalOptional invoke e) := by
  cases e with
  | none => exact .pure .nil
  | some e => exact e.eval_unaware h hns

end

theorem Flow.Beside.kinds {f f' : Flow} (h : Flow.Beside S f f') :
    (f = .normal ∧ f' = .normal) ∨ ∃ v v', f = .returned v ∧ f' = .returned v' := by
  cases h with
  | normal => exact .inl ⟨rfl, rfl⟩
  | returned => exact .inr ⟨_, _, rfl, rfl⟩

mutual

theorem Stmt.exec_unaware {S : Surplus} (loops : Nat) {invoke : Invoke} (h : invoke.Unaware S) :
    (s : Stmt) → AllNames S.used s.names →
      Unaware S (Flow.Beside S) (s.exec loops invoke) (s.exec loops invoke)
  | .block body, hns => by
    rw [exec_block]
    exact (Parallel.log _ _).bind fun _ => body.exec_unaware loops h hns
  | .expression _ e, hns => (Parallel.log _ _).bind fun _ =>
      (e.eval_unaware h hns).bind fun _ => .pure .normal
  | .function span decl, hns => by
    rw [Stmt.names_function] at hns
    exact (Parallel.log _ _).bind fun _ =>
      (Unaware.declare hns.head hns.tail.right).bind fun _ => .pure .normal
  | .conditional _ condition thenBranch none, hns => by
    rw [exec_conditional]
    refine (Parallel.log _ _).bind fun _ => (condition.test_unaware h hns.left).bind ?_
    rintro holds _ rfl
    exact .ite Iff.rfl (thenBranch.exec_unaware loops h hns.right) (.pure .normal)
  | .conditional _ condition thenBranch (some ⟨_, others⟩), hns => by
    rw [exec_conditional]
    refine (Parallel.log _ _).bind fun _ => (condition.test_unaware h hns.left).bind ?_
    rintro holds _ rfl
    exact .ite Iff.rfl (thenBranch.exec_unaware loops h hns.right.left)
      (.inFreshScope (Stmt.execAll_unaware loops h others hns.right.right))
  | .print _ e, hns => (Parallel.log _ _).bind fun _ =>
      (e.eval_unaware h hns).bind fun {v v'} hv => by
        rw [← hv.toString_eq]
        exact (Parallel.update fun hm => hm.println _).bind fun _ => .pure .normal
  | .result _ _ value, hns => (Parallel.log _ _).bind fun _ =>
      (evalOptional_unaware h value hns).bind fun hv => .pure (.returned hv)
  | .loop _ condition body, hns => by
    rw [exec_loop]
    exact (Parallel.log _ _).bind fun _ => .iterate rfl .normal Flow.Beside.kinds
      (condition.test_unaware h hns.left) (body.exec_unaware loops h hns.right) loops
  | .var _ _ _ initializer, hns => (Parallel.log _ _).bind fun _ =>
      (evalOptional_unaware h initializer hns.tail).bind fun hv =>
        (Unaware.define hns.head hv).bind fun _ => .pure .normal

/-- Statements in a fresh scope. -/
theorem Block.exec_unaware {S : Surplus} (loops : Nat) {invoke : Invoke} (h : invoke.Unaware S) :
    (body : Block) → AllNames S.used body.names →
      Unaware S (Flow.Beside S) (inFreshScope (Stmt.execAll loops invoke body.stmts))
        (inFreshScope (Stmt.execAll loops invoke body.stmts))
  | ⟨_, stmts⟩, hns => .inFreshScope (Stmt.execAll_unaware loops h stmts hns)

theorem Stmt.execAll_unaware {S : Surplus} (loops : Nat) {invoke : Invoke} (h : invoke.Unaware S) :
    (ss : List Stmt) → AllNames S.used (Stmt.allNames ss) →
      Unaware S (Flow.Beside S) (Stmt.execAll loops invoke ss) (Stmt.execAll loops invoke ss)
  | [], _ => .pure .normal
  | s :: ss, hns => (s.exec_unaware loops h hns.left).bind fun hflow => by
      cases hflow with
      | normal => exact Stmt.execAll_unaware loops h ss hns.right
      | returned hv => exact .pure (.returned hv)

end

theorem invokeUpTo_unaware (loops depth : Nat) : (invokeUpTo loops depth).Unaware S := by
  induction depth with
  | zero =>
    intro f args args' paren _ _
    refine .during _ _ (Parallel.get.bind fun hm => ?_)
    rw [hm.maxCallDepth]
    exact Unaware.fail paren _
  | succ depth ih =>
    intro f args args' paren hf hargs
    rw [Block.names_eq] at hf
    have hframe := bindParams_beside f.decl.params hargs
    refine .during _ _ ((Unaware.newScope f.scope hframe).bind ?_)
    rintro scope _ rfl
    have hbody := Stmt.execAll_unaware loops ih f.decl.body.stmts hf
    refine (Parallel.inCall (.inside scope hbody)).bind fun hflow => ?_
    cases hflow with
    | normal => exact .pure .nil
    | returned hv => exact .pure hv

theorem Stmt.runTop_unaware (loops : Nat) (s : Stmt) (hns : AllNames S.used s.names) :
    Unaware S (fun _ _ => True) (s.runTop loops) (s.runTop loops) := by
  refine (Parallel.announce s s).bind fun _ => Parallel.get.bind fun {m m'} hm => ?_
  rw [hm.maxCallDepth, hm.callDepth]
  have hexec := s.exec_unaware loops
    (invokeUpTo_unaware (S := S) loops (m'.maxCallDepth - m'.callDepth)) hns
  refine (Parallel.loggingErrors hexec).bind fun hflow => ?_
  cases hflow with
  | normal => exact .pure trivial
  | returned => exact Unaware.fail s.span _

/-- Programs run the same as far as they go. -/
theorem interpret_unaware (loops : Nat) (ss : List Stmt)
    (hns : AllNames S.used (Stmt.allNames ss)) :
    Unaware S (fun _ _ => True) (interpret loops ss) (interpret loops ss) := by
  induction ss with
  | nil => exact .pure trivial
  | cons s ss ih => exact (s.runTop_unaware loops hns.left).bind fun _ => ih hns.right

end Tarn
