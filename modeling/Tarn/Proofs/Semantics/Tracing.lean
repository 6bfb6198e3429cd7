import Tarn.Proofs.Grammar.Nodes
import Tarn.Proofs.Semantics.Held
import Tarn.Proofs.Semantics.Raising

/-! Where errors come from. An error reaches the end of a program as it was raised, and the node that
raised it is code: functions bring the code along that they were declared in. -/
namespace Tarn

namespace Semantics

/-- In the course of the task, a node of the code raised the error so, and since then nothing has
changed. -/
inductive Raised (S : Context) (Code : Node → Prop) (t : Task) : EvalError → World → Prop where
  | intro {scope depth w w' e fault place} (ht : Comprises S t ⟨scope, depth, w, .expr e⟩)
      (he : Code (.expr e)) (h : Raises S scope depth w e fault place w') :
      Raised S Code t ⟨fault, some place⟩ w'

theorem Raised.step {S : Context} {Code : Node → Prop} {t t' : Task} {e : EvalError} {w' : World}
    (ht : Spawns S t t') (h : Raised S Code t' e w') : Raised S Code t e w' := by
  obtain ⟨hpart, he, hraises⟩ := h
  exact .intro (hpart.head ht) he hraises

/-- Conversely, what is raised in the course of a task is what the task ends with. -/
theorem Raised.fails {S : Context} {Code : Node → Prop} {t : Task} {e : EvalError} {w' : World}
    (h : Raised S Code t e w') : Fails S t e w' := by
  obtain ⟨hpart, -, hraises⟩ := h
  exact hpart.fails hraises.evaluates

end Semantics

/-- The function is code: its body and all that is in it. -/
def Closure.From (Code : Node → Prop) (f : Closure) : Prop := AllCode Code f.decl.nodes

theorem Closure.From.stmts {Code : Node → Prop} {f : Closure} (h : f.From Code) :
    AllCode Code (Stmt.allNodes f.decl.body.stmts) := by
  rw [← Block.nodes_eq]
  exact h.tail

/-- The value is as it should be, and the error was raised in the code in the course of the task. -/
def Result.Traced {α : Type} (S : Context) (Code : Node → Prop) (t : Task) (P : α → Prop)
    (w' : World) : Result α → Prop
  | .ok a => P a
  | .error e => Semantics.Raised S Code t e w'

namespace Result.Traced

variable {α β : Type} {S : Context} {Code : Node → Prop} {t t' : Task} {P : α → Prop}
  {Q : β → Prop} {w' : World} {r : Result α}

theorem step (h : r.Traced S Code t' P w') (ht : Semantics.Spawns S t t') :
    r.Traced S Code t P w' := by
  cases r with
  | ok a => exact h
  | error e => exact Semantics.Raised.step ht h

theorem map {f : α → β} (h : r.Traced S Code t P w') (hf : ∀ a, P a → Q (f a)) :
    Result.Traced S Code t Q w' (r.map f) := by
  cases r with
  | ok a => exact hf a h
  | error e => exact h

/-- What is done with the value may fail, and is then blamed on the place. -/
theorem bind_blamed {f : α → Except Fault β} {place : Span} (h : r.Traced S Code t P w')
    (herror : ∀ a fault, r = .ok a → f a = .error fault →
      Semantics.Raised S Code t ⟨fault, some place⟩ w')
    (hok : ∀ a b, f a = .ok b → Q b) :
    Result.Traced S Code t Q w' (r.bind fun a => blamed place (f a)) := by
  cases r with
  | error e => exact h
  | ok a =>
    rw [Except.bind]
    rcases hf : f a with fault | b
    · exact herror a fault rfl hf
    · exact hok a b hf

end Result.Traced

namespace Semantics

variable {Code : Node → Prop}

mutual

/-- An expression of code gives no functions but such as are code, and no errors but such as are
raised in its course. -/
theorem Evaluates.traced (hS : S.Only (Closure.From Code)) {scope : Scope} {depth : Nat}
    {w w' : World} {e : Expr} {r : Result Value} : Evaluates S scope depth w e r w' →
    AllCode Code e.nodes → w.Only (Closure.From Code) → w'.Only (Closure.From Code) ∧
      r.Traced S Code ⟨scope, depth, w, .expr e⟩ (Value.Only (Closure.From Code)) w'
  | .literal, _, hw => ⟨hw, S.only_literal _⟩
  | .var h, _, hw => ⟨hw, hw.lookup h⟩
  | .undefined h, he, hw => ⟨hw, .intro .refl he.head (.undefined h)⟩
  | .grouping h, he, hw => by
    obtain ⟨hw', hr⟩ := h.traced hS he.tail hw
    exact ⟨hw', hr.step .grouping⟩
  | .unary h, he, hw => by
    obtain ⟨hw', hr⟩ := h.traced hS he.tail hw
    refine ⟨hw', (hr.step .operand).bind_blamed ?_ fun v _ => UnaryOp.only_apply _ v⟩
    rintro v fault rfl hfault
    exact .intro .refl he.head (.unary h (UnaryOp.rejects_iff.2 hfault))
  | .binary h h', he, hw => by
    obtain ⟨hw₁, -⟩ := h.traced hS he.tail.left hw
    obtain ⟨hw₂, hr⟩ := h'.traced hS he.tail.right hw₁
    refine ⟨hw₂, (hr.step (.right h)).bind_blamed ?_ fun v _ => BinaryOp.only_apply _ _ v⟩
    rintro v fault rfl hfault
    exact .intro .refl he.head (.binary h h' (BinaryOp.rejects_iff.2 hfault))
  | .binaryFails h, he, hw => by
    obtain ⟨hw', hr⟩ := h.traced hS he.tail.left hw
    exact ⟨hw', Raised.step .left hr⟩
  | .decided h _, he, hw => h.traced hS he.tail.left hw
  | .undecided h ha h', he, hw => by
    obtain ⟨hw₁, -⟩ := h.traced hS he.tail.left hw
    obtain ⟨hw₂, hr⟩ := h'.traced hS he.tail.right hw₁
    exact ⟨hw₂, hr.step (.undecided h ha)⟩
  | .logicalFails h, he, hw => by
    obtain ⟨hw', hr⟩ := h.traced hS he.tail.left hw
    exact ⟨hw', Raised.step .deciding hr⟩
  | .assign h _, he, hw => by
    obtain ⟨hw', hv⟩ := h.traced hS he.tail hw
    exact ⟨hw'.assign _ _ hv, hv⟩
  | .assignUndefined h hi, he, hw => by
    obtain ⟨hw', -⟩ := h.traced hS he.tail hw
    exact ⟨hw', .intro .refl he.head (.assignUndefined h hi)⟩
  | .assignFails h, he, hw => by
    obtain ⟨hw', hr⟩ := h.traced hS he.tail hw
    exact ⟨hw', Raised.step .assigned hr⟩
  | .call hf ha h, he, hw => by
    obtain ⟨hw₁, hv⟩ := hf.traced hS he.tail.left hw
    obtain ⟨hw₂, hvs⟩ := ha.traced hS he.tail.right hw₁
    obtain ⟨hw₃, hr⟩ | ⟨rfl, fault, rfl, hrefuses⟩ := h.traced hS scope hv hvs hw₂
    · exact ⟨hw₃, hr.step (.called hf ha)⟩
    · exact ⟨hw₂, .intro .refl he.head (.call hf ha hrefuses)⟩
  | .calleeFails hf, he, hw => by
    obtain ⟨hw₁, hr⟩ := hf.traced hS he.tail.left hw
    exact ⟨hw₁, Raised.step .callee hr⟩
  | .argumentsFail hf ha, he, hw => by
    obtain ⟨hw₁, -⟩ := hf.traced hS he.tail.left hw
    obtain ⟨hw₂, hr⟩ := ha.traced hS he.tail.right hw₁
    exact ⟨hw₂, Raised.step (.arguments hf) hr⟩

theorem EvaluatesAll.traced (hS : S.Only (Closure.From Code)) {scope : Scope} {depth : Nat}
    {w w' : World} {es : List Expr} {r : Result (List Value)} :
    EvaluatesAll S scope depth w es r w' → AllCode Code (Expr.allNodes es) →
    w.Only (Closure.From Code) → w'.Only (Closure.From Code) ∧
      r.Traced S Code ⟨scope, depth, w, .args es⟩
        (fun vs => ∀ v ∈ vs, v.Only (Closure.From Code)) w'
  | .nil, _, hw => ⟨hw, nofun⟩
  | .cons h hs, hes, hw => by
    obtain ⟨hw₁, hv⟩ := h.traced hS hes.left hw
    obtain ⟨hw₂, hvs⟩ := hs.traced hS hes.right hw₁
    exact ⟨hw₂, (hvs.step (.otherArguments h)).map fun vs hvs =>
      List.forall_mem_cons.2 ⟨hv, hvs⟩⟩
  | .fails h, hes, hw => by
    obtain ⟨hw₁, hr⟩ := h.traced hS hes.left hw
    exact ⟨hw₁, Raised.step .argument hr⟩

/-- A call is refused, or what comes out comes out of the body. -/
theorem Applies.traced (hS : S.Only (Closure.From Code)) (scope : Scope) {depth : Nat}
    {w w' : World} {v : Value} {args : List Value} {paren : Span} {r : Result Value} :
    Applies S depth w v args paren r w' →
    v.Only (Closure.From Code) → (∀ a ∈ args, a.Only (Closure.From Code)) →
    w.Only (Closure.From Code) →
    (w'.Only (Closure.From Code) ∧
        r.Traced S Code ⟨scope, depth, w, .call v args paren⟩ (Value.Only (Closure.From Code)) w') ∨
      (w' = w ∧ ∃ fault, r = .error ⟨fault, some paren⟩ ∧ Refuses S depth v args fault)
  | .notCallable hf hn, _, _, _ => .inr ⟨rfl, _, rfl, .notCallable hf hn⟩
  | .arity h, _, _, _ => .inr ⟨rfl, _, rfl, .arity h⟩
  | .nativeArity h, _, _, _ => .inr ⟨rfl, _, rfl, .nativeArity h⟩
  | .tooDeep h hd, _, _, _ => .inr ⟨rfl, _, rfl, .tooDeep h hd⟩
  | .native (f := f) h, _, hargs, hw => by
    rw [Context.native]
    rcases hrun : S.host[f.id]? with _ | run
    · exact .inr ⟨rfl, _, rfl, .unavailable h hrun⟩
    · dsimp only
      rcases hresult : run S.clock args with e | v
      · exact .inr ⟨rfl, _, rfl, .native h hrun hresult⟩
      · exact .inl ⟨hw, hS run (Array.mem_of_getElem? hrun) S.clock args v hargs hresult⟩
  | .body (f := f) h hd hb, hf, hargs, hw => by
    obtain ⟨hw', hr⟩ := hb.traced hS (hf f rfl).stmts
      (hw.push (Frame.only_bindParams f.decl.params hargs))
    exact .inl ⟨hw', (hr.step (.body h hd)).map fun flow hflow => hflow.value⟩

theorem EvaluatesOption.traced (hS : S.Only (Closure.From Code)) {scope : Scope} {depth : Nat}
    {w w' : World} {value : Option Expr} {r : Result Value} :
    EvaluatesOption S scope depth w value r w' → AllCode Code (Expr.optionNodes value) →
    w.Only (Closure.From Code) → w'.Only (Closure.From Code) ∧
      r.Traced S Code ⟨scope, depth, w, .option value⟩ (Value.Only (Closure.From Code)) w'
  | .none, _, hw => ⟨hw, Value.only_of_ne nofun⟩
  | .some h, he, hw => by
    obtain ⟨hw', hr⟩ := h.traced hS he hw
    exact ⟨hw', hr.step .some⟩

theorem Executes.traced (hS : S.Only (Closure.From Code)) {scope : Scope} {depth : Nat}
    {w w' : World} {s : Stmt} {r : Result Flow} : Executes S scope depth w s r w' →
    AllCode Code s.nodes → w.Only (Closure.From Code) → w'.Only (Closure.From Code) ∧
      r.Traced S Code ⟨scope, depth, w, .stmt s⟩ (Flow.Only (Closure.From Code)) w'
  | .block h, hs, hw => by
    obtain ⟨hw', hr⟩ := h.traced hS hs (hw.push Frame.only_nil)
    exact ⟨hw', hr.step .block⟩
  | .expression h, hs, hw => by
    obtain ⟨hw', hr⟩ := h.traced hS hs hw
    exact ⟨hw', (hr.step .expression).map fun _ _ => trivial⟩
  | .function, hs, hw => by
    rw [Stmt.nodes_function] at hs
    exact ⟨hw.declare S _ fun _ _ => hs, trivial⟩
  | .thenBranch h hv hb, hs, hw => by
    rw [Stmt.nodes_conditional] at hs
    obtain ⟨hw₁, -⟩ := h.traced hS hs.left hw
    obtain ⟨hw₂, hr⟩ := hb.traced hS hs.right.left (hw₁.push Frame.only_nil)
    exact ⟨hw₂, hr.step (.thenBranch h hv)⟩
  | .elseBranch h hv hb, hs, hw => by
    rw [Stmt.nodes_conditional] at hs
    obtain ⟨hw₁, -⟩ := h.traced hS hs.left hw
    obtain ⟨hw₂, hr⟩ := hb.traced hS hs.right.right (hw₁.push Frame.only_nil)
    exact ⟨hw₂, hr.step (.elseBranch h hv)⟩
  | .noBranch h _, hs, hw => by
    rw [Stmt.nodes_conditional] at hs
    obtain ⟨hw₁, -⟩ := h.traced hS hs.left hw
    exact ⟨hw₁, trivial⟩
  | .conditionFails h, hs, hw => by
    rw [Stmt.nodes_conditional] at hs
    obtain ⟨hw₁, hr⟩ := h.traced hS hs.left hw
    exact ⟨hw₁, Raised.step .condition hr⟩
  | .print (v := v) h, hs, hw => by
    obtain ⟨hw', -⟩ := h.traced hS hs hw
    exact ⟨hw'.println v.toString, trivial⟩
  | .printFails h, hs, hw => by
    obtain ⟨hw', hr⟩ := h.traced hS hs hw
    exact ⟨hw', Raised.step .print hr⟩
  | .result h, hs, hw => by
    obtain ⟨hw', hr⟩ := h.traced hS hs hw
    exact ⟨hw', (hr.step .result).map fun _ hv => hv⟩
  | .loop h, hs, hw => by
    obtain ⟨hw', hr⟩ := h.traced hS hs.left hs.right hw
    exact ⟨hw', hr.step .loop⟩
  | .var h, hs, hw => by
    obtain ⟨hw', hv⟩ := h.traced hS hs hw
    exact ⟨hw'.define _ _ hv, trivial⟩
  | .varFails h, hs, hw => by
    obtain ⟨hw', hr⟩ := h.traced hS hs hw
    exact ⟨hw', Raised.step .var hr⟩

theorem ExecutesAll.traced (hS : S.Only (Closure.From Code)) {scope : Scope} {depth : Nat}
    {w w' : World} {ss : List Stmt} {r : Result Flow} : ExecutesAll S scope depth w ss r w' →
    AllCode Code (Stmt.allNodes ss) → w.Only (Closure.From Code) →
    w'.Only (Closure.From Code) ∧
      r.Traced S Code ⟨scope, depth, w, .stmts ss⟩ (Flow.Only (Closure.From Code)) w'
  | .nil, _, hw => ⟨hw, trivial⟩
  | .cons h hs, hss, hw => by
    obtain ⟨hw₁, -⟩ := h.traced hS hss.left hw
    obtain ⟨hw₂, hr⟩ := hs.traced hS hss.right hw₁
    exact ⟨hw₂, hr.step (.otherStatements h)⟩
  | .stops h _, hss, hw => by
    obtain ⟨hw₁, hr⟩ := h.traced hS hss.left hw
    exact ⟨hw₁, hr.step .statement⟩

theorem Loops.traced (hS : S.Only (Closure.From Code)) {scope : Scope} {depth : Nat}
    {w w' : World} {condition : Expr} {stmts : List Stmt} {r : Result Flow} :
    Loops S scope depth w condition stmts r w' → AllCode Code condition.nodes →
    AllCode Code (Stmt.allNodes stmts) → w.Only (Closure.From Code) →
    w'.Only (Closure.From Code) ∧
      r.Traced S Code ⟨scope, depth, w, .loop condition stmts⟩ (Flow.Only (Closure.From Code)) w'
  | .done h _, hc, _, hw => ⟨(h.traced hS hc hw).1, trivial⟩
  | .round h hv hb hl, hc, hss, hw => by
    obtain ⟨hw₁, -⟩ := h.traced hS hc hw
    obtain ⟨hw₂, -⟩ := hb.traced hS hss (hw₁.push Frame.only_nil)
    obtain ⟨hw₃, hr⟩ := hl.traced hS hc hss hw₂
    exact ⟨hw₃, hr.step (.again h hv hb)⟩
  | .stops h hv hb _, hc, hss, hw => by
    obtain ⟨hw₁, -⟩ := h.traced hS hc hw
    obtain ⟨hw₂, hr⟩ := hb.traced hS hss (hw₁.push Frame.only_nil)
    exact ⟨hw₂, hr.step (.round h hv)⟩
  | .fails h, hc, _, hw => by
    obtain ⟨hw₁, hr⟩ := h.traced hS hc hw
    exact ⟨hw₁, Raised.step .test hr⟩

end

/-- The error of a program was raised in its code in the course of the program, or is that of a
`return` outside all functions, which is blamed on its whole statement. -/
theorem Runs.traced (hS : S.Only (Closure.From Code)) {scope : Scope} {depth : Nat} {w w' : World}
    {stmts : List Stmt} {r : Result Unit} (h : Runs S scope depth w stmts r w')
    (hstmts : AllCode Code (Stmt.allNodes stmts)) (hw : w.Only (Closure.From Code)) :
    w'.Only (Closure.From Code) ∧ ∀ e, r = .error e →
      Raised S Code ⟨scope, depth, w, .stmts stmts⟩ e w' ∨
      ∃ s ∈ stmts, ∃ w₁ v,
        Comprises S ⟨scope, depth, w, .stmts stmts⟩ ⟨scope, depth, w₁, .stmt s⟩ ∧
        Executes S scope depth w₁ s (.ok (.returned v)) w' ∧
        e = ⟨.internal "`return` reached top-level code", some s.span⟩ := by
  induction h with
  | nil => exact ⟨hw, nofun⟩
  | cons h _ ih =>
    obtain ⟨hw₁, -⟩ := h.traced hS hstmts.left hw
    obtain ⟨hw', herror⟩ := ih hstmts.right hw₁
    refine ⟨hw', fun e he => ?_⟩
    obtain hraised | ⟨s, hs, w₂, v, hpart, hreturns⟩ := herror e he
    · exact .inl (hraised.step (.otherStatements h))
    · exact .inr ⟨s, List.mem_cons_of_mem _ hs, w₂, v,
        hpart.head (.otherStatements h), hreturns⟩
  | fails h =>
    obtain ⟨hw₁, hraised⟩ := h.traced hS hstmts.left hw
    refine ⟨hw₁, ?_⟩
    rintro e ⟨⟩
    exact .inl (Raised.step .statement hraised)
  | returns h =>
    obtain ⟨hw₁, -⟩ := h.traced hS hstmts.left hw
    refine ⟨hw₁, ?_⟩
    rintro e ⟨⟩
    exact .inr ⟨_, List.mem_cons_self, _, _, .single .statement, h, rfl⟩

end Semantics

end Tarn
