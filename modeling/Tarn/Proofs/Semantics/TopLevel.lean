import Tarn.Proofs.Grammar.Admissible
import Tarn.Proofs.Semantics.Position

/-! How programs end that stand outside all functions. No statement of theirs ends by a `return`, so
none of their errors is a fault of the interpreter. -/
namespace Tarn

/-- The error, if there is one, is no fault of the interpreter. -/
def Result.Ordinary {α : Type} (r : Result α) : Prop := ∀ e, r = .error e → e.code ≠ .internal

/-- Functions of the host do not report faults of the interpreter. -/
def Context.Ordinary (S : Context) : Prop :=
  ∀ run ∈ S.host, ∀ clock args, Result.Ordinary (run clock args)

namespace Result

variable {α β : Type}

theorem ordinary_ok (a : α) : Result.Ordinary (.ok a) := nofun

theorem ordinary_error {e : EvalError} (h : e.code ≠ .internal) :
    Result.Ordinary (.error e : Result α) := by
  rintro _ ⟨⟩
  exact h

/-- An error stays what it is where the value would have another type. -/
theorem Ordinary.error {e : EvalError} (h : Result.Ordinary (.error e : Result α)) :
    Result.Ordinary (.error e : Result β) := ordinary_error (h e rfl)

theorem Ordinary.bind {r : Result α} {f : α → Result β} (h : r.Ordinary)
    (hf : ∀ a, (f a).Ordinary) : Result.Ordinary (r.bind f) := by
  cases r with
  | ok a => exact hf a
  | error e => exact h.error

theorem Ordinary.map {r : Result α} (h : r.Ordinary) (f : α → β) : Result.Ordinary (r.map f) := by
  cases r with
  | ok a => exact ordinary_ok (f a)
  | error e => exact h.error

theorem ordinary_blamed {x : Except Fault α} (h : ∀ fault, x = .error fault →
    fault.code ≠ .internal) (place : Span) : (blamed place x).Ordinary := by
  cases x with
  | ok a => exact ordinary_ok a
  | error fault => exact ordinary_error (h fault rfl)

theorem ordinary_fault {fault : Fault} (h : fault.code ≠ .internal) (place : Span) :
    (blamed place (.error fault) : Result α).Ordinary := ordinary_error h

end Result

theorem Context.ordinary_undefined {α : Type} (S : Context) (name : Name) (place : Span) :
    (S.undefined name place : Result α).Ordinary := Result.ordinary_error nofun

theorem Context.Ordinary.native {S : Context} (h : S.Ordinary) (f : Native) (args : List Value)
    (paren : Span) : (S.native f args paren).Ordinary := by
  rw [Context.native]
  rcases hrun : S.host[f.id]? with _ | run
  · refine Result.ordinary_error ?_
    rintro ⟨⟩
  · dsimp only
    rcases hresult : run S.clock args with e | v
    · have he := h run (Array.mem_of_getElem? hrun) S.clock args e hresult
      exact Result.ordinary_error he
    · exact Result.ordinary_ok v

theorem UnaryOp.code_apply {op : UnaryOp} {operand : Value} {fault : Fault}
    (h : op.apply operand = .error fault) : fault.code ≠ .internal := by
  cases op <;> simp only [apply] at h
  · split at h <;> cases h
    exact nofun
  · cases h

theorem bothNumbers_code {op : BinaryOp} {left right : Value} {f : Float → Float → Value}
    {fault : Fault} (h : bothNumbers op left right f = .error fault) : fault.code ≠ .internal := by
  unfold bothNumbers at h
  split at h <;> cases h
  exact nofun

theorem BinaryOp.code_apply {op : BinaryOp} {left right : Value} {fault : Fault}
    (h : op.apply left right = .error fault) : fault.code ≠ .internal := by
  cases op with
  | equal | notEqual => cases h
  | sub | mul | less | lessEqual | greater | greaterEqual => exact bothNumbers_code h
  | add =>
    simp only [apply] at h
    split at h <;> cases h
    exact nofun
  | div =>
    simp only [apply] at h
    split at h
    · split at h <;> cases h
      exact nofun
    · cases h
      exact nofun

namespace Semantics

variable {S : Context}

mutual

/-- What a statement calls does not matter: a `return` ends no more than the call around it. -/
theorem Executes.ne_returned {scope : Scope} {depth : Nat} {w w' : World} {s : Stmt}
    {r : Result Flow} {v : Value} : Executes S scope depth w s r w' → s.Admissible false →
    r ≠ .ok (.returned v)
  | .block h, hs => h.ne_returned hs
  | .expression (r := .ok _) _, _ | .expression (r := .error _) _, _ => nofun
  | .function, _ | .noBranch _ _, _ | .conditionFails _, _ | .print _, _ | .printFails _, _
  | .var _, _ | .varFails _, _ => nofun
  | .thenBranch _ _ hb, hs => by
    rw [Stmt.admissible_conditional] at hs
    exact hb.ne_returned hs.2.1
  | .elseBranch _ _ hb, hs => by
    rw [Stmt.admissible_conditional] at hs
    exact hb.ne_returned (hs.2.2 _ rfl)
  | .result _, hs => nomatch hs.1
  | .loop h, hs => h.ne_returned hs.2

theorem ExecutesAll.ne_returned {scope : Scope} {depth : Nat} {w w' : World} {ss : List Stmt}
    {r : Result Flow} {v : Value} : ExecutesAll S scope depth w ss r w' →
    Stmt.AllAdmissible false ss → r ≠ .ok (.returned v)
  | .nil, _ => nofun
  | .cons _ hs, hss => hs.ne_returned hss.2
  | .stops h _, hss => h.ne_returned hss.1

theorem Loops.ne_returned {scope : Scope} {depth : Nat} {w w' : World} {condition : Expr}
    {stmts : List Stmt} {r : Result Flow} {v : Value} :
    Loops S scope depth w condition stmts r w' → Stmt.AllAdmissible false stmts →
    r ≠ .ok (.returned v)
  | .done _ _, _ | .fails _, _ => nofun
  | .round _ _ _ hl, hss => hl.ne_returned hss
  | .stops _ _ hb _, hss => hb.ne_returned hss

end

mutual

theorem Evaluates.ordinary (hS : S.Ordinary) {scope : Scope} {depth : Nat} {w w' : World}
    {e : Expr} {r : Result Value} : Evaluates S scope depth w e r w' → r.Ordinary
  | .literal | .var _ | .decided _ _ | .assign _ _ => Result.ordinary_ok _
  | .undefined _ | .assignUndefined _ _ => S.ordinary_undefined _ _
  | .grouping h => h.ordinary hS
  | .unary h => (h.ordinary hS).bind fun _ => Result.ordinary_blamed (fun _ => UnaryOp.code_apply) _
  | .binary _ h => (h.ordinary hS).bind fun _ =>
      Result.ordinary_blamed (fun _ => BinaryOp.code_apply) _
  | .binaryFails h | .logicalFails h | .assignFails h | .calleeFails h => h.ordinary hS
  | .undecided _ _ h => h.ordinary hS
  | .call _ _ h => h.ordinary hS
  | .argumentsFail _ ha => Result.Ordinary.error (ha.ordinary hS)

theorem EvaluatesAll.ordinary (hS : S.Ordinary) {scope : Scope} {depth : Nat} {w w' : World}
    {es : List Expr} {r : Result (List Value)} : EvaluatesAll S scope depth w es r w' → r.Ordinary
  | .nil => Result.ordinary_ok _
  | .cons _ hs => (hs.ordinary hS).map _
  | .fails h => Result.Ordinary.error (h.ordinary hS)

theorem Applies.ordinary (hS : S.Ordinary) {depth : Nat} {w w' : World} {f : Value}
    {args : List Value} {paren : Span} {r : Result Value} :
    Applies S depth w f args paren r w' → r.Ordinary
  | .notCallable _ _ | .arity _ | .nativeArity _ | .tooDeep _ _ => by
    refine Result.ordinary_fault ?_ _
    exact nofun
  | .native (f := f) _ => hS.native f _ _
  | .body _ _ hb => (hb.ordinary hS).map _

theorem EvaluatesOption.ordinary (hS : S.Ordinary) {scope : Scope} {depth : Nat} {w w' : World}
    {e : Option Expr} {r : Result Value} : EvaluatesOption S scope depth w e r w' → r.Ordinary
  | .none => Result.ordinary_ok _
  | .some h => h.ordinary hS

theorem Executes.ordinary (hS : S.Ordinary) {scope : Scope} {depth : Nat} {w w' : World} {s : Stmt}
    {r : Result Flow} : Executes S scope depth w s r w' → r.Ordinary
  | .block h => h.ordinary hS
  | .expression h => (h.ordinary hS).map _
  | .function | .noBranch _ _ | .print _ | .var _ => Result.ordinary_ok _
  | .thenBranch _ _ hb | .elseBranch _ _ hb => hb.ordinary hS
  | .conditionFails h | .printFails h => Result.Ordinary.error (h.ordinary hS)
  | .result h => (h.ordinary hS).map _
  | .loop h => h.ordinary hS
  | .varFails h => Result.Ordinary.error (h.ordinary hS)

theorem ExecutesAll.ordinary (hS : S.Ordinary) {scope : Scope} {depth : Nat} {w w' : World}
    {ss : List Stmt} {r : Result Flow} : ExecutesAll S scope depth w ss r w' → r.Ordinary
  | .nil => Result.ordinary_ok _
  | .cons _ hs => hs.ordinary hS
  | .stops h _ => h.ordinary hS

theorem Loops.ordinary (hS : S.Ordinary) {scope : Scope} {depth : Nat} {w w' : World}
    {condition : Expr} {stmts : List Stmt} {r : Result Flow} :
    Loops S scope depth w condition stmts r w' → r.Ordinary
  | .done _ _ => Result.ordinary_ok _
  | .round _ _ _ hl => hl.ordinary hS
  | .stops _ _ hb _ => hb.ordinary hS
  | .fails h => Result.Ordinary.error (h.ordinary hS)

end

/-- A program whose `return`s all stand in functions ends without a fault of the interpreter. -/
theorem Runs.ordinary (hS : S.Ordinary) {scope : Scope} {depth : Nat} {w w' : World}
    {stmts : List Stmt} {r : Result Unit} (h : Runs S scope depth w stmts r w')
    (hstmts : Stmt.AllAdmissible false stmts) : r.Ordinary := by
  induction h with
  | nil => exact Result.ordinary_ok ()
  | cons _ _ ih => exact ih hstmts.2
  | fails h => exact Result.Ordinary.error (h.ordinary hS)
  | returns h => exact absurd rfl (h.ne_returned hstmts.1)

end Semantics

/-- A statement whose `return`s all stand in functions does not return, whatever the machine has
become. -/
theorem Machine.exec_ne_returned {m m' : Machine} {loops : Nat} {s : Stmt} {v : Value}
    (hs : s.Admissible false) : s.exec loops (m.invoke loops) m ≠ (.ok (.returned v), m') := by
  intro hrun
  have hcalls : Semantics.FollowsCalls m.context m.callDepth (m.invoke loops) :=
    Semantics.followsCalls_invokeUpTo loops rfl
  obtain ⟨w', -, hexec⟩ :=
    Semantics.follows_exec hcalls s (r := .ok (.returned v)) m.views_world hrun
  exact hexec.ne_returned hs rfl

end Tarn
