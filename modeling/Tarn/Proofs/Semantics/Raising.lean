import Mathlib.Logic.Relation
import Tarn.Proofs.Semantics.BigStep

/-! How errors are raised. What a program runs is a tree of tasks, and an error is raised at the task
of one expression, on a token of that expression. -/
namespace Tarn

/-- What an operator finds wrong with its operand. -/
inductive UnaryOp.Rejects : UnaryOp → Value → Fault → Prop where
  | neg {v} (h : ∀ x, v ≠ .number x) : Rejects .neg v (.operandNotNumber UnaryOp.neg.spelling)

theorem UnaryOp.rejects_iff {op : UnaryOp} {v : Value} {fault : Fault} :
    op.Rejects v fault ↔ op.apply v = .error fault := by
  constructor
  · rintro ⟨h⟩
    cases v with
    | number x => exact absurd rfl (h x)
    | _ => rfl
  · intro h
    cases op with
    | not => cases h
    | neg =>
      cases v with
      | number x => cases h
      | _ =>
        obtain rfl := Except.error.inj h
        exact .neg nofun

theorem UnaryOp.Rejects.blamed {op : UnaryOp} {v : Value} {fault : Fault} (h : op.Rejects v fault)
    (place : Span) : blamed place (op.apply v) = .error ⟨fault, some place⟩ := by
  rw [rejects_iff.1 h]
  rfl

/-- What an operator finds wrong with its operands. -/
inductive BinaryOp.Rejects : BinaryOp → Value → Value → Fault → Prop where
  | operands {op a b} (hop : op ≠ .add ∧ op ≠ .equal ∧ op ≠ .notEqual)
      (h : ∀ x y, ¬ (a = .number x ∧ b = .number y)) :
      Rejects op a b (.operandsNotNumbers op.spelling)
  | add {a b} (h : ∀ x y, ¬ (a = .number x ∧ b = .number y))
      (h' : ∀ s t, ¬ (a = .string s ∧ b = .string t)) : Rejects .add a b .invalidAddOperands
  | div {x y} (h : (y == 0) = true) : Rejects .div (.number x) (.number y) .divisionByZero

theorem bothNumbers_rejects {op : BinaryOp} {a b : Value} {f : Float → Float → Value}
    {fault : Fault} (hop : op ≠ .add ∧ op ≠ .equal ∧ op ≠ .notEqual)
    (h : bothNumbers op a b f = .error fault) : op.Rejects a b fault := by
  unfold bothNumbers at h
  split at h
  next => cases h
  next hother =>
    obtain rfl := Except.error.inj h
    refine .operands hop ?_
    rintro x y ⟨rfl, rfl⟩
    exact hother x y rfl rfl

theorem BinaryOp.rejects_of_apply {op : BinaryOp} {a b : Value} {fault : Fault}
    (h : op.apply a b = .error fault) : op.Rejects a b fault := by
  cases op with
  | equal | notEqual => cases h
  | sub | mul | less | lessEqual | greater | greaterEqual =>
    exact bothNumbers_rejects (by decide) h
  | add =>
    simp only [apply] at h
    split at h
    next => cases h
    next => cases h
    next hnumbers hstrings =>
      obtain rfl := Except.error.inj h
      refine .add ?_ ?_
      · rintro x y ⟨rfl, rfl⟩
        exact hnumbers x y rfl rfl
      · rintro s t ⟨rfl, rfl⟩
        exact hstrings s t rfl rfl
  | div =>
    simp only [apply] at h
    split at h
    next =>
      split at h
      next hzero =>
        obtain rfl := Except.error.inj h
        exact .div hzero
      next => cases h
    next hother =>
      obtain rfl := Except.error.inj h
      refine .operands (by decide) ?_
      rintro x y ⟨rfl, rfl⟩
      exact hother x y rfl rfl

theorem BinaryOp.apply_of_rejects {op : BinaryOp} {a b : Value} {fault : Fault}
    (h : op.Rejects a b fault) : op.apply a b = .error fault := by
  cases h with
  | operands hop h =>
    have hboth (f : Float → Float → Value) :
        bothNumbers op a b f = .error (.operandsNotNumbers op.spelling) := by
      unfold bothNumbers
      split
      next x y => exact absurd ⟨rfl, rfl⟩ (h x y)
      next => rfl
    cases op with
    | add => exact absurd rfl hop.1
    | equal => exact absurd rfl hop.2.1
    | notEqual => exact absurd rfl hop.2.2
    | div =>
      simp only [apply]
      split
      next x y => exact absurd ⟨rfl, rfl⟩ (h x y)
      next => rfl
    | _ => exact hboth _
  | add h h' =>
    simp only [apply]
    split
    next x y => exact absurd ⟨rfl, rfl⟩ (h x y)
    next s t => exact absurd ⟨rfl, rfl⟩ (h' s t)
    next => rfl
  | div h =>
    simp only [apply, h, if_true]

theorem BinaryOp.rejects_iff {op : BinaryOp} {a b : Value} {fault : Fault} :
    op.Rejects a b fault ↔ op.apply a b = .error fault :=
  ⟨apply_of_rejects, rejects_of_apply⟩

theorem BinaryOp.Rejects.blamed {op : BinaryOp} {a b : Value} {fault : Fault}
    (h : op.Rejects a b fault) (place : Span) :
    blamed place (op.apply a b) = .error ⟨fault, some place⟩ := by
  rw [rejects_iff.1 h]
  rfl

/-- What is there to run. -/
inductive Job where
  | expr (e : Expr)
  | args (es : List Expr)
  | call (f : Value) (args : List Value) (paren : Span)
  | option (value : Option Expr)
  | stmt (s : Stmt)
  | stmts (ss : List Stmt)
  | loop (condition : Expr) (body : List Stmt)

/-- Something to run, and where: in a scope, inside so many function bodies, on a world. -/
structure Task where
  scope : Scope
  depth : Nat
  world : World
  job : Job

namespace Semantics

variable (S : Context)

/-- The task ends with the error. -/
def Fails (t : Task) (e : EvalError) (w' : World) : Prop :=
  match t.job with
  | .expr x => Evaluates S t.scope t.depth t.world x (.error e) w'
  | .args xs => EvaluatesAll S t.scope t.depth t.world xs (.error e) w'
  | .call f args paren => Applies S t.depth t.world f args paren (.error e) w'
  | .option x => EvaluatesOption S t.scope t.depth t.world x (.error e) w'
  | .stmt s => Executes S t.scope t.depth t.world s (.error e) w'
  | .stmts ss => ExecutesAll S t.scope t.depth t.world ss (.error e) w'
  | .loop condition body => Loops S t.scope t.depth t.world condition body (.error e) w'

/-- `Spawns S t t'`: when the task `t` runs, it comes to run `t'` as one of its parts, everything
before that part having ended well. -/
inductive Spawns : Task → Task → Prop where
  | grouping {scope depth w span e} :
      Spawns ⟨scope, depth, w, .expr (.grouping span e)⟩ ⟨scope, depth, w, .expr e⟩
  | operand {scope depth w span op opSpan e} :
      Spawns ⟨scope, depth, w, .expr (.unary span op opSpan e)⟩ ⟨scope, depth, w, .expr e⟩
  | left {scope depth w span op opSpan left right} :
      Spawns ⟨scope, depth, w, .expr (.binary span op opSpan left right)⟩
        ⟨scope, depth, w, .expr left⟩
  | right {scope depth w w₁ span op opSpan left right a}
      (h : Evaluates S scope depth w left (.ok a) w₁) :
      Spawns ⟨scope, depth, w, .expr (.binary span op opSpan left right)⟩
        ⟨scope, depth, w₁, .expr right⟩
  | deciding {scope depth w span op opSpan left right} :
      Spawns ⟨scope, depth, w, .expr (.logical span op opSpan left right)⟩
        ⟨scope, depth, w, .expr left⟩
  | undecided {scope depth w w₁ span op opSpan left right a}
      (h : Evaluates S scope depth w left (.ok a) w₁) (ha : LogicalOp.decidedBy op a = false) :
      Spawns ⟨scope, depth, w, .expr (.logical span op opSpan left right)⟩
        ⟨scope, depth, w₁, .expr right⟩
  | assigned {scope depth w span name nameSpan value} :
      Spawns ⟨scope, depth, w, .expr (.assign span name nameSpan value)⟩
        ⟨scope, depth, w, .expr value⟩
  | callee {scope depth w span callee paren args} :
      Spawns ⟨scope, depth, w, .expr (.call span callee paren args)⟩
        ⟨scope, depth, w, .expr callee⟩
  | arguments {scope depth w w₁ span callee paren args f}
      (hf : Evaluates S scope depth w callee (.ok f) w₁) :
      Spawns ⟨scope, depth, w, .expr (.call span callee paren args)⟩
        ⟨scope, depth, w₁, .args args⟩
  | called {scope depth w w₁ w₂ span callee paren args f values}
      (hf : Evaluates S scope depth w callee (.ok f) w₁)
      (ha : EvaluatesAll S scope depth w₁ args (.ok values) w₂) :
      Spawns ⟨scope, depth, w, .expr (.call span callee paren args)⟩
        ⟨scope, depth, w₂, .call f values paren⟩
  | body {scope depth w f args paren} (h : args.length = f.decl.arity)
      (hd : depth < S.maxCallDepth) :
      Spawns ⟨scope, depth, w, .call (.function f) args paren⟩
        ⟨w.fresh f.scope, depth + 1, w.push (bindParams f.decl.params args),
          .stmts f.decl.body.stmts⟩
  | argument {scope depth w e es} :
      Spawns ⟨scope, depth, w, .args (e :: es)⟩ ⟨scope, depth, w, .expr e⟩
  | otherArguments {scope depth w w₁ e es v} (h : Evaluates S scope depth w e (.ok v) w₁) :
      Spawns ⟨scope, depth, w, .args (e :: es)⟩ ⟨scope, depth, w₁, .args es⟩
  | block {scope depth w span stmts} :
      Spawns ⟨scope, depth, w, .stmt (.block ⟨span, stmts⟩)⟩
        ⟨w.fresh scope, depth, w.push [], .stmts stmts⟩
  | expression {scope depth w span e} :
      Spawns ⟨scope, depth, w, .stmt (.expression span e)⟩ ⟨scope, depth, w, .expr e⟩
  | condition {scope depth w span condition thenBranch other} :
      Spawns ⟨scope, depth, w, .stmt (.conditional span condition thenBranch other)⟩
        ⟨scope, depth, w, .expr condition⟩
  | thenBranch {scope depth w w₁ span bspan condition stmts other v}
      (h : Evaluates S scope depth w condition (.ok v) w₁) (hv : v.isTruthy = true) :
      Spawns ⟨scope, depth, w, .stmt (.conditional span condition ⟨bspan, stmts⟩ other)⟩
        ⟨w₁.fresh scope, depth, w₁.push [], .stmts stmts⟩
  | elseBranch {scope depth w w₁ span bspan condition thenBranch stmts v}
      (h : Evaluates S scope depth w condition (.ok v) w₁) (hv : v.isTruthy = false) :
      Spawns ⟨scope, depth, w, .stmt (.conditional span condition thenBranch (some ⟨bspan, stmts⟩))⟩
        ⟨w₁.fresh scope, depth, w₁.push [], .stmts stmts⟩
  | print {scope depth w span e} :
      Spawns ⟨scope, depth, w, .stmt (.print span e)⟩ ⟨scope, depth, w, .expr e⟩
  | result {scope depth w span keyword value} :
      Spawns ⟨scope, depth, w, .stmt (.result span keyword value)⟩ ⟨scope, depth, w, .option value⟩
  | var {scope depth w span name nameSpan value} :
      Spawns ⟨scope, depth, w, .stmt (.var span name nameSpan value)⟩
        ⟨scope, depth, w, .option value⟩
  | some {scope depth w e} :
      Spawns ⟨scope, depth, w, .option (.some e)⟩ ⟨scope, depth, w, .expr e⟩
  | loop {scope depth w span bspan condition stmts} :
      Spawns ⟨scope, depth, w, .stmt (.loop span condition ⟨bspan, stmts⟩)⟩
        ⟨scope, depth, w, .loop condition stmts⟩
  | test {scope depth w condition stmts} :
      Spawns ⟨scope, depth, w, .loop condition stmts⟩ ⟨scope, depth, w, .expr condition⟩
  | round {scope depth w w₁ condition stmts v}
      (h : Evaluates S scope depth w condition (.ok v) w₁) (hv : v.isTruthy = true) :
      Spawns ⟨scope, depth, w, .loop condition stmts⟩
        ⟨w₁.fresh scope, depth, w₁.push [], .stmts stmts⟩
  | again {scope depth w w₁ w₂ condition stmts v}
      (h : Evaluates S scope depth w condition (.ok v) w₁) (hv : v.isTruthy = true)
      (hb : ExecutesAll S (w₁.fresh scope) depth (w₁.push []) stmts (.ok .normal) w₂) :
      Spawns ⟨scope, depth, w, .loop condition stmts⟩ ⟨scope, depth, w₂, .loop condition stmts⟩
  | statement {scope depth w s ss} :
      Spawns ⟨scope, depth, w, .stmts (s :: ss)⟩ ⟨scope, depth, w, .stmt s⟩
  | otherStatements {scope depth w w₁ s ss} (h : Executes S scope depth w s (.ok .normal) w₁) :
      Spawns ⟨scope, depth, w, .stmts (s :: ss)⟩ ⟨scope, depth, w₁, .stmts ss⟩

/-- The second task runs in the course of the first one. -/
abbrev Comprises : Task → Task → Prop := Relation.ReflTransGen (Spawns S)

variable {S}

/-- What runs a part that fails ends with the same error, with nothing done about it. -/
theorem Spawns.fails {t t' : Task} {e : EvalError} {w' : World} (ht : Spawns S t t')
    (h : Fails S t' e w') : Fails S t e w' := by
  cases ht with
  | grouping => exact .grouping h
  | operand => exact .unary h
  | left => exact .binaryFails h
  | right hleft => exact .binary hleft h
  | deciding => exact .logicalFails h
  | undecided hleft ha => exact .undecided hleft ha h
  | assigned => exact .assignFails h
  | callee => exact .calleeFails h
  | arguments hf => exact .argumentsFail hf h
  | called hf ha => exact .call hf ha h
  | body hlength hd => exact .body hlength hd h
  | argument => exact .fails h
  | otherArguments hfirst => exact .cons hfirst h
  | block => exact .block h
  | expression => exact .expression h
  | condition => exact .conditionFails h
  | thenBranch hcondition hv => exact .thenBranch hcondition hv h
  | elseBranch hcondition hv => exact .elseBranch hcondition hv h
  | print => exact .printFails h
  | result => exact .result h
  | var => exact .varFails h
  | some => exact .some h
  | loop => exact .loop h
  | test => exact .fails h
  | round hcondition hv => exact .stops hcondition hv h nofun
  | again hcondition hv hb => exact .round hcondition hv hb h
  | statement => exact .stops h nofun
  | otherStatements hfirst => exact .cons hfirst h

/-- However deep a task fails, all that it is a part of ends with its error. -/
theorem Comprises.fails {t t' : Task} {e : EvalError} {w' : World} (ht : Comprises S t t')
    (h : Fails S t' e w') : Fails S t e w' := by
  induction ht using Relation.ReflTransGen.head_induction_on with
  | refl => exact h
  | head hspawns _ ih => exact hspawns.fails ih

/-- Outside all functions it is the same: the error of the statements is that of the program. -/
theorem Runs.of_fails {scope : Scope} {depth : Nat} {w w' : World} {stmts : List Stmt}
    {e : EvalError} (h : ExecutesAll S scope depth w stmts (.error e) w') :
    Runs S scope depth w stmts (.error e) w' := by
  induction stmts generalizing w with
  | nil => cases h
  | cons s ss ih =>
    cases h with
    | cons hfirst hs => exact .cons hfirst (ih hs)
    | stops hfails _ => exact .fails hfails

variable (S)

/-- What is wrong with a call when its arguments have values. A function of the host says so
itself. -/
inductive Refuses (depth : Nat) : Value → List Value → Fault → Prop where
  | notCallable {v args} (hf : ∀ f, v ≠ .function f) (hn : ∀ f, v ≠ .native f) :
      Refuses depth v args (.notCallable v.typeName)
  | arity {f args} (h : args.length ≠ f.decl.arity) :
      Refuses depth (.function f) args (.arityMismatch f.name f.decl.arity args.length)
  | nativeArity {f args} (h : args.length ≠ f.arity) :
      Refuses depth (.native f) args (.arityMismatch f.name f.arity args.length)
  | tooDeep {f args} (h : args.length = f.decl.arity) (hd : S.maxCallDepth ≤ depth) :
      Refuses depth (.function f) args (.callDepthExceeded S.maxCallDepth)
  | native {f args run e} (h : args.length = f.arity) (hrun : S.host[f.id]? = some run)
      (he : run S.clock args = .error e) : Refuses depth (.native f) args e.fault
  | unavailable {f args} (h : args.length = f.arity) (hrun : S.host[f.id]? = none) :
      Refuses depth (.native f) args (.nativeFailure f.name "not available")

/-- `Raises S scope depth w e fault place w'`: in the scope, inside `depth` function bodies, the
node `e` takes the world `w` to `w'`, where all that it needs has values, and then raises the fault
itself, on the token at the place. -/
inductive Raises : Scope → Nat → World → Expr → Fault → Span → World → Prop where
  | undefined {scope depth w span name} (h : (w.env scope).lookup name = none) :
      Raises scope depth w (.var span name) (.undefinedIdentifier (S.names.spelling name)) span w
  | assignUndefined {scope depth w w' span name nameSpan value v}
      (h : Evaluates S scope depth w value (.ok v) w')
      (hi : (w'.env scope).owner? scope name = none) :
      Raises scope depth w (.assign span name nameSpan value)
        (.undefinedIdentifier (S.names.spelling name)) nameSpan w'
  | unary {scope depth w w' span op opSpan e v fault}
      (h : Evaluates S scope depth w e (.ok v) w') (hop : op.Rejects v fault) :
      Raises scope depth w (.unary span op opSpan e) fault opSpan w'
  | binary {scope depth w w₁ w₂ span op opSpan left right a b fault}
      (h : Evaluates S scope depth w left (.ok a) w₁)
      (h' : Evaluates S scope depth w₁ right (.ok b) w₂) (hop : op.Rejects a b fault) :
      Raises scope depth w (.binary span op opSpan left right) fault opSpan w₂
  | call {scope depth w w₁ w₂ span callee paren args f values fault}
      (hf : Evaluates S scope depth w callee (.ok f) w₁)
      (ha : EvaluatesAll S scope depth w₁ args (.ok values) w₂)
      (h : Refuses S depth f values fault) :
      Raises scope depth w (.call span callee paren args) fault paren w₂

variable {S}

theorem Refuses.applies {depth : Nat} {w : World} {f : Value} {args : List Value} {fault : Fault}
    (h : Refuses S depth f args fault) (paren : Span) :
    Applies S depth w f args paren (.error ⟨fault, some paren⟩) w := by
  cases h with
  | notCallable hf hn => exact .notCallable hf hn
  | arity h => exact .arity h
  | nativeArity h => exact .nativeArity h
  | tooDeep h hd => exact .tooDeep h hd
  | @native f args run e h hrun he =>
    have hnative : S.native f args paren = .error ⟨e.fault, some paren⟩ := by
      rw [Context.native, hrun]
      dsimp only
      rw [he]
      rfl
    rw [← hnative]
    exact .native h
  | @unavailable f args h hrun =>
    have hnative : S.native f args paren =
        .error ⟨.nativeFailure f.name "not available", some paren⟩ := by
      rw [Context.native, hrun]
    rw [← hnative]
    exact .native h

/-- The node ends with what it raises. -/
theorem Raises.evaluates {scope : Scope} {depth : Nat} {w w' : World} {e : Expr} {fault : Fault}
    {place : Span} (h : Raises S scope depth w e fault place w') :
    Evaluates S scope depth w e (.error ⟨fault, some place⟩) w' := by
  cases h with
  | undefined h => exact .undefined h
  | assignUndefined h hi => exact .assignUndefined h hi
  | unary h hop =>
    rw [← hop.blamed place]
    exact .unary h
  | binary h h' hop =>
    rw [← hop.blamed place]
    exact .binary h h'
  | call hf ha h => exact .call hf ha (h.applies _)

end Semantics

end Tarn
