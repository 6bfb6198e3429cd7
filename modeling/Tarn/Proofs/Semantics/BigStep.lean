import Tarn.Machine.Run

/-! What programs mean. The scope is an argument of whatever runs in it, and nothing is ever put
back. -/
namespace Tarn

/-- What a program changes. -/
structure World where
  frames : Array Frame
  output : Output
  /-- How many function values were made. -/
  functionCount : Nat

/-- What a program finds and does not change. -/
structure Context where
  names : NameTable
  host : Array HostFunction
  clock : Float
  maxCallDepth : Nat

/-- How something ends that is not cut off. -/
abbrev Result (α : Type) := Except EvalError α

namespace World

/-- The frames, with a scope from which they are seen. -/
def env (w : World) (scope : Scope) : Environment := ⟨w.frames, scope⟩

def define (w : World) (scope : Scope) (name : Name) (value : Value) : World :=
  { w with frames := ((w.env scope).define name value).frames }

/-- Rebinds a name in a frame. -/
def assign (w : World) (i : FrameId) (name : Name) (value : Value) : World :=
  { w with frames := w.frames.modify i (·.bind name value) }

/-- The scope of the next frame, inside another one. -/
def fresh (w : World) (outer : Scope) : Scope := w.frames.size :: outer

def push (w : World) (bindings : Frame) : World := { w with frames := w.frames.push bindings }

def println (w : World) (line : String) : World := { w with output := w.output.println line }

end World

namespace Context

def literal (S : Context) : Literal → Value
  | .nil => .nil
  | .bool b => .bool b
  | .number bits => .number (Float.ofBits bits)
  | .string text => .string (S.names.spelling text)

def undefined {α : Type} (S : Context) (name : Name) (span : Span) : Result α :=
  .error ⟨.undefinedIdentifier (S.names.spelling name), some span⟩

/-- Binds a new function value that closes over the scope. -/
def declare (S : Context) (w : World) (scope : Scope) (decl : FunctionDecl) : World :=
  let f : Closure := ⟨w.functionCount, S.names.spelling decl.name, decl, scope⟩
  { w with functionCount := w.functionCount + 1 }.define scope decl.name (.function f)

/-- What a function of the host answers. Its errors are put on the call. -/
def native (S : Context) (f : Native) (args : List Value) (paren : Span) : Result Value :=
  match S.host[f.id]? with
  | some run => (run S.clock args).mapError (·.located paren)
  | none => .error ⟨.nativeFailure f.name "not available", some paren⟩

end Context

/-- Puts a fault on a place. -/
def blamed {α : Type} (span : Span) (x : Except Fault α) : Result α :=
  x.mapError fun fault => ⟨fault, some span⟩

/-- Whether the left operand of a logical operator is its value. -/
def LogicalOp.decidedBy : LogicalOp → Value → Bool
  | .or, v => v.isTruthy
  | .and, v => !v.isTruthy

/-- The value of a call whose body ends so. -/
def Flow.value : Flow → Value
  | .returned v => v
  | .normal => .nil

/-- What a statement outside all functions makes of its end. A `return` there is an error. -/
def Flow.atTop (span : Span) : Flow → Result Unit
  | .normal => .ok ()
  | .returned _ => blamed span (.error (.internal "`return` reached top-level code"))

namespace Semantics

variable (S : Context)

mutual

/-- `Evaluates S scope depth w e r w'`: in the scope, inside `depth` function bodies, the expression
`e` takes the world `w` to `w'` and ends with `r`. -/
inductive Evaluates : Scope → Nat → World → Expr → Result Value → World → Prop where
  | literal {scope depth w span value} :
      Evaluates scope depth w (.literal span value) (.ok (S.literal value)) w
  | var {scope depth w span name v} (h : (w.env scope).lookup name = some v) :
      Evaluates scope depth w (.var span name) (.ok v) w
  | undefined {scope depth w span name} (h : (w.env scope).lookup name = none) :
      Evaluates scope depth w (.var span name) (S.undefined name span) w
  | grouping {scope depth w w' span e r} (h : Evaluates scope depth w e r w') :
      Evaluates scope depth w (.grouping span e) r w'
  | unary {scope depth w w' span op opSpan e r} (h : Evaluates scope depth w e r w') :
      Evaluates scope depth w (.unary span op opSpan e)
        (r.bind fun v => blamed opSpan (op.apply v)) w'
  | binary {scope depth w w₁ w₂ span op opSpan left right a r}
      (h : Evaluates scope depth w left (.ok a) w₁) (h' : Evaluates scope depth w₁ right r w₂) :
      Evaluates scope depth w (.binary span op opSpan left right)
        (r.bind fun b => blamed opSpan (op.apply a b)) w₂
  | binaryFails {scope depth w w₁ span op opSpan left right e}
      (h : Evaluates scope depth w left (.error e) w₁) :
      Evaluates scope depth w (.binary span op opSpan left right) (.error e) w₁
  | decided {scope depth w w₁ span op opSpan left right a}
      (h : Evaluates scope depth w left (.ok a) w₁) (ha : LogicalOp.decidedBy op a = true) :
      Evaluates scope depth w (.logical span op opSpan left right) (.ok a) w₁
  | undecided {scope depth w w₁ w₂ span op opSpan left right a r}
      (h : Evaluates scope depth w left (.ok a) w₁) (ha : LogicalOp.decidedBy op a = false)
      (h' : Evaluates scope depth w₁ right r w₂) :
      Evaluates scope depth w (.logical span op opSpan left right) r w₂
  | logicalFails {scope depth w w₁ span op opSpan left right e}
      (h : Evaluates scope depth w left (.error e) w₁) :
      Evaluates scope depth w (.logical span op opSpan left right) (.error e) w₁
  | assign {scope depth w w' span name nameSpan value v i}
      (h : Evaluates scope depth w value (.ok v) w')
      (hi : (w'.env scope).owner? scope name = some i) :
      Evaluates scope depth w (.assign span name nameSpan value) (.ok v) (w'.assign i name v)
  | assignUndefined {scope depth w w' span name nameSpan value v}
      (h : Evaluates scope depth w value (.ok v) w')
      (hi : (w'.env scope).owner? scope name = none) :
      Evaluates scope depth w (.assign span name nameSpan value) (S.undefined name nameSpan) w'
  | assignFails {scope depth w w' span name nameSpan value e}
      (h : Evaluates scope depth w value (.error e) w') :
      Evaluates scope depth w (.assign span name nameSpan value) (.error e) w'
  | call {scope depth w w₁ w₂ w₃ span callee paren args f values r}
      (hf : Evaluates scope depth w callee (.ok f) w₁)
      (ha : EvaluatesAll scope depth w₁ args (.ok values) w₂)
      (h : Applies depth w₂ f values paren r w₃) :
      Evaluates scope depth w (.call span callee paren args) r w₃
  | calleeFails {scope depth w w₁ span callee paren args e}
      (hf : Evaluates scope depth w callee (.error e) w₁) :
      Evaluates scope depth w (.call span callee paren args) (.error e) w₁
  | argumentsFail {scope depth w w₁ w₂ span callee paren args f e}
      (hf : Evaluates scope depth w callee (.ok f) w₁)
      (ha : EvaluatesAll scope depth w₁ args (.error e) w₂) :
      Evaluates scope depth w (.call span callee paren args) (.error e) w₂

/-- Expressions one after another, up to the first that fails. -/
inductive EvaluatesAll : Scope → Nat → World → List Expr → Result (List Value) → World → Prop where
  | nil {scope depth w} : EvaluatesAll scope depth w [] (.ok []) w
  | cons {scope depth w w₁ w₂ e es v r} (h : Evaluates scope depth w e (.ok v) w₁)
      (hs : EvaluatesAll scope depth w₁ es r w₂) :
      EvaluatesAll scope depth w (e :: es) (r.map (v :: ·)) w₂
  | fails {scope depth w w₁ e es x} (h : Evaluates scope depth w e (.error x) w₁) :
      EvaluatesAll scope depth w (e :: es) (.error x) w₁

/-- A call of a value, when its arguments have values. The body of a function runs in a new scope
inside the one of its declaration. -/
inductive Applies : Nat → World → Value → List Value → Span → Result Value → World → Prop where
  | notCallable {depth w v args paren} (hf : ∀ f, v ≠ .function f) (hn : ∀ f, v ≠ .native f) :
      Applies depth w v args paren (blamed paren (.error (.notCallable v.typeName))) w
  | arity {depth w f args paren} (h : args.length ≠ f.decl.arity) :
      Applies depth w (.function f) args paren
        (blamed paren (.error (.arityMismatch f.name f.decl.arity args.length))) w
  | nativeArity {depth w f args paren} (h : args.length ≠ f.arity) :
      Applies depth w (.native f) args paren
        (blamed paren (.error (.arityMismatch f.name f.arity args.length))) w
  | native {depth w f args paren} (h : args.length = f.arity) :
      Applies depth w (.native f) args paren (S.native f args paren) w
  | tooDeep {depth w f args paren} (h : args.length = f.decl.arity) (hd : S.maxCallDepth ≤ depth) :
      Applies depth w (.function f) args paren
        (blamed paren (.error (.callDepthExceeded S.maxCallDepth))) w
  | body {depth w w' f args paren r} (h : args.length = f.decl.arity)
      (hd : depth < S.maxCallDepth)
      (hb : ExecutesAll (w.fresh f.scope) (depth + 1) (w.push (bindParams f.decl.params args))
        f.decl.body.stmts r w') :
      Applies depth w (.function f) args paren (r.map Flow.value) w'

/-- An expression that may be left out. -/
inductive EvaluatesOption : Scope → Nat → World → Option Expr → Result Value → World → Prop where
  | none {scope depth w} : EvaluatesOption scope depth w none (.ok .nil) w
  | some {scope depth w w' e r} (h : Evaluates scope depth w e r w') :
      EvaluatesOption scope depth w (some e) r w'

/-- A statement. Blocks, branches and rounds of a loop run in a new scope inside that of the
statement. -/
inductive Executes : Scope → Nat → World → Stmt → Result Flow → World → Prop where
  | block {scope depth w w' span stmts r}
      (h : ExecutesAll (w.fresh scope) depth (w.push []) stmts r w') :
      Executes scope depth w (.block ⟨span, stmts⟩) r w'
  | expression {scope depth w w' span e r} (h : Evaluates scope depth w e r w') :
      Executes scope depth w (.expression span e) (r.map fun _ => .normal) w'
  | function {scope depth w span decl} :
      Executes scope depth w (.function span decl) (.ok .normal) (S.declare w scope decl)
  | thenBranch {scope depth w w₁ w₂ span bspan condition stmts other v r}
      (h : Evaluates scope depth w condition (.ok v) w₁) (hv : v.isTruthy = true)
      (hb : ExecutesAll (w₁.fresh scope) depth (w₁.push []) stmts r w₂) :
      Executes scope depth w (.conditional span condition ⟨bspan, stmts⟩ other) r w₂
  | elseBranch {scope depth w w₁ w₂ span bspan condition thenBranch stmts v r}
      (h : Evaluates scope depth w condition (.ok v) w₁) (hv : v.isTruthy = false)
      (hb : ExecutesAll (w₁.fresh scope) depth (w₁.push []) stmts r w₂) :
      Executes scope depth w (.conditional span condition thenBranch (some ⟨bspan, stmts⟩)) r w₂
  | noBranch {scope depth w w₁ span condition thenBranch v}
      (h : Evaluates scope depth w condition (.ok v) w₁) (hv : v.isTruthy = false) :
      Executes scope depth w (.conditional span condition thenBranch none) (.ok .normal) w₁
  | conditionFails {scope depth w w₁ span condition thenBranch other e}
      (h : Evaluates scope depth w condition (.error e) w₁) :
      Executes scope depth w (.conditional span condition thenBranch other) (.error e) w₁
  | print {scope depth w w' span e v} (h : Evaluates scope depth w e (.ok v) w') :
      Executes scope depth w (.print span e) (.ok .normal) (w'.println v.toString)
  | printFails {scope depth w w' span e x} (h : Evaluates scope depth w e (.error x) w') :
      Executes scope depth w (.print span e) (.error x) w'
  | result {scope depth w w' span keyword value r}
      (h : EvaluatesOption scope depth w value r w') :
      Executes scope depth w (.result span keyword value) (r.map .returned) w'
  | loop {scope depth w w' span bspan condition stmts r}
      (h : Loops scope depth w condition stmts r w') :
      Executes scope depth w (.loop span condition ⟨bspan, stmts⟩) r w'
  | var {scope depth w w' span name nameSpan value v}
      (h : EvaluatesOption scope depth w value (.ok v) w') :
      Executes scope depth w (.var span name nameSpan value) (.ok .normal) (w'.define scope name v)
  | varFails {scope depth w w' span name nameSpan value e}
      (h : EvaluatesOption scope depth w value (.error e) w') :
      Executes scope depth w (.var span name nameSpan value) (.error e) w'

/-- Statements one after another, up to the first that does not end normally. -/
inductive ExecutesAll : Scope → Nat → World → List Stmt → Result Flow → World → Prop where
  | nil {scope depth w} : ExecutesAll scope depth w [] (.ok .normal) w
  | cons {scope depth w w₁ w₂ s ss r} (h : Executes scope depth w s (.ok .normal) w₁)
      (hs : ExecutesAll scope depth w₁ ss r w₂) : ExecutesAll scope depth w (s :: ss) r w₂
  | stops {scope depth w w₁ s ss r} (h : Executes scope depth w s r w₁) (hr : r ≠ .ok .normal) :
      ExecutesAll scope depth w (s :: ss) r w₁

/-- Rounds of a loop, up to the first that does not end normally. -/
inductive Loops : Scope → Nat → World → Expr → List Stmt → Result Flow → World → Prop where
  | done {scope depth w w₁ condition stmts v} (h : Evaluates scope depth w condition (.ok v) w₁)
      (hv : v.isTruthy = false) : Loops scope depth w condition stmts (.ok .normal) w₁
  | round {scope depth w w₁ w₂ w₃ condition stmts v r}
      (h : Evaluates scope depth w condition (.ok v) w₁) (hv : v.isTruthy = true)
      (hb : ExecutesAll (w₁.fresh scope) depth (w₁.push []) stmts (.ok .normal) w₂)
      (hl : Loops scope depth w₂ condition stmts r w₃) : Loops scope depth w condition stmts r w₃
  | stops {scope depth w w₁ w₂ condition stmts v r}
      (h : Evaluates scope depth w condition (.ok v) w₁) (hv : v.isTruthy = true)
      (hb : ExecutesAll (w₁.fresh scope) depth (w₁.push []) stmts r w₂) (hr : r ≠ .ok .normal) :
      Loops scope depth w condition stmts r w₂
  | fails {scope depth w w₁ condition stmts e}
      (h : Evaluates scope depth w condition (.error e) w₁) :
      Loops scope depth w condition stmts (.error e) w₁

end

/-- A program outside all functions, up to the first statement that fails. -/
inductive Runs : Scope → Nat → World → List Stmt → Result Unit → World → Prop where
  | nil {scope depth w} : Runs scope depth w [] (.ok ()) w
  | cons {scope depth w w₁ w₂ s ss r} (h : Executes S scope depth w s (.ok .normal) w₁)
      (hs : Runs scope depth w₁ ss r w₂) : Runs scope depth w (s :: ss) r w₂
  | fails {scope depth w w₁ s ss e} (h : Executes S scope depth w s (.error e) w₁) :
      Runs scope depth w (s :: ss) (.error e) w₁
  | returns {scope depth w w₁ s ss v} (h : Executes S scope depth w s (.ok (.returned v)) w₁) :
      Runs scope depth w (s :: ss) ((Flow.returned v).atTop s.span) w₁

end Semantics

end Tarn
