import Tarn.Machine.Basic
import Tarn.Syntax.Sexpr

/-! How programs run. Expressions and statements are read off the tree; a call goes on with one
fewer of the calls that may still be nested, so only loops need a bound of their own. -/
namespace Tarn

open Eval

/-- Runs the body of a function on arguments, for a call that ends at the given place. -/
abbrev Invoke := Closure → List Value → Span → Eval Value

def callNative (f : Native) (args : List Value) (paren : Span) : Eval Value := do
  let m ← get
  match m.host[f.id]? with
  | some run =>
      match run m.clock args with
      | .ok value => return value
      | .error e => throw (.failed (e.located paren))
  | none => fail (.nativeFailure f.name "not available") paren

/-- Calls a value. What is called is looked at only when the arguments have values. -/
def Value.call (invoke : Invoke) (callee : Value) (args : List Value) (paren : Span) : Eval Value :=
  match callee with
  | .function f =>
      if args.length = f.decl.arity then invoke f args paren
      else fail (.arityMismatch f.name f.decl.arity args.length) paren
  | .native f =>
      if args.length = f.arity then callNative f args paren
      else fail (.arityMismatch f.name f.arity args.length) paren
  | other => fail (.notCallable other.typeName) paren

mutual

def Expr.eval (invoke : Invoke) : Expr → Eval Value
  | .literal _ .nil => return .nil
  | .literal _ (.bool b) => return .bool b
  | .literal _ (.number bits) => return .number (Float.ofBits bits)
  | .literal _ (.string text) => return .string (← spelling text)
  | .var span name => lookup name span
  | .grouping _ inner => inner.eval invoke
  | .unary _ op opSpan operand => do
      let value ← operand.eval invoke
      blame opSpan (op.apply value)
  | .binary _ op opSpan left right => do
      let a ← left.eval invoke
      let b ← right.eval invoke
      blame opSpan (op.apply a b)
  | .logical _ op _ left right => do
      let a ← left.eval invoke
      match op, a.isTruthy with
      | .or, true | .and, false => return a
      | .or, false | .and, true => right.eval invoke
  | .assign _ name nameSpan value => do
      rebind name (← value.eval invoke) nameSpan
  | .call _ callee paren args => do
      let f ← callee.eval invoke
      let values ← Expr.evalAll invoke args
      f.call invoke values paren

def Expr.evalAll (invoke : Invoke) : List Expr → Eval (List Value)
  | [] => return []
  | e :: es => do
      let v ← e.eval invoke
      let vs ← Expr.evalAll invoke es
      return v :: vs

end

/-- Repeats `body` while `test` holds, at most `fuel` times. -/
def iterate (test : Eval Bool) (body : Eval Flow) : Nat → Eval Flow
  | 0 => throw .exhausted
  | fuel + 1 => do
      if ← test then
        match ← body with
        | .normal => iterate test body fuel
        | .returned value => return .returned value
      else return .normal

/-- Makes a function value that closes over the current scope. -/
def declare (decl : FunctionDecl) : Eval Unit := do
  let m ← get
  let f : Closure := ⟨m.functionCount, m.names.spelling decl.name, decl, m.env.current⟩
  modify fun m => { m with functionCount := m.functionCount + 1,
                           env := m.env.define decl.name (.function f) }

def Expr.test (invoke : Invoke) (e : Expr) : Eval Bool := return (← e.eval invoke).isTruthy

/-- The value of an expression that may be left out. -/
def evalOptional (invoke : Invoke) : Option Expr → Eval Value
  | some e => e.eval invoke
  | none => return .nil

mutual

/-- Runs a statement; each of its loops goes round at most `loops` times. -/
def Stmt.exec (loops : Nat) (invoke : Invoke) : Stmt → Eval Flow
  | .block ⟨span, stmts⟩ => do
      log (.execute span)
      inFreshScope (Stmt.execAll loops invoke stmts)
  | .expression span e => do
      log (.execute span)
      let _ ← e.eval invoke
      return .normal
  | .function span decl => do
      log (.execute span)
      declare decl
      return .normal
  | .conditional span condition ⟨_, stmts⟩ none => do
      log (.execute span)
      if ← condition.test invoke then inFreshScope (Stmt.execAll loops invoke stmts) else return .normal
  | .conditional span condition ⟨_, stmts⟩ (some ⟨_, others⟩) => do
      log (.execute span)
      if ← condition.test invoke then inFreshScope (Stmt.execAll loops invoke stmts)
      else inFreshScope (Stmt.execAll loops invoke others)
  | .print span e => do
      log (.execute span)
      let value ← e.eval invoke
      modify fun m => { m with output := m.output.println value.toString }
      return .normal
  | .result span _ value => do
      log (.execute span)
      return .returned (← evalOptional invoke value)
  | .loop span condition ⟨_, stmts⟩ => do
      log (.execute span)
      iterate (condition.test invoke) (inFreshScope (Stmt.execAll loops invoke stmts)) loops
  | .var span name _ initializer => do
      log (.execute span)
      define name (← evalOptional invoke initializer)
      return .normal

def Stmt.execAll (loops : Nat) (invoke : Invoke) : List Stmt → Eval Flow
  | [] => return .normal
  | s :: ss => do
      match ← s.exec loops invoke with
      | .normal => Stmt.execAll loops invoke ss
      | .returned value => return .returned value

end

/-- The parameters of a function bound to its arguments, in order. -/
def bindParams (params : List Param) (args : List Value) : Frame :=
  (params.zip args).foldl (fun frame (p, v) => frame.bind p.name v) []

/-- Runs function bodies inside each other up to the given depth. -/
def invokeUpTo (loops : Nat) : Nat → Invoke
  | 0 => fun f _ paren => during (.call f.name) do
      fail (.callDepthExceeded (← get).maxCallDepth) paren
  | depth + 1 => fun f args _ => during (.call f.name) do
      let scope ← newScope f.scope (bindParams f.decl.params args)
      let flow ← inCall (inside scope
        (Stmt.execAll loops (invokeUpTo loops depth) f.decl.body.stmts))
      match flow with
      | .returned value => return value
      | .normal => return .nil

/-- The expression that the log shows for a statement outside all functions. -/
def Stmt.shown? : Stmt → Option Expr
  | .expression _ e | .print _ e => some e
  | _ => none

def Stmt.announce (s : Stmt) : Eval Unit := do
  let m ← get
  match s.shown? with
  | some e => if m.log.keeps .debug then log (.evaluating (e.render m.names)) else return ()
  | none => return ()

/-- Runs one statement of a program that stands outside all functions. -/
def Stmt.runTop (loops : Nat) (s : Stmt) : Eval Unit := do
  s.announce
  let m ← get
  match ← loggingErrors (s.exec loops (invokeUpTo loops (m.maxCallDepth - m.callDepth))) with
  | .normal => return ()
  | .returned _ => fail (.internal "`return` reached top-level code") s.span

/-- Runs statements up to the first that fails. -/
def interpret (loops : Nat) : List Stmt → Eval Unit
  | [] => return ()
  | s :: ss => do
      s.runTop loops
      interpret loops ss

end Tarn
