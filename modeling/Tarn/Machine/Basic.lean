import Tarn.Machine.Environment
import Tarn.Machine.Event
import Tarn.Machine.Output
import Tarn.Value.Operator

/-! The state of a running program. -/
namespace Tarn

/-- A function of the host, given the reading of the clock and the arguments. -/
abbrev HostFunction := Float → List Value → Except EvalError Value

/-- Tells the time. There is no reading before the beginning of 1970. -/
def HostFunction.clock : HostFunction := fun now _ =>
  if now < 0 then .error ⟨.nativeFailure "clock" "second time provided was later than self", none⟩
  else .ok (.number now)

theorem HostFunction.clock_eq_ok {now : Float} {args : List Value} {v : Value}
    (h : clock now args = .ok v) : v = .number now := by
  rw [clock] at h
  split at h
  · cases h
  · exact (Except.ok.inj h).symm

structure Machine where
  names : NameTable := .empty
  env : Environment := {}
  output : Output := .captured ""
  /-- How many function bodies are running. -/
  callDepth : Nat := 0
  maxCallDepth : Nat := 1024
  /-- How many function values were made. -/
  functionCount : Nat := 0
  host : Array HostFunction := #[]
  /-- Seconds since the beginning of 1970. -/
  clock : Float := 0
  log : Log := {}

namespace Machine

/-- Binds a function of the host globally. -/
def defineNative (m : Machine) (name : String) (arity : Nat) (f : HostFunction) : Machine :=
  let (n, names) := m.names.intern name
  let native : Native := ⟨m.host.size, name, arity⟩
  { m with names, host := m.host.push f,
           env := m.env.defineIn Environment.global n (.native native) }

/-- A machine that knows `clock`. -/
def standard (m : Machine) : Machine := m.defineNative "clock" 0 HostFunction.clock

/-- The global value of a name, which becomes known if it was not. -/
def global? (m : Machine) (name : String) : Option Value × Machine :=
  let (n, names) := m.names.intern name
  (m.env.lookupIn Environment.global n, { m with names })

end Machine

/-- Why a program does not go on: an error, or a loop that went round too often. -/
inductive Halt where
  | failed (e : EvalError)
  | exhausted
deriving DecidableEq, Repr

abbrev Eval (α : Type) := ExceptT Halt (StateM Machine) α

/-- How a statement ends. -/
inductive Flow where
  | normal
  | returned (value : Value)

namespace Eval

def fail {α : Type} (fault : Fault) (span : Span) : Eval α := throw (.failed ⟨fault, some span⟩)

/-- Blames a fault on a place. -/
def blame {α : Type} (span : Span) (x : Except Fault α) : Eval α :=
  match x with
  | .ok a => pure a
  | .error fault => fail fault span

def log (e : Event) : Eval Unit := modify fun m => { m with log := m.log.add e }

/-- Puts `p` between an enter and an exit in the log, however `p` ends. -/
def during {α : Type} (a : Activity) (p : Eval α) : Eval α := fun m =>
  let (r, m) := p { m with log := m.log.add (.enter a) }
  (r, { m with log := m.log.add (.exit a) })

/-- Logs the error that ends `p`, if one does. -/
def loggingErrors {α : Type} (p : Eval α) : Eval α := fun m =>
  match p m with
  | (.error (.failed e), m) =>
      (.error (.failed e), { m with log := m.log.add (.runtimeError e.code e.message) })
  | result => result

/-- Runs `p` in another scope and comes back to the current one, however `p` ends. -/
def inside {α : Type} (scope : Scope) (p : Eval α) : Eval α := fun m =>
  let (previous, env) := m.env.enter scope
  let (r, m) := p { m with env }
  (r, { m with env := m.env.restore previous })

/-- Makes a frame inside a scope. -/
def newScope (outer : Scope) (bindings : Frame) : Eval Scope := fun m =>
  let (scope, env) := m.env.child outer bindings
  (.ok scope, { m with env })

def currentScope : Eval Scope := return (← get).env.current

/-- Runs `p` in a fresh scope inside the current one. -/
def inFreshScope {α : Type} (p : Eval α) : Eval α := do
  inside (← newScope (← currentScope) []) p

/-- Runs `p` as the body of a function. -/
def inCall {α : Type} (p : Eval α) : Eval α := fun m =>
  let (r, m) := p { m with callDepth := m.callDepth + 1 }
  (r, { m with callDepth := m.callDepth - 1 })

def spelling (name : Name) : Eval String := return (← get).names.spelling name

def undefined {α : Type} (name : Name) (span : Span) : Eval α := do
  fail (.undefinedIdentifier (← spelling name)) span

/-- The value of a name at a place. -/
def lookup (name : Name) (span : Span) : Eval Value := do
  match (← get).env.lookup name with
  | some value => return value
  | none => undefined name span

/-- Binds a name anew where it is bound nearest. -/
def rebind (name : Name) (value : Value) (span : Span) : Eval Value := do
  let m ← get
  match m.env.owner? m.env.current name with
  | some i =>
      set { m with env := m.env.bindAt i name value }
      return value
  | none => undefined name span

def define (name : Name) (value : Value) : Eval Unit :=
  modify fun m => { m with env := m.env.define name value }

end Eval

end Tarn
