import Tarn.Report.Diagnostic

/-! Errors of running programs. -/
namespace Tarn

/-- What stops a program. -/
inductive Fault where
  | undefinedIdentifier (name : String)
  | operandNotNumber (op : String)
  | operandsNotNumbers (op : String)
  | invalidAddOperands
  | divisionByZero
  | notCallable (typeName : String)
  | arityMismatch (name : String) (expected got : Nat)
  | callDepthExceeded (limit : Nat)
  | nativeFailure (name message : String)
  | internal (message : String)
deriving DecidableEq, Repr

namespace Fault

def arguments (n : Nat) : String := if n = 1 then "1 argument" else s!"{n} arguments"

def message : Fault → String
  | undefinedIdentifier name => s!"undefined identifier `{name}`"
  | operandNotNumber op => s!"operand of `{op}` must be a number"
  | operandsNotNumbers op => s!"operands of `{op}` must be numbers"
  | invalidAddOperands => "operands of `+` must be two numbers or two strings"
  | divisionByZero => "cannot divide by zero"
  | notCallable typeName => s!"can only call functions, found `{typeName}`"
  | arityMismatch name expected got => s!"`{name}` expects {arguments expected}, got {got}"
  | callDepthExceeded limit => s!"maximum call depth exceeded (limit: {limit})"
  | nativeFailure name message => s!"native function `{name}` failed: {message}"
  | internal message => s!"internal error: {message}"

def code : Fault → ErrorCode
  | undefinedIdentifier _ => .undefinedIdentifier
  | operandNotNumber _ | operandsNotNumbers _ | invalidAddOperands => .wrongOperandType
  | divisionByZero => .divisionByZero
  | notCallable _ => .notCallable
  | arityMismatch .. => .arityMismatch
  | callDepthExceeded _ => .callDepthExceeded
  | nativeFailure .. => .nativeFailure
  | internal _ => .internal

/-- The remark at the place of the fault. -/
def label : Fault → String
  | undefinedIdentifier _ => "not found in this scope"
  | operandNotNumber _ | operandsNotNumbers _ | invalidAddOperands => "invalid operand types"
  | divisionByZero => "division by zero here"
  | notCallable _ => "not a function"
  | arityMismatch .. => "wrong number of arguments"
  | callDepthExceeded _ => "call exceeds the depth limit"
  | nativeFailure .. => "native call failed here"
  | internal _ => "here"

def notes : Fault → List String
  | callDepthExceeded _ => ["this usually means a function recurses without a base case"]
  | _ => []

end Fault

/-- A fault and the token to blame, once that is known. -/
structure EvalError where
  fault : Fault
  span : Option Span := none
deriving DecidableEq, Repr

namespace EvalError

def located (e : EvalError) (span : Span) : EvalError := { e with span := some span }

def message (e : EvalError) : String := e.fault.message

def code (e : EvalError) : ErrorCode := e.fault.code

def toDiagnostic (e : EvalError) : Diagnostic :=
  let labels := (e.span.map fun span => (⟨span, e.fault.label, true⟩ : Label)).toList
  { code := e.code, message := e.message, labels, notes := e.fault.notes }

theorem primarySpan?_toDiagnostic (e : EvalError) : e.toDiagnostic.primarySpan? = e.span := by
  obtain ⟨fault, _ | span⟩ := e <;> rfl

end EvalError

end Tarn
