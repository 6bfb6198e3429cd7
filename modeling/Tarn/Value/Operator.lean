import Tarn.Value.Basic
import Tarn.Value.Error

/-! What operators make of values. -/
namespace Tarn

def bothNumbers (op : BinaryOp) (left right : Value) (f : Float → Float → Value) :
    Except Fault Value :=
  match left, right with
  | .number a, .number b => .ok (f a b)
  | _, _ => .error (.operandsNotNumbers op.spelling)

/-- The value of an operation on two values. -/
def BinaryOp.apply (op : BinaryOp) (left right : Value) : Except Fault Value :=
  match op with
  | equal => .ok (.bool (left.equals right))
  | notEqual => .ok (.bool !left.equals right)
  | add =>
      match left, right with
      | .number a, .number b => .ok (.number (a + b))
      | .string a, .string b => .ok (.string (a ++ b))
      | _, _ => .error .invalidAddOperands
  | sub => bothNumbers op left right fun a b => .number (a - b)
  | mul => bothNumbers op left right fun a b => .number (a * b)
  | div =>
      match left, right with
      | .number a, .number b => if b == 0 then .error .divisionByZero else .ok (.number (a / b))
      | _, _ => .error (.operandsNotNumbers op.spelling)
  | less => bothNumbers op left right fun a b => .bool (a < b)
  | lessEqual => bothNumbers op left right fun a b => .bool (a ≤ b)
  | greater => bothNumbers op left right fun a b => .bool (b < a)
  | greaterEqual => bothNumbers op left right fun a b => .bool (b ≤ a)

def UnaryOp.apply (op : UnaryOp) (operand : Value) : Except Fault Value :=
  match op with
  | neg =>
      match operand with
      | .number a => .ok (.number (-a))
      | _ => .error (.operandNotNumber op.spelling)
  | not => .ok (.bool !operand.isTruthy)

end Tarn
