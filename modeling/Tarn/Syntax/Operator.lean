/-! The operators of expressions. -/
namespace Tarn

/-- Operators that always evaluate both operands, the left one first. -/
inductive BinaryOp where
  | add | sub | mul | div | equal | notEqual | less | lessEqual | greater | greaterEqual
deriving DecidableEq, Repr

namespace BinaryOp

def spelling : BinaryOp → String
  | add => "+"
  | sub => "-"
  | mul => "*"
  | div => "/"
  | equal => "=="
  | notEqual => "!="
  | less => "<"
  | lessEqual => "<="
  | greater => ">"
  | greaterEqual => ">="

def all : List BinaryOp :=
  [add, sub, mul, div, equal, notEqual, less, lessEqual, greater, greaterEqual]

/-- Whether the operator compares its operands. -/
def isComparison : BinaryOp → Bool
  | add | sub | mul | div => false
  | _ => true

end BinaryOp

inductive UnaryOp where
  | neg | not
deriving DecidableEq, Repr

def UnaryOp.spelling : UnaryOp → String
  | neg => "-"
  | not => "!"

/-- Operators that evaluate the right operand only if the left one does not decide. -/
inductive LogicalOp where
  | and | or
deriving DecidableEq, Repr

def LogicalOp.spelling : LogicalOp → String
  | and => "and"
  | or => "or"

end Tarn
