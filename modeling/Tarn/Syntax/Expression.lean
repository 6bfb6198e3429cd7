import Tarn.Syntax.Parser

/-! Expressions, from the tightest level to the loosest. Each level takes the parser of nested
expressions as an argument; the knot is tied by the number of tokens left, since whatever nests an
expression has consumed a token before it. -/
namespace Tarn.Parser

/-- The most parameters of a function and arguments of a call. -/
def maxArity : Nat := 255

def literal? : TokenKind → Option Literal
  | .keyword .falseKw => some (.bool false)
  | .keyword .trueKw => some (.bool true)
  | .keyword .nilKw => some .nil
  | .number bits => some (.number bits)
  | .string text => some (.string text)
  | _ => none

def grouping (nested : Parser Expr) : Parser Expr := do
  let opening ← advance
  let inner ← nested
  let closing ← expectClosing Symbol.rightParen opening "expected `)` after expression"
  return .grouping (opening.merge closing) inner

def primary (nested : Parser Expr) : Parser Expr := do
  let token ← current
  match literal? token.kind, token.kind with
  | some value, _ => return .literal (← advance) value
  | none, .identifier name => return .var (← advance) name
  | none, .symbol .leftParen => grouping nested
  | none, _ => failHere .missingExpression "expected expression"

def argument (nested : Parser Expr) (found : List Expr) : Parser Expr := do
  let c ← cursor
  reportIf (found.length = maxArity)
    (c.errorHere .tooManyArguments s!"can't have more than {maxArity} arguments")
  nested

/-- The arguments of a call, after its opening parenthesis. -/
def finishCall (nested : Parser Expr) (callee : Expr) (opening : Span) : Parser Expr := do
  let args ← itemsBefore Symbol.rightParen (argument nested)
  let paren ← expectClosing Symbol.rightParen opening "expected `)` after arguments"
  return .call (callee.span.merge paren) callee paren args

def calls (nested : Parser Expr) : Nat → Expr → Parser Expr
  | 0, callee => return callee
  | n + 1, callee => do
      if ← check Symbol.leftParen then
        let opening ← advance
        calls nested n (← finishCall nested callee opening)
      else return callee

def call (nested : Parser Expr) : Parser Expr := do
  let callee ← primary nested
  calls nested (← remaining) callee

def unaryOp? : TokenKind → Option UnaryOp
  | .symbol .minus => some .neg
  | .symbol .bang => some .not
  | _ => none

def unaryUpTo (nested : Parser Expr) : Nat → Parser Expr
  | 0 => call nested
  | n + 1 => do
      match unaryOp? (← current).kind with
      | none => call nested
      | some op =>
          let opSpan ← advance
          let operand ← unaryUpTo nested n
          return .unary (opSpan.merge operand.span) op opSpan operand

def unary (nested : Parser Expr) : Parser Expr := do unaryUpTo nested (← remaining)

/-- The operators and operands to the right of `left`, grouped from the left. -/
def chainUpTo {op : Type} (op? : TokenKind → Option op) (join : op → Span → Expr → Expr → Expr)
    (operand : Parser Expr) : Nat → Expr → Parser Expr
  | 0, left => return left
  | n + 1, left => do
      match op? (← current).kind with
      | none => return left
      | some o =>
          let opSpan ← advance
          let right ← operand
          chainUpTo op? join operand n (join o opSpan left right)

/-- A level of operators that group from the left. -/
def chain {op : Type} (op? : TokenKind → Option op) (join : op → Span → Expr → Expr → Expr)
    (operand : Parser Expr) : Parser Expr := do
  let left ← operand
  chainUpTo op? join operand (← remaining) left

def joinBinary (op : BinaryOp) (opSpan : Span) (left right : Expr) : Expr :=
  .binary (left.span.merge right.span) op opSpan left right

def joinLogical (op : LogicalOp) (opSpan : Span) (left right : Expr) : Expr :=
  .logical (left.span.merge right.span) op opSpan left right

def factorOp? : TokenKind → Option BinaryOp
  | .symbol .star => some .mul
  | .symbol .slash => some .div
  | _ => none

def termOp? : TokenKind → Option BinaryOp
  | .symbol .plus => some .add
  | .symbol .minus => some .sub
  | _ => none

def comparisonOp? : TokenKind → Option BinaryOp
  | .symbol .less => some .less
  | .symbol .lessEqual => some .lessEqual
  | .symbol .greater => some .greater
  | .symbol .greaterEqual => some .greaterEqual
  | _ => none

def equalityOp? : TokenKind → Option BinaryOp
  | .symbol .equalEqual => some .equal
  | .symbol .bangEqual => some .notEqual
  | _ => none

def andOp? : TokenKind → Option LogicalOp
  | .keyword .andKw => some .and
  | _ => none

def orOp? : TokenKind → Option LogicalOp
  | .keyword .orKw => some .or
  | _ => none

def factor (nested : Parser Expr) : Parser Expr := chain factorOp? joinBinary (unary nested)

def term (nested : Parser Expr) : Parser Expr := chain termOp? joinBinary (factor nested)

def comparison (nested : Parser Expr) : Parser Expr :=
  chain comparisonOp? joinBinary (term nested)

def equality (nested : Parser Expr) : Parser Expr :=
  chain equalityOp? joinBinary (comparison nested)

def conjunction (nested : Parser Expr) : Parser Expr := chain andOp? joinLogical (equality nested)

def disjunction (nested : Parser Expr) : Parser Expr := chain orOp? joinLogical (conjunction nested)

/-- The value to the right of a target that cannot be assigned to stands for the whole. -/
def assignment (nested : Parser Expr) : Parser Expr := do
  let target ← disjunction nested
  if ← check Symbol.equal then
    let equals ← advance
    let value ← nested
    match target with
    | .var span name => return .assign (span.merge value.span) name span value
    | _ =>
        report { code := .invalidTarget, message := "invalid assignment target", span := equals,
                 context := some "only a variable can be assigned to" }
        return value
  else return target

/-- An expression with at most `n` nestings. Without a token there is no expression. -/
def expressionUpTo : Nat → Parser Expr
  | 0 => failHere .missingExpression "expected expression"
  | n + 1 => assignment (expressionUpTo n)

def expression : Parser Expr := do expressionUpTo (← remaining)

end Tarn.Parser
