import Tarn.Name
import Tarn.Source.Span
import Tarn.Syntax.Operator

/-! Programs as trees. Every node knows the text it was read from. -/
namespace Tarn

/-- Numbers are kept as their bits. -/
inductive Literal where
  | nil
  | bool (b : Bool)
  | number (bits : UInt64)
  | string (text : Name)
deriving DecidableEq, Repr

inductive Expr where
  | literal (span : Span) (value : Literal)
  | var (span : Span) (name : Name)
  | grouping (span : Span) (inner : Expr)
  | unary (span : Span) (op : UnaryOp) (opSpan : Span) (operand : Expr)
  | binary (span : Span) (op : BinaryOp) (opSpan : Span) (left right : Expr)
  | logical (span : Span) (op : LogicalOp) (opSpan : Span) (left right : Expr)
  | assign (span : Span) (name : Name) (nameSpan : Span) (value : Expr)
  /-- A call ends at `paren`, its closing parenthesis. -/
  | call (span : Span) (callee : Expr) (paren : Span) (args : List Expr)
deriving Repr

def Expr.span : Expr → Span
  | literal span _ | var span _ | grouping span _ | unary span .. | binary span ..
  | logical span .. | assign span .. | call span .. => span

instance : Inhabited Expr := ⟨.literal Span.nowhere .nil⟩

structure Param where
  name : Name
  span : Span
deriving DecidableEq, Repr

mutual

/-- Statements in braces. -/
structure Block where
  span : Span
  stmts : List Stmt

structure FunctionDecl where
  name : Name
  nameSpan : Span
  params : List Param
  body : Block

inductive Stmt where
  | block (body : Block)
  | expression (span : Span) (value : Expr)
  | function (span : Span) (decl : FunctionDecl)
  | conditional (span : Span) (condition : Expr) (thenBranch : Block) (elseBranch : Option Block)
  | print (span : Span) (value : Expr)
  /-- A `return`. -/
  | result (span : Span) (keyword : Span) (value : Option Expr)
  /-- A `while`. A `for` is a block around one. -/
  | loop (span : Span) (condition : Expr) (body : Block)
  | var (span : Span) (name : Name) (nameSpan : Span) (initializer : Option Expr)

end

instance : Inhabited Block := ⟨⟨Span.nowhere, []⟩⟩

instance : Inhabited Stmt := ⟨.block default⟩

def FunctionDecl.arity (f : FunctionDecl) : Nat := f.params.length

def Stmt.span : Stmt → Span
  | block body => body.span
  | expression span _ | function span _ | conditional span .. | print span _ | result span ..
  | loop span .. | var span .. => span

end Tarn
