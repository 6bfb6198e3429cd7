import Tarn.Decimal.Printer
import Tarn.Syntax.Tree
import Tarn.Text.Quoted

/-! Programs as nested lists, which show precedence and leave out places. -/
namespace Tarn

inductive Sexpr where
  | atom (text : String)
  | list (items : List Sexpr)

namespace Sexpr

mutual

def render : Sexpr → String
  | atom text => text
  | list items => "(" ++ " ".intercalate (renderAll items) ++ ")"

def renderAll : List Sexpr → List String
  | [] => []
  | x :: xs => x.render :: renderAll xs

end

/-- A list that starts with a word. -/
def form (head : String) (items : List Sexpr) : Sexpr := list (atom head :: items)

end Sexpr

open Sexpr

def Literal.toSexpr (names : NameTable) : Literal → Sexpr
  | nil => atom "nil"
  | bool b => atom (if b then "true" else "false")
  | number bits => atom (Decimal.print bits)
  | string text => atom (Text.quoted (names.spelling text))

mutual

def Expr.toSexpr (names : NameTable) : Expr → Sexpr
  | .literal _ value => value.toSexpr names
  | .var _ name => atom (names.spelling name)
  | .grouping _ inner => form "group" [inner.toSexpr names]
  | .unary _ op _ operand => form op.spelling [operand.toSexpr names]
  | .binary _ op _ left right => form op.spelling [left.toSexpr names, right.toSexpr names]
  | .logical _ op _ left right => form op.spelling [left.toSexpr names, right.toSexpr names]
  | .assign _ name _ value => form "=" [atom (names.spelling name), value.toSexpr names]
  | .call _ callee _ args => form "call" (callee.toSexpr names :: Expr.toSexprs names args)

def Expr.toSexprs (names : NameTable) : List Expr → List Sexpr
  | [] => []
  | e :: es => e.toSexpr names :: Expr.toSexprs names es

end

mutual

def Stmt.toSexpr (names : NameTable) : Stmt → Sexpr
  | .block body => body.toSexpr names
  | .expression _ value => form "expr" [value.toSexpr names]
  | .function _ ⟨name, _, params, body⟩ =>
      form "fun" [atom (names.spelling name),
        list (params.map fun p => atom (names.spelling p.name)), body.toSexpr names]
  | .conditional _ condition thenBranch none =>
      form "if" [condition.toSexpr names, thenBranch.toSexpr names]
  | .conditional _ condition thenBranch (some elseBranch) =>
      form "if" [condition.toSexpr names, thenBranch.toSexpr names, elseBranch.toSexpr names]
  | .print _ value => form "print" [value.toSexpr names]
  | .result _ _ value => form "return" (value.map (·.toSexpr names)).toList
  | .loop _ condition body => form "while" [condition.toSexpr names, body.toSexpr names]
  | .var _ name _ initializer =>
      form "var" (atom (names.spelling name) :: (initializer.map (·.toSexpr names)).toList)

def Block.toSexpr (names : NameTable) : Block → Sexpr
  | ⟨_, stmts⟩ => form "block" (Stmt.toSexprs names stmts)

def Stmt.toSexprs (names : NameTable) : List Stmt → List Sexpr
  | [] => []
  | s :: ss => s.toSexpr names :: Stmt.toSexprs names ss

end

def Expr.render (names : NameTable) (e : Expr) : String := (e.toSexpr names).render

def Stmt.render (names : NameTable) (s : Stmt) : String := (s.toSexpr names).render

end Tarn
