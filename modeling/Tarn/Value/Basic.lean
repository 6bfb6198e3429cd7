import Tarn.Decimal.Printer
import Tarn.Syntax.Tree

/-! Values of running programs. -/
namespace Tarn

abbrev FrameId := Nat

/-- A scope is the chain of its frames, the innermost first. -/
abbrev Scope := List FrameId

/-- A function together with the scope that it was declared in. -/
structure Closure where
  /-- Distinguishes this function value from every other. -/
  id : Nat
  name : String
  decl : FunctionDecl
  scope : Scope

/-- A function of the host; `id` is its place among the host's functions. -/
structure Native where
  id : Nat
  name : String
  arity : Nat
deriving DecidableEq, Repr

inductive Value where
  | nil
  | bool (b : Bool)
  | number (x : Float)
  | string (text : String)
  | function (f : Closure)
  | native (f : Native)

instance : Inhabited Value := ⟨.nil⟩

namespace Value

/-- Everything but `nil` and `false` counts as true. -/
def isTruthy : Value → Bool
  | nil => false
  | bool b => b
  | _ => true

def typeName : Value → String
  | nil => "nil"
  | bool _ => "bool"
  | number _ => "number"
  | string _ => "string"
  | function _ | native _ => "function"

/-- Values of different types differ, and a function equals only itself. -/
def equals : Value → Value → Bool
  | nil, nil => true
  | bool a, bool b => a == b
  | number a, number b => a == b
  | string a, string b => a == b
  | function f, function g => f.id == g.id
  | native f, native g => f.id == g.id
  | _, _ => false

/-- What `print` writes. -/
def toString : Value → String
  | nil => "nil"
  | bool b => if b then "true" else "false"
  | number x => Decimal.print x.toBits
  | string text => text
  | function f => s!"<fn {f.name}>"
  | native f => s!"<native fn {f.name}>"

end Value

end Tarn
