import Tarn.Decimal.Printer
import Tarn.Name

/-! Kinds of tokens and their spellings. -/
namespace Tarn

inductive Symbol where
  | leftParen | rightParen | leftBrace | rightBrace | comma | dot | minus | plus | semicolon
  | slash | star | bang | bangEqual | equal | equalEqual | greater | greaterEqual | less | lessEqual
deriving DecidableEq, Repr

namespace Symbol

def all : List Symbol :=
  [leftParen, rightParen, leftBrace, rightBrace, comma, dot, minus, plus, semicolon, slash, star,
    bang, bangEqual, equal, equalEqual, greater, greaterEqual, less, lessEqual]

theorem mem_all (s : Symbol) : s ∈ all := by cases s <;> decide

def spelling : Symbol → String
  | leftParen => "("
  | rightParen => ")"
  | leftBrace => "\x7b"
  | rightBrace => "\x7d"
  | comma => ","
  | dot => "."
  | minus => "-"
  | plus => "+"
  | semicolon => ";"
  | slash => "/"
  | star => "*"
  | bang => "!"
  | bangEqual => "!="
  | equal => "="
  | equalEqual => "=="
  | greater => ">"
  | greaterEqual => ">="
  | less => "<"
  | lessEqual => "<="

end Symbol

/-- The reserved words. `class`, `super` and `this` are reserved without a use. -/
inductive Keyword where
  | andKw | classKw | elseKw | falseKw | forKw | funKw | ifKw | nilKw | orKw | printKw | returnKw
  | superKw | thisKw | trueKw | varKw | whileKw
deriving DecidableEq, Repr

namespace Keyword

def all : List Keyword :=
  [andKw, classKw, elseKw, falseKw, forKw, funKw, ifKw, nilKw, orKw, printKw, returnKw, superKw,
    thisKw, trueKw, varKw, whileKw]

theorem mem_all (k : Keyword) : k ∈ all := by cases k <;> decide

def spelling : Keyword → String
  | andKw => "and"
  | classKw => "class"
  | elseKw => "else"
  | falseKw => "false"
  | forKw => "for"
  | funKw => "fun"
  | ifKw => "if"
  | nilKw => "nil"
  | orKw => "or"
  | printKw => "print"
  | returnKw => "return"
  | superKw => "super"
  | thisKw => "this"
  | trueKw => "true"
  | varKw => "var"
  | whileKw => "while"

def ofSpelling? (text : String) : Option Keyword := all.find? (·.spelling == text)

end Keyword

inductive TokenKind where
  | symbol (s : Symbol)
  | identifier (name : Name)
  /-- The text between the quotes. -/
  | string (text : Name)
  | number (bits : UInt64)
  | keyword (k : Keyword)
  | eof
deriving DecidableEq, Repr

instance : Inhabited TokenKind := ⟨.eof⟩

instance : Coe Symbol TokenKind := ⟨.symbol⟩

instance : Coe Keyword TokenKind := ⟨.keyword⟩

namespace TokenKind

/-- The number of kinds when payloads are ignored. -/
def count : Nat := 39

/-- The place of a kind among all kinds, its payload ignored. -/
def index : TokenKind → Nat
  | symbol s => Symbol.all.idxOf s
  | identifier _ => 19
  | string _ => 20
  | number _ => 21
  | keyword k => 22 + Keyword.all.idxOf k
  | eof => 38

/-- Whether two kinds differ in their payload at most. -/
def sameShape (a b : TokenKind) : Bool := a.index == b.index

def isKeyword : TokenKind → Bool
  | keyword _ => true
  | _ => false

def number? : TokenKind → Option UInt64
  | number bits => some bits
  | _ => none

/-- How messages call a token of this kind. -/
def displayName : TokenKind → String
  | symbol s => s.spelling
  | identifier _ => "identifier"
  | string _ => "string"
  | number _ => "number"
  | keyword k => k.spelling
  | eof => "end of file"

def toString : TokenKind → String
  | identifier name => s!"Ident({name.toString})"
  | string text => s!"String({text.toString})"
  | number bits => s!"Number({Decimal.print bits})"
  | eof => "Eof"
  | kind => kind.displayName

theorem index_lt (k : TokenKind) : k.index < count := by
  cases k with
  | symbol s => cases s <;> decide
  | keyword k => cases k <;> decide
  | _ => simp [index, count]

end TokenKind

end Tarn
