import Tarn.Syntax.Statement

/-! Whole programs. -/
namespace Tarn

namespace Parser

def start (names : NameTable) (tokens : List Token) : ParseState :=
  { cursor := Cursor.ofTokens names tokens }

def nextUpTo : Nat → StateM ParseState (Option Stmt)
  | 0 => return none
  | n + 1 => do
      if (← get).cursor.atEnd then return none
      else match ← recovering declaration with
        | some stmt => return some stmt
        | none => nextUpTo n

/-- The next declaration that succeeds, if there is one. -/
def next? : StateM ParseState (Option Stmt) := do nextUpTo (← get).cursor.ahead.length

/-- All declarations up to the end. -/
def program : StateM ParseState (List Stmt) := do
  declarationsUpTo (fun _ => false) declaration (← get).cursor.ahead.length []

end Parser

structure ParseOutput where
  statements : List Stmt
  errors : List ParseError
  events : List ParseEvent

/-- The statements of a list of tokens, without those that have errors. -/
def parse (names : NameTable) (tokens : List Token) : ParseOutput :=
  let (statements, s) := Parser.program (Parser.start names tokens)
  ⟨statements, s.errors.toList, s.events.toList⟩

end Tarn
