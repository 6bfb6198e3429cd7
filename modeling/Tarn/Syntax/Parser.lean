import Tarn.Syntax.Cursor
import Tarn.Syntax.Tree

/-! The state of a parser and the steps that every production is made of. -/
namespace Tarn

/-- What a parser leaves in the log. -/
inductive ParseEvent where
  | forLoop (hasInitializer hasCondition hasIncrement : Bool)
  | recovery (code : ErrorCode) (span : Span)
deriving DecidableEq, Repr

structure ParseState where
  cursor : Cursor
  errors : Array ParseError := #[]
  events : Array ParseEvent := #[]
  /-- How many function bodies are open. No text within the limit opens more than a word counts. -/
  functionDepth : Nat := 0
  /-- How many braces are open, of which the same is true. -/
  blockDepth : Nat := 0

/-- A production. Its error ends the declaration around it; errors that do not are in the state. -/
abbrev Parser (α : Type) := ExceptT ParseError (StateM ParseState) α

namespace Parser

def cursor : Parser Cursor := return (← get).cursor

def current : Parser Token := return (← cursor).current

def check (kind : TokenKind) : Parser Bool := return (← cursor).check kind

/-- The number of tokens left. It bounds every loop and every nesting. -/
def remaining : Parser Nat := return (← cursor).ahead.length

def setCursor (c : Cursor) : Parser Unit := modify ({ · with cursor := c })

/-- Consumes the current token and gives its place. -/
def advance : Parser Span := do
  let c ← cursor
  setCursor c.advance
  return c.current.span

def report (e : ParseError) : Parser Unit := modify fun s => { s with errors := s.errors.push e }

/-- Reports an error if `p` holds. -/
@[inline] def reportIf (p : Prop) [Decidable p] (e : ParseError) : Parser Unit :=
  if p then report e else pure ()

def log (e : ParseEvent) : Parser Unit := modify fun s => { s with events := s.events.push e }

def failHere {α : Type} (code : ErrorCode) (message : String) : Parser α := do
  throw ((← cursor).errorHere code message)

/-- Consumes a token of the given kind and gives its place. -/
def expect (kind : TokenKind) (message : String) : Parser Span := do
  match (← cursor).expect kind message with
  | .ok (token, next) =>
      setCursor next
      return token.span
  | .error e => throw e

/-- Consumes the delimiter that closes the one at `opening`; if it is missing, the error points back
there. -/
def expectClosing (kind : TokenKind) (opening : Span) (message : String) : Parser Span := do
  let opener := if kind = Symbol.rightBrace then Symbol.leftBrace else Symbol.leftParen
  match (← cursor).expect kind message with
  | .ok (token, next) =>
      setCursor next
      return token.span
  | .error e =>
      throw { e with related := some (opening, s!"unclosed `{opener.spelling}` opened here") }

def expectIdentifier (message : String) : Parser (Name × Span) := do
  match (← cursor).expectIdentifier message with
  | .ok (found, next) =>
      setCursor next
      return found
  | .error e => throw e

/-- The items after `found`, each behind a comma. -/
def moreItems {α : Type} (item : List α → Parser α) : Nat → List α → Parser (List α)
  | 0, found => return found
  | n + 1, found => do
      if ← check Symbol.comma then
        let _ ← advance
        moreItems item n (found ++ [← item found])
      else return found

/-- One item or more between commas. An item may depend on those before it. -/
def commaSeparated {α : Type} (item : List α → Parser α) : Parser (List α) := do
  let first ← item []
  moreItems item (← remaining) [first]

/-- The items before `stop`, which may come at once. -/
def itemsBefore {α : Type} (stop : TokenKind) (item : List α → Parser α) : Parser (List α) := do
  if ← check stop then return [] else commaSeparated item

end Parser

end Tarn
