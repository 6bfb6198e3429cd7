import Tarn.Syntax.Error
import Tarn.Token.Basic

/-! A place between two tokens. A list that lacks its end-of-file token is read as if it had one, and
no cursor moves past the first end-of-file token. -/
namespace Tarn

/-- A set of token kinds that ignores payloads. -/
structure KindSet where
  members : List TokenKind

namespace KindSet

def contains (s : KindSet) (kind : TokenKind) : Bool := s.members.any (·.sameShape kind)

def isEmpty (s : KindSet) : Bool := s.members.isEmpty

/-- The words that begin a declaration or statement. -/
def declarationStart : KindSet :=
  ⟨[Keyword.classKw, Keyword.funKw, Keyword.varKw, Keyword.forKw, Keyword.ifKw, Keyword.whileKw,
    Keyword.printKw, Keyword.returnKw]⟩

/-- Inside braces the closing brace ends the damage too. -/
def blockRecovery : KindSet := ⟨Symbol.rightBrace :: declarationStart.members⟩

end KindSet

structure Cursor where
  names : NameTable
  /-- The tokens before the cursor, the last one first. -/
  consumed : List Token
  ahead : List Token

namespace Cursor

def ofTokens (names : NameTable) (tokens : List Token) : Cursor := ⟨names, [], tokens⟩

def position (c : Cursor) : Nat := c.consumed.length

def current (c : Cursor) : Token := c.ahead.head?.getD (Token.ofKind .eof)

def atEnd (c : Cursor) : Bool := c.current.kind == .eof

def previousSpan (c : Cursor) : Span := (c.consumed.head?.map (·.span)).getD Span.nowhere

def check (c : Cursor) (kind : TokenKind) : Bool := c.current.kind.sameShape kind

/-- One token on, unless the end is reached. -/
def advance (c : Cursor) : Cursor :=
  match c.ahead with
  | [] => c
  | t :: rest =>
      if t.kind = .eof then c else { c with consumed := t :: c.consumed, ahead := rest }

/-- How messages call the current token. -/
def describe (c : Cursor) : String :=
  match c.current.kind with
  | .identifier name => s!"`{c.names.spelling name}`"
  | .number bits => s!"`{Decimal.print bits}`"
  | .string _ => "a string"
  | .eof => "end of file"
  | kind => s!"`{kind.displayName}`"

/-- The place of an error at the current token. The end of the source is empty, so an error there is
put on the last token. -/
def errorSpan (c : Cursor) : Span :=
  if c.atEnd && !c.consumed.isEmpty then c.previousSpan else c.current.span

def errorHere (c : Cursor) (code : ErrorCode) (message : String) : ParseError :=
  { code, message, span := c.errorSpan, context := some ("found " ++ c.describe) }

/-- The code for the lack of a token of this kind. -/
def missingCode : TokenKind → ErrorCode
  | .symbol .rightParen | .symbol .rightBrace => .unclosedDelimiter
  | _ => .unexpectedToken

/-- Consumes a token of the given kind. -/
def expect (c : Cursor) (kind : TokenKind) (message : String) :
    Except ParseError (Token × Cursor) :=
  if c.check kind then .ok (c.current, c.advance)
  else .error (c.errorHere (missingCode kind) message)

def expectIdentifier (c : Cursor) (message : String) :
    Except ParseError ((Name × Span) × Cursor) :=
  match c.current.kind with
  | .identifier name => .ok ((name, c.current.span), c.advance)
  | _ => .error (c.errorHere .missingIdentifier message)

/-- Skips tokens up to one of the recovery set, which stays, or past a semicolon. Tells whether
either was found before the end. -/
def skip (recovery : KindSet) (names : NameTable) : List Token → List Token → Bool × Cursor
  | consumed, [] => (false, ⟨names, consumed, []⟩)
  | consumed, t :: rest =>
      if t.kind = .eof then (false, ⟨names, consumed, t :: rest⟩)
      else if recovery.contains t.kind then (true, ⟨names, consumed, t :: rest⟩)
      else if t.kind = Symbol.semicolon then (true, ⟨names, t :: consumed, rest⟩)
      else skip recovery names (t :: consumed) rest

/-- Goes on to the next place where a declaration can start, after one that began at `start` has
failed. If it failed at its first token, that token is dropped. -/
def synchronize (c : Cursor) (recovery : KindSet) (start : Nat) : Bool × Cursor :=
  if c.position = start ∧ !c.atEnd then
    let next := c.advance
    if c.current.kind = Symbol.semicolon then (true, next)
    else skip recovery c.names next.consumed next.ahead
  else skip recovery c.names c.consumed c.ahead

end Cursor

end Tarn
