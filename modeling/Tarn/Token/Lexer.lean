import Tarn.Decimal.Reader
import Tarn.Report.Diagnostic
import Tarn.Text.Blank
import Tarn.Text.Quoted
import Tarn.Token.Basic
import Tarn.Token.Lexeme

/-! Tokens of a source text. Malformed pieces become errors and never stop the lexer, and every
stream of tokens ends with exactly one end-of-file token. -/
namespace Tarn

inductive LexFault where
  | unterminatedString
  | unexpectedChar (c : Char)
  | sourceTooLarge (length : Nat)
deriving DecidableEq, Repr

structure LexError where
  fault : LexFault
  span : Span
deriving DecidableEq, Repr

namespace LexError

def code (e : LexError) : ErrorCode :=
  match e.fault with
  | .unterminatedString => .unterminatedString
  | .unexpectedChar _ => .unexpectedChar
  | .sourceTooLarge _ => .sourceTooLarge

def message (e : LexError) : String :=
  match e.fault with
  | .unterminatedString => "unterminated string"
  | .unexpectedChar c => s!"unexpected character `{Text.escaped c}`"
  | .sourceTooLarge length => s!"source is {length} bytes; the limit is {Span.maxOffset} bytes"

def toDiagnostic (e : LexError) : Diagnostic :=
  let d : Diagnostic := { code := e.code, message := e.message }
  match e.fault with
  | .unterminatedString =>
      (d.label e.span "string starts here and never ends").suggest "add a closing `\"`"
  | .unexpectedChar _ => d.label e.span "not part of any token"
  | .sourceTooLarge _ =>
      (d.label e.span "nothing was lexed").suggest "split the program into smaller submissions"

end LexError

namespace Lexeme.Piece

/-- The kind of token that a piece makes, if it makes one. Texts are entered into the table. -/
def kind? (p : Piece) (names : NameTable) : Option TokenKind × NameTable :=
  match p.lexeme with
  | .symbol s => (some (.symbol s), names)
  | .number => (some (.number (Decimal.read p.text)), names)
  | .string =>
      let (name, names) := names.intern (String.ofList (p.text.drop 1).dropLast)
      (some (.string name), names)
  | .word =>
      let text := String.ofList p.text
      match Keyword.ofSpelling? text with
      | some k => (some (.keyword k), names)
      | none =>
          let (name, names) := names.intern text
          (some (.identifier name), names)
  | .blank | .comment | .openString | .stray _ => (none, names)

/-- The error that a piece is, if it is one. Stray white space is passed over. -/
def error? (p : Piece) : Option LexError :=
  match p.lexeme with
  | .openString => some ⟨.unterminatedString, p.span⟩
  | .stray c => if Text.isBlank c then none else some ⟨.unexpectedChar c, p.span⟩
  | _ => none

end Lexeme.Piece

/-- A source text on its way through the lexer. -/
structure Lexer where
  pending : List Lexeme.Piece
  names : NameTable
  errors : Array LexError
  /-- The end-of-file token, until it has been given out. -/
  final? : Option Token

namespace Lexer

/-- The lexer at the start of `source`. Of a source too large for spans nothing is read. -/
def start (source : String) (names : NameTable) : Lexer :=
  let length := source.utf8ByteSize
  if Span.maxOffset < length then
    ⟨[], names, #[⟨.sourceTooLarge length, Span.nowhere⟩], some ⟨.eof, Span.point 0⟩⟩
  else ⟨Lexeme.pieces 0 source.toList, names, #[], some ⟨.eof, Span.point length⟩⟩

/-- Reads one piece. -/
def take (l : Lexer) (p : Lexeme.Piece) : Option Token × Lexer :=
  let (kind?, names) := p.kind? l.names
  let errors := match p.error? with
    | some e => l.errors.push e
    | none => l.errors
  (kind?.map (⟨·, p.span⟩), { l with names, errors })

/-- The first token of the given pieces, or the last token of all. -/
def nextOf : List Lexeme.Piece → Lexer → Option Token × Lexer
  | [], l => (l.final?, { l with pending := [], final? := none })
  | p :: ps, l =>
      match l.take p with
      | (some token, l) => (some token, { l with pending := ps })
      | (none, l) => nextOf ps l

/-- The next token, if any is left. -/
def next? (l : Lexer) : Option Token × Lexer := nextOf l.pending l

end Lexer

structure LexOutput where
  tokens : List Token
  errors : List LexError
  names : NameTable

/-- Reads the given pieces, after which the end is reached. -/
def Lexer.drain : List Lexeme.Piece → Lexer → Array Token → LexOutput
  | [], l, tokens => ⟨tokens.toList ++ l.final?.toList, l.errors.toList, l.names⟩
  | p :: ps, l, tokens =>
      match l.take p with
      | (some token, l) => drain ps l (tokens.push token)
      | (none, l) => drain ps l tokens

/-- All tokens and errors of a source text. -/
def lex (source : String) (names : NameTable) : LexOutput :=
  let l := Lexer.start source names
  l.drain l.pending #[]

/-- Of a text that is too large nothing is read. -/
theorem lex_tooLarge {source : String} (h : Span.maxOffset < source.utf8ByteSize)
    (names : NameTable) : lex source names =
      ⟨[⟨.eof, Span.point 0⟩], [⟨.sourceTooLarge source.utf8ByteSize, Span.nowhere⟩], names⟩ := by
  rw [lex, Lexer.start, if_pos h]
  rfl

end Tarn
