import Tarn.Source.Span
import Tarn.Token.Kind

/-! How a source text falls apart into lexemes. At each place the longest lexeme is taken. -/
namespace Tarn

inductive Lexeme where
  | blank
  /-- From two slashes to the end of the line. -/
  | comment
  | symbol (s : Symbol)
  | word
  | number
  | string
  /-- A string that runs to the end of the input without a closing quote. -/
  | openString
  /-- A character that starts nothing else. -/
  | stray (c : Char)
deriving DecidableEq, Repr

namespace Lexeme

def isBlank (c : Char) : Bool := c == ' ' || c == '\t' || c == '\r' || c == '\n'

def isDigit (c : Char) : Bool := '0' ≤ c && c ≤ '9'

def isWordStart (c : Char) : Bool := ('a' ≤ c && c ≤ 'z') || ('A' ≤ c && c ≤ 'Z') || c == '_'

def isWordPart (c : Char) : Bool := isWordStart c || isDigit c

/-- The symbol that one character makes alone. -/
def single? : Char → Option Symbol
  | '(' => some .leftParen
  | ')' => some .rightParen
  | '\x7b' => some .leftBrace
  | '\x7d' => some .rightBrace
  | ',' => some .comma
  | '.' => some .dot
  | '-' => some .minus
  | '+' => some .plus
  | ';' => some .semicolon
  | '/' => some .slash
  | '*' => some .star
  | '!' => some .bang
  | '=' => some .equal
  | '>' => some .greater
  | '<' => some .less
  | _ => none

/-- The symbol that a character makes with an `=` after it. -/
def withEqual? : Char → Option Symbol
  | '!' => some .bangEqual
  | '=' => some .equalEqual
  | '>' => some .greaterEqual
  | '<' => some .lessEqual
  | _ => none

def symbol? (c : Char) (after : List Char) : Option (Symbol × List Char) :=
  match withEqual? c, after with
  | some s, '=' :: _ => some (s, [c, '='])
  | _, _ => (single? c).map (·, [c])

/-- The length of the fraction after a whole number: a point and digits, or nothing. -/
def fractionLength : List Char → Nat
  | '.' :: cs => match (cs.takeWhile isDigit).length with
    | 0 => 0
    | n + 1 => n + 2
  | _ => 0

/-- The first lexeme of the text that starts with `c`, and how many characters of `rest` belong
to it. -/
def first (c : Char) (rest : List Char) : Lexeme × Nat :=
  if isBlank c then (blank, (rest.takeWhile isBlank).length)
  else if isWordStart c then (word, (rest.takeWhile isWordPart).length)
  else if isDigit c then
    let whole := (rest.takeWhile isDigit).length
    (number, whole + fractionLength (rest.drop whole))
  else if c = '"' then
    let inside := (rest.takeWhile (· != '"')).length
    if (rest.drop inside).isEmpty then (openString, inside) else (string, inside + 1)
  else if c = '/' ∧ rest.head? = some '/' then (comment, (rest.takeWhile (· != '\n')).length)
  else match symbol? c rest with
    | some (s, text) => (symbol s, text.length - 1)
    | none => (stray c, 0)

theorem fractionLength_le (cs : List Char) : fractionLength cs ≤ cs.length := by
  unfold fractionLength
  split
  next cs =>
    have := (List.takeWhile_sublist isDigit (l := cs)).length_le
    split
    · simp
    · simp only [List.length_cons]; omega
  next => omega

theorem first_length_le (c : Char) (rest : List Char) : (first c rest).2 ≤ rest.length := by
  have h (p : Char → Bool) (cs : List Char) : (cs.takeWhile p).length ≤ cs.length :=
    (List.takeWhile_sublist p).length_le
  unfold first
  split
  · exact h _ _
  split
  · exact h _ _
  split
  · have := h isDigit rest
    have := fractionLength_le (rest.drop (rest.takeWhile isDigit).length)
    simp only [List.length_drop] at this ⊢
    omega
  split
  · have := h (· != '"') rest
    dsimp only
    split
    · exact this
    next hne =>
      have : 0 < (rest.drop (rest.takeWhile (· != '"')).length).length := by
        rw [List.length_pos_iff]; simpa using hne
      simp only [List.length_drop] at this ⊢
      omega
  split
  · exact h _ _
  split
  next s text heq =>
    unfold symbol? at heq
    split at heq
    next => simp_all; obtain ⟨_, rfl⟩ := heq; simp
    next =>
      obtain ⟨_, _, heq⟩ := Option.map_eq_some_iff.1 heq
      obtain ⟨rfl, rfl⟩ := Prod.mk.inj heq
      simp
  next => simp

/-- A lexeme with its place and its text. -/
structure Piece where
  lexeme : Lexeme
  span : Span
  text : List Char
deriving Repr

/-- The pieces of `cs`, which starts at byte `offset`; `fuel` bounds their number. -/
def piecesUpTo : Nat → Nat → List Char → List Piece
  | 0, _, _ => []
  | _ + 1, _, [] => []
  | fuel + 1, offset, c :: cs =>
      let (lexeme, n) := first c cs
      let text := c :: cs.take n
      let stop := offset + Text.size text
      ⟨lexeme, ⟨offset, stop⟩, text⟩ :: piecesUpTo fuel stop (cs.drop n)

/-- All pieces of a text that starts at byte `offset`. -/
def pieces (offset : Nat) (cs : List Char) : List Piece := piecesUpTo cs.length offset cs

theorem texts_piecesUpTo (fuel offset : Nat) (cs : List Char) (h : cs.length ≤ fuel) :
    (piecesUpTo fuel offset cs).flatMap (·.text) = cs := by
  induction fuel generalizing offset cs with
  | zero => cases cs with
    | nil => rfl
    | cons c cs => simp at h
  | succ fuel ih => cases cs with
    | nil => rfl
    | cons c cs =>
      simp only [List.length_cons] at h
      simp only [piecesUpTo, List.flatMap_cons]
      rw [ih _ _ (by simp; omega)]
      simp

/-- The pieces are the whole text, cut up. -/
theorem texts_pieces (offset : Nat) (cs : List Char) :
    (pieces offset cs).flatMap (·.text) = cs :=
  texts_piecesUpTo cs.length offset cs (Nat.le_refl _)

end Lexeme

end Tarn
