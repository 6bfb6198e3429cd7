import Tarn.Text.Printable

/-! Texts written so that every character can be seen. -/
namespace Tarn.Text

def hex (n : Nat) : List Char := Nat.toDigits 16 n

/-- A character that cannot be shown, by its code point. -/
def codePoint (c : Char) : List Char := ['\\', 'u', '\x7b'] ++ hex c.toNat ++ ['\x7d']

/-- The characters that have an escape of their own, quotes apart. -/
def shortEscape? : Char → Option Char
  | '\\' => some '\\'
  | '\n' => some 'n'
  | '\r' => some 'r'
  | '\t' => some 't'
  | '\x00' => some '0'
  | _ => none

/-- One character as it stands inside quotes; `quotes` lists the quotes to escape. -/
def escape (quotes : List Char) (c : Char) : List Char :=
  if quotes.contains c then ['\\', c]
  else match shortEscape? c with
    | some e => ['\\', e]
    | none => if isPrintable c && !extendsGrapheme c then [c] else codePoint c

/-- A text in double quotes. -/
def quoted (text : String) : String :=
  String.ofList (['"'] ++ text.toList.flatMap (escape ['"']) ++ ['"'])

/-- A single character, without quotes around it but safe between either kind. -/
def escaped (c : Char) : String := String.ofList (escape ['"', '\''] c)

end Tarn.Text
