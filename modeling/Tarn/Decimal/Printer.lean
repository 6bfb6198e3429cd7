import Tarn.Decimal.Shortest

/-! Numbers as text. Printing never uses an exponent and leaves out a fraction of zero. -/
namespace Tarn.Decimal

/-- The lowest `n` decimal digits of `d`, zeros included. -/
def lowDigits : Nat → Nat → List Char
  | 0, _ => []
  | n + 1, d => lowDigits n (d / 10) ++ [Nat.digitChar (d % 10)]

def dropTrailingZeros (ds : List Char) : List Char :=
  (ds.reverse.dropWhile (· == '0')).reverse

/-- The decimal with a point in its place. -/
def Scaled.positional (d : Scaled) : List Char :=
  if 0 ≤ d.exponent then Nat.toDigits 10 (d.digits * Nat.pow 10 d.exponent.toNat)
  else
    let places := (-d.exponent).toNat
    let whole := Nat.toDigits 10 (d.digits / Nat.pow 10 places)
    let fraction := dropTrailingZeros (lowDigits places (d.digits % Nat.pow 10 places))
    if fraction.isEmpty then whole else whole ++ '.' :: fraction

def Binary.printed (x : Binary) : List Char :=
  if x.mantissa = 0 then ['0'] else x.shortest.positional

def Double.printed : Double → List Char
  | .nan => ['N', 'a', 'N']
  | .infinite negative => if negative then ['-', 'i', 'n', 'f'] else ['i', 'n', 'f']
  | .finite negative x => if negative then '-' :: x.printed else x.printed

/-- The text of the number with these bits. -/
def print (bits : UInt64) : String := String.ofList (Double.ofBits bits).printed

end Tarn.Decimal
