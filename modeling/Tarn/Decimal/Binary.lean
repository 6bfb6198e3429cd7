/-! Double-precision numbers taken apart: a sign, an integer mantissa and a power of two. -/
namespace Tarn.Decimal

/-- The non-negative number `mantissa * 2 ^ exponent`. -/
structure Binary where
  mantissa : Nat
  exponent : Int
deriving DecidableEq, Repr

inductive Double where
  | nan
  | infinite (negative : Bool)
  | finite (negative : Bool) (value : Binary)
deriving DecidableEq, Repr

def leastExponent : Int := -1074

/-- The number that the sixty-four bits stand for. -/
def Double.ofBits (bits : UInt64) : Double :=
  let n := bits.toNat
  let negative := n / Nat.pow 2 63 = 1
  let scale := n / Nat.pow 2 52 % Nat.pow 2 11
  let fraction := n % Nat.pow 2 52
  if scale = Nat.pow 2 11 - 1 then if fraction = 0 then .infinite negative else .nan
  else if scale = 0 then .finite negative ⟨fraction, leastExponent⟩
  else .finite negative ⟨Nat.pow 2 52 + fraction, leastExponent + (scale - 1 : Nat)⟩

namespace Binary

/-- The value as a quotient. -/
def num (x : Binary) : Nat := x.mantissa * Nat.pow 2 x.exponent.toNat

def den (x : Binary) : Nat := Nat.pow 2 (-x.exponent).toNat

theorem den_pos (x : Binary) : 0 < x.den := Nat.two_pow_pos _

/-- Half the distance to the next number below, in quarters of a unit of the mantissa. Under a power
of two the numbers lie twice as close; the distance to the next number above is always two quarters. -/
def below (x : Binary) : Nat :=
  if x.mantissa = Nat.pow 2 52 ∧ leastExponent < x.exponent then 1 else 2

/-- Whether a point halfway to a neighbour still rounds to this number: ties go to even. -/
def keepsTies (x : Binary) : Bool := x.mantissa % 2 = 0

end Binary

end Tarn.Decimal
