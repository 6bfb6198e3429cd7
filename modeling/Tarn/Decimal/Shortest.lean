import Tarn.Decimal.Binary

/-! The fewest decimal digits that read back as a given number. A grid of decimals is tried for each
number of digits; on it only the two neighbours of the number can round to it. -/
namespace Tarn.Decimal

/-- The number `digits * 10 ^ exponent`. -/
structure Scaled where
  digits : Nat
  exponent : Int
deriving DecidableEq, Repr

namespace Binary

/-- A quarter of a unit of the mantissa. It and `step` are in a common measure that makes both
integers. -/
def quarter (x : Binary) (e : Int) : Nat :=
  Nat.pow 2 (x.exponent - 2).toNat * Nat.pow 10 (-e).toNat

/-- A step of the grid of multiples of `10 ^ e`. -/
def step (x : Binary) (e : Int) : Nat :=
  Nat.pow 2 (2 - x.exponent).toNat * Nat.pow 10 e.toNat

/-- Whether `digits * 10 ^ e` rounds to the number. -/
def holds (x : Binary) (e : Int) (digits : Nat) : Bool :=
  let low := (4 * x.mantissa - x.below) * x.quarter e
  let high := (4 * x.mantissa + 2) * x.quarter e
  let point := digits * x.step e
  if x.keepsTies then low ≤ point && point ≤ high else low < point && point < high

/-- The multiple of `10 ^ e` closest to the number among those that round to it. Of two at the same
distance it is the larger. -/
def nearest? (x : Binary) (e : Int) : Option Nat :=
  let value := 4 * x.mantissa * x.quarter e
  let d := value / x.step e
  if x.holds e d then
    if x.holds e (d + 1) && (2 * d + 1) * x.step e ≤ 2 * value then some (d + 1) else some d
  else if x.holds e (d + 1) then some (d + 1)
  else none

/-- The least `k` such that the number is below `10 ^ k`. -/
def magnitude (x : Binary) : Int :=
  if x.den ≤ x.num then (Nat.toDigits 10 (x.num / x.den)).length
  else 1 - (Nat.toDigits 10 ((x.den - 1) / x.num)).length

/-- All digits of the number. -/
def exact (x : Binary) : Scaled :=
  if 0 ≤ x.exponent then ⟨x.num, 0⟩
  else ⟨x.mantissa * Nat.pow 5 (-x.exponent).toNat, x.exponent⟩

/-- The first grid with a hit, from `e` down. -/
def search (x : Binary) : Nat → Int → Scaled
  | 0, _ => x.exact
  | fuel + 1, e =>
      match x.nearest? e with
      | some d => ⟨d, e⟩
      | none => search x fuel (e - 1)

/-- The fewest digits that read back, and the nearest of those to the number. Seventeen always
suffice. -/
def shortest (x : Binary) : Scaled := x.search 17 (x.magnitude - 1)

end Binary

end Tarn.Decimal
