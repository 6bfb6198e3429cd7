/-! Decimals read as double-precision numbers, rounded to nearest. -/
namespace Tarn.Decimal

def digitValue (c : Char) : Nat := c.toNat - '0'.toNat

def natOf (ds : List Char) : Nat := ds.foldl (fun n c => 10 * n + digitValue c) 0

/-- The bits of the number closest to the decimal: digits, and perhaps a point and more digits. -/
def read (text : List Char) : UInt64 :=
  let whole := text.takeWhile (· != '.')
  let fraction := (text.dropWhile (· != '.')).drop 1
  (Float.ofScientific (natOf (whole ++ fraction)) true fraction.length).toBits

end Tarn.Decimal
