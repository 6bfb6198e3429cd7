import Mathlib.Tactic
import Tarn.Decimal.Printer
import Tarn.Decimal.Reader
import Tarn.Proofs.Lexing.Rules

/-! The number that a decimal text stands for. A decimal in positional notation stands for the number
that was to be written, and is a number of the lexical grammar. -/
namespace Tarn.Decimal
open Lexeme (isDigit)

/-- The number that the text stands for, before it is rounded. -/
def value (text : List Char) : ℚ :=
  let whole := text.takeWhile (· != '.')
  let fraction := (text.dropWhile (· != '.')).drop 1
  natOf (whole ++ fraction) / 10 ^ fraction.length

theorem natOf_toDigits (n : Nat) : natOf (Nat.toDigits 10 n) = n := Nat.ofDigitChars_ten_toDigits

theorem natOf_append (cs ds : List Char) :
    natOf (cs ++ ds) = 10 ^ ds.length * natOf cs + natOf ds := by
  have happend : natOf (cs ++ ds) = Nat.ofDigitChars 10 ds (natOf cs) :=
    Nat.ofDigitChars_append 0
  rw [happend, Nat.ofDigitChars_eq_ofDigitChars_zero]
  rfl

theorem natOf_zeros (n : Nat) : natOf (List.replicate n '0') = 0 :=
  Nat.ofDigitChars_replicate_zero.trans (Nat.mul_zero _)

theorem natOf_digitChar {n : Nat} (h : n < 10) : natOf [Nat.digitChar n] = n := by
  interval_cases n <;> rfl

theorem isDigit_digitChar {n : Nat} (h : n < 10) : isDigit (Nat.digitChar n) = true := by
  interval_cases n <;> rfl

theorem isDigit_of_toDigits {n : Nat} {c : Char} (hc : c ∈ Nat.toDigits 10 n) :
    isDigit c = true := by
  have hdigit := Nat.isDigit_of_mem_toDigits (by decide) (by decide) hc
  simpa [Char.isDigit, isDigit, Char.le_def] using hdigit

@[simp] theorem length_lowDigits (n d : Nat) : (lowDigits n d).length = n := by
  induction n generalizing d with
  | zero => rfl
  | succ n ih => rw [lowDigits, List.length_append, ih, List.length_singleton]

theorem natOf_lowDigits (n d : Nat) : natOf (lowDigits n d) = d % 10 ^ n := by
  induction n generalizing d with
  | zero => rw [Nat.pow_zero, Nat.mod_one, lowDigits, natOf, List.foldl_nil]
  | succ n ih =>
    rw [lowDigits, natOf_append, ih, natOf_digitChar (Nat.mod_lt _ (by decide)), Nat.pow_succ',
      Nat.mod_mul, List.length_singleton, Nat.pow_one, Nat.add_comm]

theorem isDigit_of_lowDigits {n d : Nat} {c : Char} (hc : c ∈ lowDigits n d) :
    isDigit c = true := by
  induction n generalizing d with
  | zero => cases hc
  | succ n ih =>
    rcases List.mem_append.1 hc with hc | hc
    · exact ih hc
    · obtain rfl := List.mem_singleton.1 hc
      exact isDigit_digitChar (Nat.mod_lt _ (by decide))

theorem dropTrailingZeros_append (ds : List Char) :
    ∃ n, ds = dropTrailingZeros ds ++ List.replicate n '0' := by
  have hzeros : (ds.reverse.takeWhile (· == '0')).reverse =
      List.replicate (ds.reverse.takeWhile (· == '0')).length '0' := by
    refine List.eq_replicate_iff.2 ⟨List.length_reverse, fun c hc => ?_⟩
    have hzero := Lexeme.mem_takeWhile (List.mem_reverse.1 hc)
    exact beq_iff_eq.1 hzero
  refine ⟨(ds.reverse.takeWhile (· == '0')).length, ?_⟩
  rw [← hzeros, dropTrailingZeros, ← List.reverse_append, List.takeWhile_append_dropWhile,
    List.reverse_reverse]

theorem ne_point {c : Char} (h : isDigit c = true) : (c != '.') = true :=
  bne_iff_ne.2 (by rintro rfl; cases h)

theorem value_whole {cs : List Char} (h : ∀ c ∈ cs, isDigit c = true) : value cs = natOf cs := by
  have hpoint : ∀ c ∈ cs, (c != '.') = true := fun c hc => ne_point (h c hc)
  rw [value, ← List.append_nil cs, List.takeWhile_append_of_pos hpoint,
    List.dropWhile_append_of_pos hpoint]
  simp

theorem value_point {whole : List Char} (h : ∀ c ∈ whole, isDigit c = true) (fraction : List Char) :
    value (whole ++ '.' :: fraction) = natOf (whole ++ fraction) / 10 ^ fraction.length := by
  have hpoint : ∀ c ∈ whole, (c != '.') = true := fun c hc => ne_point (h c hc)
  rw [value, Lexeme.takeWhile_append_cons hpoint rfl, Lexeme.dropWhile_append_cons hpoint rfl]
  rfl

namespace Scaled

/-- The number itself. -/
def value (d : Scaled) : ℚ := d.digits * 10 ^ d.exponent

theorem positional_whole {d : Scaled} (h : 0 ≤ d.exponent) :
    d.positional = Nat.toDigits 10 (d.digits * 10 ^ d.exponent.toNat) := if_pos h

/-- The digits behind the point are those that are left without the zeros at the end. -/
theorem positional_point {d : Scaled} {places : Nat} (h : d.exponent = -(places : ℤ))
    (hpos : 0 < places) : ∃ fraction zeros, fraction.length + zeros = places ∧
      lowDigits places (d.digits % 10 ^ places) = fraction ++ List.replicate zeros '0' ∧
      d.positional = if fraction.isEmpty then Nat.toDigits 10 (d.digits / 10 ^ places)
        else Nat.toDigits 10 (d.digits / 10 ^ places) ++ '.' :: fraction := by
  obtain ⟨zeros, hzeros⟩ := dropTrailingZeros_append (lowDigits places (d.digits % 10 ^ places))
  have hlength := congrArg List.length hzeros
  rw [length_lowDigits, List.length_append, List.length_replicate] at hlength
  refine ⟨_, zeros, hlength.symm, hzeros, ?_⟩
  have hplaces : (-d.exponent).toNat = places := by omega
  rw [positional, if_neg (by omega), hplaces]
  rfl

/-- With the zeros behind them the digits before and behind the point are all there are. -/
theorem natOf_positional {digits places zeros : Nat} {fraction : List Char}
    (hlength : fraction.length + zeros = places)
    (hlow : lowDigits places (digits % 10 ^ places) = fraction ++ List.replicate zeros '0') :
    natOf (Nat.toDigits 10 (digits / 10 ^ places) ++ fraction) * 10 ^ zeros = digits := by
  have hnat := congrArg natOf hlow
  rw [natOf_lowDigits, Nat.mod_mod, natOf_append, natOf_zeros, List.length_replicate] at hnat
  calc natOf (Nat.toDigits 10 (digits / 10 ^ places) ++ fraction) * 10 ^ zeros
      = 10 ^ (fraction.length + zeros) * (digits / 10 ^ places) +
          (10 ^ zeros * natOf fraction + 0) := by
        rw [natOf_append, natOf_toDigits, Nat.pow_add]
        ring
    _ = digits := by rw [← hnat, hlength, Nat.div_add_mod]

theorem value_positional (d : Scaled) : Decimal.value d.positional = d.value := by
  by_cases h : 0 ≤ d.exponent
  · rw [positional_whole h, value_whole fun _ => isDigit_of_toDigits, natOf_toDigits, value]
    obtain ⟨k, hk⟩ := Int.eq_ofNat_of_zero_le h
    rw [hk, Int.toNat_natCast, zpow_natCast]
    push_cast
    rfl
  · obtain ⟨places, hplaces⟩ := Int.eq_ofNat_of_zero_le (show 0 ≤ -d.exponent by omega)
    have hexponent : d.exponent = -(places : ℤ) := by omega
    obtain ⟨fraction, zeros, hlength, hlow, htext⟩ := positional_point hexponent (by omega)
    have hdigits : ∀ c ∈ Nat.toDigits 10 (d.digits / 10 ^ places), isDigit c = true :=
      fun _ => isDigit_of_toDigits
    have hvalue : Decimal.value d.positional =
        natOf (Nat.toDigits 10 (d.digits / 10 ^ places) ++ fraction) / 10 ^ fraction.length := by
      rw [htext]
      split
      next hempty =>
        rw [List.isEmpty_iff.1 hempty, value_whole hdigits]
        simp
      next => exact value_point hdigits fraction
    have hall := natOf_positional hlength hlow
    generalize natOf (Nat.toDigits 10 (d.digits / 10 ^ places) ++ fraction) = n at hvalue hall
    rw [hvalue, value, hexponent, zpow_neg, zpow_natCast, ← hall, ← hlength]
    push_cast
    field_simp
    ring

/-- What is printed is a number of the lexical grammar: digits, or digits on both sides of a point. -/
theorem matches_positional (d : Scaled) : Lexeme.number.Matches d.positional := by
  have hwhole (n : Nat) : Lexeme.Digits (Nat.toDigits 10 n) :=
    ⟨Nat.toDigits_ne_nil, fun _ => isDigit_of_toDigits⟩
  by_cases h : 0 ≤ d.exponent
  · rw [positional_whole h]
    exact .inl (hwhole _)
  · obtain ⟨places, hplaces⟩ := Int.eq_ofNat_of_zero_le (show 0 ≤ -d.exponent by omega)
    have hexponent : d.exponent = -(places : ℤ) := by omega
    obtain ⟨fraction, zeros, -, hlow, htext⟩ := positional_point hexponent (by omega)
    rw [htext]
    split
    next => exact .inl (hwhole _)
    next hsome =>
      refine .inr ⟨_, fraction, rfl, hwhole _, ?_, fun c hc => ?_⟩
      · rintro rfl
        exact hsome rfl
      · exact isDigit_of_lowDigits (hlow ▸ List.mem_append_left _ hc)

end Scaled

end Tarn.Decimal
