import Mathlib.Tactic
import Tarn.Proofs.Printing.Positional

/-! The decimals that round to a double-precision number. No decimal rounds to two of them, and the
one that is printed rounds to the number it is printed for, so that the text tells the number. -/
namespace Tarn

/-- A number begins with a digit. -/
theorem Lexeme.exists_digit {text : List Char} (h : number.Matches text) :
    ∃ c cs, text = c :: cs ∧ isDigit c = true := by
  obtain h | ⟨whole, fraction, rfl, h, -⟩ := h
  · obtain ⟨c, cs, rfl⟩ := List.exists_cons_of_ne_nil h.1
    exact ⟨c, cs, rfl, h.2 c List.mem_cons_self⟩
  · obtain ⟨c, cs, rfl⟩ := List.exists_cons_of_ne_nil h.1
    exact ⟨c, cs ++ '.' :: fraction, rfl, h.2 c List.mem_cons_self⟩

namespace Decimal

/-- A power is a whole number in the measure of the opposite one. -/
theorem zpow_mul_toNat {b : ℚ} (hb : b ≠ 0) (k : ℤ) : b ^ k * b ^ (-k).toNat = b ^ k.toNat := by
  rw [← zpow_natCast, ← zpow_natCast, ← zpow_add₀ hb]
  congr 1
  omega

namespace Binary

variable {x y : Binary} {v : ℚ}

/-- A quarter of a unit of the mantissa. -/
def quantum (x : Binary) : ℚ := 2 ^ (x.exponent - 2)

/-- Halfway to the next number below. -/
def low (x : Binary) : ℚ := (4 * x.mantissa - x.below : ℕ) * x.quantum

/-- Halfway to the next number above. -/
def high (x : Binary) : ℚ := (4 * x.mantissa + 2 : ℕ) * x.quantum

theorem quantum_pos (x : Binary) : 0 < x.quantum := zpow_pos (by norm_num) _

theorem below_le (x : Binary) : 1 ≤ x.below ∧ x.below ≤ 2 := by
  unfold below
  split <;> decide

/-- The number lies closest to `x`. A tie belongs to `x` if its mantissa is even. -/
structure Rounds (x : Binary) (v : ℚ) : Prop where
  low_le : x.low ≤ v
  le_high : v ≤ x.high
  strictly : x.mantissa % 2 = 1 → x.low < v ∧ v < x.high

/-- In a common measure the decimals of a grid and the bounds of the number are integers. -/
theorem exists_measure (x : Binary) (e : Int) : ∃ measure : ℚ, 0 < measure ∧
    (∀ digits : ℕ, Scaled.value ⟨digits, e⟩ * measure = (digits * x.step e : ℕ)) ∧
    ∀ n : ℕ, n * x.quantum * measure = (n * x.quarter e : ℕ) := by
  have hneg : -(x.exponent - 2) = 2 - x.exponent := by omega
  have htwo := zpow_mul_toNat (b := 2) (by norm_num) (x.exponent - 2)
  have hten := zpow_mul_toNat (b := 10) (by norm_num) e
  rw [hneg] at htwo
  refine ⟨2 ^ (2 - x.exponent).toNat * 10 ^ (-e).toNat, by positivity, fun digits => ?_,
    fun n => ?_⟩
  · rw [Scaled.value, step, Nat.pow_eq, Nat.pow_eq]
    push_cast
    rw [← hten]
    ring
  · rw [quantum, quarter, Nat.pow_eq, Nat.pow_eq]
    push_cast
    rw [← htwo]
    ring

theorem value_le_iff (x : Binary) (e : Int) (digits n : Nat) :
    Scaled.value ⟨digits, e⟩ ≤ n * x.quantum ↔ digits * x.step e ≤ n * x.quarter e := by
  obtain ⟨measure, hpos, hvalue, hbound⟩ := x.exists_measure e
  rw [← mul_le_mul_iff_of_pos_right hpos, hvalue, hbound, Nat.cast_le]

theorem le_value_iff (x : Binary) (e : Int) (digits n : Nat) :
    n * x.quantum ≤ Scaled.value ⟨digits, e⟩ ↔ n * x.quarter e ≤ digits * x.step e := by
  obtain ⟨measure, hpos, hvalue, hbound⟩ := x.exists_measure e
  rw [← mul_le_mul_iff_of_pos_right hpos, hvalue, hbound, Nat.cast_le]

theorem holds_iff (x : Binary) (e : Int) (digits : Nat) :
    x.holds e digits = true ↔ x.Rounds (Scaled.value ⟨digits, e⟩) := by
  have hlow := x.le_value_iff e digits (4 * x.mantissa - x.below)
  have hhigh := x.value_le_iff e digits (4 * x.mantissa + 2)
  have hlow' := x.value_le_iff e digits (4 * x.mantissa - x.below)
  have hhigh' := x.le_value_iff e digits (4 * x.mantissa + 2)
  rw [← not_lt, ← not_lt, not_iff_not] at hlow' hhigh'
  unfold holds keepsTies
  split
  next heven =>
    rw [Bool.and_eq_true, decide_eq_true_iff, decide_eq_true_iff, ← hlow, ← hhigh]
    have hodd : x.mantissa % 2 ≠ 1 := by
      have := of_decide_eq_true heven
      omega
    exact ⟨fun h => ⟨h.1, h.2, fun h => absurd h hodd⟩, fun h => ⟨h.low_le, h.le_high⟩⟩
  next hodd =>
    rw [Bool.and_eq_true, decide_eq_true_iff, decide_eq_true_iff, ← hlow', ← hhigh']
    have hodd : x.mantissa % 2 = 1 := by
      have hne : ¬ x.mantissa % 2 = 0 := fun h => hodd (decide_eq_true h)
      omega
    exact ⟨fun h => ⟨h.1.le, h.2.le, fun _ => h⟩, fun h => h.strictly hodd⟩

theorem holds_of_nearest? {e : Int} {d : Nat} (h : x.nearest? e = some d) : x.holds e d = true := by
  unfold nearest? at h
  simp only at h
  split at h
  next hd =>
    split at h
    next hnext =>
      obtain rfl := Option.some.inj h
      exact (Bool.and_eq_true_iff.1 hnext).1
    next =>
      obtain rfl := Option.some.inj h
      exact hd
  next =>
    split at h
    next hnext =>
      obtain rfl := Option.some.inj h
      exact hnext
    next => cases h

/-- All digits of a number stand for it. -/
theorem value_exact (x : Binary) : x.exact.value = x.mantissa * 2 ^ x.exponent := by
  unfold exact Scaled.value
  split
  next h =>
    obtain ⟨k, hk⟩ := Int.eq_ofNat_of_zero_le h
    simp [num, hk]
  next h =>
    obtain ⟨k, hk⟩ := Int.eq_ofNat_of_zero_le (show 0 ≤ -x.exponent by omega)
    have hexponent : x.exponent = -(k : ℤ) := by omega
    have hten : (10 : ℚ) ^ k = 2 ^ k * 5 ^ k := by rw [← mul_pow]; norm_num
    rw [hk, hexponent, Int.toNat_natCast, Nat.pow_eq, zpow_neg, zpow_neg, zpow_natCast,
      zpow_natCast, hten]
    push_cast
    field_simp

theorem rounds_exact (h : 0 < x.mantissa) : x.Rounds x.exact.value := by
  have hvalue : x.exact.value = (4 * x.mantissa : ℕ) * x.quantum := by
    rw [value_exact, quantum, zpow_sub₀ (by norm_num)]
    push_cast
    ring
  have hbelow := x.below_le
  have hlow : x.low < x.exact.value := by
    rw [hvalue, low]
    gcongr
    · exact x.quantum_pos
    · omega
  have hhigh : x.exact.value < x.high := by
    rw [hvalue, high]
    gcongr
    · exact x.quantum_pos
    · omega
  exact ⟨hlow.le, hhigh.le, fun _ => ⟨hlow, hhigh⟩⟩

/-- However many grids are tried, what is found rounds to the number. -/
theorem rounds_search (h : 0 < x.mantissa) (fuel : Nat) (e : Int) :
    x.Rounds (x.search fuel e).value := by
  induction fuel generalizing e with
  | zero => exact rounds_exact h
  | succ fuel ih =>
    unfold search
    split
    next d hd => exact (holds_iff x e d).1 (holds_of_nearest? hd)
    next => exact ih (e - 1)

theorem rounds_shortest (h : 0 < x.mantissa) : x.Rounds x.shortest.value := rounds_search h ..

/-- The mantissa has all its bits unless the exponent is as low as can be. -/
structure Canonical (x : Binary) : Prop where
  mantissa_lt : x.mantissa < 2 ^ 53
  least_le : leastExponent ≤ x.exponent
  full : leastExponent < x.exponent → 2 ^ 52 ≤ x.mantissa

/-- If the mantissa has all its bits, then also the way down to the next number does not get low in the
measure of a smaller exponent. -/
theorem Canonical.le_low (hy : y.Canonical) (hleast : leastExponent < y.exponent)
    (hquantum : 2 * x.quantum ≤ y.quantum) : (2 ^ 55 - 2 : ℕ) * x.quantum ≤ y.low := by
  have hfull := hy.full hleast
  have hbelow : 2 ^ 54 - 1 ≤ 4 * y.mantissa - y.below := by
    unfold below
    split
    next => omega
    next hnot =>
      have hne : y.mantissa ≠ 2 ^ 52 := fun heq => hnot ⟨heq, hleast⟩
      omega
  calc ((2 ^ 55 - 2 : ℕ) : ℚ) * x.quantum = (2 ^ 54 - 1 : ℕ) * (2 * x.quantum) := by
        norm_num
        ring
    _ ≤ (4 * y.mantissa - y.below : ℕ) * y.quantum := by
        have := x.quantum_pos
        gcongr

theorem Rounds.exponent_le (hx : x.Canonical) (hy : y.Canonical) (h : x.Rounds v)
    (h' : y.Rounds v) : y.exponent ≤ x.exponent := by
  by_contra hlt
  have hleast : leastExponent < y.exponent := by
    have := hx.least_le
    omega
  have hquantum : 2 * x.quantum ≤ y.quantum := by
    rw [quantum, quantum, ← zpow_one_add₀ (by norm_num)]
    exact zpow_le_zpow_right₀ (by norm_num) (by omega)
  -- Between the two there is no more room than for one point, which is not a tie of `x`.
  have hlow := hy.le_low hleast hquantum
  rcases Nat.mod_two_eq_zero_or_one x.mantissa with heven | hodd
  · have hhigh : x.high < (2 ^ 55 - 2 : ℕ) * x.quantum := by
      rw [high]
      have := hx.mantissa_lt
      gcongr
      · exact x.quantum_pos
      · omega
    exact absurd (h'.low_le.trans h.le_high) (hhigh.trans_le hlow).not_ge
  · have hhigh : x.high ≤ (2 ^ 55 - 2 : ℕ) * x.quantum := by
      rw [high]
      have := hx.mantissa_lt
      have := x.quantum_pos
      gcongr
      omega
    exact absurd (h'.low_le.trans_lt (h.strictly hodd).2) (hhigh.trans hlow).not_gt

theorem Rounds.mantissa_le (he : x.exponent = y.exponent) (h : x.Rounds v) (h' : y.Rounds v) :
    y.mantissa ≤ x.mantissa := by
  by_contra hlt
  have hbelow := y.below_le
  have hquantum : y.quantum = x.quantum := by rw [quantum, quantum, he]
  have hle : x.high ≤ y.low := by
    rw [high, low, hquantum]
    have := x.quantum_pos
    gcongr
    omega
  by_cases hnext : x.mantissa % 2 = 1 ∨ y.mantissa % 2 = 1
  · rcases hnext with hodd | hodd
    · exact absurd (h'.low_le.trans_lt (h.strictly hodd).2) hle.not_gt
    · exact absurd ((h'.strictly hodd).1.trans_le h.le_high) hle.not_gt
  · -- Of two neighbours one has an odd mantissa, and others lie further apart.
    have hapart : x.high < y.low := by
      rw [high, low, hquantum]
      gcongr
      · exact x.quantum_pos
      · omega
    exact absurd (h'.low_le.trans h.le_high) hapart.not_ge

/-- No decimal rounds to two numbers. -/
theorem Rounds.unique (hx : x.Canonical) (hy : y.Canonical) (h : x.Rounds v) (h' : y.Rounds v) :
    x = y := by
  have he := le_antisymm (h'.exponent_le hy hx h) (h.exponent_le hx hy h')
  have hm := le_antisymm (h'.mantissa_le he.symm h) (h.mantissa_le he h')
  obtain ⟨mantissa, exponent⟩ := x
  obtain rfl := he
  obtain rfl := hm
  rfl

theorem value_printed (h : 0 < x.mantissa) : value x.printed = x.shortest.value := by
  rw [printed, if_neg h.ne', Scaled.value_positional]

theorem printed_zero (h : x.mantissa = 0) : x.printed = ['0'] := if_pos h

theorem low_pos (h : 0 < x.mantissa) : 0 < x.low := by
  have hbelow := x.below_le
  exact mul_pos (Nat.cast_pos.2 (by omega)) x.quantum_pos

theorem value_printed_pos (h : 0 < x.mantissa) : 0 < value x.printed := by
  rw [value_printed h]
  exact (low_pos h).trans_le (rounds_shortest h).low_le

theorem value_zero : value ['0'] = 0 := by
  rw [value_whole (List.forall_mem_singleton.2 rfl)]
  exact Nat.cast_eq_zero.2 rfl

theorem printed_injective (hx : x.Canonical) (hy : y.Canonical) (h : x.printed = y.printed) :
    x = y := by
  rcases Nat.eq_zero_or_pos x.mantissa with hx₀ | hx₀ <;>
    rcases Nat.eq_zero_or_pos y.mantissa with hy₀ | hy₀
  · have hexponent {z : Binary} (hz : z.Canonical) (hz₀ : z.mantissa = 0) :
        z.exponent = leastExponent := by
      refine le_antisymm (not_lt.1 fun hlt => ?_) hz.least_le
      have := hz.full hlt
      omega
    obtain ⟨mantissa, exponent⟩ := x
    obtain rfl := hx₀
    obtain rfl := hexponent hx rfl
    obtain ⟨mantissa, exponent⟩ := y
    obtain rfl := hy₀
    obtain rfl := hexponent hy rfl
    rfl
  · have hpos := value_printed_pos hy₀
    rw [← h, printed_zero hx₀, value_zero] at hpos
    exact absurd hpos (lt_irrefl _)
  · have hpos := value_printed_pos hx₀
    rw [h, printed_zero hy₀, value_zero] at hpos
    exact absurd hpos (lt_irrefl _)
  · have hrounds := rounds_shortest hy₀
    rw [← value_printed hy₀, ← h, value_printed hx₀] at hrounds
    exact (rounds_shortest hx₀).unique hx hy hrounds

theorem matches_printed (x : Binary) : Lexeme.number.Matches x.printed := by
  unfold printed
  split
  · exact .inl ⟨List.cons_ne_nil _ _, List.forall_mem_singleton.2 rfl⟩
  · exact x.shortest.matches_positional

end Binary

namespace Double

variable {bits bits' : UInt64} {d : Double}

/-- Neither infinite nor no number at all. -/
def IsFinite (d : Double) : Prop := ∃ negative x, d = .finite negative x

instance : DecidablePred IsFinite
  | .finite negative x => .isTrue ⟨negative, x, rfl⟩
  | .nan | .infinite _ => .isFalse nofun

theorem sign_add (bits : UInt64) : bits.toNat =
    2 ^ 63 * (decide (bits.toNat / 2 ^ 63 = 1)).toNat + bits.toNat % 2 ^ 63 := by
  have hsize : bits.toNat < 2 ^ 64 := bits.toNat_lt
  by_cases hone : bits.toNat / 2 ^ 63 = 1
  · rw [decide_eq_true hone, Bool.toNat_true]
    omega
  · rw [decide_eq_false hone, Bool.toNat_false]
    omega

/-- The sign, the exponent and the fraction lie one behind the other. -/
theorem fields_of_finite {negative : Bool} {x : Binary} (h : ofBits bits = .finite negative x) :
    x.Canonical ∧ bits.toNat = 2 ^ 63 * negative.toNat +
      (2 ^ 52 * (x.exponent - leastExponent).toNat + x.mantissa) := by
  have hsign := sign_add bits
  unfold ofBits at h
  simp only [Nat.pow_eq] at h
  split at h
  next => split at h <;> cases h
  next hscale =>
    split at h
    next hzero =>
      obtain ⟨rfl, rfl⟩ := finite.inj h
      refine ⟨⟨?_, le_refl _, fun hlt => absurd hlt (lt_irrefl _)⟩, ?_⟩
      · dsimp only
        omega
      · rw [sub_self]
        dsimp only
        omega
    next hnonzero =>
      obtain ⟨rfl, rfl⟩ := finite.inj h
      refine ⟨⟨?_, ?_, fun _ => Nat.le_add_right _ _⟩, ?_⟩
      · dsimp only
        omega
      · dsimp only
        omega
      · rw [add_sub_cancel_left, Int.toNat_natCast]
        dsimp only
        omega

theorem printed_injective {negative negative' : Bool} {x y : Binary} (hx : x.Canonical)
    (hy : y.Canonical) (h : (finite negative x).printed = (finite negative' y).printed) :
    negative = negative' ∧ x = y := by
  -- A number begins with a digit and not with a sign.
  have hsign {z : Binary} {cs : List Char} : '-' :: cs ≠ z.printed := by
    intro heq
    obtain ⟨c, cs', hcs, hc⟩ := Lexeme.exists_digit z.matches_printed
    rw [← heq] at hcs
    obtain rfl := (List.cons.inj hcs).1
    cases hc
  cases negative <;> cases negative'
  · exact ⟨rfl, Binary.printed_injective hx hy h⟩
  · exact absurd h.symm hsign
  · exact absurd h hsign
  · exact ⟨rfl, Binary.printed_injective hx hy (List.cons.inj h).2⟩

end Double

/-- The text of a finite number tells its bits. -/
theorem print_injective {bits bits' : UInt64} (hfinite : (Double.ofBits bits).IsFinite)
    (hfinite' : (Double.ofBits bits').IsFinite) (h : print bits = print bits') : bits = bits' := by
  obtain ⟨negative, x, hx⟩ := hfinite
  obtain ⟨negative', y, hy⟩ := hfinite'
  obtain ⟨hcanonical, hbits⟩ := Double.fields_of_finite hx
  obtain ⟨hcanonical', hbits'⟩ := Double.fields_of_finite hy
  rw [print, print, hx, hy] at h
  obtain ⟨rfl, rfl⟩ := Double.printed_injective hcanonical hcanonical' (String.ofList_injective h)
  exact UInt64.toNat_inj.1 (hbits.trans hbits'.symm)

end Decimal

end Tarn
