import Mathlib.Data.Nat.Digits.Defs
import Scriptlet.Decimal
import Scriptlet.Proofs.Binary64.Nearest

/-!
# Decimals as doubles

A decimal becomes the double that its value rounds to.  Its length tells between which powers of ten
it lies, so a decimal that is settled by its length is past all doubles, or nearer to zero than to
any other.

* `Decimal.value`: the rational that a decimal stands for.
* `Decimal.zpow_le_value`, `Decimal.value_lt_zpow`: the powers of ten that it lies between.
* `Decimal.rounds_toFloat`: **decimals become the nearest doubles.**
-/

namespace Scriptlet.Decimal

open Binary64

/-- The number that a decimal stands for. -/
def value (d : Decimal) : ℚ := d.digits * (10 : ℚ) ^ d.exponent

variable {d : Decimal}

/-- The leading digit is not zero. -/
theorem pow_le_digits {n : ℕ} (h : n ≠ 0) : 10 ^ (length n - 1) ≤ n := by
  have hpos : 0 < length n := Nat.length_toDigits_pos
  rcases Nat.eq_zero_or_pos (length n - 1) with hone | hmore
  · rw [hone]
    exact Nat.one_le_iff_ne_zero.mpr h
  · by_contra hlt
    have hle := (Nat.length_toDigits_le_iff (b := 10) (by decide) hmore).mpr (Nat.not_le.mp hlt)
    exact absurd hle (Nat.not_le.mpr (Nat.sub_lt hpos Nat.one_pos))

theorem digits_lt_pow (n : ℕ) : n < 10 ^ length n :=
  (Nat.length_toDigits_le_iff (by decide) Nat.length_toDigits_pos).mp (le_refl _)

theorem zpow_le_value (h : d.digits ≠ 0) :
    (10 : ℚ) ^ ((length d.digits : ℤ) + d.exponent - 1) ≤ d.value := by
  have hpos : 0 < length d.digits := Nat.length_toDigits_pos
  have hcast : (10 : ℚ) ^ (length d.digits - 1) ≤ d.digits := by exact_mod_cast pow_le_digits h
  have hsplit :
      (length d.digits : ℤ) + d.exponent - 1 = (length d.digits - 1 : ℕ) + d.exponent := by
    omega
  rw [hsplit, zpow_add₀ (by norm_num), zpow_natCast, value]
  exact mul_le_mul_of_nonneg_right hcast (by positivity)

theorem value_lt_zpow (d : Decimal) :
    d.value < (10 : ℚ) ^ ((length d.digits : ℤ) + d.exponent) := by
  have hcast : (d.digits : ℚ) < 10 ^ length d.digits := by exact_mod_cast digits_lt_pow d.digits
  rw [zpow_add₀ (by norm_num), zpow_natCast, value]
  exact mul_lt_mul_of_pos_right hcast (by positivity)

/-- A decimal that reaches beyond `10 ^ 310` is past all doubles. -/
theorem isNearest_infinityBits_of_lt (hdigits : d.digits ≠ 0)
    (h : 310 < (length d.digits : ℤ) + d.exponent) : IsNearest d.value infinityBits := by
  have hpow : ((2 ^ 1024 : ℕ) : ℚ) ≤ (10 ^ 310 : ℕ) := Nat.cast_le.mpr (by decide +kernel)
  rw [Nat.cast_pow, Nat.cast_pow, Nat.cast_ofNat, Nat.cast_ofNat, ← zpow_natCast 10] at hpow
  apply isNearest_infinityBits
  calc (2 : ℚ) ^ 1024 ≤ 10 ^ ((310 : ℕ) : ℤ) := hpow
    _ ≤ 10 ^ ((length d.digits : ℤ) + d.exponent - 1) :=
      zpow_le_zpow_right₀ (by norm_num) (by omega)
    _ ≤ d.value := zpow_le_value hdigits

/-- A decimal that ends below `10 ^ (-330)` is not half of the least double. -/
theorem isNearest_zero_of_lt (h : (length d.digits : ℤ) + d.exponent < -330) :
    IsNearest d.value 0 := by
  have hnonneg : 0 ≤ d.value := by
    unfold value
    positivity
  have hpow : ((2 ^ 1075 : ℕ) : ℚ) ≤ (10 ^ 331 : ℕ) := Nat.cast_le.mpr (by decide +kernel)
  rw [Nat.cast_pow, Nat.cast_pow, Nat.cast_ofNat, Nat.cast_ofNat] at hpow
  have hvalue : d.value ≤ 1 / 2 ^ 1075 :=
    calc d.value ≤ 10 ^ ((length d.digits : ℤ) + d.exponent) := (value_lt_zpow d).le
      _ ≤ 10 ^ (-((331 : ℕ) : ℤ)) := zpow_le_zpow_right₀ (by norm_num) (by omega)
      _ = 1 / 10 ^ 331 := by rw [zpow_neg, zpow_natCast, one_div]
      _ ≤ 1 / 2 ^ 1075 := one_div_le_one_div_of_le (by positivity) hpow
  have hhalf : (1 : ℚ) / 2 ^ 1075 + 1 / 2 ^ 1075 = 1 / 2 ^ 1074 := by
    rw [← add_div, one_add_one_eq_two, pow_succ, div_mul_cancel_right₀ two_ne_zero, one_div]
  apply isNearest_zero hnonneg
  rw [magnitude_one, ← hhalf]
  exact add_le_add hvalue hvalue

/-- The value as the fraction that is rounded, if the exponent makes the digits worth more. -/
theorem value_of_nonneg (h : 0 ≤ d.exponent) :
    d.value = (d.digits * Nat.pow 10 d.exponent.toNat : ℕ) / (1 : ℕ) := by
  have hpow : (10 : ℚ) ^ d.exponent.toNat = 10 ^ d.exponent := by
    rw [← zpow_natCast, Int.toNat_of_nonneg h]
  rw [Nat.cast_one, div_one, Nat.cast_mul, Nat.pow_eq, Nat.cast_pow, Nat.cast_ofNat, hpow, value]

theorem value_of_nonpos (h : d.exponent ≤ 0) :
    d.value = d.digits / (Nat.pow 10 (-d.exponent).toNat : ℕ) := by
  have hpow : (10 : ℚ) ^ (-d.exponent).toNat = 10 ^ (-d.exponent) := by
    rw [← zpow_natCast, Int.toNat_of_nonneg (by omega)]
  rw [Nat.pow_eq, Nat.cast_pow, Nat.cast_ofNat, hpow, zpow_neg, div_inv_eq_mul, value]

/-- **Decimals become the nearest doubles.** -/
theorem rounds_toFloat (d : Decimal) : Rounds false d.value d.toFloat := by
  unfold toFloat
  split
  · rename_i hzero
    have hvalue : d.value = (0 : ℕ) / (1 : ℕ) := by
      rw [value, hzero, Nat.cast_zero, zero_mul, zero_div]
    rw [hvalue]
    exact rounds_nearest 0 Nat.one_pos
  · rename_i hdigits
    dsimp only
    split
    · rename_i htop
      exact (isNearest_infinityBits_of_lt hdigits htop).rounds
    · split
      · rename_i htop
        exact (isNearest_zero_of_lt htop).rounds
      · split
        · rename_i hexponent
          rw [value_of_nonneg hexponent]
          exact rounds_nearest _ Nat.one_pos
        · rename_i hexponent
          rw [value_of_nonpos (Int.not_le.mp hexponent).le]
          exact rounds_nearest _ (Nat.pow_pos (by decide))

end Scriptlet.Decimal
