import Mathlib.Algebra.Group.Nat.Defs
import Scriptlet.Binary64

/-!
# Numbers beyond the largest double

The largest double is `2 ^ 1024 - 2 ^ 971`, and the next one would be `2 ^ 1024`.  Half-way between
them a fraction is rounded upwards, because the significand of the largest double is odd, and what
is rounded upwards there is infinite.

* `lt_roundHalfEven_iff`: at an odd number, rounding goes upwards from the half on.
* `nearestBits_eq_infinityBits_iff`: a fraction rounds to infinity exactly from
  `2 ^ 1024 - 2 ^ 970` on.
* `ofInt?_eq_none_iff`: so these are the integers that no double stands for.
-/

namespace Scriptlet.Binary64

/-! ## Rounding -/

section Rounding

variable {denominator n : Nat}

/-- Rounding gives one of the two neighbours. -/
theorem roundHalfEven_bounds (numerator denominator : Nat) :
    numerator / denominator ≤ roundHalfEven numerator denominator ∧
      roundHalfEven numerator denominator ≤ numerator / denominator + 1 := by
  unfold roundHalfEven
  dsimp only
  split <;> omega

/-- An odd number is left behind from the half on. -/
theorem lt_roundHalfEven_iff (numerator : Nat) (hpos : 0 < denominator) (hodd : n % 2 = 1) :
    n < roundHalfEven numerator denominator ↔ (2 * n + 1) * denominator ≤ 2 * numerator := by
  have hsplit := Nat.div_add_mod numerator denominator
  have hmod := Nat.mod_lt numerator hpos
  unfold roundHalfEven
  dsimp only
  generalize numerator / denominator = quotient at *
  generalize numerator % denominator = rest at *
  rw [Nat.add_mul, Nat.one_mul, Nat.mul_assoc, Nat.mul_comm n]
  rcases Nat.lt_trichotomy quotient n with hlt | rfl | hlt
  · have hstep : denominator * (quotient + 1) ≤ denominator * n := Nat.mul_le_mul_left _ hlt
    rw [Nat.mul_add, Nat.mul_one] at hstep
    constructor
    · intro h
      split at h <;> omega
    · intro h
      omega
  · constructor
    · intro h
      split at h <;> omega
    · intro h
      rw [if_pos (by omega)]
      exact Nat.lt_succ_self _
  · have hstep : denominator * (n + 1) ≤ denominator * quotient := Nat.mul_le_mul_left _ hlt
    rw [Nat.mul_add, Nat.mul_one] at hstep
    constructor
    · intro _
      omega
    · intro _
      split <;> omega

end Rounding

/-! ## Overflow -/

/-- The steps of a fraction are chosen so that its quotient by them has 53 bits at most, and 53
bits unless there are no steps. -/
theorem significand_bounds (scaled : Nat) {denominator : Nat} (hpos : 0 < denominator) :
    scaled < 2 ^ 53 * (denominator * 2 ^ ((scaled / denominator).log2 - 52)) ∧
      ((scaled / denominator).log2 - 52 ≠ 0 →
        2 ^ 52 * (denominator * 2 ^ ((scaled / denominator).log2 - 52)) ≤ scaled) := by
  have hself : scaled / denominator < 2 ^ ((scaled / denominator).log2 + 1) := Nat.lt_log2_self
  have hlower : scaled / denominator ≠ 0 → 2 ^ (scaled / denominator).log2 ≤ scaled / denominator :=
    Nat.log2_self_le
  generalize hlog : (scaled / denominator).log2 = log at *
  constructor
  · have hpow : 2 ^ (log + 1) ≤ 2 ^ (53 + (log - 52)) :=
      Nat.pow_le_pow_right (by decide) (by omega)
    have hlt := (Nat.div_lt_iff_lt_mul hpos).mp (Nat.lt_of_lt_of_le hself hpow)
    rwa [Nat.pow_add, Nat.mul_assoc, Nat.mul_comm _ denominator] at hlt
  · intro hsteps
    have hquotient : scaled / denominator ≠ 0 := by
      rintro hzero
      rw [hzero] at hlog
      exact hsteps (by rw [← hlog]; rfl)
    have hpow : 2 ^ (52 + (log - 52)) ≤ 2 ^ log := Nat.pow_le_pow_right (by decide) (by omega)
    have hle := (Nat.le_div_iff_mul_le hpos).mp (Nat.le_trans hpow (hlower hquotient))
    rwa [Nat.pow_add, Nat.mul_assoc, Nat.mul_comm _ denominator] at hle

/-- **A fraction rounds to infinity exactly from the half-way point beyond the largest double
on.** -/
theorem nearestBits_eq_infinityBits_iff {numerator denominator : Nat} (hpos : 0 < denominator) :
    nearestBits numerator denominator = infinityBits ↔
      (2 ^ 54 - 1) * (denominator * 2 ^ 970) ≤ numerator := by
  -- the fraction and the half-way point are compared in units of `2 ^ (-1074)`
  have hunits : ∀ p q : Nat, (2 ^ 54 - 1) * (denominator * 2 ^ p) * 2 ^ q =
      (2 ^ 54 - 1) * (denominator * 2 ^ (p + q)) := by
    intro p q
    rw [Nat.mul_assoc, Nat.mul_assoc, Nat.pow_add]
  have hscaled : (2 ^ 54 - 1) * (denominator * 2 ^ 970) ≤ numerator ↔
      (2 ^ 54 - 1) * (denominator * 2 ^ (970 + 1074)) ≤ numerator <<< 1074 := by
    rw [Nat.shiftLeft_eq, ← hunits 970 1074, Nat.mul_le_mul_right_iff (Nat.two_pow_pos 1074)]
  obtain ⟨hupper, hlower⟩ := significand_bounds (numerator <<< 1074) hpos
  rw [hscaled]
  unfold nearestBits Parts.bits
  dsimp only
  generalize numerator <<< 1074 = scaled at *
  generalize (scaled / denominator).log2 - 52 = steps at *
  rw [Nat.shiftLeft_eq denominator, Nat.shiftLeft_eq steps]
  have hunit : 0 < denominator * 2 ^ steps := Nat.mul_pos hpos (Nat.two_pow_pos steps)
  obtain ⟨hquotient, hnext⟩ := roundHalfEven_bounds scaled (denominator * 2 ^ steps)
  have hfloor : scaled / (denominator * 2 ^ steps) < 2 ^ 53 :=
    (Nat.div_lt_iff_lt_mul hunit).mpr hupper
  have hmin : ∀ bits, min infinityBits bits = infinityBits ↔ 2047 * 2 ^ 52 ≤ bits := by
    intro bits
    have hvalue : infinityBits = 2047 * 2 ^ 52 := Nat.shiftLeft_eq ..
    omega
  have hmono : ∀ p q : Nat, p ≤ q → denominator * 2 ^ p ≤ denominator * 2 ^ q :=
    fun p q h => Nat.mul_le_mul_left _ (Nat.pow_le_pow_right (by decide) h)
  have hsucc : ∀ p : Nat, denominator * 2 ^ (p + 1) = 2 * (denominator * 2 ^ p) := by
    intro p
    rw [Nat.pow_succ, ← Nat.mul_assoc, Nat.mul_comm]
  rw [hmin]
  -- the place of the half-way point is named, or else it is computed again and again
  generalize htop : 970 + 1074 = top
  rcases Nat.lt_trichotomy steps (top + 1) with hsteps | rfl | hsteps
  · have hsmall := hmono steps top (by omega)
    constructor <;> intro h <;> omega
  · have hround := lt_roundHalfEven_iff scaled (n := 2 ^ 53 - 1) hunit (by decide)
    rw [hsucc top] at hround ⊢
    omega
  · have hlarge := hmono (top + 1 + 1) steps hsteps
    rw [hsucc (top + 1), hsucc top] at hlarge
    have hle := hlower (by omega)
    have hfull : 2 ^ 52 ≤ scaled / (denominator * 2 ^ steps) :=
      (Nat.le_div_iff_mul_le hunit).mpr hle
    constructor <;> intro _ <;> omega

/-- **The integers that no double stands for.** -/
theorem ofInt?_eq_none_iff {n : Int} : ofInt? n = none ↔ 2 ^ 1024 - 2 ^ 970 ≤ n.natAbs := by
  have hthreshold : ∀ p q : Nat, p = 54 + q → 2 ^ p - 2 ^ q = (2 ^ 54 - 1) * (1 * 2 ^ q) := by
    rintro p q rfl
    rw [Nat.one_mul, Nat.sub_mul, Nat.one_mul, Nat.pow_add]
  rw [hthreshold 1024 970 rfl, ← nearestBits_eq_infinityBits_iff Nat.one_pos]
  unfold ofInt?
  split
  · rename_i h
    exact ⟨fun _ => h, fun _ => rfl⟩
  · rename_i h
    split <;> exact ⟨fun hnone => (nomatch hnone), fun hlarge => absurd hlarge h⟩

end Scriptlet.Binary64
