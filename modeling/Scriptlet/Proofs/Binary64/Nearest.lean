import Mathlib.Algebra.Order.Archimedean.Basic
import Mathlib.Data.Rat.Cast.Order
import Mathlib.Tactic.FieldSimp
import Mathlib.Tactic.Linarith
import Mathlib.Tactic.Positivity
import Mathlib.Tactic.Ring
import Scriptlet.Proofs.Binary64.Integers
import Scriptlet.Proofs.Binary64.Overflow

/-!
# Rounding to the nearest double

A double's magnitude is a rational, and it grows with its bits.  So the doubles that could be nearest
to a rational are the two with neighbouring bits that it lies between, and `nearestBits` decides
between them by what the division leaves over.  Infinity counts as `2 ^ 1024`, which would be the
next double: a rational rounds to it just if that is the nearest, and all larger ones do too.

* `magnitude`: the rational that magnitude bits stand for; `magnitude_eq_of_unpack` says that it is
  what the core library takes the double for.
* `IsNearest`: no double is nearer, and on a tie the bits are even.
* `IsNearest.unique`: at most one double is the nearest.
* `isNearest_nearestBits`: **rounding gives the nearest double.**
* `Rounds`: the same with a sign, for doubles instead of bits.
-/

namespace Scriptlet.Binary64

open Float.Model (UnpackedFloat)
open Float.Model.UnpackedFloat (unpack pack)

/-! ## Magnitudes -/

theorem Parts.bits_succ (significand steps : ℕ) :
    Parts.bits ⟨significand + 1, steps⟩ = Parts.bits ⟨significand, steps⟩ + 1 := by
  rw [Parts.bits, Parts.bits, Nat.add_assoc]

/-- Bits are even if the significand is. -/
theorem Parts.bits_mod_two (significand steps : ℕ) :
    Parts.bits ⟨significand, steps⟩ % 2 = significand % 2 := by
  unfold Parts.bits
  dsimp only
  rw [Nat.shiftLeft_eq]
  omega

/-- The magnitude with the given bits, in units of `2 ^ (-1074)`. -/
def units (bits : ℕ) : ℕ := (Parts.ofBits bits).significand * 2 ^ (Parts.ofBits bits).steps

/-- The magnitude with the given bits.  Those of infinity stand for `2 ^ 1024`. -/
def magnitude (bits : ℕ) : ℚ := units bits / 2 ^ 1074

/-- The magnitude of the bits that parts have.  The significand may have one more than its bits, as
it has after rounding. -/
theorem units_bits {p : Parts} (hle : p.significand ≤ 2 ^ 53)
    (hnormal : p.steps ≠ 0 → 2 ^ 52 ≤ p.significand) :
    units p.bits = p.significand * 2 ^ p.steps := by
  obtain ⟨significand, steps⟩ := p
  dsimp only at *
  unfold units Parts.ofBits Parts.bits
  simp only [Nat.shiftLeft_eq, Nat.shiftRight_eq_div_pow]
  rcases Nat.lt_or_ge significand (2 ^ 52) with hsmall | hlarge
  · obtain rfl : steps = 0 := by
      by_contra h
      exact absurd (hnormal h) (Nat.not_le.mpr hsmall)
    have hsteps : (0 * 2 ^ 52 + significand) / 2 ^ 52 - 1 = 0 := by omega
    rw [hsteps, Nat.zero_mul, Nat.zero_add, Nat.sub_zero]
  · rcases Nat.lt_or_ge significand (2 ^ 53) with hbits | hmore
    · have hsteps : (steps * 2 ^ 52 + significand) / 2 ^ 52 - 1 = steps := by omega
      rw [hsteps, Nat.add_sub_cancel_left]
    · obtain rfl : significand = 2 ^ 53 := Nat.le_antisymm hle hmore
      have hsteps : (steps * 2 ^ 52 + 2 ^ 53) / 2 ^ 52 - 1 = steps + 1 := by omega
      have hsignificand : steps * 2 ^ 52 + 2 ^ 53 - (steps + 1) * 2 ^ 52 = 2 ^ 52 := by omega
      rw [hsteps, hsignificand, Nat.pow_succ]
      ring

theorem magnitude_bits {p : Parts} (hle : p.significand ≤ 2 ^ 53)
    (hnormal : p.steps ≠ 0 → 2 ^ 52 ≤ p.significand) :
    magnitude p.bits = p.significand * (2 : ℚ) ^ ((p.steps : ℤ) - 1074) := by
  rw [magnitude, units_bits hle hnormal, zpow_sub₀ two_ne_zero, zpow_natCast, zpow_ofNat,
    Nat.cast_mul, Nat.cast_pow, Nat.cast_ofNat, mul_div_assoc]

/-- The next magnitude is one significand further. -/
theorem units_succ (bits : ℕ) :
    units (bits + 1) = units bits + 2 ^ (Parts.ofBits bits).steps := by
  have hnormal := Parts.le_significand bits
  have hle : (Parts.ofBits bits).significand + 1 ≤ 2 ^ 53 := Parts.significand_lt bits
  have hbits := Parts.bits_ofBits bits
  unfold units at *
  generalize Parts.ofBits bits = p at *
  obtain ⟨significand, steps⟩ := p
  dsimp only at *
  have hnext : Parts.bits ⟨significand + 1, steps⟩ = bits + 1 := by
    rw [Parts.bits_succ, hbits]
  have hunits := units_bits (p := ⟨significand + 1, steps⟩) hle fun h =>
    Nat.le_succ_of_le (hnormal h)
  rw [hnext] at hunits
  exact hunits.trans (Nat.succ_mul ..)

theorem units_strictMono : StrictMono units :=
  strictMono_nat_of_lt_succ fun bits => by
    rw [units_succ]
    exact Nat.lt_add_of_pos_right (Nat.two_pow_pos _)

/-- **Magnitudes grow with their bits.** -/
theorem magnitude_strictMono : StrictMono magnitude := by
  intro a b h
  have hunits : (units a : ℚ) < units b := by exact_mod_cast units_strictMono h
  exact div_lt_div_of_pos_right hunits (by positivity)

@[simp] theorem magnitude_zero : magnitude 0 = 0 := by
  have hunits : units 0 = 0 := by decide
  rw [magnitude, hunits, Nat.cast_zero, zero_div]

theorem magnitude_one : magnitude 1 = 1 / 2 ^ 1074 := by
  have hunits : units 1 = 1 := by decide
  rw [magnitude, hunits, Nat.cast_one]

theorem magnitude_infinityBits : magnitude infinityBits = 2 ^ 1024 := by
  have hbits : infinityBits = Parts.bits ⟨2 ^ 52, 2046⟩ := by decide
  have hunits : units infinityBits = 2 ^ 52 * 2 ^ 2046 := by
    rw [hbits, units_bits (by decide) fun _ => by decide]
  have hsplit : (2 : ℚ) ^ 52 * 2 ^ 2046 = 2 ^ 1024 * 2 ^ 1074 := by
    rw [← pow_add, ← pow_add]
  rw [magnitude, hunits, Nat.cast_mul, Nat.cast_pow, Nat.cast_pow, Nat.cast_ofNat, hsplit,
    mul_div_assoc, div_self (by positivity), mul_one]

/-! ## The nearest double -/

/-- The bits are those of the double that a rational rounds to: no double is nearer to it, and they
are even if another one is as near. -/
structure IsNearest (q : ℚ) (bits : ℕ) : Prop where
  le_infinityBits : bits ≤ infinityBits
  dist_le : ∀ other ≤ infinityBits, |q - magnitude bits| ≤ |q - magnitude other|
  even_of_tie : ∀ other ≤ infinityBits, other ≠ bits →
    |q - magnitude other| = |q - magnitude bits| → bits % 2 = 0

section Nearest

variable {q : ℚ} {a b bits other lower : ℕ}

/-- What is below a double that is not above a rational is farther away. -/
theorem dist_lt_of_lt (hle : magnitude bits ≤ q) (hlt : other < bits) :
    |q - magnitude bits| < |q - magnitude other| := by
  have hmono := magnitude_strictMono hlt
  rw [abs_of_nonneg (by linarith), abs_of_nonneg (by linarith)]
  linarith

/-- What is above a double that is not below a rational is farther away. -/
theorem dist_lt_of_gt (hle : q ≤ magnitude bits) (hlt : bits < other) :
    |q - magnitude bits| < |q - magnitude other| := by
  have hmono := magnitude_strictMono hlt
  rw [abs_of_nonpos (by linarith), abs_of_nonpos (by linarith)]
  linarith

/-- What is not next to a rational is farther away than what is. -/
theorem dist_lt_of_between (hle : magnitude lower ≤ q) (hnext : q ≤ magnitude (lower + 1))
    (hne : other ≠ lower) (hne' : other ≠ lower + 1) :
    |q - magnitude lower| < |q - magnitude other| ∨
      |q - magnitude (lower + 1)| < |q - magnitude other| := by
  rcases lt_or_gt_of_ne hne with hlt | hgt
  · exact Or.inl (dist_lt_of_lt hle hlt)
  · exact Or.inr (dist_lt_of_gt hnext (lt_of_le_of_ne hgt hne'.symm))

/-- Of the two doubles that a rational lies between, it rounds to the nearer one, or to the even one
if they are equally near. -/
theorem isNearest_of_between (hle : magnitude lower ≤ q) (hnext : q ≤ magnitude (lower + 1))
    (hpair : bits = lower ∧ other = lower + 1 ∨ bits = lower + 1 ∧ other = lower)
    (hbits : bits ≤ infinityBits) (hdist : |q - magnitude bits| ≤ |q - magnitude other|)
    (heven : |q - magnitude other| = |q - magnitude bits| → bits % 2 = 0) : IsNearest q bits := by
  have hfar : ∀ third, third ≠ bits → third ≠ other →
      |q - magnitude bits| < |q - magnitude third| := by
    intro third hne hne'
    rcases hpair with ⟨rfl, rfl⟩ | ⟨rfl, rfl⟩
    · rcases dist_lt_of_between hle hnext hne hne' with h | h
      · exact h
      · exact lt_of_le_of_lt hdist h
    · rcases dist_lt_of_between hle hnext hne' hne with h | h
      · exact lt_of_le_of_lt hdist h
      · exact h
  refine ⟨hbits, fun third _ => ?_, fun third _ hne htie => ?_⟩
  · by_cases hne : third = bits
    · rw [hne]
    · by_cases hne' : third = other
      · rw [hne']
        exact hdist
      · exact (hfar third hne hne').le
  · by_cases hne' : third = other
    · rw [hne'] at htie
      exact heven htie
    · exact absurd htie (hfar third hne hne').ne'

/-- From `2 ^ 1024` on everything rounds to infinity. -/
theorem isNearest_infinityBits (h : 2 ^ 1024 ≤ q) : IsNearest q infinityBits := by
  rw [← magnitude_infinityBits] at h
  refine ⟨le_refl _, fun other hother => ?_, fun other hother hne htie => ?_⟩
  · rcases hother.eq_or_lt with rfl | hlt
    · exact le_refl _
    · exact (dist_lt_of_lt h hlt).le
  · exact absurd htie (dist_lt_of_lt h (lt_of_le_of_ne hother hne)).ne'

/-- Up to half of the least double everything rounds to zero. -/
theorem isNearest_zero (hle : 0 ≤ q) (h : q + q ≤ magnitude 1) : IsNearest q 0 := by
  have hzero : |q - magnitude 0| = q := by rw [magnitude_zero, sub_zero, abs_of_nonneg hle]
  have hone : |q - magnitude 1| = magnitude 1 - q := by rw [abs_of_nonpos (by linarith), neg_sub]
  have hle' : magnitude 0 ≤ q := by rwa [magnitude_zero]
  have hnext : q ≤ magnitude (0 + 1) := by
    rw [Nat.zero_add]
    linarith
  have hdist : |q - magnitude 0| ≤ |q - magnitude (0 + 1)| := by
    rw [Nat.zero_add, hzero, hone]
    linarith
  exact isNearest_of_between hle' hnext (Or.inl ⟨rfl, rfl⟩) (Nat.zero_le _) hdist fun _ => rfl

theorem IsNearest.not_lt (ha : IsNearest q a) (hb : IsNearest q b) : ¬ a < b := by
  intro hlt
  have htie : |q - magnitude a| = |q - magnitude b| :=
    le_antisymm (ha.dist_le b hb.le_infinityBits) (hb.dist_le a ha.le_infinityBits)
  have heven := ha.even_of_tie b hb.le_infinityBits hlt.ne' htie.symm
  have heven' := hb.even_of_tie a ha.le_infinityBits hlt.ne htie
  -- both are even, so there is a double between them, and it is nearer
  have hbetween : a + 1 < b := by omega
  have hnearer := ha.dist_le (a + 1) (hbetween.le.trans hb.le_infinityBits)
  have hmono := magnitude_strictMono (Nat.lt_succ_self a)
  have hmono' := magnitude_strictMono hbetween
  rcases abs_eq_abs.mp htie with h | h
  · linarith
  · rcases abs_cases (q - magnitude a) with ⟨ha, _⟩ | ⟨ha, _⟩ <;>
      rcases abs_cases (q - magnitude (a + 1)) with ⟨hc, _⟩ | ⟨hc, _⟩ <;>
      rw [ha, hc] at hnearer <;> linarith

/-- **At most one double is the nearest.** -/
theorem IsNearest.unique (ha : IsNearest q a) (hb : IsNearest q b) : a = b :=
  Nat.le_antisymm (Nat.le_of_not_lt (hb.not_lt ha)) (Nat.le_of_not_lt (ha.not_lt hb))

end Nearest

/-- Rounding upwards from the half on, and at the half just if the lower bits are odd, gives the
nearest double.  The distances to the two doubles are the rest and what is missing. -/
theorem isNearest_of_rest {q scale : ℚ} {lower unit rest : ℕ} (hscale : 0 < scale)
    (hrest : rest < unit) (hbefore : q - magnitude lower = rest / scale)
    (hafter : magnitude (lower + 1) - q = (unit - rest) / scale) :
    IsNearest q (min infinityBits
      (if unit < 2 * rest ∨ 2 * rest = unit ∧ lower % 2 = 1 then lower + 1 else lower)) := by
  have hle : magnitude lower ≤ q := by
    rw [← sub_nonneg, hbefore]
    positivity
  have hcast : (rest : ℚ) < unit := by exact_mod_cast hrest
  have hnext : q ≤ magnitude (lower + 1) := by
    rw [← sub_nonneg, hafter]
    exact div_nonneg (sub_nonneg.mpr hcast.le) hscale.le
  have hlower : |q - magnitude lower| = rest / scale := by
    rw [abs_of_nonneg (sub_nonneg.mpr hle), hbefore]
  have hupper : |q - magnitude (lower + 1)| = (unit - rest) / scale := by
    rw [abs_sub_comm, abs_of_nonneg (sub_nonneg.mpr hnext), hafter]
  have htie : (unit - rest) / scale = rest / scale → 2 * rest = unit := by
    intro h
    have hsum : (2 * rest : ℚ) = unit := by linarith [(div_left_inj' hscale.ne').mp h]
    exact_mod_cast hsum
  rcases Nat.lt_or_ge lower infinityBits with hfinite | hinfinite
  · split
    · rename_i hup
      have hhalf : (unit - rest : ℚ) ≤ rest := by
        have hdouble : (unit : ℚ) ≤ 2 * rest := by exact_mod_cast (by omega : unit ≤ 2 * rest)
        linarith
      rw [min_eq_right (Nat.succ_le_of_lt hfinite)]
      refine isNearest_of_between hle hnext (Or.inr ⟨rfl, rfl⟩) (Nat.succ_le_of_lt hfinite) ?_ ?_
      · rw [hlower, hupper]
        exact div_le_div_of_nonneg_right hhalf hscale.le
      · intro h
        rw [hlower, hupper] at h
        have hdouble := htie h.symm
        omega
    · rename_i hdown
      have hhalf : (rest : ℚ) ≤ unit - rest := by
        have hdouble : (2 * rest : ℚ) ≤ unit := by exact_mod_cast (by omega : 2 * rest ≤ unit)
        linarith
      rw [min_eq_right hfinite.le]
      refine isNearest_of_between hle hnext (Or.inl ⟨rfl, rfl⟩) hfinite.le ?_ ?_
      · rw [hlower, hupper]
        exact div_le_div_of_nonneg_right hhalf hscale.le
      · intro h
        rw [hlower, hupper] at h
        have hdouble := htie h
        omega
  · rw [min_eq_left (by split <;> omega)]
    refine isNearest_infinityBits (le_trans ?_ hle)
    rw [← magnitude_infinityBits]
    exact magnitude_strictMono.monotone hinfinite

/-- What a division by some steps leaves over is the way from the double that has the quotient, and
what is missing is the way to the next. -/
theorem sub_magnitude_of_quotient {denominator steps quotient rest : ℕ} {q : ℚ}
    (hpos : 0 < denominator) (hquotient : quotient < 2 ^ 53)
    (hnormal : steps ≠ 0 → 2 ^ 52 ≤ quotient)
    (hq : q = (denominator * 2 ^ steps * quotient + rest : ℕ) / (denominator * 2 ^ 1074 : ℕ)) :
    q - magnitude (Parts.bits ⟨quotient, steps⟩) = rest / (denominator * 2 ^ 1074 : ℕ) ∧
      magnitude (Parts.bits ⟨quotient + 1, steps⟩) - q =
        ((denominator * 2 ^ steps : ℕ) - rest) / (denominator * 2 ^ 1074 : ℕ) := by
  have hlower : units (Parts.bits ⟨quotient, steps⟩) = quotient * 2 ^ steps :=
    units_bits hquotient.le hnormal
  have hupper : units (Parts.bits ⟨quotient + 1, steps⟩) = (quotient + 1) * 2 ^ steps :=
    units_bits hquotient fun h => Nat.le_succ_of_le (hnormal h)
  have hdenominator : (denominator : ℚ) ≠ 0 := by positivity
  have hscale : (2 : ℚ) ^ 1074 ≠ 0 := by positivity
  rw [magnitude, magnitude, hlower, hupper, hq, Nat.cast_mul denominator (2 ^ 1074),
    Nat.cast_pow 2 1074, Nat.cast_ofNat]
  generalize (2 : ℚ) ^ 1074 = scale at *
  push_cast
  constructor
  · field_simp
    ring
  · field_simp
    ring

/-- **Rounding gives the nearest double.** -/
theorem isNearest_nearestBits (numerator : ℕ) {denominator : ℕ} (hpos : 0 < denominator) :
    IsNearest (numerator / denominator) (nearestBits numerator denominator) := by
  obtain ⟨hupper, hnormal⟩ := significand_bounds (numerator <<< 1074) hpos
  have hq : (numerator / denominator : ℚ) =
      (numerator <<< 1074 : ℕ) / (denominator * 2 ^ 1074 : ℕ) := by
    rw [Nat.shiftLeft_eq, Nat.cast_mul, Nat.cast_mul, mul_div_mul_right _ _ (by positivity)]
  rw [hq]
  unfold nearestBits roundHalfEven
  dsimp only
  generalize numerator <<< 1074 = scaled at *
  generalize (scaled / denominator).log2 - 52 = steps at *
  have hunit : 0 < denominator * 2 ^ steps := Nat.mul_pos hpos (Nat.two_pow_pos steps)
  have hfloor : scaled / (denominator * 2 ^ steps) < 2 ^ 53 :=
    (Nat.div_lt_iff_lt_mul hunit).mpr hupper
  have hfull : steps ≠ 0 → 2 ^ 52 ≤ scaled / (denominator * 2 ^ steps) := fun h =>
    (Nat.le_div_iff_mul_le hunit).mpr (hnormal h)
  obtain ⟨hbefore, hafter⟩ := sub_magnitude_of_quotient hpos hfloor hfull
    (congrArg (fun n : ℕ => (n : ℚ) / (denominator * 2 ^ 1074 : ℕ))
      (Nat.div_add_mod scaled (denominator * 2 ^ steps)).symm)
  rw [Parts.bits_succ] at hafter
  have hnearest := isNearest_of_rest (by positivity) (Nat.mod_lt scaled hunit) hbefore hafter
  rw [Parts.bits_mod_two, ← Parts.bits_succ, ← apply_ite fun n => Parts.bits ⟨n, steps⟩] at hnearest
  rwa [Nat.shiftLeft_eq]

/-! ## Doubles -/

section Doubles

variable {x y : Float} {q : ℚ}

/-- The magnitude of a finite double is the number that the core library takes it for, and so is its
sign. -/
theorem magnitude_eq_of_unpack {s : UnpackedFloat.Sign} {m : ℕ} {e : ℤ} {h : 0 < m}
    (hx : x.toModel.unpack = .finite s m e h) :
    magnitude (magnitudeBits x) = m * (2 : ℚ) ^ e ∧ (isNegative x = true ↔ s = .negative) := by
  obtain ⟨s', e', m', hword⟩ := exists_eq_word x.toBits.toBitVec
  have hunpack : unpack .binary64 (word s' e' m') = .finite s m e h := by
    rw [← hword]
    exact hx
  have hsign := isNegative_of_word hword
  have hmantissa := m'.isLt
  rw [unpack_word] at hunpack
  split at hunpack
  · split at hunpack <;> cases hunpack
  · split at hunpack
    · rename_i hzero
      split at hunpack
      · cases hunpack
      · cases hunpack
        have hbits : magnitudeBits x = Parts.bits ⟨m'.toNat, 0⟩ := by
          rw [magnitudeBits_of_word hword, hzero, Parts.bits, Nat.shiftLeft_eq]
          rfl
        refine ⟨?_, hsign⟩
        rw [hbits, magnitude_bits (by dsimp only; omega) fun h => absurd rfl h]
        rfl
    · rename_i hzero
      cases hunpack
      have hpos : e'.toNat ≠ 0 := fun h => hzero (BitVec.eq_of_toNat_eq h)
      have hbits : magnitudeBits x = Parts.bits ⟨2 ^ 52 + m'.toNat, e'.toNat - 1⟩ := by
        rw [magnitudeBits_of_word hword, Parts.bits, Nat.shiftLeft_eq]
        dsimp only
        omega
      refine ⟨?_, hsign⟩
      have hexponent : ((e'.toNat - 1 : ℕ) : ℤ) - 1074 = e'.toNat - 1075 := by omega
      rw [hbits, magnitude_bits (by dsimp only; omega) fun _ => Nat.le_add_right _ _,
        toNat_one_append, hexponent]

/-- A double is what a number with a sign rounds to.  The sign is that of the double, which a zero
and an infinity have too. -/
structure Rounds (negative : Bool) (q : ℚ) (x : Float) : Prop where
  sign : isNegative x = negative
  isNearest : IsNearest q (magnitudeBits x)

theorem Rounds.unique {negative : Bool} (hx : Rounds negative q x) (hy : Rounds negative q y) :
    x = y :=
  eq_of_magnitudeBits (hx.sign.trans hy.sign.symm) (hx.isNearest.unique hy.isNearest)

theorem IsNearest.rounds {bits : ℕ} (h : IsNearest q bits) :
    Rounds false q (Float.ofBits (UInt64.ofNat bits)) where
  sign := isNegative_ofBits h.le_infinityBits
  isNearest := by rwa [magnitudeBits_ofBits h.le_infinityBits]

/-- **Fractions round to the nearest double.** -/
theorem rounds_nearest (numerator : ℕ) {denominator : ℕ} (hpos : 0 < denominator) :
    Rounds false (numerator / denominator) (nearest numerator denominator) :=
  (isNearest_nearestBits numerator hpos).rounds

theorem Rounds.neg {negative : Bool} (h : Rounds negative q x) : Rounds (!negative) q (-x) where
  sign := by rw [isNegative_neg h.isNearest.le_infinityBits, h.sign]
  isNearest := by
    rw [magnitudeBits_neg h.isNearest.le_infinityBits]
    exact h.isNearest

end Doubles

end Scriptlet.Binary64
