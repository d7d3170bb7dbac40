import Scriptlet.Decimal.Shortest
import Scriptlet.Proofs.Binary64.Midpoints

/-!
# The rationals of a span

A span is an interval of rationals around a value.  The points of a decimal grid that lie in it are
found by counting in units of the grid, and of those points the one next to the value is taken.

* `Span.Holds`: a rational lies in a span.
* `Span.holds_inUnits`: counting in other units moves the span.
* `Span.nearest?_eq_none_iff`, `Span.nearest?_eq_some`: **the natural number taken is the nearest
  one in the span, and there is one if any natural number lies there.**
* `Span.holds_ofParts`: **the span of a double is what rounds to it.**
-/

namespace Scriptlet.Decimal

open Binary64

/-! ## Intervals -/

/-- The rational lies in the span, whose ends belong to it if it is closed. -/
def Span.Holds (s : Span) (q : ℚ) : Prop :=
  if s.closed then s.lower ≤ q * s.denominator ∧ q * s.denominator ≤ s.upper
  else s.lower < q * s.denominator ∧ q * s.denominator < s.upper

/-- The value of a span. -/
def Span.center (s : Span) : ℚ := s.value / s.denominator

/-- The value lies properly between the ends, and all of it is positive. -/
structure Span.Proper (s : Span) : Prop where
  denominator_pos : 0 < s.denominator
  lower_pos : 0 < s.lower
  lower_lt : s.lower < s.value
  lt_upper : s.value < s.upper

namespace Span

variable {s : Span} {q r w : ℚ} {n m : ℕ} {place : ℤ}

theorem Proper.center_mul (hs : s.Proper) : s.center * s.denominator = s.value :=
  div_mul_cancel₀ _ (Nat.cast_ne_zero.mpr hs.denominator_pos.ne')

theorem Proper.holds_center (hs : s.Proper) : s.Holds s.center := by
  have hlower : (s.lower : ℚ) < s.value := by exact_mod_cast hs.lower_lt
  have hupper : (s.value : ℚ) < s.upper := by exact_mod_cast hs.lt_upper
  unfold Holds
  rw [hs.center_mul]
  split
  · exact ⟨hlower.le, hupper.le⟩
  · exact ⟨hlower, hupper⟩

theorem Proper.pos_of_holds (hs : s.Proper) (h : s.Holds q) : 0 < q := by
  have hlower : (0 : ℚ) < s.lower := by exact_mod_cast hs.lower_pos
  have hpos : (0 : ℚ) < s.denominator := by exact_mod_cast hs.denominator_pos
  have hle : (s.lower : ℚ) ≤ q * s.denominator := by
    unfold Holds at h
    split at h
    · exact h.1
    · exact h.1.le
  exact pos_of_mul_pos_left (hlower.trans_le hle) hpos.le

/-- What lies between two points of a span lies in it. -/
theorem Holds.between (hq : s.Holds q) (hr : s.Holds r) (hle : q ≤ w) (hle' : w ≤ r) :
    s.Holds w := by
  have hpos : (0 : ℚ) ≤ s.denominator := Nat.cast_nonneg _
  have hmul := mul_le_mul_of_nonneg_right hle hpos
  have hmul' := mul_le_mul_of_nonneg_right hle' hpos
  unfold Holds at *
  split at hq
  · rename_i hclosed
    rw [if_pos hclosed] at hr ⊢
    exact ⟨hq.1.trans hmul, hmul'.trans hr.2⟩
  · rename_i hopen
    rw [if_neg hopen] at hr ⊢
    exact ⟨hq.1.trans_le hmul, hmul'.trans_lt hr.2⟩

theorem contains_iff : s.contains n = true ↔ s.Holds n := by
  unfold contains Holds
  dsimp only
  split
  · rw [decide_eq_true_iff, ← Nat.cast_mul, Nat.cast_le, Nat.cast_le]
  · rw [decide_eq_true_iff, ← Nat.cast_mul, Nat.cast_lt, Nat.cast_lt]

theorem contains_eq_false_iff : s.contains n = false ↔ ¬ s.Holds n := by
  rw [← contains_iff, Bool.not_eq_true]

/-- An interval that is wider than one holds a natural number. -/
theorem Proper.exists_holds (hs : s.Proper) (hwide : s.lower + s.denominator < s.upper) :
    ∃ n : ℕ, s.Holds n := by
  have hpos := hs.denominator_pos
  have hlower := Nat.lt_mul_div_succ s.lower hpos
  have hupper := Nat.mul_div_le s.lower s.denominator
  have hstep : s.denominator * (s.lower / s.denominator + 1) =
      s.denominator * (s.lower / s.denominator) + s.denominator := Nat.mul_succ ..
  refine ⟨s.lower / s.denominator + 1, contains_iff.mp ?_⟩
  unfold contains
  dsimp only
  rw [Nat.mul_comm]
  split
  · exact decide_eq_true ⟨hlower.le, by omega⟩
  · exact decide_eq_true ⟨hlower, by omega⟩

/-! ## Units -/

/-- A power of ten as the fraction that a change of units multiplies by. -/
theorem zpow_eq_div (place : ℤ) :
    (10 : ℚ) ^ place = (10 : ℚ) ^ place.toNat / (10 : ℚ) ^ (-place).toNat := by
  have hsplit : place = place.toNat - (-place).toNat := by omega
  conv_lhs => rw [hsplit, zpow_sub₀ (by norm_num), zpow_natCast, zpow_natCast]

theorem Proper.inUnits (hs : s.Proper) (place : ℤ) : (s.inUnits place).Proper where
  denominator_pos := Nat.mul_pos hs.denominator_pos (Nat.pow_pos (by decide))
  lower_pos := Nat.mul_pos hs.lower_pos (Nat.pow_pos (by decide))
  lower_lt := Nat.mul_lt_mul_of_pos_right hs.lower_lt (Nat.pow_pos (by decide))
  lt_upper := Nat.mul_lt_mul_of_pos_right hs.lt_upper (Nat.pow_pos (by decide))

theorem center_inUnits (s : Span) (place : ℤ) :
    (s.inUnits place).center * (10 : ℚ) ^ place = s.center := by
  unfold center Span.inUnits
  rw [zpow_eq_div]
  simp only [Nat.pow_eq, Nat.cast_mul, Nat.cast_pow, Nat.cast_ofNat]
  field_simp

/-- **Counting in units of a power of ten.** -/
theorem holds_inUnits : (s.inUnits place).Holds q ↔ s.Holds (q * (10 : ℚ) ^ place) := by
  have hup : (0 : ℚ) < 10 ^ (-place).toNat := by positivity
  have hscale : q * (s.denominator * 10 ^ place.toNat) =
      q * (10 : ℚ) ^ place * s.denominator * 10 ^ (-place).toNat := by
    rw [zpow_eq_div]
    field_simp
  unfold Holds Span.inUnits
  simp only [Nat.pow_eq, Nat.cast_mul, Nat.cast_pow, Nat.cast_ofNat]
  rw [hscale, mul_le_mul_iff_left₀ hup, mul_le_mul_iff_left₀ hup, mul_lt_mul_iff_left₀ hup,
    mul_lt_mul_iff_left₀ hup]

/-! ## The nearest natural number -/

/-- **Rounding gives the nearest natural number.** -/
theorem dist_roundHalfEven_le (numerator : ℕ) {denominator : ℕ} (hpos : 0 < denominator) (m : ℕ) :
    |(roundHalfEven numerator denominator : ℚ) - numerator / denominator| ≤
      |(m : ℚ) - numerator / denominator| := by
  have hscale : (0 : ℚ) < denominator := by exact_mod_cast hpos
  have hdist (k : ℕ) : |(k : ℚ) - numerator / denominator| =
      (((k * denominator : ℕ) - numerator : ℤ).natAbs : ℚ) / denominator := by
    rw [Nat.cast_natAbs, Int.cast_abs, ← abs_of_pos hscale, ← abs_div, abs_of_pos hscale]
    push_cast
    rw [sub_div, mul_div_cancel_right₀ _ hscale.ne']
  rw [hdist, hdist]
  refine div_le_div_of_nonneg_right (Nat.cast_le.mpr ?_) hscale.le
  have hdivision := Nat.div_add_mod numerator denominator
  have hrest := Nat.mod_lt numerator hpos
  unfold roundHalfEven
  dsimp only
  generalize numerator / denominator = quotient at *
  generalize numerator % denominator = rest at *
  rw [Nat.mul_comm] at hdivision
  -- a natural number is at most the quotient, or at least the one after it
  have hother : m * denominator ≤ quotient * denominator ∨
      quotient * denominator + denominator ≤ m * denominator := by
    rcases Nat.lt_or_ge quotient m with hlt | hge
    · exact Or.inr (Nat.succ_mul quotient denominator ▸ Nat.mul_le_mul_right _ hlt)
    · exact Or.inl (Nat.mul_le_mul_right _ hge)
  split
  · rename_i hup
    rw [Nat.succ_mul]
    omega
  · rename_i hdown
    omega

section Nearest

theorem Proper.floor_le_center (hs : s.Proper) :
    ((s.value / s.denominator : ℕ) : ℚ) ≤ s.center := by
  have hpos : (0 : ℚ) < s.denominator := by exact_mod_cast hs.denominator_pos
  rw [center, le_div_iff₀ hpos]
  exact_mod_cast Nat.div_mul_le_self s.value s.denominator

theorem Proper.center_lt_floor (hs : s.Proper) :
    s.center < ((s.value / s.denominator + 1 : ℕ) : ℚ) := by
  have hpos : (0 : ℚ) < s.denominator := by exact_mod_cast hs.denominator_pos
  rw [center, div_lt_iff₀ hpos]
  rw [mul_comm]
  exact_mod_cast Nat.lt_mul_div_succ s.value hs.denominator_pos

/-- Of the natural numbers up to the value none is nearer than the last. -/
theorem Proper.holds_floor (hs : s.Proper) (hm : s.Holds m) (hle : m ≤ s.value / s.denominator) :
    s.Holds (s.value / s.denominator : ℕ) ∧
      |((s.value / s.denominator : ℕ) : ℚ) - s.center| ≤ |(m : ℚ) - s.center| := by
  have hcast : (m : ℚ) ≤ (s.value / s.denominator : ℕ) := by exact_mod_cast hle
  have hfloor := hs.floor_le_center
  refine ⟨hm.between hs.holds_center hcast hfloor, ?_⟩
  rw [abs_of_nonpos (by linarith), abs_of_nonpos (by linarith)]
  linarith

/-- Of the natural numbers beyond the value none is nearer than the first. -/
theorem Proper.holds_ceil (hs : s.Proper) (hm : s.Holds m) (hlt : s.value / s.denominator < m) :
    s.Holds (s.value / s.denominator + 1 : ℕ) ∧
      |((s.value / s.denominator + 1 : ℕ) : ℚ) - s.center| ≤ |(m : ℚ) - s.center| := by
  have hcast : ((s.value / s.denominator + 1 : ℕ) : ℚ) ≤ m := by exact_mod_cast hlt
  have hceil := hs.center_lt_floor
  refine ⟨hs.holds_center.between hm hceil.le hcast, ?_⟩
  rw [abs_of_nonneg (by linarith), abs_of_nonneg (by linarith)]
  linarith

/-- **Nothing is taken just if no natural number lies in the span.** -/
theorem Proper.nearest?_eq_none_iff (hs : s.Proper) :
    s.nearest? = none ↔ ∀ m : ℕ, ¬ s.Holds m := by
  unfold nearest?
  dsimp only
  constructor
  · intro h m hm
    split at h <;> try cases h
    rename_i hfloor hceil
    rcases Nat.lt_or_ge (s.value / s.denominator) m with hlt | hge
    · exact contains_eq_false_iff.mp hceil (hs.holds_ceil hm hlt).1
    · exact contains_eq_false_iff.mp hfloor (hs.holds_floor hm hge).1
  · intro h
    rw [contains_eq_false_iff.mpr (h _), contains_eq_false_iff.mpr (h _)]

/-- **What is taken lies in the span, and no natural number in it is nearer to the value.** -/
theorem Proper.nearest?_eq_some (hs : s.Proper) (h : s.nearest? = some n) :
    s.Holds n ∧ ∀ m : ℕ, s.Holds m → |(n : ℚ) - s.center| ≤ |(m : ℚ) - s.center| := by
  unfold nearest? at h
  dsimp only at h
  split at h
  · cases h
  · rename_i hfloor hceil
    cases h
    refine ⟨contains_iff.mp hfloor, fun m hm => ?_⟩
    rcases Nat.lt_or_ge (s.value / s.denominator) m with hlt | hge
    · exact absurd (hs.holds_ceil hm hlt).1 (contains_eq_false_iff.mp hceil)
    · exact (hs.holds_floor hm hge).2
  · rename_i hfloor hceil
    cases h
    refine ⟨contains_iff.mp hceil, fun m hm => ?_⟩
    rcases Nat.lt_or_ge (s.value / s.denominator) m with hlt | hge
    · exact (hs.holds_ceil hm hlt).2
    · exact absurd (hs.holds_floor hm hge).1 (contains_eq_false_iff.mp hfloor)
  · rename_i hfloor hceil
    cases h
    refine ⟨?_, fun m _ => dist_roundHalfEven_le s.value hs.denominator_pos m⟩
    unfold roundHalfEven
    dsimp only
    split
    · exact contains_iff.mp hceil
    · exact contains_iff.mp hfloor

end Nearest

end Span

/-! ## The span of a double -/

section OfParts

variable {q : ℚ} {bits : ℕ}

/-- Shifts in either direction are one scale. -/
theorem shifted_div_shifted (k steps : ℕ) :
    ((k <<< (steps - 1076) : ℕ) : ℚ) / (1 <<< (1076 - steps) : ℕ) =
      (k * 2 ^ steps : ℕ) / 2 ^ 1076 := by
  rw [Nat.shiftLeft_eq, Nat.shiftLeft_eq, Nat.one_mul]
  push_cast
  rw [div_eq_div_iff (by positivity) (by positivity), mul_assoc, mul_assoc, ← pow_add, ← pow_add]
  have hsteps : steps - 1076 + 1076 = steps + (1076 - steps) := by omega
  rw [hsteps]

/-- The steps before some bits: half as large just below a power of two. -/
theorem steps_pred (h : 0 < bits) :
    (Parts.ofBits bits).steps = (Parts.ofBits (bits - 1)).steps +
      if (Parts.ofBits bits).significand = 1 <<< 52 ∧ 0 < (Parts.ofBits bits).steps then 1
      else 0 := by
  unfold Parts.ofBits
  simp only [Nat.shiftLeft_eq, Nat.shiftRight_eq_div_pow]
  split <;> omega

theorem two_pow_eq : (2 : ℚ) ^ 1076 = 4 * 2 ^ 1074 := by
  rw [pow_succ, pow_succ]
  generalize (2 : ℚ) ^ 1074 = scale
  ring

theorem magnitude_eq (bits : ℕ) : magnitude bits = (4 * units bits : ℕ) / 2 ^ 1076 := by
  rw [magnitude, two_pow_eq, Nat.cast_mul, Nat.cast_ofNat, mul_div_mul_left _ _ four_ne_zero]

theorem halfway_eq (bits : ℕ) :
    halfway bits = (2 * (units bits + units (bits + 1)) : ℕ) / 2 ^ 1076 := by
  have hscale : (2 : ℚ) ^ 1076 = 2 * (2 ^ 1074 * 2) := by
    rw [two_pow_eq]
    generalize (2 : ℚ) ^ 1074 = scale
    ring
  rw [halfway, magnitude, magnitude, hscale, Nat.cast_mul, Nat.cast_add, Nat.cast_ofNat,
    mul_div_mul_left _ _ two_ne_zero, ← add_div, div_div]

/-- The point after a double, in quarters of a step. -/
theorem units_add_units_succ (bits : ℕ) : 2 * (units bits + units (bits + 1)) =
    (4 * (Parts.ofBits bits).significand + 2) * 2 ^ (Parts.ofBits bits).steps := by
  rw [units_succ, units]
  ring

/-- The point before a double is a quarter of a step nearer just below a power of two. -/
theorem units_pred_add_units (h : 0 < bits) : 2 * (units (bits - 1) + units bits) =
    (4 * (Parts.ofBits bits).significand -
      if (Parts.ofBits bits).significand = 1 <<< 52 ∧ 0 < (Parts.ofBits bits).steps then 1 else 2) *
        2 ^ (Parts.ofBits bits).steps := by
  have hunits : units bits = units (bits - 1) + 2 ^ (Parts.ofBits (bits - 1)).steps := by
    rw [← units_succ, Nat.sub_add_cancel h]
  have hsteps := steps_pred h
  have hown : units bits =
      (Parts.ofBits bits).significand * 2 ^ (Parts.ofBits bits).steps := rfl
  generalize (Parts.ofBits bits).significand = significand at *
  generalize (Parts.ofBits bits).steps = steps at *
  generalize (Parts.ofBits (bits - 1)).steps = before at *
  rw [Nat.sub_mul, Nat.mul_assoc, ← hown]
  split
  · rename_i hpower
    rw [if_pos hpower] at hsteps
    rw [hsteps, Nat.pow_succ] at *
    omega
  · rename_i hplain
    rw [if_neg hplain, Nat.add_zero] at hsteps
    rw [hsteps] at *
    omega

theorem significand_pos (h : 0 < bits) : 0 < (Parts.ofBits bits).significand := by
  have hbits := Parts.bits_ofBits bits
  have hnormal := Parts.le_significand bits
  rw [Parts.bits, Nat.shiftLeft_eq] at hbits
  by_cases hsteps : (Parts.ofBits bits).steps = 0
  · rw [hsteps] at hbits
    omega
  · have hle := hnormal hsteps
    omega

theorem Span.proper_ofParts {p : Parts} (h : 0 < p.significand) : (Span.ofParts p).Proper := by
  unfold Span.ofParts
  dsimp only
  generalize p.steps - 1076 = up
  generalize 1076 - p.steps = down
  have hscale := Nat.two_pow_pos up
  constructor <;> simp only [Nat.shiftLeft_eq]
  · exact Nat.mul_pos Nat.one_pos (Nat.two_pow_pos down)
  · refine Nat.mul_pos ?_ hscale
    split <;> omega
  · refine Nat.mul_lt_mul_of_pos_right ?_ hscale
    split <;> omega
  · exact Nat.mul_lt_mul_of_pos_right (by omega) hscale

/-- The value of a double's span is the double. -/
theorem center_ofParts (bits : ℕ) :
    (Span.ofParts (Parts.ofBits bits)).center = magnitude bits := by
  rw [Span.center, magnitude_eq, units, ← Nat.mul_assoc]
  exact shifted_div_shifted _ _

theorem significand_mod_two (bits : ℕ) : (Parts.ofBits bits).significand % 2 = bits % 2 := by
  have hbits := Parts.bits_ofBits bits
  generalize Parts.ofBits bits = p at *
  rw [← hbits]
  exact (Parts.bits_mod_two p.significand p.steps).symm

theorem Span.closed_ofParts (p : Parts) :
    (Span.ofParts p).closed = decide (p.significand % 2 = 0) := rfl

/-- **The span of a double is what rounds to it.** -/
theorem holds_ofParts (hpos : 0 < bits) (h : bits < infinityBits) :
    (Span.ofParts (Parts.ofBits bits)).Holds q ↔ IsNearest q bits := by
  have hdenominator : (0 : ℚ) < (Span.ofParts (Parts.ofBits bits)).denominator := by
    exact_mod_cast (Span.proper_ofParts (significand_pos hpos)).denominator_pos
  have hlower : ((Span.ofParts (Parts.ofBits bits)).lower : ℚ) /
      (Span.ofParts (Parts.ofBits bits)).denominator = halfway (bits - 1) := by
    rw [halfway_eq, Nat.sub_add_cancel hpos, units_pred_add_units hpos]
    exact shifted_div_shifted _ _
  have hupper : ((Span.ofParts (Parts.ofBits bits)).upper : ℚ) /
      (Span.ofParts (Parts.ofBits bits)).denominator = halfway bits := by
    rw [halfway_eq, units_add_units_succ]
    exact shifted_div_shifted _ _
  have hclosed : (Span.ofParts (Parts.ofBits bits)).closed = true ↔ bits % 2 = 0 := by
    rw [Span.closed_ofParts, decide_eq_true_iff, significand_mod_two]
  have hbelow : bits - 1 + 1 < infinityBits := by omega
  have hiff := isNearest_succ_iff (q := q) hbelow
  rw [Nat.sub_add_cancel hpos] at hiff
  rw [hiff, Span.Holds, ← div_le_iff₀ hdenominator, ← le_div_iff₀ hdenominator,
    ← div_lt_iff₀ hdenominator, ← lt_div_iff₀ hdenominator, hlower, hupper]
  by_cases heven : bits % 2 = 0
  · rw [if_pos (hclosed.mpr heven)]
    exact ⟨fun hq => ⟨hq.1, hq.2, fun hodd => absurd heven (by omega)⟩, fun hq => ⟨hq.1, hq.2.1⟩⟩
  · rw [if_neg fun hc => heven (hclosed.mp hc)]
    constructor
    · exact fun hq => ⟨hq.1.le, hq.2.le, fun _ => ⟨hq.1.ne, hq.2.ne⟩⟩
    · rintro ⟨hle, hle', hne⟩
      obtain ⟨hne, hne'⟩ := hne (by omega)
      exact ⟨lt_of_le_of_ne hle hne, lt_of_le_of_ne hle' hne'⟩

end OfParts

end Scriptlet.Decimal
