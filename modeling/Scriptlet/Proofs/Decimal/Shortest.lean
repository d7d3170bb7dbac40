import Scriptlet.Proofs.Binary64.Decimals
import Scriptlet.Proofs.Decimal.Spans

/-!
# The shortest decimal

The search goes from the place of the leading digit downwards and stops at the first grid that has a
point in the span.  A decimal with fewer digits than that point would lie on a coarser grid, or the
span would reach over a power of ten, which lies on a coarser grid too.

* `IsShortest`: no decimal of a set has fewer digits, and none with as many is nearer to a value.
* `Span.leadingPlace_spec`: between which powers of ten the value lies.
* `Span.search_eq`: the search ends at the coarsest grid that meets the span.
* `isShortest_shortest`: **the decimal found is the shortest that rounds to the double.**
-/

namespace Scriptlet.Decimal

open Binary64

/-- The decimal is one of a set of rationals, and no decimal of the set has fewer digits.  No
decimal of the set with as many digits is nearer to the value. -/
structure IsShortest (among : ℚ → Prop) (v : ℚ) (d : Decimal) : Prop where
  mem : among d.value
  no_trailing_zero : d.digits % 10 ≠ 0
  length_le : ∀ e : Decimal, among e.value → length d.digits ≤ length e.digits
  dist_le : ∀ e : Decimal, among e.value → length e.digits = length d.digits →
    |d.value - v| ≤ |e.value - v|

variable {s : Span} {q place top : ℤ} {n m grids : ℕ} {d e : Decimal}

/-! ## Grids -/

theorem value_pow (k : ℕ) (place : ℤ) :
    value ⟨10 ^ k, place⟩ = (10 : ℚ) ^ (k + place) := by
  rw [value, Nat.cast_pow, Nat.cast_ofNat, zpow_add₀ (by norm_num), zpow_natCast]

/-- A decimal lies on all finer grids. -/
theorem value_refine (d : Decimal) (h : place ≤ d.exponent) :
    value ⟨d.digits * 10 ^ (d.exponent - place).toNat, place⟩ = d.value := by
  have hsplit : d.exponent = (d.exponent - place).toNat + place := by omega
  conv_rhs => rw [value, hsplit, zpow_add₀ (by norm_num), zpow_natCast, ← mul_assoc]
  rw [value]
  push_cast
  rfl

/-- A power of ten lies on all grids that are not coarser. -/
theorem zpow_refine (h : place ≤ top) :
    value ⟨10 ^ (top - place).toNat, place⟩ = (10 : ℚ) ^ top := by
  have hsplit : ((top - place).toNat : ℤ) + place = top := by omega
  rw [value_pow, hsplit]

theorem value_trim (d : Decimal) : (trim d).value = d.value := by
  unfold trim
  split
  · rename_i hzero
    have hdigits : d.digits = d.digits / 10 * 10 := by omega
    rw [value, value, zpow_add_one₀ (by norm_num), hdigits]
    push_cast
    rw [Nat.mul_div_cancel _ (by decide)]
    ring
  · rfl

namespace Span

/-- The point of a grid that is taken lies in the span and is the nearest of the grid there. -/
theorem Proper.hit (hs : s.Proper) (h : (s.inUnits place).nearest? = some n) :
    s.Holds (Decimal.value ⟨n, place⟩) ∧ ∀ m : ℕ, s.Holds (Decimal.value ⟨m, place⟩) →
      |Decimal.value ⟨n, place⟩ - s.center| ≤ |Decimal.value ⟨m, place⟩ - s.center| := by
  obtain ⟨hn, hnearest⟩ := (hs.inUnits place).nearest?_eq_some h
  have hunit : (0 : ℚ) < 10 ^ place := by positivity
  have hdist (k : ℕ) : |Decimal.value ⟨k, place⟩ - s.center| =
      |(k : ℚ) - (s.inUnits place).center| * 10 ^ place := by
    rw [Decimal.value, ← center_inUnits s place, ← sub_mul, abs_mul, abs_of_pos hunit]
  refine ⟨holds_inUnits.mp hn, fun m hm => ?_⟩
  rw [hdist, hdist]
  exact mul_le_mul_of_nonneg_right (hnearest m (holds_inUnits.mpr hm)) hunit.le

/-- No point of a grid is taken just if none lies in the span. -/
theorem Proper.miss_iff (hs : s.Proper) :
    (s.inUnits place).nearest? = none ↔ ∀ m : ℕ, ¬ s.Holds (Decimal.value ⟨m, place⟩) := by
  rw [(hs.inUnits place).nearest?_eq_none_iff]
  exact forall_congr' fun m => not_congr holds_inUnits

/-! ## The place of the leading digit -/

/-- The digits of a quotient tell between which powers of ten it lies. -/
theorem exists_length_div {a b : ℕ} (hb : 0 < b) (hle : b ≤ a) :
    ∃ k : ℕ, length (a / b) = k + 1 ∧ 10 ^ k * b ≤ a ∧ a < 10 ^ (k + 1) * b := by
  have hquotient : a / b ≠ 0 := (Nat.div_pos hle hb).ne'
  have hlower := Nat.mul_le_of_le_div _ _ _ (pow_le_digits hquotient)
  have hupper := (Nat.div_lt_iff_lt_mul hb).mp (digits_lt_pow (a / b))
  have hlength : 0 < length (a / b) := Nat.length_toDigits_pos
  generalize length (a / b) = l at *
  obtain ⟨k, rfl⟩ := Nat.exists_eq_succ_of_ne_zero hlength.ne'
  exact ⟨k, rfl, hlower, hupper⟩

/-- **The value lies between two powers of ten.** -/
theorem Proper.leadingPlace_spec (hs : s.Proper) :
    (10 : ℚ) ^ s.leadingPlace ≤ s.center ∧ s.center ≤ (10 : ℚ) ^ (s.leadingPlace + 1) := by
  have hpos := hs.denominator_pos
  have hvalue : 0 < s.value := Nat.zero_lt_of_lt hs.lower_lt
  have hden : (0 : ℚ) < s.denominator := by exact_mod_cast hpos
  unfold leadingPlace
  split
  · rename_i hle
    obtain ⟨k, hlength, hlower, hupper⟩ := exists_length_div hpos hle
    have hplace : (length (s.value / s.denominator) : ℤ) - 1 = k := by omega
    rw [hplace, center, le_div_iff₀ hden, div_le_iff₀ hden, ← Nat.cast_succ, zpow_natCast,
      zpow_natCast]
    exact ⟨by exact_mod_cast hlower, by exact_mod_cast hupper.le⟩
  · rename_i hlt
    obtain ⟨k, hlength, hlower, hupper⟩ := exists_length_div hvalue (Nat.not_le.mp hlt).le
    have hplace : -(length (s.denominator / s.value) : ℤ) + 1 = -(k : ℕ) := by omega
    rw [hplace, hlength, zpow_neg, zpow_neg, zpow_natCast, zpow_natCast, ← one_div, ← one_div,
      center]
    constructor
    · rw [div_le_div_iff₀ (by positivity) hden, one_mul, mul_comm]
      exact_mod_cast hupper.le
    · rw [div_le_div_iff₀ hden (by positivity), one_mul, mul_comm]
      exact_mod_cast hlower

/-! ## The search -/

/-- **The search ends at the coarsest grid that meets the span,** if it does not end before. -/
theorem search_eq (h : (s.inUnits place).nearest? ≠ none) (hle : place ≤ top)
    (hgrids : top < place + grids) : ∃ q n, q ≤ top ∧ (s.inUnits q).nearest? = some n ∧
      (∀ p, q < p → p ≤ top → (s.inUnits p).nearest? = none) ∧
      s.search grids top = trim ⟨n, q⟩ := by
  induction grids generalizing top with
  | zero => omega
  | succ grids ih =>
    unfold search
    cases hnearest : (s.inUnits top).nearest? with
    | some n => exact ⟨top, n, le_refl _, hnearest, fun p hlt hle => absurd hlt (by omega), rfl⟩
    | none =>
      have hne : place ≠ top := fun heq => h (heq ▸ hnearest)
      have hbelow : place ≤ top - 1 := by omega
      obtain ⟨q, n, hq, hn, hmiss, hsearch⟩ := ih hbelow (by omega)
      refine ⟨q, n, by omega, hn, fun p hlt hle => ?_, hsearch⟩
      rcases hle.eq_or_lt with rfl | hlt'
      · exact hnearest
      · exact hmiss p hlt (by omega)

/-- A span with enough room around its value meets the grid seventeen places below the leading
digit. -/
theorem Proper.exists_hit (hs : s.Proper)
    (hroom : 3 * s.value < 2 ^ 55 * (s.upper - s.lower)) :
    (s.inUnits (s.leadingPlace - 17)).nearest? ≠ none := by
  have hden : (0 : ℚ) < s.denominator := by exact_mod_cast hs.denominator_pos
  have hunit : (10 : ℚ) ^ (s.leadingPlace - 17) * s.denominator * 10 ^ 17 ≤ s.value := by
    have hle := (le_div_iff₀ hden).mp hs.leadingPlace_spec.1
    rwa [zpow_sub₀ (by norm_num), mul_right_comm, zpow_ofNat, div_mul_cancel₀ _ (by norm_num)]
  have hroom' : (3 : ℚ) * s.value < 2 ^ 55 * (s.upper - s.lower) := by
    rw [← Nat.cast_sub (hs.lower_lt.trans hs.lt_upper).le]
    exact_mod_cast hroom
  generalize s.leadingPlace - 17 = place at *
  have hstep : (10 : ℚ) ^ place * s.denominator < s.upper - s.lower := by linarith
  have hwide :
      (s.inUnits place).lower + (s.inUnits place).denominator < (s.inUnits place).upper := by
    have hscale : (0 : ℚ) < 10 ^ (-place).toNat := by positivity
    have hden' : (s.denominator : ℚ) * 10 ^ place.toNat =
        10 ^ place * s.denominator * 10 ^ (-place).toNat := by
      rw [zpow_eq_div]
      field_simp
    have hmul := mul_lt_mul_of_pos_right hstep hscale
    rw [← hden', sub_mul] at hmul
    have hsum : (s.lower : ℚ) * 10 ^ (-place).toNat + s.denominator * 10 ^ place.toNat <
        s.upper * 10 ^ (-place).toNat := by linarith
    unfold Span.inUnits
    exact_mod_cast hsum
  obtain ⟨m, hm⟩ := (hs.inUnits place).exists_holds hwide
  intro hnone
  exact (hs.inUnits place).nearest?_eq_none_iff.mp hnone m hm

end Span

/-! ## The shortest decimal of a span -/

/-- What is taken from the grid of the leading digit has one digit, or is the next power of ten. -/
theorem isShortest_of_leading (hs : s.Proper) (hle : (10 : ℚ) ^ top ≤ s.center)
    (hge : s.center ≤ (10 : ℚ) ^ (top + 1)) (h : (s.inUnits top).nearest? = some n) :
    IsShortest s.Holds s.center (trim ⟨n, top⟩) := by
  obtain ⟨hn, hnearest⟩ := hs.hit h
  have hunit : (0 : ℚ) < 10 ^ top := by positivity
  have hone : value ⟨1, top⟩ = (10 : ℚ) ^ top := by rw [value, Nat.cast_one, one_mul]
  have hten : value ⟨10, top⟩ = (10 : ℚ) ^ (top + 1) := by
    rw [value, zpow_add_one₀ (by norm_num), mul_comm, Nat.cast_ofNat]
  have hpos : n ≠ 0 := by
    rintro rfl
    have hzero := hs.pos_of_holds hn
    rw [value, Nat.cast_zero, zero_mul] at hzero
    exact lt_irrefl _ hzero
  -- beyond ten the next power of ten would be nearer
  have hn10 : n ≤ 10 := by
    by_contra hgt
    have hcast : (10 : ℚ) < n := by exact_mod_cast Nat.not_le.mp hgt
    have hfar : value ⟨10, top⟩ < value ⟨n, top⟩ := mul_lt_mul_of_pos_right hcast hunit
    have hnear := hnearest 10 (hs.holds_center.between hn (hten ▸ hge) hfar.le)
    rw [hten] at hnear hfar
    rw [abs_of_nonneg (by linarith), abs_of_nonneg (by linarith)] at hnear
    linarith
  have hdigits : (trim ⟨n, top⟩).digits % 10 ≠ 0 ∧ (trim ⟨n, top⟩).digits < 10 := by
    unfold trim
    dsimp only
    split
    · dsimp only
      omega
    · dsimp only
      omega
  have hlength : length (trim ⟨n, top⟩).digits = 1 := by
    rw [length, Nat.toDigits_of_lt_base hdigits.2]
    rfl
  refine ⟨value_trim ⟨n, top⟩ ▸ hn, hdigits.1, fun e _ => ?_, fun e he hsame => ?_⟩
  · rw [hlength]
    exact Nat.length_toDigits_pos
  · rw [value_trim]
    rcases le_or_gt top e.exponent with hfine | hcoarse
    · have hrefined := value_refine e hfine
      exact hrefined ▸ hnearest _ (hrefined ▸ he)
    · have hbelow : e.value < (10 : ℚ) ^ top := by
        refine (value_lt_zpow e).trans_le (zpow_le_zpow_right₀ (by norm_num) ?_)
        omega
      have hnear := hnearest 1 (he.between hs.holds_center (hone ▸ hbelow.le) (hone ▸ hle))
      rw [hone] at hnear
      refine hnear.trans ?_
      rw [abs_of_nonpos (by linarith), abs_of_nonpos (by linarith)]
      linarith

/-- What is taken from a finer grid has no trailing zero, and fewer digits are not enough. -/
theorem isShortest_of_lower (hs : s.Proper) (hle : (10 : ℚ) ^ (q + 1) ≤ s.center)
    (h : (s.inUnits q).nearest? = some n) (hmiss : (s.inUnits (q + 1)).nearest? = none) :
    IsShortest s.Holds s.center (trim ⟨n, q⟩) := by
  obtain ⟨hn, hnearest⟩ := hs.hit h
  have hcoarse := hs.miss_iff.mp hmiss
  have htrailing : n % 10 ≠ 0 := by
    intro hzero
    have hvalue := value_trim ⟨n, q⟩
    rw [trim, if_pos hzero] at hvalue
    exact hcoarse (n / 10) (hvalue ▸ hn)
  have htrim : trim ⟨n, q⟩ = ⟨n, q⟩ := if_neg htrailing
  have hpower : ∀ t, q + 1 ≤ t → ¬ s.Holds ((10 : ℚ) ^ t) := fun t ht hholds =>
    hcoarse _ (zpow_refine ht ▸ hholds)
  have hlower : (10 : ℚ) ^ ((length n : ℤ) + q - 1) ≤ value ⟨n, q⟩ :=
    zpow_le_value (d := ⟨n, q⟩) fun (hzero : n = 0) => htrailing (by rw [hzero])
  have hlength : 2 ≤ length n := by
    by_contra hshort
    refine hpower (q + 1) (le_refl _) (hn.between hs.holds_center ?_ hle)
    refine (value_lt_zpow ⟨n, q⟩).le.trans (zpow_le_zpow_right₀ (by norm_num) ?_)
    dsimp only
    omega
  -- a competitor ends at this grid or below, and it does not end before the leading digit
  have hcompetitor : ∀ e : Decimal, s.Holds e.value →
      e.exponent ≤ q ∧ (length n : ℤ) + q ≤ length e.digits + e.exponent := by
    intro e he
    constructor
    · by_contra hgt
      exact hcoarse _ (value_refine e (Int.not_le.mp hgt) ▸ he)
    · by_contra hgt
      refine hpower ((length n : ℤ) + q - 1) (by omega) (he.between hn ?_ hlower)
      exact (value_lt_zpow e).le.trans (zpow_le_zpow_right₀ (by norm_num) (by omega))
  rw [htrim]
  refine ⟨hn, htrailing, fun e he => ?_, fun e he hsame => ?_⟩
  · have hends := hcompetitor e he
    dsimp only
    omega
  · obtain ⟨digits, exponent⟩ := e
    have hends := hcompetitor ⟨digits, exponent⟩ he
    dsimp only at hsame hends
    obtain rfl : exponent = q := by omega
    exact hnearest digits he

/-- A double's span reaches over at least three quarters of a step, and it has fewer than `2 ^ 53`
steps. -/
theorem Span.room_ofParts {p : Parts} (hpos : 0 < p.significand) (h : p.significand < 2 ^ 53) :
    3 * (Span.ofParts p).value < 2 ^ 55 * ((Span.ofParts p).upper - (Span.ofParts p).lower) := by
  unfold Span.ofParts
  dsimp only
  generalize p.steps - 1076 = up
  have hscale := Nat.two_pow_pos up
  rw [Nat.shiftLeft_eq, Nat.shiftLeft_eq, Nat.shiftLeft_eq, ← Nat.sub_mul, ← Nat.mul_assoc 3,
    ← Nat.mul_assoc (2 ^ 55)]
  refine Nat.mul_lt_mul_of_pos_right ?_ hscale
  split <;> omega

/-- **The decimal found is the shortest that rounds to the double.** -/
theorem isShortest_shortest {bits : ℕ} (hpos : 0 < bits) (h : bits < infinityBits) :
    IsShortest (IsNearest · bits) (magnitude bits) (shortest (Parts.ofBits bits)) := by
  have hs := Span.proper_ofParts (significand_pos hpos)
  have hroom := Span.room_ofParts (significand_pos hpos) (Parts.significand_lt bits)
  have hamong : (IsNearest · bits) = (Span.ofParts (Parts.ofBits bits)).Holds :=
    funext fun q => propext (holds_ofParts hpos h).symm
  rw [hamong, ← center_ofParts, shortest]
  generalize hspan : Span.ofParts (Parts.ofBits bits) = s at *
  obtain ⟨hle, hge⟩ := hs.leadingPlace_spec
  have hbelow : s.leadingPlace - 17 ≤ s.leadingPlace := by omega
  have hgrids : s.leadingPlace < s.leadingPlace - 17 + (18 : ℕ) := by omega
  obtain ⟨q, n, hq, hn, hmiss, hsearch⟩ := Span.search_eq (hs.exists_hit hroom) hbelow hgrids
  rw [hsearch]
  rcases hq.eq_or_lt with rfl | hlt
  · exact isShortest_of_leading hs hle hge hn
  · refine isShortest_of_lower hs (le_trans ?_ hle) hn (hmiss (q + 1) (by omega) hlt)
    exact zpow_le_zpow_right₀ (by norm_num) hlt

end Scriptlet.Decimal
