import Scriptlet.Proofs.Binary64.Words

/-!
# Integers as doubles

A finite double that denotes an integer is the double nearest to that integer, because no
rounding takes place: the integer, scaled by `2 ^ 1074`, is the significand shifted by the steps,
and `nearestBits` finds both again.  Only the sign of a zero is lost.

* `Parts.significand_lt`, `Parts.le_significand`: the significand of some bits has 53 bits, and
  all of them when there are steps.
* `nearestBits_of_toNat?`: the magnitude nearest to the number that a magnitude denotes.
* `Same`: equality of doubles under which a value that is no number is the same as itself.
* `ofInt?_of_toInt?`: the integer that a double denotes gives a double that is the same and
  denotes the same integer.
-/

namespace Scriptlet.Binary64

/-! ## Significands -/

theorem log2_shiftLeft {n : Nat} (h : n ≠ 0) (k : Nat) : (n <<< k).log2 = n.log2 + k := by
  induction k with
  | zero => rfl
  | succ k ih =>
    have hpos : n <<< k ≠ 0 := fun hzero => h (Nat.shiftLeft_eq_zero_iff.1 hzero)
    rw [Nat.shiftLeft_succ, Nat.log2_two_mul hpos, ih, Nat.add_assoc]

section Significands

variable (bits : Nat)

theorem Parts.significand_lt : (Parts.ofBits bits).significand < 2 ^ 53 := by
  show bits - ((bits >>> 52) - 1) <<< 52 < 2 ^ 53
  rw [Nat.shiftLeft_eq, Nat.shiftRight_eq_div_pow]
  omega

/-- With steps the significand is normal. -/
theorem Parts.le_significand (h : (Parts.ofBits bits).steps ≠ 0) :
    2 ^ 52 ≤ (Parts.ofBits bits).significand := by
  change (bits >>> 52) - 1 ≠ 0 at h
  show 2 ^ 52 ≤ bits - ((bits >>> 52) - 1) <<< 52
  rw [Nat.shiftRight_eq_div_pow] at h
  rw [Nat.shiftLeft_eq, Nat.shiftRight_eq_div_pow]
  omega

/-- The steps are read back off the size of the shifted significand. -/
theorem Parts.log2_shiftLeft :
    ((Parts.ofBits bits).significand <<< (Parts.ofBits bits).steps).log2 - 52 =
      (Parts.ofBits bits).steps := by
  have hlt := Parts.significand_lt bits
  by_cases hsteps : (Parts.ofBits bits).steps = 0
  · have hlog : (Parts.ofBits bits).significand.log2 < 53 := by
      by_cases hzero : (Parts.ofBits bits).significand = 0
      · rw [hzero]
        decide
      · exact (Nat.log2_lt hzero).2 hlt
    rw [hsteps, Nat.shiftLeft_zero]
    omega
  · have hle := Parts.le_significand bits hsteps
    have hlog : (Parts.ofBits bits).significand.log2 = 52 :=
      (Nat.log2_eq_iff (by omega)).2 ⟨hle, hlt⟩
    rw [Binary64.log2_shiftLeft (by omega), hlog]
    omega

end Significands

/-! ## Exact division -/

/-- A multiple of the denominator needs no rounding. -/
theorem roundHalfEven_shiftLeft (n k : Nat) : roundHalfEven (n <<< k) (1 <<< k) = n := by
  have hpos : 0 < 2 ^ k := Nat.two_pow_pos k
  rw [roundHalfEven, Nat.shiftLeft_eq, Nat.shiftLeft_eq, Nat.one_mul, Nat.mul_mod_left,
    Nat.mul_div_cancel n hpos]
  exact if_neg (by omega)

/-- The number that a magnitude denotes, scaled, is the shifted significand. -/
theorem Parts.shiftLeft_of_toNat? {p : Parts} {n : Nat} (h : p.toNat? = some n) :
    n <<< 1074 = p.significand <<< p.steps := by
  unfold Parts.toNat? at h
  split at h
  · rename_i hle
    rw [← Option.some.inj h, ← Nat.shiftLeft_add, Nat.sub_add_cancel hle]
  · rename_i hlt
    split at h
    · rename_i hdvd
      have hsplit : 1074 = (1074 - p.steps) + p.steps := by omega
      rw [Nat.shiftLeft_eq, Nat.one_mul] at hdvd
      rw [← Option.some.inj h, hsplit, Nat.shiftLeft_add, ← hsplit, Nat.shiftRight_eq_div_pow,
        Nat.shiftLeft_eq _ (1074 - p.steps), Nat.div_mul_cancel (Nat.dvd_of_mod_eq_zero hdvd)]
    · exact nomatch h

/-- **No rounding of integers**: the magnitude nearest to the number that a finite magnitude
denotes is that magnitude. -/
theorem nearestBits_of_toNat? {bits n : Nat} (hfinite : bits < infinityBits)
    (h : (Parts.ofBits bits).toNat? = some n) : nearestBits n 1 = bits := by
  unfold nearestBits
  rw [Parts.shiftLeft_of_toNat? h]
  dsimp only
  rw [Nat.div_one, Parts.log2_shiftLeft, roundHalfEven_shiftLeft]
  show min infinityBits (Parts.ofBits bits).bits = bits
  rw [Parts.bits_ofBits]
  omega

/-! ## The integer of a double -/

/-- Equality of doubles under which a value that is no number is the same as itself, and the
zeros are the same. -/
def Same (x y : Float) : Prop := (x == y) = true ∨ (x.isNaN = true ∧ y.isNaN = true)

instance : DecidableRel Same := fun x y =>
  inferInstanceAs (Decidable ((x == y) = true ∨ (x.isNaN = true ∧ y.isNaN = true)))

theorem Same.refl (x : Float) : Same x x := by
  have hself := beq_self x
  cases hnan : x.isNaN with
  | false => exact Or.inl (by rw [hself, hnan]; rfl)
  | true => exact Or.inr ⟨hnan, hnan⟩

/-- What a double must be for it to denote an integer. -/
theorem exists_of_toInt? {x : Float} {n : Int} (h : toInt? x = some n) :
    magnitudeBits x < infinityBits ∧ ∃ k : Nat, (parts x).toNat? = some k ∧
      n = if isNegative x then -(k : Int) else k := by
  unfold toInt? at h
  split at h
  · exact nomatch h
  · rename_i hle
    cases hk : (parts x).toNat? with
    | none =>
      rw [hk] at h
      exact nomatch h
    | some k =>
      rw [hk] at h
      exact ⟨Nat.lt_of_not_le hle, k, rfl, (Option.some.inj h).symm⟩

/-- Only the zeros denote zero. -/
theorem magnitudeBits_eq_zero {x : Float} (hfinite : magnitudeBits x < infinityBits)
    (h : (parts x).toNat? = some 0) : magnitudeBits x = 0 := by
  rw [← nearestBits_of_toNat? hfinite h]
  rfl

/-- **Without a sign, integers survive as they are.** -/
theorem ofInt?_of_toInt?_of_not_isNegative {x : Float} {n : Int} (hsign : isNegative x = false)
    (h : toInt? x = some n) : ofInt? n = some x := by
  obtain ⟨hfinite, k, hk, hn⟩ := exists_of_toInt? h
  have hbits : nearestBits k 1 = magnitudeBits x := nearestBits_of_toNat? hfinite hk
  rw [hsign] at hn
  obtain rfl : n = k := hn
  have hsmall : ¬ nearestBits k 1 = infinityBits := by
    rw [hbits]
    omega
  unfold ofInt? nearest
  rw [Int.natAbs_natCast, if_neg hsmall, if_neg (Int.not_lt.mpr (Int.natCast_nonneg k)), hbits,
    ofBits_magnitudeBits hsign]

/-- **Integers survive**: the integer that a double denotes is the integer of a double that is
the same. -/
theorem ofInt?_of_toInt? {x : Float} {n : Int} (h : toInt? x = some n) :
    ∃ y, ofInt? n = some y ∧ Same x y ∧ toInt? y = some n := by
  obtain ⟨hfinite, k, hk, hn⟩ := exists_of_toInt? h
  have hbits : nearestBits k 1 = magnitudeBits x := nearestBits_of_toNat? hfinite hk
  have habs : n.natAbs = k := by
    rw [hn]
    split
    · exact (Int.natAbs_neg _).trans (Int.natAbs_natCast k)
    · exact Int.natAbs_natCast k
  have hsmall : ¬ nearestBits k 1 = infinityBits := by
    rw [hbits]
    omega
  unfold ofInt?
  rw [habs, if_neg hsmall]
  by_cases hzero : k = 0
  · -- The sign of a zero is not part of the integer, so only here the double may change.
    subst hzero
    have hn0 : n = 0 := Int.natAbs_eq_zero.1 habs
    have hx := beq_zero (magnitudeBits_eq_zero hfinite hk)
    subst hn0
    exact ⟨Float.ofBits 0, rfl, Or.inl hx, by decide⟩
  · refine ⟨x, ?_, Same.refl x, h⟩
    unfold nearest
    rw [hbits]
    cases hsign : isNegative x with
    | false =>
      rw [hsign] at hn
      rw [if_neg (by rw [hn]; exact Int.not_lt.2 (Int.natCast_nonneg k)),
        ofBits_magnitudeBits hsign]
    | true =>
      rw [hsign, if_pos rfl] at hn
      rw [if_pos (by omega), neg_ofBits_magnitudeBits hsign hfinite]

end Scriptlet.Binary64
