import Mathlib
import Scriptlet.Binary64

/-!
# Doubles as words

A double is a word of 64 bits: a sign, an exponent field of eleven bits and a mantissa field of
fifty-two.  The operations on doubles take the word apart, work on the number inside and put the
word together again, so what they do to a double is known once these two passages are.

* `word`, `exists_eq_word`, `toNat_word`: words by their fields.
* `unpack_word`, `pack_unpack_word`: the number in a word, and the word of that number, which is
  the word itself unless it is no number with a payload.
* `ofBits_toBits`, `eq_of_toBits`: a double is its word.
* `toBits_ofBits`, `isNegative_nearest`: so is the double made of the bits of a magnitude, and it
  has no sign.
* `magnitudeBits_of_word`, `isNegative_of_word`, `eq_of_magnitudeBits`: a double is its magnitude
  bits with its sign.
* `magnitudeBits_neg`, `isNegative_neg`: negation changes the sign alone.
* `ofBits_magnitudeBits`, `neg_ofBits_magnitudeBits`: so a finite double is the double of its
  magnitude bits, up to the sign.
* `beq_self`, `beq_zero`: a double equals itself unless it is no number, and both zeros are
  equal to `0`.
-/

namespace Scriptlet.Binary64

open Float.Model (UnpackedFloat Format)
open Float.Model.UnpackedFloat

/-! ## The fields of a word -/

/-- The word with a sign, an exponent field and a mantissa field. -/
def word (s : Sign) (e : BitVec 11) (m : BitVec 52) : BitVec 64 :=
  packComponents .binary64 s e m

section Fields

variable (s : Sign) (e : BitVec 11) (m : BitVec 52)

theorem toNat_word :
    (word s e m).toNat = s.toBitVec.toNat * 2 ^ 63 + e.toNat * 2 ^ 52 + m.toNat := by
  have he := e.isLt
  have hm := m.isLt
  rw [word, packComponents, BitVec.toNat_append, BitVec.toNat_append,
    ← Nat.shiftLeft_add_eq_or_of_lt hm, ← Nat.shiftLeft_add_eq_or_of_lt he]
  simp only [Nat.shiftLeft_eq]
  omega

theorem unpackMantissa_word : @unpackMantissa .binary64 (word s e m) = m :=
  unpackMantissa_packComponents

theorem unpackExponent_word : @unpackExponent .binary64 (word s e m) = e :=
  unpackExponent_packComponents

theorem unpackSign_word : Sign.ofBitVec (@unpackSign .binary64 (word s e m)) = s := by
  have h : @unpackSign .binary64 (word s e m) = s.toBitVec := by
    have he := e.isLt
    have hm := m.isLt
    have hs := s.toBitVec.isLt
    rw [← BitVec.toNat_inj]
    simp only [unpackSign, BitVec.toNat_cast, BitVec.extractLsb_toNat, toNat_word]
    rw [Nat.shiftRight_eq_div_pow]
    show _ / 2 ^ 63 % 2 = _
    omega
  rw [h]
  cases s <;> rfl

/-- A normal mantissa has its leading bit in front of its field. -/
theorem toNat_one_append : (1#1 ++ m).toNat = 2 ^ 52 + m.toNat := by
  rw [BitVec.toNat_append, ← Nat.shiftLeft_add_eq_or_of_lt m.isLt, Nat.shiftLeft_eq]
  rfl

end Fields

/-- Every word has its fields. -/
theorem exists_eq_word (b : BitVec 64) : ∃ s e m, b = word s e m := by
  have hb := b.isLt
  refine ⟨if b.toNat / 2 ^ 63 = 0 then .positive else .negative,
    BitVec.ofNat 11 (b.toNat / 2 ^ 52), BitVec.ofNat 52 b.toNat, BitVec.eq_of_toNat_eq ?_⟩
  rw [toNat_word, BitVec.toNat_ofNat, BitVec.toNat_ofNat]
  split
  · show _ = 0 * 2 ^ 63 + _ + _
    omega
  · show _ = 1 * 2 ^ 63 + _ + _
    omega

/-! ## The number in a word -/

section Numbers

variable (s : Sign) (e : BitVec 11) (m : BitVec 52)

theorem unpack_word : unpack .binary64 (word s e m) =
    if e = -1#11 then if m = 0#52 then .infinity s else .notANumber
    else if e = 0#11 then
      if h : m = 0#52 then .zero s
      else .finite s m.toNat (-1074) (by simpa [BitVec.toNat_pos, BitVec.pos_iff_ne_zero])
    else .finite s (1#1 ++ m).toNat (e.toNat - 1075) (by rw [toNat_one_append]; omega) := by
  unfold UnpackedFloat.unpack
  simp only [unpackMantissa_word, unpackExponent_word, unpackSign_word]
  split
  · rfl
  · split
    · rename_i hzero
      subst hzero
      split
      · rfl
      · rfl
    · rfl

/-- Negating the number in a word changes the sign of the word. -/
theorem unpack_word_neg :
    (unpack .binary64 (word s e m)).neg = unpack .binary64 (word (-s) e m) := by
  simp only [unpack_word]
  split
  · split
    · rfl
    · rfl
  · split
    · split
      · rfl
      · rfl
    · rfl

theorem pack_subnormal (h : 0 < m.toNat) :
    pack .binary64 (.finite s m.toNat (-1074) h) = word s 0#11 m := by
  have hlog : m.toNat.log2 < 52 := (Nat.log2_lt (by omega)).2 m.isLt
  have hbits : ¬ m.toNat.log2 + 1 = Format.binary64.mantissaBits := by
    show ¬ m.toNat.log2 + 1 = 53
    omega
  unfold UnpackedFloat.pack
  dsimp only
  rw [if_neg (by decide), if_neg hbits, BitVec.ofNat_toNat, BitVec.setWidth_eq]
  rfl

theorem pack_normal (h : 0 < (1#1 ++ m).toNat) (he : e ≠ -1#11) :
    pack .binary64 (.finite s (1#1 ++ m).toNat (e.toNat - 1075) h) = word s e m := by
  have hm := m.isLt
  have hbias : ((e.toNat : Int) - 1075 + Format.binary64.exponentBias +
      Format.binary64.mantissaBitsWithoutImplicit).toNat = e.toNat := by
    show ((e.toNat : Int) - 1075 + 1023 + 52).toNat = e.toNat
    omega
  have hexponent : ¬ 2 ^ Format.binary64.exponentBits ≤ e.toNat + 1 := by
    intro hle
    have hlt := e.isLt
    change 2 ^ 11 ≤ e.toNat + 1 at hle
    have hmax : e.toNat = 2 ^ 11 - 1 := by omega
    exact he (BitVec.eq_of_toNat_eq hmax)
  have hlog : (1#1 ++ m).toNat.log2 = 52 := by
    rw [Nat.log2_eq_iff (Nat.ne_of_gt h), toNat_one_append]
    omega
  have hmantissa : BitVec.ofNat 52 (1#1 ++ m).toNat = m := by
    apply BitVec.eq_of_toNat_eq
    rw [toNat_one_append, BitVec.toNat_ofNat]
    omega
  unfold UnpackedFloat.pack
  simp only [hbias]
  rw [if_neg hexponent, if_pos (by rw [hlog]; rfl)]
  show word s (BitVec.ofNat 11 e.toNat) (BitVec.ofNat 52 (1#1 ++ m).toNat) = word s e m
  rw [hmantissa, BitVec.ofNat_toNat, BitVec.setWidth_eq]

/-- The word of the number in a word is that word, payloads aside. -/
theorem pack_unpack_word (h : e = -1#11 → m = 0#52) :
    pack .binary64 (unpack .binary64 (word s e m)) = word s e m := by
  rw [unpack_word]
  split
  · rename_i he
    rw [if_pos (h he), he, h he]
    rfl
  · rename_i he
    split
    · rename_i hzero
      split
      · rename_i hm
        rw [hzero, hm]
        rfl
      · rw [pack_subnormal, hzero]
    · exact pack_normal s e m _ he

end Numbers

/-! ## Doubles -/

/-- **A double is the double of its bits**.  There is one double that is no number, and its
payload is the one that packing writes. -/
theorem ofBits_toBits (x : Float) : Float.ofBits x.toBits = x := by
  obtain ⟨⟨bits, valid⟩⟩ := x
  obtain ⟨s, e, m, hword⟩ := exists_eq_word bits.toBitVec
  have hpack : pack .binary64 (unpack .binary64 bits.toBitVec) = bits.toBitVec := by
    rw [hword] at valid ⊢
    by_cases h : e = -1#11 → m = 0#52
    · exact pack_unpack_word s e m h
    · rw [Classical.not_imp] at h
      obtain ⟨he, hm⟩ := h
      have hnan : word s e m = packedNaN .binary64 :=
        valid.eq_packedNaN ((unpackExponent_word s e m).trans he)
          fun h => hm ((unpackMantissa_word s e m).symm.trans h)
      rw [unpack_word, if_pos he, if_neg hm, hnan]
      rfl
  show Float.ofModel (Float.Model.ofBits bits) = _
  congr 1
  unfold Float.Model.ofBits Float.Model.pack
  congr 1
  exact congrArg UInt64.ofBitVec hpack

/-- Doubles with the same bits are the same. -/
theorem eq_of_toBits {x y : Float} (h : x.toBits = y.toBits) : x = y := by
  rw [← ofBits_toBits x, h, ofBits_toBits]

/-- The bits of a magnitude are those of the double made of them. -/
theorem toBits_ofBits {bits : Nat} (h : bits ≤ infinityBits) :
    (Float.ofBits (UInt64.ofNat bits)).toBits = UInt64.ofNat bits := by
  obtain ⟨s, e, m, hword⟩ := exists_eq_word (UInt64.ofNat bits).toBitVec
  have hpack : pack .binary64 (unpack .binary64 (word s e m)) = word s e m := by
    refine pack_unpack_word s e m fun he => BitVec.eq_of_toNat_eq ?_
    have hbits : bits % 2 ^ 64 = s.toBitVec.toNat * 2 ^ 63 + e.toNat * 2 ^ 52 + m.toNat := by
      rw [← toNat_word, ← hword]
      rfl
    have hmax : e.toNat = 2047 := congrArg BitVec.toNat he
    rw [infinityBits, Nat.shiftLeft_eq] at h
    show m.toNat = 0
    omega
  show UInt64.ofBitVec (pack .binary64 (unpack .binary64 (UInt64.ofNat bits).toBitVec)) = _
  rw [hword, hpack, ← hword]

theorem isNegative_ofBits {bits : Nat} (h : bits ≤ infinityBits) :
    isNegative (Float.ofBits (UInt64.ofNat bits)) = false := by
  have hlt : bits < 2 ^ 63 := by
    rw [infinityBits, Nat.shiftLeft_eq] at h
    omega
  rw [isNegative, toBits_ofBits h, decide_eq_false_iff_not, UInt64.toNat_ofNat', Nat.shiftLeft_eq]
  omega

/-- What is rounded has no sign. -/
theorem isNegative_nearest (numerator denominator : Nat) :
    isNegative (nearest numerator denominator) = false :=
  isNegative_ofBits (Nat.min_le_left ..)

theorem magnitudeBits_ofBits {bits : Nat} (h : bits ≤ infinityBits) :
    magnitudeBits (Float.ofBits (UInt64.ofNat bits)) = bits := by
  have hlt : infinityBits < 2 ^ 63 := by decide
  rw [magnitudeBits, toBits_ofBits h, UInt64.toNat_ofNat', Nat.shiftLeft_eq]
  omega

section Magnitudes

variable {x y : Float} {s : Sign} {e : BitVec 11} {m : BitVec 52}

theorem magnitudeBits_of_word (h : x.toBits.toBitVec = word s e m) :
    magnitudeBits x = e.toNat * 2 ^ 52 + m.toNat := by
  have he := e.isLt
  have hm := m.isLt
  have hbits : x.toBits.toNat = s.toBitVec.toNat * 2 ^ 63 + e.toNat * 2 ^ 52 + m.toNat := by
    rw [← toNat_word, ← h]
    rfl
  rw [magnitudeBits, hbits, Nat.shiftLeft_eq]
  omega

/-- The sign bit is set just if the sign field is. -/
theorem isNegative_of_word (h : x.toBits.toBitVec = word s e m) :
    isNegative x = true ↔ s = .negative := by
  have he := e.isLt
  have hm := m.isLt
  have hbits : x.toBits.toNat = s.toBitVec.toNat * 2 ^ 63 + e.toNat * 2 ^ 52 + m.toNat :=
    (congrArg BitVec.toNat h).trans (toNat_word s e m)
  rw [isNegative, decide_eq_true_iff, hbits, Nat.shiftLeft_eq]
  cases s with
  | positive =>
    refine iff_of_false ?_ nofun
    show ¬ _ ≤ 0 * 2 ^ 63 + _ + _
    omega
  | negative =>
    refine iff_of_true ?_ rfl
    show _ ≤ 1 * 2 ^ 63 + _ + _
    omega

/-- **A double without a sign is the double of its magnitude bits**. -/
theorem ofBits_magnitudeBits (h : isNegative x = false) :
    Float.ofBits (UInt64.ofNat (magnitudeBits x)) = x := by
  have hbits : UInt64.ofNat (magnitudeBits x) = x.toBits := by
    rw [isNegative, decide_eq_false_iff_not, Nat.shiftLeft_eq] at h
    rw [magnitudeBits, Nat.shiftLeft_eq, Nat.mod_eq_of_lt (by omega), UInt64.ofNat_toNat]
  rw [hbits, ofBits_toBits]

/-- Doubles with the same sign and the same magnitude bits are the same. -/
theorem eq_of_magnitudeBits (hsign : isNegative x = isNegative y)
    (hbits : magnitudeBits x = magnitudeBits y) : x = y := by
  apply eq_of_toBits
  apply UInt64.toNat_inj.mp
  have hx := x.toBits.toNat_lt
  have hy := y.toBits.toNat_lt
  rw [isNegative, isNegative, decide_eq_decide, Nat.shiftLeft_eq] at hsign
  rw [magnitudeBits, magnitudeBits, Nat.shiftLeft_eq] at hbits
  omega

/-- Negation keeps the fields of a double that is a number, apart from its sign. -/
theorem toBits_neg (hword : x.toBits.toBitVec = word s e m) (h : magnitudeBits x ≤ infinityBits) :
    (-x).toBits.toBitVec = word (-s) e m := by
  have hnumber : e = -1#11 → m = 0#52 := by
    rintro rfl
    rw [magnitudeBits_of_word hword, infinityBits, Nat.shiftLeft_eq] at h
    have hmax : (-1#11).toNat = 2047 := rfl
    exact BitVec.eq_of_toNat_eq (by show m.toNat = 0; omega)
  show pack .binary64 (unpack .binary64 x.toBits.toBitVec).neg = _
  rw [hword, unpack_word_neg, pack_unpack_word _ _ _ hnumber]

theorem magnitudeBits_neg (h : magnitudeBits x ≤ infinityBits) :
    magnitudeBits (-x) = magnitudeBits x := by
  obtain ⟨s, e, m, hword⟩ := exists_eq_word x.toBits.toBitVec
  rw [magnitudeBits_of_word hword, magnitudeBits_of_word (toBits_neg hword h)]

theorem isNegative_neg (h : magnitudeBits x ≤ infinityBits) : isNegative (-x) = !isNegative x := by
  obtain ⟨s, e, m, hword⟩ := exists_eq_word x.toBits.toBitVec
  have hsign := isNegative_of_word hword
  have hsign' := isNegative_of_word (toBits_neg hword h)
  rw [Bool.eq_not_iff, Ne, Bool.eq_iff_iff, hsign, hsign']
  cases s with
  | negative => exact fun h => nomatch h.mpr rfl
  | positive => exact fun h => nomatch h.mp rfl

/-- **A finite double with a sign is the negation of the double of its magnitude bits**. -/
theorem neg_ofBits_magnitudeBits (hsign : isNegative x = true)
    (hfinite : magnitudeBits x < infinityBits) :
    -Float.ofBits (UInt64.ofNat (magnitudeBits x)) = x := by
  have hbits := magnitudeBits_ofBits hfinite.le
  apply eq_of_magnitudeBits
  · rw [isNegative_neg (hbits.trans_le hfinite.le), isNegative_ofBits hfinite.le, hsign]
    rfl
  · rw [magnitudeBits_neg (hbits.trans_le hfinite.le), hbits]

end Magnitudes

/-! ## Equal doubles -/

/-- A double equals itself unless it is no number. -/
theorem beq_self (x : Float) : (x == x) = !x.isNaN := by
  show (UnpackedFloat.compare x.toModel.unpack x.toModel.unpack == some .eq) =
    !x.toModel.unpack.isNaN
  cases x.toModel.unpack with
  | infinity s => cases s <;> rfl
  | notANumber => rfl
  | zero s => rfl
  | finite s m e h =>
    have he : compare e e = .eq := Std.ReflCmp.compare_self
    have hm : compare m m = .eq := Std.ReflCmp.compare_self
    cases s with
    | negative =>
      show (some ((compare e e).then (compare m m)).swap == some .eq) = true
      rw [he, hm]
      rfl
    | positive =>
      show (some ((compare e e).then (compare m m)) == some .eq) = true
      rw [he, hm]
      rfl

/-- Both zeros equal the zero without a sign. -/
theorem beq_zero {x : Float} (h : magnitudeBits x = 0) : (x == Float.ofBits 0) = true := by
  obtain ⟨s, e, m, hword⟩ := exists_eq_word x.toBits.toBitVec
  rw [magnitudeBits_of_word hword] at h
  have he : e = 0#11 := BitVec.eq_of_toNat_eq (by show e.toNat = 0; omega)
  have hm : m = 0#52 := BitVec.eq_of_toNat_eq (by show m.toNat = 0; omega)
  show (UnpackedFloat.compare (unpack .binary64 x.toBits.toBitVec) _ == some .eq) = true
  rw [hword, he, hm]
  cases s <;> rfl

end Scriptlet.Binary64
