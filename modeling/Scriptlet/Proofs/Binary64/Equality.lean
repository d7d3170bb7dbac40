import Scriptlet.Proofs.Binary64.Words

/-!
# Equal doubles

Doubles are compared as numbers.  The zeros are equal although their signs differ, and a double that
is no number equals nothing.  Apart from that, equal doubles are the same double.

* `isNaN_iff`: the doubles that are no numbers, by their bits.
* `eq_of_unpack`: a double is the number in its word.
* `beq_iff`: **comparing doubles decides `Equal`.**
* `Equal.symm`, `Equal.trans`: so `==` is symmetric and transitive.
-/

namespace Scriptlet.Binary64

open Float.Model (UnpackedFloat)
open Float.Model.UnpackedFloat (unpack Sign)

variable {x y z : Float} {s : Sign} {e : BitVec 11} {m : BitVec 52}

/-! ## The kind of a double -/

/-- What is beyond infinity is no number. -/
theorem isNaN_iff : x.isNaN = true ↔ infinityBits < magnitudeBits x := by
  obtain ⟨s, e, m, hword⟩ := exists_eq_word x.toBits.toBitVec
  have he := e.isLt
  have hm := m.isLt
  have hmax : e = -1#11 ↔ e.toNat = 2047 :=
    ⟨fun h => h ▸ rfl, fun h => BitVec.eq_of_toNat_eq h⟩
  have hzero : m = 0#52 ↔ m.toNat = 0 := ⟨fun h => h ▸ rfl, fun h => BitVec.eq_of_toNat_eq h⟩
  rw [magnitudeBits_of_word hword, infinityBits, Nat.shiftLeft_eq]
  show (unpack .binary64 x.toBits.toBitVec).isNaN = true ↔ _
  rw [hword, unpack_word]
  split
  · rename_i htop
    rw [hmax] at htop
    split
    · rename_i hm0
      rw [hzero] at hm0
      exact iff_of_false Bool.false_ne_true (by omega)
    · rename_i hm0
      rw [hzero] at hm0
      exact iff_of_true rfl (by omega)
  · rename_i htop
    rw [hmax] at htop
    refine iff_of_false ?_ (by omega)
    split
    · split <;> exact Bool.false_ne_true
    · exact Bool.false_ne_true

theorem magnitudeBits_le_of_isNaN (h : x.isNaN = false) : magnitudeBits x ≤ infinityBits :=
  Nat.le_of_not_lt fun hlt => Bool.false_ne_true (h.symm.trans (isNaN_iff.mpr hlt))

/-- The number in the word of a double is a zero if nothing but its sign is set. -/
theorem unpack_eq_zero_iff : (∃ s, x.toModel.unpack = .zero s) ↔ magnitudeBits x = 0 := by
  obtain ⟨s, e, m, hword⟩ := exists_eq_word x.toBits.toBitVec
  show (∃ s, unpack .binary64 x.toBits.toBitVec = .zero s) ↔ _
  rw [magnitudeBits_of_word hword, hword, unpack_word]
  constructor
  · rintro ⟨s', h⟩
    split at h
    · split at h <;> cases h
    · split at h
      · rename_i he
        split at h
        · rename_i hm
          rw [he, hm]
          rfl
        · cases h
      · cases h
  · intro h
    have he : e = 0#11 := BitVec.eq_of_toNat_eq (by show e.toNat = 0; omega)
    have hm : m = 0#52 := BitVec.eq_of_toNat_eq (by show m.toNat = 0; omega)
    refine ⟨s, ?_⟩
    rw [he, hm]
    rfl

/-- **A double is the number in its word.** -/
theorem eq_of_unpack (h : x.toModel.unpack = y.toModel.unpack) : x = y := by
  have hpack : Float.ofBits x.toBits = Float.ofBits y.toBits :=
    congrArg (fun u => Float.ofModel (Float.Model.pack u)) h
  rwa [ofBits_toBits, ofBits_toBits] at hpack

/-! ## Comparing doubles -/

/-- Numbers are compared by their sign, exponent and mantissa, so equal ones have the same; and the
zeros are equal. -/
theorem compare_eq_iff {u v : UnpackedFloat} : UnpackedFloat.compare u v = some .eq ↔
    u.isNaN = false ∧ v.isNaN = false ∧ (u = v ∨ (∃ s, u = .zero s) ∧ ∃ s, v = .zero s) := by
  have hfinite {e₁ e₂ : ℤ} {m₁ m₂ : ℕ} :
      (compare e₁ e₂).then (compare m₁ m₂) = .eq ↔ m₁ = m₂ ∧ e₁ = e₂ := by
    rw [Ordering.then_eq_eq, Std.LawfulEqCmp.compare_eq_iff_eq, Std.LawfulEqCmp.compare_eq_iff_eq,
      and_comm]
  cases u with
  | notANumber => exact iff_of_false nofun nofun
  | infinity s =>
    cases v with
    | infinity s' =>
      cases s <;> cases s' <;> simp [UnpackedFloat.compare, UnpackedFloat.isNaN] <;> decide
    | notANumber | zero | finite => cases s <;> simp [UnpackedFloat.compare, UnpackedFloat.isNaN]
  | zero s =>
    cases v with
    | infinity s' => cases s' <;> simp [UnpackedFloat.compare, UnpackedFloat.isNaN]
    | finite s' => cases s' <;> simp [UnpackedFloat.compare, UnpackedFloat.isNaN]
    | notANumber | zero => simp [UnpackedFloat.compare, UnpackedFloat.isNaN]
  | finite s m e h =>
    cases v with
    | infinity s' => cases s' <;> simp [UnpackedFloat.compare, UnpackedFloat.isNaN]
    | finite s' m' e' h' =>
      cases s <;> cases s' <;>
        simp [UnpackedFloat.compare, UnpackedFloat.isNaN, hfinite, Ordering.swap_eq_eq]
    | notANumber | zero => cases s <;> simp [UnpackedFloat.compare, UnpackedFloat.isNaN]

/-- Equality of numbers: both are numbers, and they are the same or both zero. -/
def Equal (x y : Float) : Prop :=
  x.isNaN = false ∧ y.isNaN = false ∧ (x = y ∨ magnitudeBits x = 0 ∧ magnitudeBits y = 0)

/-- **Comparing doubles decides whether they are equal numbers.** -/
theorem beq_iff : (x == y) = true ↔ Equal x y := by
  have hcompare : (x == y) = true ↔
      UnpackedFloat.compare x.toModel.unpack y.toModel.unpack = some .eq := by
    show (UnpackedFloat.compare x.toModel.unpack y.toModel.unpack == some .eq) = true ↔ _
    exact beq_iff_eq
  have hsame : x.toModel.unpack = y.toModel.unpack ↔ x = y :=
    ⟨eq_of_unpack, fun h => h ▸ rfl⟩
  rw [hcompare, compare_eq_iff, unpack_eq_zero_iff, unpack_eq_zero_iff, hsame]
  rfl

theorem Equal.symm (h : Equal x y) : Equal y x :=
  ⟨h.2.1, h.1, h.2.2.imp Eq.symm And.symm⟩

theorem Equal.trans (h : Equal x y) (h' : Equal y z) : Equal x z := by
  obtain ⟨hx, -, hxy⟩ := h
  obtain ⟨-, hz, hyz⟩ := h'
  refine ⟨hx, hz, ?_⟩
  rcases hxy with rfl | ⟨hxzero, hyzero⟩
  · exact hyz
  · rcases hyz with rfl | ⟨-, hzzero⟩
    · exact Or.inr ⟨hxzero, hyzero⟩
    · exact Or.inr ⟨hxzero, hzzero⟩

theorem equal_self (h : x.isNaN = false) : Equal x x := ⟨h, h, Or.inl rfl⟩

/-- What is no number equals nothing. -/
theorem nan_beq (x : Float) : (nan == x) = false := by
  have hnan : nan.isNaN = true := by decide +kernel
  exact Bool.eq_false_iff.mpr fun h => Bool.false_ne_true ((beq_iff.mp h).1.symm.trans hnan)

/-- It does not matter which of two doubles is compared with the other. -/
theorem beq_comm (x y : Float) : (x == y) = (y == x) := by
  rw [Bool.eq_iff_iff, beq_iff, beq_iff]
  exact ⟨Equal.symm, Equal.symm⟩

end Scriptlet.Binary64
