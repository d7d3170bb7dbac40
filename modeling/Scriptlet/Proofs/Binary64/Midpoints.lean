import Scriptlet.Proofs.Binary64.Nearest

/-!
# What rounds to a double

The rationals that round to a double are those between the two points half-way to its neighbours.
The ends belong to them if the double is even, for then it wins the ties.

* `halfway`: the point half-way between a double and the next.
* `isNearest_succ_iff`: **the rationals that round to a double.**
-/

namespace Scriptlet.Binary64

/-- The point half-way between the magnitude with the given bits and the next. -/
def halfway (bits : ℕ) : ℚ := (magnitude bits + magnitude (bits + 1)) / 2

section Distances

variable {q a b : ℚ}

/-- Of two points the upper one is nearer from the point half-way on. -/
theorem dist_upper_le_iff (h : a < b) : |q - b| ≤ |q - a| ↔ (a + b) / 2 ≤ q := by
  rcases abs_cases (q - a) with ⟨ha, _⟩ | ⟨ha, _⟩ <;>
    rcases abs_cases (q - b) with ⟨hb, _⟩ | ⟨hb, _⟩ <;>
    rw [ha, hb] <;> constructor <;> intro _ <;> linarith

theorem dist_lower_le_iff (h : a < b) : |q - a| ≤ |q - b| ↔ q ≤ (a + b) / 2 := by
  rcases abs_cases (q - a) with ⟨ha, _⟩ | ⟨ha, _⟩ <;>
    rcases abs_cases (q - b) with ⟨hb, _⟩ | ⟨hb, _⟩ <;>
    rw [ha, hb] <;> constructor <;> intro _ <;> linarith

theorem dist_eq_iff (h : a < b) : |q - a| = |q - b| ↔ q = (a + b) / 2 := by
  rw [le_antisymm_iff, dist_lower_le_iff h, dist_upper_le_iff h, le_antisymm_iff]

end Distances

section Midpoints

variable {q : ℚ} {bits : ℕ}

theorem halfway_lt_magnitude (bits : ℕ) : halfway bits < magnitude (bits + 1) := by
  have hmono := magnitude_strictMono (Nat.lt_succ_self bits)
  rw [halfway]
  linarith

theorem magnitude_lt_halfway (bits : ℕ) : magnitude bits < halfway bits := by
  have hmono := magnitude_strictMono (Nat.lt_succ_self bits)
  rw [halfway]
  linarith

/-- **The rationals that round to a double** are those between the points half-way to its
neighbours, and these points themselves if it is even. -/
theorem isNearest_succ_iff (h : bits + 1 < infinityBits) : IsNearest q (bits + 1) ↔
    halfway bits ≤ q ∧ q ≤ halfway (bits + 1) ∧
      ((bits + 1) % 2 = 1 → halfway bits ≠ q ∧ q ≠ halfway (bits + 1)) := by
  have hlower := magnitude_strictMono (Nat.lt_succ_self bits)
  have hupper := magnitude_strictMono (Nat.lt_succ_self (bits + 1))
  constructor
  · intro hq
    refine ⟨(dist_upper_le_iff hlower).mp (hq.dist_le bits (by omega)),
      (dist_lower_le_iff hupper).mp (hq.dist_le (bits + 1 + 1) h), fun hodd => ⟨?_, ?_⟩⟩
    · intro hmid
      have htie := (dist_eq_iff hlower).mpr hmid.symm
      have heven := hq.even_of_tie bits (by omega) (by omega) htie
      omega
    · intro hmid
      have htie := (dist_eq_iff hupper).mpr hmid
      have heven := hq.even_of_tie (bits + 1 + 1) h (by omega) htie.symm
      omega
  · rintro ⟨hle, hle', hodd⟩
    rcases le_total q (magnitude (bits + 1)) with hbelow | habove
    · have habove : magnitude bits ≤ q := (magnitude_lt_halfway bits).le.trans hle
      refine isNearest_of_between habove hbelow (Or.inr ⟨rfl, rfl⟩) h.le
        ((dist_upper_le_iff hlower).mpr hle) fun htie => ?_
      have hmid := (dist_eq_iff hlower).mp htie
      by_contra heven
      exact (hodd (by omega)).1 hmid.symm
    · have hbelow : q ≤ magnitude (bits + 1 + 1) :=
        hle'.trans (halfway_lt_magnitude (bits + 1)).le
      refine isNearest_of_between habove hbelow (Or.inl ⟨rfl, rfl⟩) h.le
        ((dist_lower_le_iff hupper).mpr hle') fun htie => ?_
      have hmid := (dist_eq_iff hupper).mp htie.symm
      by_contra heven
      exact (hodd (by omega)).2 hmid

end Midpoints

end Scriptlet.Binary64
