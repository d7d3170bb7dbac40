import Scriptlet.Evaluation

/-!
# Computations that differ in their faults

Some faults say more about how a computation was carried out than about what it computes: that the
bound on nesting was reached, or that a node was refused.  Two computations may then be the same
but for such faults of the first.

* `EndsIn E r`: the computation ended with a fault in `E`.
* `Refines E m n`: wherever the first computation does not end in such a fault, the second does
  exactly the same.  There is one rule for each way to put computations together.
* `eq_of_not_exhausted`: two computations that one and the same computation refines are equal where
  neither of them is exhausted.
-/

namespace Scriptlet

variable {α β : Type} {E : Fault → Prop}

/-- The computation ended with a fault in `E`. -/
def EndsIn (E : Fault → Prop) : EStateM.Result Fault World α → Prop
  | .ok _ _ => False
  | .error fault _ => E fault

instance [DecidablePred E] (r : EStateM.Result Fault World α) : Decidable (EndsIn E r) :=
  match r with
  | .ok _ _ => isFalse id
  | .error fault _ => inferInstanceAs (Decidable (E fault))

instance : DecidablePred (· = Fault.stackExhausted) := fun fault =>
  match fault with
  | .stackExhausted => isTrue rfl
  | .unsupportedNode .. | .unsupportedOperator _ | .tooManyDigits | .notCallable _
  | .integerTooLarge | .unwritable .. => isFalse nofun

/-- The computation ran out of its bound. -/
abbrev Exhausted (r : EStateM.Result Fault World α) : Prop := EndsIn (· = .stackExhausted) r

/-- Wherever the first computation does not end in a fault in `E`, the second does the same. -/
def Refines (E : Fault → Prop) (m n : Run α) : Prop := ∀ w, EndsIn E (m w) ∨ n w = m w

namespace Refines

variable {m n k : Run α}

theorem refl (m : Run α) : Refines E m m := fun _ => Or.inr rfl

theorem trans (h : Refines E m n) (h' : Refines E n k) : Refines E m k := by
  intro w
  rcases h w with hm | hm
  · exact Or.inl hm
  · rcases h' w with hn | hn
    · exact Or.inl (hm ▸ hn)
    · exact Or.inr (hn.trans hm)

theorem of_escapes {fault : Fault} (h : E fault) (n : Run α) : Refines E (throw fault) n :=
  fun _ => Or.inl h

theorem bind {k l : α → Run β} (h : Refines E m n) (hk : ∀ a, Refines E (k a) (l a)) :
    Refines E (m >>= k) (n >>= l) := by
  intro w
  have hmn := h w
  simp only [Bind.bind, EStateM.bind]
  cases hm : m w with
  | ok a v =>
    rw [hm] at hmn
    rw [hmn.resolve_left id]
    exact hk a v
  | error fault v =>
    rw [hm] at hmn
    rcases hmn with hescapes | hn
    · exact Or.inl hescapes
    · rw [hn]
      exact Or.inr rfl

end Refines

/-- What two computations are refined by is what they both do, where neither is exhausted. -/
theorem eq_of_not_exhausted {m n k : Run α} {w : World}
    (hm : Refines (· = .stackExhausted) m k) (hn : Refines (· = .stackExhausted) n k)
    (hmw : ¬ Exhausted (m w)) (hnw : ¬ Exhausted (n w)) : m w = n w :=
  ((hm w).resolve_left hmw).symm.trans ((hn w).resolve_left hnw)

/-! ## Lists -/

theorem refines_executeEach {exec exec' : Node → Run Outcome}
    (h : ∀ node, Refines E (exec node) (exec' node)) (nodes : List Node) :
    Refines E (executeEach exec nodes) (executeEach exec' nodes) := by
  induction nodes with
  | nil => exact Refines.refl _
  | cons node nodes ih =>
    refine Refines.bind (h node) fun outcome => ?_
    cases outcome with
    | proceed => exact ih
    | returned value => exact Refines.refl _

end Scriptlet
