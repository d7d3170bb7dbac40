import Scriptlet.Evaluation
import Scriptlet.Proofs.Conversions

/-!
# Values that no operator tells apart

A function shows nothing of itself but its name, and `==` tells functions apart by their identities
alone.  So two runs may have different functions in the same places and still see the same, as
long as they agree on which of them are one and the same.

* `Value.Akin`: the same plain value, or functions of one name.
* Values that are akin have the same text, the same truth and the same number.
* `Value.Akin.operate_eq`: operators give the same for them, if functions are equal on one side
  just if they are on the other.
-/

namespace Scriptlet

namespace Value

/-- The same plain value, or functions of one name. -/
inductive Akin : Value → Value → Prop
  | plain {a : Value} (ha : a.isFunction = false) : Akin a a
  | functions {a b : Value} {name : Text} {i j : Nat} (ha : a.asFunction? = some (name, i))
      (hb : b.asFunction? = some (name, j)) : Akin a b

section Functions

variable {a : Value} {name : Text} {i : Nat} (h : a.asFunction? = some (name, i))

include h

theorem isFunction_of_asFunction? : a.isFunction = true := by
  rw [isFunction, h]
  rfl

theorem toText_of_asFunction? : a.toText = "function " ++ name ++ "() \x7b [code] \x7d" := by
  cases a with
  | closure | builtin =>
    cases h
    rfl
  | _ => cases h

theorem display_of_asFunction? : a.display = "[Function: " ++ name ++ "]" := by
  cases a with
  | closure | builtin =>
    cases h
    rfl
  | _ => cases h

theorem isTruthy_of_asFunction? : a.isTruthy = true := by
  cases a with
  | closure | builtin => rfl
  | _ => cases h

theorem toNumber_of_asFunction? : a.toNumber = .ok Binary64.nan := by
  cases a with
  | closure | builtin => rfl
  | _ => cases h

end Functions

/-- Functions on both sides are equal together. -/
def EqualTogether (a b a' b' : Value) : Prop :=
  ∀ m n m' n' i j i' j', a.asFunction? = some (m, i) → b.asFunction? = some (n, j) →
    a'.asFunction? = some (m', i') → b'.asFunction? = some (n', j') → (i = j ↔ i' = j')

namespace Akin

variable {a b a' b' : Value} (h : a.Akin b)

section One

include h

theorem isFunction_eq : a.isFunction = b.isFunction := by
  cases h with
  | plain => rfl
  | functions ha hb => rw [isFunction_of_asFunction? ha, isFunction_of_asFunction? hb]

/-- Only functions can be akin and not equal. -/
theorem eq_of_not_isFunction (hplain : a.isFunction = false) : a = b := by
  cases h with
  | plain => rfl
  | functions ha => exact nomatch hplain.symm.trans (isFunction_of_asFunction? ha)

theorem toText_eq : a.toText = b.toText := by
  cases h with
  | plain => rfl
  | functions ha hb => rw [toText_of_asFunction? ha, toText_of_asFunction? hb]

theorem display_eq : a.display = b.display := by
  cases h with
  | plain => rfl
  | functions ha hb => rw [display_of_asFunction? ha, display_of_asFunction? hb]

theorem isTruthy_eq : a.isTruthy = b.isTruthy := by
  cases h with
  | plain => rfl
  | functions ha hb => rw [isTruthy_of_asFunction? ha, isTruthy_of_asFunction? hb]

theorem toNumber_eq : a.toNumber = b.toNumber := by
  cases h with
  | plain => rfl
  | functions ha hb => rw [toNumber_of_asFunction? ha, toNumber_of_asFunction? hb]

theorem addend_eq : a.addend = b.addend := by
  unfold addend
  rw [h.isFunction_eq, h.toText_eq]
  cases hb : b.isFunction with
  | true => rfl
  | false => rw [h.eq_of_not_isFunction (h.isFunction_eq.trans hb)]

end One

variable (ha : a.Akin a') (hb : b.Akin b')

include ha hb

/-- `==` tells functions apart by their identities, and nothing else by more than it shows. -/
theorem looseEquals_eq (hequal : EqualTogether a b a' b') :
    a.looseEquals b = a'.looseEquals b' := by
  cases ha with
  | plain hfa =>
    cases hb with
    | plain => rfl
    | functions hfb hfb' =>
      have hb := isFunction_of_asFunction? hfb
      have hb' := isFunction_of_asFunction? hfb'
      rw [looseEquals_function_right hfa hb, looseEquals_function_right hfa hb',
        toText_of_asFunction? hfb, toText_of_asFunction? hfb']
  | functions hfa hfa' =>
    cases hb with
    | plain hfb =>
      have ha := isFunction_of_asFunction? hfa
      have ha' := isFunction_of_asFunction? hfa'
      rw [looseEquals_function_left ha hfb, looseEquals_function_left ha' hfb,
        toText_of_asFunction? hfa, toText_of_asFunction? hfa']
    | functions hfb hfb' =>
      rw [looseEquals_functions hfa hfb, looseEquals_functions hfa' hfb']
      refine congrArg Except.ok ?_
      rw [Bool.eq_iff_iff, beq_iff_eq, beq_iff_eq]
      exact hequal _ _ _ _ _ _ _ _ hfa hfb hfa' hfb'

theorem add_eq : a.add b = a'.add b' := by
  unfold Value.add
  rw [ha.addend_eq, hb.addend_eq]

theorem subtract_eq : a.subtract b = a'.subtract b' := by
  unfold Value.subtract
  rw [ha.toNumber_eq, hb.toNumber_eq]

/-- **No operator tells akin values apart**, as long as functions are equal together. -/
theorem operate_eq (hequal : EqualTogether a b a' b') (operator : Json) :
    Value.operate operator a b = Value.operate operator a' b' := by
  unfold Value.operate
  rw [looseEquals_eq ha hb hequal, add_eq ha hb, subtract_eq ha hb]

end Akin

end Value

/-- Lists of akin values read the same. -/
theorem displayAll_eq_of_akin {args args' : List Value}
    (h : List.Forall₂ Value.Akin args args') (separator : Text) :
    displayAll separator args = displayAll separator args' := by
  have hmap : args.map Value.display = args'.map Value.display := by
    induction h with
    | nil => rfl
    | cons hv _ ih => rw [List.map_cons, List.map_cons, hv.display_eq, ih]
  rw [displayAll, displayAll, hmap]

/-- What an operator does to akin values reads the same. -/
theorem operatorLine_eq_of_akin {a b a' b' : Value} (ha : a.Akin a') (hb : b.Akin b')
    (operator : Json) : operatorLine operator a b = operatorLine operator a' b' := by
  funext result
  rw [operatorLine, operatorLine, ha.display_eq, hb.display_eq]

end Scriptlet
