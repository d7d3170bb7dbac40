import Scriptlet.Proofs.Binary64.Overflow
import Scriptlet.Proofs.Conversions
import Scriptlet.Proofs.Writing

/-!
# When operators fail

Of the conversions between values one can fail.  A text that spells an integer with a mark, such
as `0x10`, becomes that integer first and a double afterwards, and an integer beyond the largest
double becomes none.  A decimal text of the same size is infinite instead.

* `Number.Oversized`: the texts that spell such integers.  `Number.ofText_eq_error_iff` says that
  exactly these have no number.
* `Value.looseEquals_eq_error_iff`, `Value.subtract_eq_error_iff`: hence when `==` and `-` fail.
  `+` converts no text to a number and cannot fail.
* `Value.operate_eq_error`: everything that an operator can fail with.
-/

namespace Scriptlet

/-! ## Texts without a number -/

namespace Number

/-- The text spells, after a mark, an integer that no double stands for. -/
def Oversized : Text → Prop
  | .plain s => ∃ n : Nat, ofMarkedText? (Text.trim s.toList) = some n ∧ 2 ^ 1024 - 2 ^ 970 ≤ n
  | .broken .. => False

/-- The letters that stand for a base. -/
theorem mem_of_baseOfMark? {mark : Char} {base : Nat} (h : baseOfMark? mark = some base) :
    mark ∈ ['x', 'X', 'o', 'O', 'b', 'B'] := by
  unfold baseOfMark? at h
  split at h
  · rename_i hx
    rcases hx with rfl | rfl <;> decide
  · split at h
    · rename_i ho
      rcases ho with rfl | rfl <;> decide
    · split at h
      · rename_i hb
        rcases hb with rfl | rfl <;> decide
      · cases h

/-- A text with a mark is no decimal: the numeral at its front ends before the mark. -/
theorem ofDecimalText?_of_mark {mark : Char} {base : Nat} (h : baseOfMark? mark = some base)
    (digits : List Char) : ofDecimalText? ('0' :: mark :: digits) = none := by
  have hmark := mem_of_baseOfMark? h
  have hdigits : Numeral.splitDigits Numeral.asciiDigit ('0' :: mark :: digits) =
      (['0'], mark :: digits) := by
    simp only [List.mem_cons, List.not_mem_nil, or_false] at hmark
    rcases hmark with rfl | rfl | rfl | rfl | rfl | rfl <;> rfl
  have hpoint : Numeral.splitPoint Numeral.asciiDigit ('0' :: mark :: digits) =
      some (['0'], false, [], mark :: digits) := by
    unfold Numeral.splitPoint
    rw [hdigits]
    simp only [List.mem_cons, List.not_mem_nil, or_false] at hmark
    rcases hmark with rfl | rfl | rfl | rfl | rfl | rfl <;> rfl
  have hexponent : Numeral.splitExponent Numeral.asciiDigit (mark :: digits) =
      ([], [], mark :: digits) := by
    unfold Numeral.splitExponent
    refine if_neg ?_
    rintro (rfl | rfl) <;> revert hmark <;> decide
  have hnumeral : Numeral.ofChars? Numeral.asciiDigit ('0' :: mark :: digits) = none := by
    unfold Numeral.ofChars? Numeral.scan
    rw [hpoint, Option.map_some]
    dsimp only
    rw [hexponent]
  have hsign : splitSign ('0' :: mark :: digits) = (false, '0' :: mark :: digits) := rfl
  unfold ofDecimalText?
  rw [hsign]
  dsimp only
  rw [hnumeral, if_neg]
  · rfl
  · intro hinfinity
    have hhead : some '0' = some 'I' := congrArg List.head? hinfinity
    revert hhead
    decide

/-- A text with a mark has the number that its integer has. -/
theorem ofText_of_marked {s : String} {n : Nat}
    (h : ofMarkedText? (Text.trim s.toList) = some n) :
    ofText s = (Binary64.ofInt? n).elim (.error .integerTooLarge) .ok := by
  unfold ofText
  dsimp only
  generalize Text.trim s.toList = cs at h
  unfold ofMarkedText? at h
  split at h
  · rename_i mark digits
    obtain ⟨base, hbase, hdigits⟩ := Option.bind_eq_some_iff.mp h
    have hmarked : ofMarkedText? ('0' :: mark :: digits) = some n := by
      rw [ofMarkedText?]
      exact h
    rw [ofDecimalText?_of_mark hbase, hmarked, List.isEmpty_cons, if_neg Bool.false_ne_true]
    dsimp only
    cases Binary64.ofInt? n <;> rfl
  · cases h

/-- **The texts without a number** are the oversized ones. -/
theorem ofText_eq_error_iff {t : Text} {fault : Fault} :
    ofText t = .error fault ↔ Oversized t ∧ fault = .integerTooLarge := by
  cases t with
  | broken => exact iff_of_false nofun fun h => h.1
  | plain s =>
    cases hmarked : ofMarkedText? (Text.trim s.toList) with
    | none =>
      constructor
      · intro h
        unfold ofText at h
        dsimp only at h
        rw [hmarked] at h
        split at h
        · cases h
        · split at h <;> cases h
      · rintro ⟨⟨n, hn, -⟩, -⟩
        rw [hmarked] at hn
        cases hn
    | some n =>
      have hsize : Oversized (.plain s) ↔ Binary64.ofInt? n = none := by
        rw [Binary64.ofInt?_eq_none_iff, Int.natAbs_natCast]
        constructor
        · rintro ⟨m, hm, hle⟩
          rw [hmarked] at hm
          cases hm
          exact hle
        · intro hle
          exact ⟨n, hmarked, hle⟩
      rw [ofText_of_marked hmarked, hsize]
      cases Binary64.ofInt? n with
      | some x => exact ⟨fun h => (nomatch h), fun h => (nomatch h.1)⟩
      | none =>
        constructor
        · intro h
          cases h
          exact ⟨rfl, rfl⟩
        · rintro ⟨-, rfl⟩
          rfl

end Number

namespace Value

/-- An operator gives no function. -/
theorem isFunction_of_operate_eq_ok {operator : Json} {a b v : Value}
    (h : Value.operate operator a b = .ok v) : v.isFunction = false := by
  unfold Value.operate at h
  split at h
  · cases hb : a.looseEquals b with
    | ok x => rw [hb] at h; cases h; rfl
    | error e => rw [hb] at h; cases h
  · rw [Value.add] at h
    split at h <;> cases h <;> rfl
  · rw [Value.subtract] at h
    cases hx : a.toNumber with
    | error e => rw [hx] at h; cases h
    | ok x =>
      cases hy : b.toNumber with
      | error e => rw [hx, hy] at h; cases h
      | ok y => rw [hx, hy] at h; cases h; rfl
  · cases h

/-! ## When operators fail -/

/-- A string that has no number. -/
def Oversized (v : Value) : Prop := ∃ s, v = .string s ∧ Number.Oversized s

theorem toNumber_eq_error_iff {v : Value} {fault : Fault} :
    v.toNumber = .error fault ↔ v.Oversized ∧ fault = .integerTooLarge := by
  cases v with
  | string s =>
    refine Number.ofText_eq_error_iff.trans (and_congr_left fun _ => ?_)
    constructor
    · intro h
      exact ⟨s, rfl, h⟩
    · rintro ⟨_, hs, h⟩
      cases hs
      exact h
  | _ =>
    constructor
    · intro h
      cases h
    · rintro ⟨⟨_, hs, -⟩, -⟩
      cases hs

theorem toNumber_cases (v : Value) :
    (∃ x, v.toNumber = .ok x ∧ ¬ v.Oversized) ∨
      (v.toNumber = .error .integerTooLarge ∧ v.Oversized) := by
  cases h : v.toNumber with
  | ok x =>
    refine Or.inl ⟨x, rfl, fun hsize => ?_⟩
    have herror := toNumber_eq_error_iff.mpr ⟨hsize, rfl⟩
    rw [h] at herror
    cases herror
  | error fault =>
    obtain ⟨hsize, rfl⟩ := toNumber_eq_error_iff.mp h
    exact Or.inr ⟨rfl, hsize⟩

/-- A computation on the numbers of two values fails if either has none. -/
theorem toNumber_bind_eq_error_iff {α : Type} {a b : Value} {fault : Fault}
    (f : Float → Float → α) :
    (do let x ← a.toNumber
        let y ← b.toNumber
        return f x y) = Except.error fault ↔
      (a.Oversized ∨ b.Oversized) ∧ fault = .integerTooLarge := by
  rcases a.toNumber_cases with ⟨x, ha, hasize⟩ | ⟨ha, hasize⟩
  · rcases b.toNumber_cases with ⟨y, hb, hbsize⟩ | ⟨hb, hbsize⟩
    · rw [ha, hb]
      exact ⟨fun h => (nomatch h), fun h => h.1.elim hasize.elim hbsize.elim⟩
    · rw [ha, hb]
      constructor
      · intro h
        cases h
        exact ⟨Or.inr hbsize, rfl⟩
      · rintro ⟨-, rfl⟩
        rfl
  · rw [ha]
    constructor
    · intro h
      cases h
      exact ⟨Or.inl hasize, rfl⟩
    · rintro ⟨-, rfl⟩
      rfl

/-- **When `-` fails**: if an operand is a string without a number. -/
theorem subtract_eq_error_iff {a b : Value} {fault : Fault} :
    subtract a b = .error fault ↔ (a.Oversized ∨ b.Oversized) ∧ fault = .integerTooLarge :=
  toNumber_bind_eq_error_iff fun x y => Value.number (x - y)

/-- **When `==` fails**: if it compares a boolean or a number with a string without a number. -/
theorem looseEquals_eq_error_iff {a b : Value} {fault : Fault} :
    looseEquals a b = .error fault ↔
      (a.Oversized ∧ b.IsPlain ∨ a.IsPlain ∧ b.Oversized) ∧ fault = .integerTooLarge := by
  constructor
  · intro h
    cases ha : a.isFunction with
    | true =>
      cases hb : b.isFunction with
      | true =>
        obtain ⟨⟨m, i⟩, hi⟩ := Option.isSome_iff_exists.mp ha
        obtain ⟨⟨n, j⟩, hj⟩ := Option.isSome_iff_exists.mp hb
        rw [looseEquals_functions hi hj] at h
        cases h
      | false =>
        rw [looseEquals_function_left ha hb] at h
        cases h
    | false =>
      cases hb : b.isFunction with
      | true =>
        rw [looseEquals_function_right ha hb] at h
        cases h
      | false =>
        by_cases hadefined : a = .undefined
        · rw [hadefined, looseEquals_undefined] at h
          cases h
        by_cases hbdefined : b = .undefined
        · rw [hbdefined, looseEquals_undefined_right] at h
          cases h
        rcases byNumber_or_strings (isConvertible_of_ne ha hadefined)
          (isConvertible_of_ne hb hbdefined) with hnumbers | ⟨s, t, rfl, rfl⟩
        · rw [looseEquals_byNumber hnumbers, toNumber_bind_eq_error_iff fun x y => x == y] at h
          obtain ⟨hsize, hfault⟩ := h
          refine ⟨?_, hfault⟩
          rcases hsize with ⟨s, rfl, hs⟩ | ⟨t, rfl, ht⟩
          · exact Or.inl ⟨⟨s, rfl, hs⟩, hnumbers.elim (fun h => h.1.elim) And.right⟩
          · exact Or.inr ⟨hnumbers.elim And.left fun h => h.2.elim, ⟨t, rfl, ht⟩⟩
        · cases (looseEquals_strings s t).symm.trans h
  · rintro ⟨h, rfl⟩
    have hnumbers : a.ByNumber b := by
      rcases h with ⟨⟨s, rfl, -⟩, hb⟩ | ⟨ha, ⟨s, rfl, -⟩⟩
      · exact Or.inr ⟨trivial, hb⟩
      · exact Or.inl ⟨ha, trivial⟩
    rw [looseEquals_byNumber hnumbers, toNumber_bind_eq_error_iff fun x y => x == y]
    exact ⟨h.imp And.left And.right, rfl⟩

/-- The operators of the language. -/
def operators : List Json := [.string "==", .string "+", .string "-"]

theorem operate_equals_eq_error_iff {a b : Value} {fault : Fault} :
    operate (.string "==") a b = .error fault ↔ looseEquals a b = .error fault := by
  have hmap : operate (.string "==") a b = (looseEquals a b).map .boolean := rfl
  rw [hmap]
  cases looseEquals a b with
  | error e =>
    constructor
    · intro h
      cases h
      rfl
    · intro h
      cases h
      rfl
  | ok r => exact ⟨fun h => (nomatch h), fun h => (nomatch h)⟩

/-- What an operator fails with: that the language does not have it, or that a string has no
number. -/
theorem operate_eq_error {operator : Json} {a b : Value} {fault : Fault}
    (h : operate operator a b = .error fault) :
    (fault = .ofOperator operator ∧ operator ∉ operators) ∨ fault = .integerTooLarge := by
  unfold operate at h
  split at h
  · exact Or.inr (looseEquals_eq_error_iff.mp (operate_equals_eq_error_iff.mp h)).2
  · cases h
  · exact Or.inr (subtract_eq_error_iff.mp h).2
  · rename_i hequals hadd hsubtract
    cases h
    refine Or.inl ⟨rfl, ?_⟩
    simp only [operators, List.mem_cons, List.not_mem_nil, or_false]
    rintro (heq | heq | heq)
    · exact hequals heq
    · exact hadd heq
    · exact hsubtract heq

end Value

/-- The trace takes events of operators, and the line about this one has no form in UTF-8. -/
def Untold (operator : Json) (a b : Value) (fault : Fault) (w : World) : Prop :=
  w.Takes 3 ∧ ∃ result reason, Value.operate operator a b = .ok result ∧
    (operatorLine operator a b result).encode = .error reason ∧ fault = .unwritable .trace reason

theorem applyOperator_eq_error_iff_operate {operator : Json} {a b : Value} {fault : Fault}
    {w v : World} :
    applyOperator operator a b w = .error fault v ↔
      (Value.operate operator a b = .error fault ∨ Untold operator a b fault w) ∧ v = w := by
  unfold applyOperator Untold
  cases h : Value.operate operator a b with
  | error e =>
    constructor
    · intro herror
      cases herror
      exact ⟨Or.inl rfl, rfl⟩
    · rintro ⟨heq | ⟨-, _, _, heq, -⟩, rfl⟩
      · cases heq
        rfl
      · cases heq
  | ok result =>
    dsimp only
    simp only [bind, EStateM.bind]
    rcases tell_cases w 3 fun _ => operatorLine operator a b result with
      ⟨htakes, htell⟩ | ⟨line, -, hline, htell⟩ | ⟨reason, htakes, hreason, htell⟩
    · rw [htell]
      refine iff_of_false nofun ?_
      rintro ⟨heq | ⟨htakes', -⟩, -⟩
      · cases heq
      · exact htakes htakes'
    · rw [htell]
      refine iff_of_false nofun ?_
      rintro ⟨heq | ⟨-, _, reason, hresult, hreason, -⟩, -⟩
      · cases heq
      · cases hresult
        rw [hline] at hreason
        cases hreason
    · rw [htell]
      constructor
      · intro herror
        cases herror
        exact ⟨Or.inr ⟨htakes, result, reason, rfl, hreason, rfl⟩, rfl⟩
      · rintro ⟨heq | ⟨-, _, reason', hresult, hreason', rfl⟩, rfl⟩
        · cases heq
        · cases hresult
          rw [hreason] at hreason'
          cases hreason'
          rfl

/-- **When the operators of the language fail.**  They give a value for all operands but these:

* `==` fails if one operand is a boolean or a number and the other a string without a number;
* `-` fails if either operand is a string without a number;
* `+` never fails.

Such a failure is always the same one.  The only other one comes from the trace: that it takes
events of operators and cannot be told of this one, since what it shows holds a surrogate.  No
failure changes anything. -/
theorem applyOperator_eq_error_iff (a b : Value) (fault : Fault) (w v : World) :
    (applyOperator (.string "==") a b w = .error fault v ↔
      (((a.Oversized ∧ b.IsPlain ∨ a.IsPlain ∧ b.Oversized) ∧ fault = .integerTooLarge) ∨
        Untold (.string "==") a b fault w) ∧ v = w) ∧
    (applyOperator (.string "-") a b w = .error fault v ↔
      (((a.Oversized ∨ b.Oversized) ∧ fault = .integerTooLarge) ∨
        Untold (.string "-") a b fault w) ∧ v = w) ∧
    (applyOperator (.string "+") a b w = .error fault v ↔
      Untold (.string "+") a b fault w ∧ v = w) := by
  refine ⟨?_, ?_, ?_⟩
  · rw [applyOperator_eq_error_iff_operate, Value.operate_equals_eq_error_iff,
      Value.looseEquals_eq_error_iff]
  · have hsubtract : Value.operate (.string "-") a b = Value.subtract a b := rfl
    rw [applyOperator_eq_error_iff_operate, hsubtract, Value.subtract_eq_error_iff]
  · rw [applyOperator_eq_error_iff_operate]
    exact and_congr_left fun _ => or_iff_right nofun

/-- A mark with 256 digits after it is one more than the doubles reach. -/
theorem applyOperator_fails_at_digits :
    applyOperator (.string "==") (.string (String.ofList ('0' :: 'x' :: List.replicate 256 'f')))
      (.boolean true) (World.fresh 0) = .error .integerTooLarge (World.fresh 0) := by
  have hsize : Number.Oversized (String.ofList ('0' :: 'x' :: List.replicate 256 'f')) := by
    refine ⟨16 ^ 256 - 1, ?_, ?_⟩
    · rw [String.toList_ofList]
      decide +kernel
    · decide +kernel
  have hequals := (Value.looseEquals_eq_error_iff (b := .boolean true)).mpr
    ⟨Or.inl ⟨⟨_, rfl, hsize⟩, trivial⟩, rfl⟩
  exact applyOperator_eq_error_iff_operate.mpr
    ⟨Or.inl (Value.operate_equals_eq_error_iff.mpr hequals), rfl⟩

end Scriptlet
