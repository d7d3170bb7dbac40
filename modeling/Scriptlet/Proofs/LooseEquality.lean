import Scriptlet.Proofs.Binary64.Equality
import Scriptlet.Proofs.Computation
import Scriptlet.Proofs.Operators

/-!
# What `==` means

`==` compares values of all kinds.  Operands of different kinds are converted until they can be
compared: a boolean to its number, a function to its text, and a text to the number that it denotes.
What comes out is a relation, whatever the order of the operands and of the conversions.

* `Value.LooselyEqual`: the relation, kind by kind.
* `Value.looseEquals_comm`, `Value.looseEquals_eq_ok_true_iff`: the operator is symmetric and
  decides the relation.
* `Value.looseEquals_meaning`: **what `==` means**, for all pairs of values.
-/

namespace Scriptlet

namespace Value

variable {a b f g : Value}

/-! ## The relation -/

/-- The values are one and the same function. -/
def IsSameFunction (f g : Value) : Prop :=
  ∃ m n identity, f.asFunction? = some (m, identity) ∧ g.asFunction? = some (n, identity)

/-- The values that `==` finds equal. -/
inductive LooselyEqual : Value → Value → Prop
  | undefined : LooselyEqual .undefined .undefined
  | function {f g : Value} (h : f.IsSameFunction g) : LooselyEqual f g
  | string (s : Text) : LooselyEqual (.string s) (.string s)
  | functionText {f : Value} (h : f.isFunction = true) : LooselyEqual f (.string f.toText)
  | textFunction {f : Value} (h : f.isFunction = true) : LooselyEqual (.string f.toText) f
  | number {a b : Value} {x y : Float} (h : a.ByNumber b) (ha : a.toNumber = .ok x)
      (hb : b.toNumber = .ok y) (hequal : Binary64.Equal x y) : LooselyEqual a b

theorem IsSameFunction.symm (h : f.IsSameFunction g) : g.IsSameFunction f := by
  obtain ⟨m, n, identity, hf, hg⟩ := h
  exact ⟨n, m, identity, hg, hf⟩

theorem LooselyEqual.symm (h : a.LooselyEqual b) : b.LooselyEqual a := by
  cases h with
  | undefined => exact .undefined
  | function h => exact .function h.symm
  | string s => exact .string s
  | functionText h => exact .textFunction h
  | textFunction h => exact .functionText h
  | number h ha hb hequal => exact .number h.symm hb ha hequal.symm

/-- **The order of the operands does not matter**, not even for failing. -/
theorem looseEquals_comm (a b : Value) : looseEquals a b = looseEquals b a := by
  cases ha : a.asFunction? with
  | some f =>
    have ha' : a.isFunction = true := congrArg Option.isSome ha
    cases hb : b.asFunction? with
    | some g => rw [looseEquals_functions ha hb, looseEquals_functions hb ha, BEq.comm]
    | none =>
      have hb' : b.isFunction = false := congrArg Option.isSome hb
      rw [looseEquals_function_left ha' hb', looseEquals_function_right hb' ha']
      cases b with
      | string s => exact congrArg Except.ok BEq.comm
      | _ => rfl
  | none =>
    have ha' : a.isFunction = false := congrArg Option.isSome ha
    cases hb : b.asFunction? with
    | some g =>
      have hb' : b.isFunction = true := congrArg Option.isSome hb
      rw [looseEquals_function_right ha' hb', looseEquals_function_left hb' ha']
      cases a with
      | string s => exact congrArg Except.ok BEq.comm
      | _ => rfl
    | none =>
      have hb' : b.isFunction = false := congrArg Option.isSome hb
      by_cases hundefined : a = .undefined
      · subst hundefined
        rw [looseEquals_undefined, looseEquals_undefined_right]
      · by_cases hundefined' : b = .undefined
        · subst hundefined'
          rw [looseEquals_undefined, looseEquals_undefined_right]
        · rcases byNumber_or_strings (isConvertible_of_ne ha' hundefined)
            (isConvertible_of_ne hb' hundefined') with h | ⟨s, t, rfl, rfl⟩
          · rw [looseEquals_byNumber h, looseEquals_byNumber h.symm]
            rcases a.toNumber_cases with ⟨x, hx, -⟩ | ⟨hx, -⟩ <;>
              rcases b.toNumber_cases with ⟨y, hy, -⟩ | ⟨hy, -⟩ <;> rw [hx, hy]
            · exact congrArg Except.ok (Binary64.beq_comm x y)
            · rfl
            · rfl
          · rw [looseEquals_strings, looseEquals_strings, BEq.comm]

/-- What two numbers are compared to. -/
theorem looseEquals_eq_ok_of_byNumber {r : Bool} (h : a.ByNumber b) :
    looseEquals a b = .ok r ↔ ∃ x y, a.toNumber = .ok x ∧ b.toNumber = .ok y ∧ (x == y) = r := by
  rw [looseEquals_byNumber h]
  constructor
  · intro hr
    obtain ⟨x, hx, hr⟩ := bind_eq_ok_iff.mp hr
    obtain ⟨y, hy, hr⟩ := bind_eq_ok_iff.mp hr
    exact ⟨x, y, hx, hy, Except.ok.inj hr⟩
  · rintro ⟨x, y, hx, hy, rfl⟩
    rw [hx, hy]
    rfl

/-! ## The operator decides the relation -/

theorem looselyEqual_of_looseEquals (h : looseEquals a b = .ok true) : a.LooselyEqual b := by
  cases ha : a.asFunction? with
  | some f =>
    have ha' : a.isFunction = true := congrArg Option.isSome ha
    cases hb : b.asFunction? with
    | some g =>
      rw [looseEquals_functions ha hb] at h
      obtain ⟨m, i⟩ := f
      obtain ⟨n, j⟩ := g
      obtain rfl := eq_of_beq (Except.ok.inj h)
      exact .function ⟨m, n, i, ha, hb⟩
    | none =>
      rw [looseEquals_function_left ha' (congrArg Option.isSome hb)] at h
      cases b with
      | string s =>
        obtain rfl := eq_of_beq (Except.ok.inj h)
        exact .functionText ha'
      | _ => cases h
  | none =>
    have ha' : a.isFunction = false := congrArg Option.isSome ha
    cases hb : b.asFunction? with
    | some g =>
      have hb' : b.isFunction = true := congrArg Option.isSome hb
      rw [looseEquals_function_right ha' hb'] at h
      cases a with
      | string s =>
        obtain rfl := eq_of_beq (Except.ok.inj h)
        exact .textFunction hb'
      | _ => cases h
    | none =>
      have hb' : b.isFunction = false := congrArg Option.isSome hb
      by_cases hundefined : a = .undefined
      · subst hundefined
        rw [looseEquals_undefined] at h
        cases b with
        | undefined => exact .undefined
        | _ => cases h
      · by_cases hundefined' : b = .undefined
        · subst hundefined'
          rw [looseEquals_comm, looseEquals_undefined] at h
          cases a with
          | undefined => exact .undefined
          | _ => cases h
        · rcases byNumber_or_strings (isConvertible_of_ne ha' hundefined)
            (isConvertible_of_ne hb' hundefined') with hnumber | ⟨s, t, rfl, rfl⟩
          · obtain ⟨x, y, hx, hy, hequal⟩ := (looseEquals_eq_ok_of_byNumber hnumber).mp h
            exact .number hnumber hx hy (Binary64.beq_iff.mp hequal)
          · rw [looseEquals_strings] at h
            obtain rfl : s = t := eq_of_beq (Except.ok.inj h)
            exact .string s

theorem LooselyEqual.looseEquals (h : a.LooselyEqual b) : looseEquals a b = .ok true := by
  cases h with
  | undefined => exact looseEquals_undefined _
  | function h =>
    obtain ⟨m, n, identity, ha, hb⟩ := h
    rw [looseEquals_functions ha hb]
    exact congrArg Except.ok (beq_self_eq_true identity)
  | string s => exact (looseEquals_strings s s).trans (congrArg Except.ok (beq_self_eq_true s))
  | functionText h =>
    rw [looseEquals_function_left h rfl]
    exact congrArg Except.ok (beq_self_eq_true a.toText)
  | textFunction h =>
    rw [looseEquals_function_right rfl h]
    exact congrArg Except.ok (beq_self_eq_true b.toText)
  | number h ha hb hequal =>
    exact (looseEquals_eq_ok_of_byNumber h).mpr ⟨_, _, ha, hb, Binary64.beq_iff.mpr hequal⟩

/-- **The operator decides the relation.** -/
theorem looseEquals_eq_ok_true_iff : looseEquals a b = .ok true ↔ a.LooselyEqual b :=
  ⟨looselyEqual_of_looseEquals, LooselyEqual.looseEquals⟩

/-- The operator denies the relation where it does not fail. -/
theorem looseEquals_eq_ok_false_iff : looseEquals a b = .ok false ↔
    ¬ a.LooselyEqual b ∧ ¬ (a.Oversized ∧ b.IsPlain ∨ a.IsPlain ∧ b.Oversized) := by
  rw [← looseEquals_eq_ok_true_iff]
  cases h : looseEquals a b with
  | error fault =>
    refine iff_of_false nofun fun hnot => hnot.2 (looseEquals_eq_error_iff.mp h).1
  | ok r =>
    have hsound : ¬ (a.Oversized ∧ b.IsPlain ∨ a.IsPlain ∧ b.Oversized) := fun hlarge =>
      nomatch h.symm.trans (looseEquals_eq_error_iff.mpr ⟨hlarge, rfl⟩)
    cases r with
    | true => exact iff_of_false nofun fun hnot => hnot.1 rfl
    | false => exact iff_of_true rfl ⟨nofun, hsound⟩

theorem looselyEqual_undefined : LooselyEqual .undefined b ↔ b = .undefined := by
  rw [← looseEquals_eq_ok_true_iff, looseEquals_undefined]
  cases b with
  | undefined => exact iff_of_true rfl rfl
  | _ => exact iff_of_false nofun nofun

/-- Only what is no number is not equal to itself. -/
theorem looselyEqual_self : a.LooselyEqual a ↔ ¬ ∃ x, a = .number x ∧ x.isNaN = true := by
  constructor
  · rintro h ⟨x, rfl, hnan⟩
    have hcompared : ByNumber (.number x) (.number x) := Or.inl ⟨trivial, trivial⟩
    obtain ⟨y, z, hy, -, hequal⟩ :=
      (looseEquals_eq_ok_of_byNumber hcompared).mp (looseEquals_eq_ok_true_iff.mpr h)
    cases hy
    exact Bool.false_ne_true ((Binary64.beq_iff.mp hequal).1.symm.trans hnan)
  · intro h
    cases a with
    | undefined => exact .undefined
    | string s => exact .string s
    | closure f => exact .function ⟨_, _, _, rfl, rfl⟩
    | builtin f => exact .function ⟨_, _, _, rfl, rfl⟩
    | number x =>
      have hx : x.isNaN = false := Bool.eq_false_iff.mpr fun hnan => h ⟨x, rfl, hnan⟩
      exact .number (Or.inl ⟨trivial, trivial⟩) rfl rfl (Binary64.equal_self hx)
    | boolean p =>
      have hp : (plainNumber (.boolean p)).isNaN = false := by cases p <;> decide +kernel
      exact .number (Or.inl ⟨trivial, trivial⟩) rfl rfl (Binary64.equal_self hp)

/-- **What `==` means.**  It does not depend on the order of its operands, it is true of the values
that are loosely equal, and it is false of all others, unless it compares a boolean or a number with
a string that is too large for a number.  A function equals no boolean, no number and not undefined;
undefined equals itself alone; and what is no number is all that does not equal itself. -/
theorem looseEquals_meaning (a b : Value) :
    looseEquals a b = looseEquals b a ∧
    (looseEquals a b = .ok true ↔ a.LooselyEqual b) ∧
    (looseEquals a b = .ok false ↔
      ¬ a.LooselyEqual b ∧ ¬ (a.Oversized ∧ b.IsPlain ∨ a.IsPlain ∧ b.Oversized)) ∧
    ¬ (a.isFunction = true ∧ (b.IsPlain ∨ b = .undefined) ∧ looseEquals a b ≠ .ok false) ∧
    (looseEquals .undefined b = .ok true ↔ b = .undefined) ∧
    (looseEquals a a = .ok true ↔ ¬ ∃ x, a = .number x ∧ x.isNaN = true) := by
  refine ⟨looseEquals_comm a b, looseEquals_eq_ok_true_iff, looseEquals_eq_ok_false_iff, ?_,
    looseEquals_eq_ok_true_iff.trans looselyEqual_undefined,
    looseEquals_eq_ok_true_iff.trans looselyEqual_self⟩
  rintro ⟨ha, hb, hne⟩
  cases b with
  | undefined | boolean | number => exact hne (looseEquals_function_left ha rfl)
  | _ => rcases hb with hb | hb <;> cases hb

end Value

end Scriptlet
