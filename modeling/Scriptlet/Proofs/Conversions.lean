import Scriptlet.Proofs.Binary64.Equality
import Scriptlet.Value.Conversion
import Mathlib.Data.List.DropRight

/-!
# Conversions in a comparison

`==` converts operands of different kinds until it can compare them: a boolean to its number, a
function to its text, and a text to the number that it denotes.  Each conversion is one step of a
recursion, and each gives an equation.

* `Value.looseEquals_of_typeName`: values of one kind are compared as they are.
* `Value.looseEquals_boolean`, `Value.looseEquals_function`: a conversion does not change the
  answer.
* `Number.ofText_function`: the text of a function never denotes a number.
* `Value.looseEquals_functions`, `Value.looseEquals_function_left`,
  `Value.looseEquals_function_right`: hence what functions are equal to.
* `Value.looseEquals_byNumber`: booleans, numbers and strings are compared by number, unless both
  are strings.
-/

namespace Scriptlet

/-! ## Functions have no number -/

/-- The text between the blanks starts with the first character if that is not blank. -/
theorem Text.exists_trim_cons {c : Char} (h : isBlank c = false) (cs : List Char) :
    ∃ rest, trim (c :: cs) = c :: rest := by
  have htrim : trim (c :: cs) = (c :: cs).rdropWhile isBlank := by
    rw [trim, List.dropWhile_cons_of_neg (Bool.eq_false_iff.mp h)]
    rfl
  rw [htrim]
  cases hrest : (c :: cs).rdropWhile isBlank with
  | nil =>
    have hall := List.rdropWhile_eq_nil_iff.mp hrest c (List.mem_cons_self ..)
    rw [h] at hall
    cases hall
  | cons d rest =>
    have hprefix := List.rdropWhile_prefix isBlank (l := c :: cs)
    rw [hrest, List.cons_prefix_cons] at hprefix
    exact ⟨rest, congrArg (· :: rest) hprefix.1⟩

/-- The text of a function denotes no number, whatever its name is: it does not begin like one. -/
theorem Number.ofText_function (rest : Text) :
    ofText ("function " ++ rest) = .ok Binary64.nan := by
  cases rest with
  | broken => rfl
  | plain rest =>
    obtain ⟨cs, hcs⟩ := Text.exists_trim_cons (c := 'f') (by decide)
      ("unction ".toList ++ rest.toList)
    have htrim : Text.trim ("function " ++ rest).toList = 'f' :: cs := by
      rw [String.toList_append]
      exact hcs
    have hinfinity : 'f' :: cs ≠ "Infinity".toList := by
      intro h
      have hhead : some 'f' = some 'I' := congrArg List.head? h
      revert hhead
      decide
    have hdecimal : ofDecimalText? ('f' :: cs) = none := by
      have hsign : splitSign ('f' :: cs) = (false, 'f' :: cs) := rfl
      have hnumeral : Numeral.ofChars? Numeral.asciiDigit ('f' :: cs) = none := rfl
      rw [ofDecimalText?, hsign]
      dsimp only
      rw [if_neg hinfinity, hnumeral]
      rfl
    have hmarked : ofMarkedText? ('f' :: cs) = none := rfl
    rw [Text.plain_append, ofText, htrim, hdecimal, hmarked]
    rfl

namespace Value

variable {a b f : Value}

theorem toText_of_isFunction (h : f.isFunction = true) :
    ∃ rest : Text, f.toText = "function " ++ rest := by
  cases f with
  | closure f | builtin f => exact ⟨f.name ++ "() \x7b [code] \x7d", Text.append_assoc _ _ _⟩
  | _ => cases h

/-! ## The chain of conversions -/

/-- Values of one kind are compared as they are. -/
theorem looseEquals_of_typeName (h : a.typeName = b.typeName) :
    looseEquals a b = .ok (a.sameKindEquals b) := by
  rw [looseEquals.eq_def, if_pos h]

theorem looseEquals_numbers (x y : Float) : looseEquals (.number x) (.number y) = .ok (x == y) :=
  looseEquals_of_typeName rfl

theorem looseEquals_strings (s t : Text) : looseEquals (.string s) (.string t) = .ok (s == t) :=
  looseEquals_of_typeName rfl

/-- Two booleans are equal if their numbers are. -/
theorem beq_plainNumber (p q : Bool) :
    (plainNumber (.boolean p) == plainNumber (.boolean q)) = (p == q) := by
  cases p <;> cases q <;> decide +kernel

/-- **A boolean is compared as its number.** -/
theorem looseEquals_boolean (p : Bool) (b : Value) :
    looseEquals (.boolean p) b = looseEquals (.number (plainNumber (.boolean p))) b := by
  cases b with
  | boolean q =>
    -- on the right the second boolean is converted as well
    have hright : looseEquals (.number (plainNumber (.boolean p))) (.boolean q) =
        looseEquals (.number (plainNumber (.boolean p))) (.number (plainNumber (.boolean q))) := by
      rw [looseEquals.eq_def]
      rfl
    rw [hright, looseEquals_numbers, beq_plainNumber]
    exact looseEquals_of_typeName rfl
  | _ =>
    rw [looseEquals.eq_def]
    rfl

theorem looseEquals_boolean_right (a : Value) (q : Bool) :
    looseEquals a (.boolean q) = looseEquals a (.number (plainNumber (.boolean q))) := by
  cases a with
  | boolean p =>
    rw [looseEquals_boolean, looseEquals_boolean p, looseEquals.eq_def]
    rfl
  | _ =>
    rw [looseEquals.eq_def]
    rfl

/-- Undefined equals itself alone. -/
theorem looseEquals_undefined (b : Value) :
    looseEquals .undefined b = .ok (match b with | .undefined => true | _ => false) := by
  cases b with
  | boolean q =>
    rw [looseEquals_boolean_right, looseEquals.eq_def]
    rfl
  | _ =>
    rw [looseEquals.eq_def]
    rfl

theorem looseEquals_undefined_right (a : Value) :
    looseEquals a .undefined = .ok (match a with | .undefined => true | _ => false) := by
  cases a with
  | boolean p =>
    rw [looseEquals_boolean, looseEquals.eq_def]
    rfl
  | _ =>
    rw [looseEquals.eq_def]
    rfl

/-- **A function is compared with other values as its text.** -/
theorem looseEquals_function (hf : f.isFunction = true) (hb : b.isFunction = false) :
    looseEquals f b = looseEquals (.string f.toText) b := by
  cases f with
  | closure | builtin =>
    cases b with
    | undefined => rw [looseEquals_undefined_right, looseEquals_undefined_right]
    | boolean q =>
      rw [looseEquals_boolean_right, looseEquals_boolean_right, looseEquals.eq_def]
      rfl
    | number | string =>
      rw [looseEquals.eq_def]
      rfl
    | _ => cases hb
  | _ => cases hf

theorem looseEquals_function_text (ha : a.isFunction = false) (hf : f.isFunction = true) :
    looseEquals a f = looseEquals a (.string f.toText) := by
  cases f with
  | closure | builtin =>
    cases a with
    | undefined => rw [looseEquals_undefined, looseEquals_undefined]
    | boolean p =>
      rw [looseEquals_boolean, looseEquals_boolean, looseEquals.eq_def]
      rfl
    | number | string =>
      rw [looseEquals.eq_def]
      rfl
    | _ => cases ha
  | _ => cases hf

/-! ## By number -/

/-- A boolean or a number, which `==` compares with a string by number. -/
def IsPlain : Value → Prop
  | .boolean _ => True
  | .number _ => True
  | _ => False

/-- A boolean, a number or a string. -/
def IsConvertible : Value → Prop
  | .boolean _ => True
  | .number _ => True
  | .string _ => True
  | _ => False

/-- The values are compared by their numbers: they are booleans, numbers and strings, and not two
strings. -/
def ByNumber (a b : Value) : Prop :=
  a.IsPlain ∧ b.IsConvertible ∨ a.IsConvertible ∧ b.IsPlain

theorem ByNumber.symm (h : a.ByNumber b) : b.ByNumber a :=
  h.elim (fun h => Or.inr h.symm) fun h => Or.inl h.symm

theorem looseEquals_number_string (x : Float) (t : Text) :
    looseEquals (.number x) (.string t) = (Number.ofText t).map fun y => x == y := by
  rw [looseEquals.eq_def]
  rfl

theorem looseEquals_string_number (s : Text) (y : Float) :
    looseEquals (.string s) (.number y) = (Number.ofText s).map fun x => x == y := by
  rw [looseEquals.eq_def]
  rfl

/-- **Where `==` compares numbers**, it compares those that its operands convert to. -/
theorem looseEquals_byNumber (h : a.ByNumber b) : looseEquals a b = (do
    let x ← a.toNumber
    let y ← b.toNumber
    return x == y) := by
  rcases h with ⟨ha, hb⟩ | ⟨ha, hb⟩
  · -- the first is a number, or a boolean which is one after its conversion
    have hnumber (x : Float) : looseEquals (.number x) b = (b.toNumber).map fun y => x == y := by
      cases b with
      | boolean q => exact (looseEquals_boolean_right _ q).trans (looseEquals_numbers x _)
      | number y => exact looseEquals_numbers x y
      | string t => exact looseEquals_number_string x t
      | _ => exact hb.elim
    cases a with
    | boolean p => exact (looseEquals_boolean p b).trans (hnumber _)
    | number x => exact hnumber x
    | _ => exact ha.elim
  · have hnumber (y : Float) : looseEquals a (.number y) = (a.toNumber).map fun x => x == y := by
      cases a with
      | boolean p => exact (looseEquals_boolean p _).trans (looseEquals_numbers _ y)
      | number x => exact looseEquals_numbers x y
      | string s => exact looseEquals_string_number s y
      | _ => exact ha.elim
    cases b with
    | boolean q => exact (looseEquals_boolean_right a q).trans (hnumber _)
    | number y => exact hnumber y
    | _ => exact hb.elim

/-- What is neither undefined nor a function is compared by number or as text. -/
theorem byNumber_or_strings (ha : a.IsConvertible) (hb : b.IsConvertible) :
    a.ByNumber b ∨ ∃ s t, a = .string s ∧ b = .string t := by
  cases a with
  | boolean p | number x => exact Or.inl (Or.inl ⟨trivial, hb⟩)
  | string s =>
    cases b with
    | boolean q | number y => exact Or.inl (Or.inr ⟨trivial, trivial⟩)
    | string t => exact Or.inr ⟨s, t, rfl, rfl⟩
    | _ => exact hb.elim
  | _ => exact ha.elim

theorem isConvertible_of_ne (h : a.isFunction = false) (hundefined : a ≠ .undefined) :
    a.IsConvertible := by
  cases a with
  | undefined => exact (hundefined rfl).elim
  | closure f | builtin f => cases h
  | _ => exact trivial

/-! ## Functions as operands -/

/-- Functions are equal if they are one and the same. -/
theorem looseEquals_functions {m n : Text} {i j : Nat}
    (ha : a.asFunction? = some (m, i)) (hb : b.asFunction? = some (n, j)) :
    looseEquals a b = .ok (i == j) := by
  cases a with
  | closure | builtin =>
    cases b with
    | closure | builtin =>
      cases ha
      cases hb
      exact looseEquals_of_typeName rfl
    | _ => cases hb
  | _ => cases ha

/-- A function equals its text and nothing else that is no function: what makes it differ from all
numbers is that its text denotes none. -/
theorem looseEquals_function_left (ha : a.isFunction = true) (hb : b.isFunction = false) :
    looseEquals a b = .ok (match b with | .string s => a.toText == s | _ => false) := by
  obtain ⟨rest, hrest⟩ := toText_of_isFunction ha
  have hnumber (y : Float) : looseEquals (.string a.toText) (.number y) = .ok false := by
    rw [looseEquals_string_number, hrest, Number.ofText_function]
    exact congrArg Except.ok (Binary64.nan_beq y)
  rw [looseEquals_function ha hb]
  cases b with
  | undefined => exact looseEquals_undefined_right _
  | boolean q => exact (looseEquals_boolean_right _ q).trans (hnumber _)
  | number y => exact hnumber y
  | string s => exact looseEquals_strings _ _
  | _ => cases hb

theorem looseEquals_function_right (ha : a.isFunction = false) (hb : b.isFunction = true) :
    looseEquals a b = .ok (match a with | .string s => s == b.toText | _ => false) := by
  obtain ⟨rest, hrest⟩ := toText_of_isFunction hb
  have hnumber (x : Float) : looseEquals (.number x) (.string b.toText) = .ok false := by
    rw [looseEquals_number_string, hrest, Number.ofText_function]
    exact congrArg Except.ok ((Binary64.beq_comm x Binary64.nan).trans (Binary64.nan_beq x))
  rw [looseEquals_function_text ha hb]
  cases a with
  | undefined => exact looseEquals_undefined _
  | boolean p => exact (looseEquals_boolean p _).trans (hnumber _)
  | number x => exact hnumber x
  | string s => exact looseEquals_strings _ _
  | _ => cases ha

end Value
end Scriptlet
