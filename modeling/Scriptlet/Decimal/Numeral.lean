import Scriptlet.Decimal

/-!
# Decimal numerals

A numeral is digits with an optional point among them and an optional exponent after them.  Which
characters are digits is the caller's choice, since program text allows the decimal digits of
every script and converted strings allow the ASCII ones alone.

* `scan` splits the longest numeral off the front of a text.
* `Numeral.text` is the numeral as it was written, and `text_scan` says that nothing is lost.
* `Numeral.toDecimal` is what it denotes.
-/

namespace Scriptlet

/-- A decimal numeral as it was written.  The mark is the letter of the exponent with its sign,
and it is empty if there is no exponent. -/
structure Numeral where
  whole : List Char
  hasPoint : Bool
  fraction : List Char
  mark : List Char
  power : List Char
  deriving DecidableEq, Repr

namespace Numeral

/-- An ASCII digit's value. -/
def asciiDigit (c : Char) : Option Nat :=
  if '0' ≤ c ∧ c ≤ '9' then some (c.toNat - '0'.toNat) else none

/-- The number that digits spell. -/
def valueOf (digit : Char → Option Nat) (cs : List Char) : Nat :=
  cs.foldl (fun n c => 10 * n + (digit c).getD 0) 0

/-- The numeral as it was written. -/
def text (n : Numeral) : List Char :=
  n.whole ++ (if n.hasPoint then ['.'] else []) ++ n.fraction ++ n.mark ++ n.power

/-- The decimal that a numeral denotes. -/
def toDecimal (digit : Char → Option Nat) (n : Numeral) : Decimal :=
  let power : Int := valueOf digit n.power
  let power := if '-' ∈ n.mark then -power else power
  ⟨valueOf digit (n.whole ++ n.fraction), power - n.fraction.length⟩

/-- The digits at the front of a text, and what follows them. -/
def splitDigits (digit : Char → Option Nat) (cs : List Char) : List Char × List Char :=
  (cs.takeWhile fun c => (digit c).isSome, cs.dropWhile fun c => (digit c).isSome)

theorem splitDigits_append (digit : Char → Option Nat) (cs : List Char) :
    (splitDigits digit cs).1 ++ (splitDigits digit cs).2 = cs :=
  List.takeWhile_append_dropWhile

/-- The sign at the front of a text, if there is one. -/
def splitSign : List Char → List Char × List Char
  | '-' :: cs => (['-'], cs)
  | '+' :: cs => (['+'], cs)
  | cs => ([], cs)

/-- The mark and the digits of an exponent, and what follows them.  A mark that no digits follow
is no part of the numeral. -/
def splitExponent (digit : Char → Option Nat) : List Char → List Char × List Char × List Char
  | [] => ([], [], [])
  | e :: cs =>
    if e = 'e' ∨ e = 'E' then
      match splitDigits digit (splitSign cs).2 with
      | ([], _) => ([], [], e :: cs)
      | (power, rest) => (e :: (splitSign cs).1, power, rest)
    else ([], [], e :: cs)

/-- The digits around the point and what follows them.  One side of the point may be empty. -/
def splitPoint (digit : Char → Option Nat) (cs : List Char) :
    Option (List Char × Bool × List Char × List Char) :=
  match splitDigits digit cs with
  | ([], '.' :: rest) =>
    match splitDigits digit rest with
    | ([], _) => none
    | (fraction, rest) => some ([], true, fraction, rest)
  | ([], _) => none
  | (whole, '.' :: rest) =>
    match splitDigits digit rest with
    | (fraction, rest) => some (whole, true, fraction, rest)
  | (whole, rest) => some (whole, false, [], rest)

/-- The longest numeral at the front of a text, and what follows it. -/
def scan (digit : Char → Option Nat) (cs : List Char) : Option (Numeral × List Char) :=
  (splitPoint digit cs).map fun (whole, hasPoint, fraction, rest) =>
    let (mark, power, rest) := splitExponent digit rest
    (⟨whole, hasPoint, fraction, mark, power⟩, rest)

/-- The numeral that a text is. -/
def ofChars? (digit : Char → Option Nat) (cs : List Char) : Option Numeral :=
  match scan digit cs with
  | some (n, []) => some n
  | _ => none

theorem splitSign_append (cs : List Char) : (splitSign cs).1 ++ (splitSign cs).2 = cs := by
  fun_cases splitSign cs <;> rfl

theorem splitExponent_append (digit : Char → Option Nat) (cs : List Char) :
    (splitExponent digit cs).1 ++ (splitExponent digit cs).2.1 ++ (splitExponent digit cs).2.2 =
      cs := by
  cases cs with
  | nil => rfl
  | cons e cs =>
    have sign := splitSign_append cs
    have digits := splitDigits_append digit (splitSign cs).2
    simp only [splitExponent]
    split
    · split
      · rfl
      · rename_i power rest _ h
        rw [h] at digits
        simp only [List.cons_append, List.append_assoc]
        rw [digits, sign]
    · rfl

theorem splitPoint_append {digit : Char → Option Nat} {cs whole fraction rest : List Char}
    {hasPoint : Bool} (h : splitPoint digit cs = some (whole, hasPoint, fraction, rest)) :
    whole ++ (if hasPoint then ['.'] else []) ++ fraction ++ rest = cs := by
  have front := splitDigits_append digit cs
  unfold splitPoint at h
  split at h
  · rename_i after h1
    rw [h1] at front
    have back := splitDigits_append digit after
    split at h
    · cases h
    · rename_i h2
      rw [h2] at back
      cases h
      simpa [back] using front
  · cases h
  · rename_i w after _ h1
    rw [h1] at front
    have back := splitDigits_append digit after
    split at h
    rename_i h2
    rw [h2] at back
    cases h
    simpa [back] using front
  · rename_i h1
    rw [h1] at front
    cases h
    simpa using front

/-- Scanning splits a text into the numeral as it was written and the rest. -/
theorem text_scan {digit : Char → Option Nat} {cs rest : List Char} {n : Numeral}
    (h : scan digit cs = some (n, rest)) : n.text ++ rest = cs := by
  obtain ⟨⟨whole, hasPoint, fraction, after⟩, h1, h2⟩ := Option.map_eq_some_iff.1 h
  have front := splitPoint_append h1
  have back := splitExponent_append digit after
  simp only [Prod.mk.injEq] at h2
  obtain ⟨rfl, rfl⟩ := h2
  rw [← back] at front
  simpa [text, List.append_assoc] using front

/-- A numeral has at least one digit, so it is not empty. -/
theorem text_ne_nil_of_scan {digit : Char → Option Nat} {cs rest : List Char} {n : Numeral}
    (h : scan digit cs = some (n, rest)) : n.text ≠ [] := by
  obtain ⟨⟨whole, hasPoint, fraction, after⟩, h1, h2⟩ := Option.map_eq_some_iff.1 h
  simp only [Prod.mk.injEq] at h2
  obtain ⟨rfl, rfl⟩ := h2
  unfold splitPoint at h1
  split at h1
  · split at h1
    · cases h1
    · cases h1
      simp [text]
  · cases h1
  · cases h1
    simp [text]
  · rename_i w _ nonempty _ _
    cases h1
    cases whole with
    | nil => exact absurd rfl nonempty
    | cons => simp [text]

end Numeral
end Scriptlet
