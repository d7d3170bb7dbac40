import Scriptlet.Decimal

/-!
# Writing decimals

A decimal is written positionally when its point falls close enough to its digits, and otherwise
with an exponent after one leading digit.  Where the border lies, and what whole numbers and
exponents look like, is a `Style`.
-/

namespace Scriptlet
namespace Decimal

/-- How decimals are written.  `low < point ≤ high` are the positional ones, where `point` counts
the digits before the point. -/
structure Style where
  low : Int
  high : Int
  /-- Whole numbers written positionally end in `.0`. -/
  keepsFraction : Bool
  /-- The least number of digits of an exponent. -/
  exponentDigits : Nat

/-- How far the point stands from the first digit. -/
def point (d : Decimal) : Int := length d.digits + d.exponent

/-- The digits of an exponent after its sign, at least as many as the style asks for. -/
def Style.exponentText (s : Style) (n : Nat) : List Char :=
  let digits := Nat.toDigits 10 n
  List.replicate (s.exponentDigits - digits.length) '0' ++ digits

/-- Digits with a point among them, before them or after them. -/
def positional (s : Style) (digits : List Char) (point : Int) : List Char :=
  if point ≤ 0 then '0' :: '.' :: List.replicate (-point).toNat '0' ++ digits
  else if point < digits.length then
    digits.take point.toNat ++ '.' :: digits.drop point.toNat
  else
    digits ++ List.replicate (point.toNat - digits.length) '0' ++
      if s.keepsFraction then ['.', '0'] else []

/-- One digit, the others after a point, and an exponent with its sign. -/
def scientific (s : Style) (digits : List Char) (point : Int) : List Char :=
  let mantissa :=
    match digits with
    | first :: second :: rest => first :: '.' :: second :: rest
    | digits => digits
  let power := point - 1
  mantissa ++ 'e' :: (if power < 0 then '-' else '+') :: s.exponentText power.natAbs

/-- The text of a positive decimal without trailing zeros. -/
def write (s : Style) (d : Decimal) : List Char :=
  let digits := Nat.toDigits 10 d.digits
  if s.low < d.point ∧ d.point ≤ s.high then positional s digits d.point
  else scientific s digits d.point

end Decimal
end Scriptlet
