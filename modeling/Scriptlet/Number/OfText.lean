import Scriptlet.Decimal.Numeral
import Scriptlet.Fault
import Scriptlet.Text.Blank

/-!
# The number that a text denotes

Blanks at the ends do not count.  The empty text is zero, a signed decimal is its value, and
`Infinity` may have a sign too.  An integer in base 16, 8 or 2 follows its mark `0x`, `0o` or
`0b`, which may stand there once more.  Every other text is not a number, and no text with a
surrogate is one.

An integer with a mark that is beyond the largest double is a fault, whereas such a decimal is
infinite.
-/

namespace Scriptlet
namespace Number

/-- A sign at the front of a text: whether it is negative, and the rest. -/
def splitSign : List Char → Bool × List Char
  | '+' :: cs => (false, cs)
  | '-' :: cs => (true, cs)
  | cs => (false, cs)

/-- The number that a signed decimal or infinity spells. -/
def ofDecimalText? (cs : List Char) : Option Float :=
  let (negative, magnitude) := splitSign cs
  let x? :=
    if magnitude = "Infinity".toList then some Binary64.infinity
    else (Numeral.ofChars? Numeral.asciiDigit magnitude).map fun n =>
      (n.toDecimal Numeral.asciiDigit).toFloat
  x?.map fun x => if negative then -x else x

/-- The base that a mark stands for, in either case. -/
def baseOfMark? (c : Char) : Option Nat :=
  if c = 'x' ∨ c = 'X' then some 16
  else if c = 'o' ∨ c = 'O' then some 8
  else if c = 'b' ∨ c = 'B' then some 2
  else none

/-- The integer that digits of a base spell. -/
def ofDigits? (base : Nat) (cs : List Char) : Option Nat :=
  if cs.isEmpty then none
  else cs.foldl (fun n? c => do
    let n ← n?
    let d ← Text.hexDigit? c
    if d < base then some (base * n + d) else none) (some 0)

/-- The integer that the digits after a mark spell, where the same mark may come once more. -/
def ofMarkedDigits? (base : Nat) (cs : List Char) : Option Nat :=
  match cs with
  | '0' :: mark :: rest =>
    if baseOfMark? mark = some base then ofDigits? base rest else ofDigits? base cs
  | cs => ofDigits? base cs

/-- The integer that a text with a mark spells. -/
def ofMarkedText? : List Char → Option Nat
  | '0' :: mark :: digits => do
    let base ← baseOfMark? mark
    ofMarkedDigits? base digits
  | _ => none

/-- The number that a text denotes. -/
def ofText : Text → Except Fault Float
  | .broken .. => .ok Binary64.nan
  | .plain s =>
    let cs := Text.trim s.toList
    if cs.isEmpty then .ok (Binary64.nearest 0 1)
    else
      match ofDecimalText? cs with
      | some x => .ok x
      | none =>
        match ofMarkedText? cs with
        | none => .ok Binary64.nan
        | some n =>
          match Binary64.ofInt? n with
          | some x => .ok x
          | none => .error .integerTooLarge

end Number
end Scriptlet
