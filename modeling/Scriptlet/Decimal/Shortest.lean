import Scriptlet.Decimal

/-!
# The shortest decimal that reads back

A double stands for all reals that round to it, an interval whose ends belong to it when its
significand is even.  The shortest decimal is the nearest point of the coarsest decimal grid that
meets the interval.  If any point of a grid lies in the interval, so does one of the double's two
neighbours on that grid; hence two candidates per grid are enough.

All comparisons are made on natural numbers: a `Span` is the double's value and the ends of its
interval over one common denominator.
-/

namespace Scriptlet
namespace Decimal

/-- A number with the interval of reals that round to it, over a common denominator. -/
structure Span where
  lower : Nat
  value : Nat
  upper : Nat
  denominator : Nat
  closed : Bool

/-- The span of a magnitude.  Just below a power of two the doubles lie twice as close, unless
the steps have already run out. -/
def Span.ofParts (p : Binary64.Parts) : Span :=
  let below := if p.significand = 1 <<< 52 ∧ 0 < p.steps then 1 else 2
  let up := p.steps - 1076
  ⟨(4 * p.significand - below) <<< up, (4 * p.significand) <<< up,
    (4 * p.significand + 2) <<< up, 1 <<< (1076 - p.steps), decide (p.significand % 2 = 0)⟩

/-- The same span with `10 ^ place` as the unit. -/
def Span.inUnits (s : Span) (place : Int) : Span :=
  let up := Nat.pow 10 (-place).toNat
  ⟨s.lower * up, s.value * up, s.upper * up, s.denominator * Nat.pow 10 place.toNat, s.closed⟩

/-- Whether a natural number lies in a span. -/
def Span.contains (s : Span) (n : Nat) : Bool :=
  let scaled := n * s.denominator
  if s.closed then decide (s.lower ≤ scaled ∧ scaled ≤ s.upper)
  else decide (s.lower < scaled ∧ scaled < s.upper)

/-- The natural number in a span that is nearest to its value, the even one on a tie. -/
def Span.nearest? (s : Span) : Option Nat :=
  let floor := s.value / s.denominator
  match s.contains floor, s.contains (floor + 1) with
  | false, false => none
  | true, false => some floor
  | false, true => some (floor + 1)
  | true, true => some (Binary64.roundHalfEven s.value s.denominator)

/-- The place of the leading decimal digit of a span's value. -/
def Span.leadingPlace (s : Span) : Int :=
  if s.denominator ≤ s.value then length (s.value / s.denominator) - 1
  else -(length (s.denominator / s.value))

/-- The decimal without trailing zeros, which a candidate has only when it is a power of ten. -/
def trim (d : Decimal) : Decimal :=
  if d.digits % 10 = 0 then ⟨d.digits / 10, d.exponent + 1⟩ else d

/-- Tries the grids from a place downwards.  Seventeen digits always tell doubles apart, so the
search ends before `grids` does. -/
def Span.search (s : Span) : Nat → Int → Decimal
  | 0, place =>
    let t := s.inUnits place
    ⟨t.value / t.denominator, place⟩
  | grids + 1, place =>
    match (s.inUnits place).nearest? with
    | some n => trim ⟨n, place⟩
    | none => s.search grids (place - 1)

/-- The shortest decimal that rounds to a positive magnitude, and the nearest to it of those. -/
def shortest (p : Binary64.Parts) : Decimal :=
  let s := Span.ofParts p
  s.search 18 s.leadingPlace

end Decimal
end Scriptlet
