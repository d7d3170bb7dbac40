/-!
# Doubles as exact binary fractions

Every finite double is `± m · 2 ^ (s - 1074)` for a significand `m` and a number of steps `s`,
and the bits of its magnitude are then `s · 2 ^ 52 + m`.  So all conversions between doubles and
exact numbers are arithmetic on natural numbers with the one scale `2 ^ 1074`.  Powers of two
are shifts throughout.

* `parts` reads the significand and the steps off the bits, and `Parts.bits` puts them back.
* `nearest` is the double nearest to a fraction, the even significand winning a tie.
* `toInt?` is the integer that a double denotes, if it denotes one.
-/

namespace Scriptlet
namespace Binary64

/-- The magnitude `significand · 2 ^ (steps - 1074)`. -/
structure Parts where
  significand : Nat
  steps : Nat
  deriving DecidableEq, Repr

/-- The bits of a magnitude.  A normal significand carries its leading bit into the exponent
field, which is why one sum serves normal and subnormal numbers. -/
def Parts.bits (p : Parts) : Nat := (p.steps <<< 52) + p.significand

/-- All bits of a double but the sign. -/
def magnitudeBits (x : Float) : Nat := x.toBits.toNat % (1 <<< 63)

/-- The sign bit, which zeros and infinities have too. -/
def isNegative (x : Float) : Bool := decide (1 <<< 63 ≤ x.toBits.toNat)

/-- The least magnitude bits that are no finite number. -/
def infinityBits : Nat := 2047 <<< 52

/-- Positive infinity. -/
def infinity : Float := Float.ofBits (UInt64.ofNat infinityBits)

/-- The quiet number that equals nothing. -/
def nan : Float := Float.ofBits (UInt64.ofNat (infinityBits + (1 <<< 51)))

/-- The magnitude with the given bits: below `2 ^ 53` they are the significand itself. -/
def Parts.ofBits (bits : Nat) : Parts :=
  let steps := (bits >>> 52) - 1
  ⟨bits - (steps <<< 52), steps⟩

/-- Reading the parts of some bits and putting them together gives the bits back. -/
theorem Parts.bits_ofBits (bits : Nat) : (Parts.ofBits bits).bits = bits := by
  have h : ((bits >>> 52) - 1) <<< 52 ≤ bits := by
    rw [Nat.shiftLeft_eq, Nat.shiftRight_eq_div_pow]
    exact Nat.le_trans (Nat.mul_le_mul_right _ (Nat.sub_le _ _)) (Nat.div_mul_le_self _ _)
  exact Nat.add_sub_cancel' h

/-- The parts of a double's magnitude. -/
def parts (x : Float) : Parts := Parts.ofBits (magnitudeBits x)

/-- A fraction rounded to the nearest natural number, a half going to the even neighbour. -/
def roundHalfEven (numerator denominator : Nat) : Nat :=
  let quotient := numerator / denominator
  let twice := 2 * (numerator % denominator)
  if denominator < twice ∨ (twice = denominator ∧ quotient % 2 = 1) then quotient + 1 else quotient

/-- The magnitude bits of the double nearest to a fraction.  The steps are chosen so that the
significand has at most 53 bits; if rounding gives it one more, the sum carries into the steps
by itself.  What is past the largest double is infinite. -/
def nearestBits (numerator denominator : Nat) : Nat :=
  let scaled := numerator <<< 1074
  let steps := (scaled / denominator).log2 - 52
  min infinityBits (Parts.bits ⟨roundHalfEven scaled (denominator <<< steps), steps⟩)

/-- The double nearest to a fraction. -/
def nearest (numerator denominator : Nat) : Float :=
  Float.ofBits (UInt64.ofNat (nearestBits numerator denominator))

/-- The double nearest to an integer, or nothing if the integer is too large for one. -/
def ofInt? (n : Int) : Option Float :=
  if nearestBits n.natAbs 1 = infinityBits then none
  else if n < 0 then some (-(nearest n.natAbs 1))
  else some (nearest n.natAbs 1)

/-- The natural number that a magnitude denotes, if it denotes one. -/
def Parts.toNat? (p : Parts) : Option Nat :=
  if 1074 ≤ p.steps then some (p.significand <<< (p.steps - 1074))
  else if p.significand % (1 <<< (1074 - p.steps)) = 0 then
    some (p.significand >>> (1074 - p.steps))
  else none

/-- The integer that a double denotes, if it denotes one; both zeros denote `0`. -/
def toInt? (x : Float) : Option Int :=
  if infinityBits ≤ magnitudeBits x then none
  else (parts x).toNat?.map fun n => if isNegative x then -(n : Int) else n

end Binary64
end Scriptlet
