import Scriptlet.Binary64

/-!
# Decimals

A decimal is a natural number times a power of ten.  `toFloat` is the nearest double.  Very large
and very small decimals are settled by their length, so no power of ten is formed that is larger
than the answer needs.
-/

namespace Scriptlet

/-- The number `digits · 10 ^ exponent`. -/
structure Decimal where
  digits : Nat
  exponent : Int
  deriving DecidableEq, Repr

namespace Decimal

/-- The number of decimal digits of a natural number; zero has one. -/
def length (n : Nat) : Nat := (Nat.toDigits 10 n).length

/-- The nearest double.  Doubles end between `10 ^ 308` and `10 ^ 309`, and below `10 ^ (-324)`
everything rounds to zero. -/
def toFloat (d : Decimal) : Float :=
  if d.digits = 0 then Binary64.nearest 0 1
  else
    let top : Int := length d.digits + d.exponent
    if 310 < top then Binary64.infinity
    else if top < -330 then Binary64.nearest 0 1
    else if 0 ≤ d.exponent then Binary64.nearest (d.digits * Nat.pow 10 d.exponent.toNat) 1
    else Binary64.nearest d.digits (Nat.pow 10 (-d.exponent).toNat)

end Decimal
end Scriptlet
