import Scriptlet.Decimal.Shortest
import Scriptlet.Decimal.Style

/-!
# The text of a number

A number is written with the fewest digits that read back, positionally from `10 ^ (-6)` up to
`10 ^ 21` and with an exponent elsewhere.  Both zeros are written alike.
-/

namespace Scriptlet
namespace Number

/-- Whole numbers have no point, and exponents have no leading zeros. -/
def style : Decimal.Style := ⟨-6, 21, false, 1⟩

/-- The text of a number. -/
def text (x : Float) : List Char :=
  if x.isNaN then "NaN".toList
  else if Binary64.magnitudeBits x = 0 then ['0']
  else
    let magnitude :=
      if Binary64.infinityBits ≤ Binary64.magnitudeBits x then "Infinity".toList
      else Decimal.write style (Decimal.shortest (Binary64.parts x))
    if Binary64.isNegative x then '-' :: magnitude else magnitude

end Number
end Scriptlet
