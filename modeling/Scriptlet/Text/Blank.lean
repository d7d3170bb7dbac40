/-!
# Blank characters

The characters that are trimmed from a string before it is read as a number.  Layout in program
text is a smaller set and belongs to the scanner.
-/

namespace Scriptlet
namespace Text

/-- The blank characters: those of ASCII and Latin-1, the separators of files, groups, records
and units, and the spaces and line ends of the other scripts. -/
def isBlank (c : Char) : Bool :=
  let n := c.toNat
  decide ((0x09 ≤ n ∧ n ≤ 0x0D) ∨ (0x1C ≤ n ∧ n ≤ 0x20) ∨ n = 0x85 ∨ n = 0xA0 ∨ n = 0x1680 ∨
    (0x2000 ≤ n ∧ n ≤ 0x200A) ∨ n = 0x2028 ∨ n = 0x2029 ∨ n = 0x202F ∨ n = 0x205F ∨ n = 0x3000)

/-- The text between the blanks at its two ends. -/
def trim (cs : List Char) : List Char :=
  ((cs.dropWhile isBlank).reverse.dropWhile isBlank).reverse

end Text
end Scriptlet
