import Scriptlet.Decimal.Shortest
import Scriptlet.Decimal.Style
import Scriptlet.Json
import Scriptlet.Text.Hexadecimal

/-!
# Writing JSON

A document is written on one line or with every item on a line of its own, indented by two spaces
a level.  Strings escape the quote, the backslash and the control characters and nothing else.
Numbers that are no integers have the fewest digits that read back, and always a point or an
exponent, so that they are not read back as integers.

Documents are written piece by piece into files, and a text that has no UTF-8 ends the writing: what
stands in front of it has been written, and nothing else is.  In front of a text that is an item of
an array the separator would be lost as well, but the arrays that are written into files hold
objects.

* `writeString` is a string with its quotes, and `writeText` a text.
* `writeBefore` is a document in front of what follows it, and `write` is what is written of it.
* `unencodable?` is what ends the writing, if anything does.
-/

namespace Scriptlet
namespace Json

/-- Decimal exponents from -4 to 15 are written positionally, whole numbers keep `.0`, and
exponents have two digits. -/
def realStyle : Decimal.Style := ⟨-4, 16, true, 2⟩

/-- The text of a finite number that is no integer document. -/
def finiteText (x : Float) : List Char :=
  let magnitude :=
    if Binary64.magnitudeBits x = 0 then ['0', '.', '0']
    else Decimal.write realStyle (Decimal.shortest (Binary64.parts x))
  if Binary64.isNegative x then '-' :: magnitude else magnitude

/-- The text of a number, given the names of what is no number and what is infinite. -/
def realTextWith (nan infinity : List Char) (x : Float) : List Char :=
  if x.isNaN then nan
  else if Binary64.infinityBits ≤ Binary64.magnitudeBits x then
    if Binary64.isNegative x then '-' :: infinity else infinity
  else finiteText x

/-- The text of an integer. -/
def integerText (n : Int) : List Char :=
  if n < 0 then '-' :: Nat.toDigits 10 n.natAbs else Nat.toDigits 10 n.natAbs

/-- One character of a string. -/
def writeChar (c : Char) : List Char :=
  if c = '"' ∨ c = '\\' then ['\\', c]
  else if c = '\n' then ['\\', 'n']
  else if c = '\r' then ['\\', 'r']
  else if c = '\t' then ['\\', 't']
  else if c = '\x08' then ['\\', 'b']
  else if c = '\x0c' then ['\\', 'f']
  else if c.toNat < 0x20 then '\\' :: 'u' :: Text.hexadecimal 4 c.toNat
  else [c]

/-- A string with its quotes. -/
def writeString (s : String) : List Char :=
  '"' :: s.toList.flatMap writeChar ++ ['"']

/-- A text in front of what follows it, which is not written after a text that cannot be. -/
def writeText : Text → List Char → List Char
  | .plain s, rest => writeString s ++ rest
  | .broken .., _ => []

/-- Where line breaks go. -/
inductive Layout where
  | oneLine
  | indented
  deriving DecidableEq, Repr

/-- What stands after an opening bracket and before a closing one. -/
def Layout.edge (l : Layout) (depth : Nat) : List Char :=
  match l with
  | .oneLine => []
  | .indented => '\n' :: List.replicate (2 * depth) ' '

/-- What stands between two items. -/
def Layout.comma (l : Layout) (depth : Nat) : List Char :=
  match l with
  | .oneLine => [',', ' ']
  | .indented => ',' :: l.edge depth

mutual
/-- A document that stands at a depth, in front of what follows it.  To take what follows as an
argument keeps the work linear, however deep the document is. -/
def writeBefore (l : Layout) (depth : Nat) : Json → List Char → List Char
  | .null, rest => "null".toList ++ rest
  | .bool true, rest => "true".toList ++ rest
  | .bool false, rest => "false".toList ++ rest
  | .integer n, rest => integerText n ++ rest
  | .real x, rest => realTextWith "NaN".toList "Infinity".toList x ++ rest
  | .string s, rest => writeText s rest
  | .array [], rest => '[' :: ']' :: rest
  | .array (item :: items), rest =>
    '[' :: l.edge (depth + 1) ++ writeBefore l (depth + 1) item
      (writeItems l (depth + 1) items (l.edge depth ++ ']' :: rest))
  | .object [], rest => '{' :: '}' :: rest
  | .object ((k, v) :: members), rest =>
    '{' :: l.edge (depth + 1) ++ writeText k (':' :: ' ' :: writeBefore l (depth + 1) v
      (writeMembers l (depth + 1) members (l.edge depth ++ '}' :: rest)))
/-- The items of an array after the first, in front of what follows them. -/
def writeItems (l : Layout) (depth : Nat) : List Json → List Char → List Char
  | [], rest => rest
  | item :: items, rest => l.comma depth ++ writeBefore l depth item (writeItems l depth items rest)
/-- The members of an object after the first, in front of what follows them. -/
def writeMembers (l : Layout) (depth : Nat) : List (Text × Json) → List Char → List Char
  | [], rest => rest
  | (k, v) :: members, rest =>
    l.comma depth ++ writeText k (':' :: ' ' :: writeBefore l depth v
      (writeMembers l depth members rest))
end

/-- What is written of a document. -/
def write (l : Layout) (j : Json) : String := String.ofList (writeBefore l 0 j [])

/-- Why a text cannot be written, if it cannot: the quote and the escapes in front of its first
surrogate count for the place. -/
def textUnencodable? : Text → Option Text.Unencodable
  | .plain _ => none
  | .broken front unit rest =>
    some ⟨(front.toList.flatMap writeChar).length + 1, unit, rest.surrogatesAhead⟩

mutual
/-- What ends the writing of a document, if anything does. -/
def unencodable? : Json → Option Text.Unencodable
  | .string s => textUnencodable? s
  | .array items => itemsUnencodable? items
  | .object members => membersUnencodable? members
  | _ => none
/-- What ends the writing of items. -/
def itemsUnencodable? : List Json → Option Text.Unencodable
  | [] => none
  | item :: items => (unencodable? item).or (itemsUnencodable? items)
/-- What ends the writing of members. -/
def membersUnencodable? : List (Text × Json) → Option Text.Unencodable
  | [] => none
  | (k, v) :: members =>
    (textUnencodable? k).or ((unencodable? v).or (membersUnencodable? members))
end

end Json
end Scriptlet
