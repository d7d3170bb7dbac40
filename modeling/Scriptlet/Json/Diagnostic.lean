import Scriptlet.Json.Write
import Scriptlet.Text.Quoted

/-!
# Documents in messages

Messages about a document that is not what it should be show the document itself, in the notation
of the messages and not as JSON: `None`, `True`, `False`, and text between single quotes.  An
integer with too many digits cannot be shown, and neither can a document that holds one.

* `Json.Shown` is a document that can be shown, with its texts `diagnostic` and `spoken`.
* `tooManyDigits` is the wording of the error that takes the place of a message about any other
  document.
-/

namespace Scriptlet
namespace Json

mutual
/-- Whether a document holds no integer with more digits than are shown. -/
def isShowable : Json → Bool
  | .integer n => decide ((Nat.toDigits 10 n.natAbs).length ≤ maxIntegerDigits)
  | .array items => areShowable items
  | .object members => membersShowable members
  | _ => true
/-- Whether all items can be shown. -/
def areShowable : List Json → Bool
  | [] => true
  | item :: items => item.isShowable && areShowable items
/-- Whether all members can be shown. -/
def membersShowable : List (Text × Json) → Bool
  | [] => true
  | (_, v) :: members => v.isShowable && membersShowable members
end

mutual
/-- A document as a message shows it, in front of what follows it. -/
def diagnosticBefore : Json → List Char → List Char
  | .null, rest => "None".toList ++ rest
  | .bool true, rest => "True".toList ++ rest
  | .bool false, rest => "False".toList ++ rest
  | .integer n, rest => integerText n ++ rest
  | .real x, rest => realTextWith "nan".toList "inf".toList x ++ rest
  | .string s, rest => s.quoted ++ rest
  | .array [], rest => '[' :: ']' :: rest
  | .array (item :: items), rest =>
    '[' :: diagnosticBefore item (diagnosticItems items (']' :: rest))
  | .object [], rest => '{' :: '}' :: rest
  | .object ((k, v) :: members), rest =>
    '{' :: k.quoted ++ ':' :: ' ' ::
      diagnosticBefore v (diagnosticMembers members ('}' :: rest))
/-- The items of an array after the first, in front of what follows them. -/
def diagnosticItems : List Json → List Char → List Char
  | [], rest => rest
  | item :: items, rest => ',' :: ' ' :: diagnosticBefore item (diagnosticItems items rest)
/-- The members of an object after the first, in front of what follows them. -/
def diagnosticMembers : List (Text × Json) → List Char → List Char
  | [], rest => rest
  | (k, v) :: members, rest =>
    ',' :: ' ' :: k.quoted ++ ':' :: ' ' ::
      diagnosticBefore v (diagnosticMembers members rest)
end

/-- A document that a message can show. -/
structure Shown where
  document : Json
  isShowable : document.isShowable = true

/-- A document as a message shows it. -/
def Shown.diagnostic (j : Shown) : String := String.ofList (diagnosticBefore j.document [])

/-- A document in the place of a word: text stands there without quotes. -/
def Shown.spoken (j : Shown) : Text :=
  match j.document with
  | .string s => s
  | _ => j.diagnostic

/-- A text can be shown. -/
def Shown.string (s : Text) : Shown := ⟨.string s, rfl⟩

/-- The wording of the error that an integer with too many digits makes of a message. -/
def tooManyDigits : String :=
  "Exceeds the limit (" ++ toString maxIntegerDigits ++
    " digits) for integer string conversion; use sys.set_int_max_str_digits() to increase the limit"

end Json
end Scriptlet
