import Scriptlet.Decimal.Numeral
import Scriptlet.Json
import Scriptlet.Text.Position

/-!
# Reading JSON

The reader takes one document and refuses everything after it but blanks.  Beyond the standard it
takes `NaN`, `Infinity` and `-Infinity`; of equal keys the last value counts.

* `Problem` names what is wrong, and a `Fault` says where.  An integer with too many digits is a
  fault of its own, which has no place.
* `readString` and `readScalar` read the leaves.
* `readValue` reads a document with a bound on nesting that no text of its length exceeds.

Inside the reader a place is the number of characters that are left, so no step has to count.
-/

namespace Scriptlet
namespace Json

/-- What is wrong with a text that is no document. -/
inductive Problem where
  | value
  | propertyName
  | colon
  | comma
  | extraData
  | controlCharacter
  | unterminatedString
  | escape
  | unicodeEscape
  | byteOrderMark
  deriving DecidableEq, Repr

/-- The wording of a problem. -/
def Problem.message : Problem → String
  | .value => "Expecting value"
  | .propertyName => "Expecting property name enclosed in double quotes"
  | .colon => "Expecting ':' delimiter"
  | .comma => "Expecting ',' delimiter"
  | .extraData => "Extra data"
  | .controlCharacter => "Invalid control character at"
  | .unterminatedString => "Unterminated string starting at"
  | .escape => "Invalid \\escape"
  | .unicodeEscape => "Invalid \\uXXXX escape"
  | .byteOrderMark => "Unexpected UTF-8 BOM (decode using utf-8-sig)"

/-- Why a text cannot be read. -/
inductive Fault where
  /-- The text is no document: what is wrong, and where. -/
  | malformed (problem : Problem) (offset : Nat) (position : Text.Position)
  /-- An integer in it has more digits than integers may have. -/
  | integerTooLong (digits : Nat)
  deriving DecidableEq, Repr

/-- The wording of a fault. -/
def Fault.message : Fault → String
  | .malformed problem offset position =>
    problem.message ++ ": line " ++ toString position.line ++ " column " ++
      toString position.column ++ " (char " ++ toString offset ++ ")"
  | .integerTooLong digits =>
    "Exceeds the limit (" ++ toString maxIntegerDigits ++
      " digits) for integer string conversion: value has " ++ toString digits ++
      " digits; use sys.set_int_max_str_digits() to increase the limit"

/-- A fault as the reader finds it: a place is the number of characters from it to the end. -/
inductive Refusal where
  | malformed (problem : Problem) (left : Nat)
  | integerTooLong (digits : Nat)
  deriving DecidableEq, Repr

/-- The fault that a refusal in a text is. -/
def Refusal.fault (cs : List Char) : Refusal → Fault
  | .malformed problem left =>
    let offset := cs.length - left
    .malformed problem offset (Text.Position.start.advance (cs.take offset))
  | .integerTooLong digits => .integerTooLong digits

/-- The blanks between the parts of a document. -/
def isBlank (c : Char) : Bool := c = ' ' || c = '\t' || c = '\n' || c = '\r'

/-- The text after the blanks at its front. -/
def skipBlanks (cs : List Char) : List Char := cs.dropWhile isBlank

/-! ## Strings -/

/-- The character that a backslash and a letter stand for. -/
def unescape? : Char → Option Char
  | '"' => some '"'
  | '\\' => some '\\'
  | '/' => some '/'
  | 'b' => some '\x08'
  | 'f' => some '\x0c'
  | 'n' => some '\n'
  | 'r' => some '\r'
  | 't' => some '\t'
  | _ => none

/-- The first half of a surrogate pair. -/
def isHighSurrogate (code : Nat) : Bool := decide (0xD800 ≤ code ∧ code < 0xDC00)

/-- The second half of a surrogate pair. -/
def isLowSurrogate (code : Nat) : Bool := decide (0xDC00 ≤ code ∧ code < 0xE000)

/-- The code that a whole escape at the front of a text spells, where something follows it.  The
inner option is nothing if the escape has a digit that is none. -/
def escapedCode? : List Char → Option (Option Nat)
  | '\\' :: 'u' :: cs => if (cs.drop 4).isEmpty then none else some (Text.hexValue? (cs.take 4))
  | _ => none

/-- Reads a string from after its opening quote, given the text from that quote on.  Half of a
surrogate pair without the other half stands for itself. -/
def readString (opening cs : List Char) : Except Refusal (List Symbol × List Char) :=
  match cs with
  | [] => .error (.malformed .unterminatedString opening.length)
  | '"' :: rest => .ok ([], rest)
  | ['\\'] => .error (.malformed .unterminatedString opening.length)
  | '\\' :: 'u' :: rest =>
    if (rest.drop 4).isEmpty then .error (.malformed .unicodeEscape (rest.length + 1))
    else
      match Text.hexValue? (rest.take 4) with
      | none => .error (.malformed .unicodeEscape (rest.length + 1))
      | some code =>
        match if isHighSurrogate code then escapedCode? (rest.drop 4) else none with
        | some none => .error (.malformed .unicodeEscape (rest.length - 5))
        | some (some low) =>
          if isLowSurrogate low then
            let code := 0x10000 + (code - 0xD800) * 0x400 + (low - 0xDC00)
            (readString opening (rest.drop 10)).map fun (s, r) => (.ofCode code :: s, r)
          else (readString opening (rest.drop 4)).map fun (s, r) => (.ofCode code :: s, r)
        | none => (readString opening (rest.drop 4)).map fun (s, r) => (.ofCode code :: s, r)
  | '\\' :: c :: rest =>
    match unescape? c with
    | some d => (readString opening rest).map fun (s, r) => (.char d :: s, r)
    | none => .error (.malformed .escape (rest.length + 2))
  | c :: rest =>
    if c.toNat < 0x20 then .error (.malformed .controlCharacter (rest.length + 1))
    else (readString opening rest).map fun (s, r) => (.char c :: s, r)
termination_by cs.length
decreasing_by all_goals simp only [List.length_drop, List.length_cons]; omega

/-! ## Numbers and words -/

/-- The digits of a number before its point: a leading zero stands alone. -/
def splitWhole : List Char → Option (List Char × List Char)
  | '0' :: rest => some (['0'], rest)
  | cs =>
    match Numeral.splitDigits Numeral.asciiDigit cs with
    | ([], _) => none
    | parts => some parts

/-- The point and the digits after it; a point without digits is left alone. -/
def splitFraction (cs : List Char) : Bool × List Char × List Char :=
  match cs with
  | '.' :: rest =>
    match Numeral.splitDigits Numeral.asciiDigit rest with
    | ([], _) => (false, [], cs)
    | (fraction, rest) => (true, fraction, rest)
  | cs => (false, [], cs)

/-- Splits a number without its sign off the front of a text. -/
def scanNumber (cs : List Char) : Option (Numeral × List Char) :=
  (splitWhole cs).map fun (whole, rest) =>
    let (hasPoint, fraction, rest) := splitFraction rest
    let (mark, power, rest) := Numeral.splitExponent Numeral.asciiDigit rest
    (⟨whole, hasPoint, fraction, mark, power⟩, rest)

/-- The document that a number is: an integer if it has neither point nor exponent. -/
def ofNumeral (negative : Bool) (n : Numeral) : Except Refusal Json :=
  if n.hasPoint ∨ n.mark ≠ [] then
    let x := (n.toDecimal Numeral.asciiDigit).toFloat
    .ok (.real (if negative then -x else x))
  else if maxIntegerDigits < n.whole.length then .error (.integerTooLong n.whole.length)
  else
    let m : Int := Numeral.valueOf Numeral.asciiDigit n.whole
    .ok (.integer (if negative then -m else m))

/-- The words that are documents. -/
def words : List (List Char × Json) :=
  [("null".toList, .null), ("true".toList, .bool true), ("false".toList, .bool false),
    ("NaN".toList, .real Binary64.nan), ("Infinity".toList, .real Binary64.infinity),
    ("-Infinity".toList, .real (-Binary64.infinity))]

/-- The minus sign at the front of a text: whether there is one, and the rest. -/
def splitMinus : List Char → Bool × List Char
  | '-' :: cs => (true, cs)
  | cs => (false, cs)

/-- Reads a number or a word. -/
def readScalar (cs : List Char) : Except Refusal (Json × List Char) :=
  match words.find? fun (word, _) => word.isPrefixOf cs with
  | some (word, j) => .ok (j, cs.drop word.length)
  | none =>
    let (negative, magnitude) := splitMinus cs
    match scanNumber magnitude with
    | some (n, rest) => (ofNumeral negative n).map fun j => (j, rest)
    | none => .error (.malformed .value cs.length)

/-! ## Documents -/

mutual
/-- Reads a document. -/
def readValue : Nat → List Char → Except Refusal (Json × List Char)
  | 0, cs => .error (.malformed .value cs.length)
  | bound + 1, cs =>
    match cs with
    | '"' :: rest => (readString cs rest).map fun (s, r) => (.string (.ofSymbols s), r)
    | '[' :: rest =>
      match skipBlanks rest with
      | ']' :: rest => .ok (.array [], rest)
      | rest => (readItems bound rest).map fun (items, r) => (.array items, r)
    | '{' :: rest =>
      match skipBlanks rest with
      | '}' :: rest => .ok (.object [], rest)
      | rest => (readMembers bound [] rest).map fun (members, r) => (.object members, r)
    | cs => readScalar cs
/-- Reads the items of an array up to its bracket. -/
def readItems : Nat → List Char → Except Refusal (List Json × List Char)
  | 0, cs => .error (.malformed .value cs.length)
  | bound + 1, cs => do
    let (item, rest) ← readValue bound cs
    match skipBlanks rest with
    | ']' :: rest => .ok ([item], rest)
    | ',' :: rest => (readItems bound (skipBlanks rest)).map fun (items, r) => (item :: items, r)
    | rest => .error (.malformed .comma rest.length)
/-- Reads the members of an object up to its brace, after those already read. -/
def readMembers : Nat → List (Text × Json) → List Char →
    Except Refusal (List (Text × Json) × List Char)
  | 0, _, cs => .error (.malformed .value cs.length)
  | bound + 1, before, cs =>
    match cs with
    | '"' :: rest => do
      let (key, rest) ← readString cs rest
      match skipBlanks rest with
      | ':' :: rest => do
        let (value, rest) ← readValue bound (skipBlanks rest)
        let members := setField (.ofSymbols key) value before
        match skipBlanks rest with
        | '}' :: rest => .ok (members, rest)
        | ',' :: rest => readMembers bound members (skipBlanks rest)
        | rest => .error (.malformed .comma rest.length)
      | rest => .error (.malformed .colon rest.length)
    | cs => .error (.malformed .propertyName cs.length)
end

/-- Reads a text that is one document.  A document nests at most once per character, and each
level takes two steps. -/
def readChars (cs : List Char) : Except Refusal Json :=
  match cs with
  | '\uFEFF' :: _ => .error (.malformed .byteOrderMark cs.length)
  | cs => do
    let (j, rest) ← readValue (2 * cs.length + 2) (skipBlanks cs)
    match skipBlanks rest with
    | [] => .ok j
    | rest => .error (.malformed .extraData rest.length)

/-- Reads a text that is one document, or says what is wrong and where. -/
def read (text : String) : Except Fault Json :=
  let cs := text.toList
  (readChars cs).mapError (Refusal.fault cs)

end Json
end Scriptlet
