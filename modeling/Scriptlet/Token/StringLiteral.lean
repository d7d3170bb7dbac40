import Scriptlet.Text

/-!
# What string literals denote

A backslash starts an escape: a letter for a control character, up to three octal digits, `x`, `u`
or `U` with two, four or eight hexadecimal ones, or `N` with the name of a character in braces.
Before a carriage return it stands for nothing, and before any other character it stands for
itself.  Digits may spell half of a surrogate pair, and two halves are not joined.

A literal denotes nothing if an escape lacks digits or names a character that does not exist, or
if a raw carriage return or a raw null stands in it.  That does not keep the text around it from
being read.

* `CharacterNames` is the table of names, which is a parameter of everything that reads literals.
* `decode` is the text that a literal denotes.
-/

namespace Scriptlet

/-- The names of characters. -/
class CharacterNames where
  /-- The character with a name. -/
  find? (name : List Char) : Option Char

/-- The table without names. -/
abbrev CharacterNames.empty : CharacterNames := ⟨fun _ => none⟩

namespace StringLiteral

/-- The character that a backslash and a letter stand for. -/
def unescape? : Char → Option Char
  | 'n' => some '\n'
  | 'r' => some '\r'
  | 't' => some '\t'
  | 'b' => some '\x08'
  | 'f' => some '\x0c'
  | 'v' => some '\x0b'
  | 'a' => some '\x07'
  | '\\' => some '\\'
  | '\'' => some '\''
  | '"' => some '"'
  | _ => none

/-- The number of hexadecimal digits that a letter after a backslash asks for. -/
def hexLength? : Char → Option Nat
  | 'x' => some 2
  | 'u' => some 4
  | 'U' => some 8
  | _ => none

/-- Whether a character is an octal digit. -/
def isOctal (c : Char) : Bool := decide ('0' ≤ c ∧ c ≤ '7')

/-- The octal digits at the front of a text, three at most. -/
def octalDigits (cs : List Char) : List Char := (cs.take 3).takeWhile isOctal

/-- The number that octal digits spell. -/
def octalValue (cs : List Char) : Nat := cs.foldl (fun n c => 8 * n + (c.toNat - '0'.toNat)) 0

/-- The symbol that exactly as many hexadecimal digits as asked for spell. -/
def hexSymbol? (length : Nat) (cs : List Char) : Option Symbol :=
  let digits := cs.take length
  if digits.length = length then
    (Text.hexValue? digits).bind fun code =>
      if code ≤ 0x10FFFF then some (.ofCode code) else none
  else none

/-- Whether characters can be the name of one: letters and digits of ASCII, blanks and hyphens. -/
def isName (cs : List Char) : Bool :=
  !cs.isEmpty && cs.all fun c => c.isAlphanum || c = ' ' || c = '-'

/-- The characters in front of a closing brace. -/
def braced (cs : List Char) : List Char := cs.takeWhile (· ≠ '}')

variable [CharacterNames]

/-- The character whose name stands in braces at the front of a text. -/
def namedChar? : List Char → Option Char
  | '{' :: cs =>
    let name := braced cs
    if isName name ∧ name.length < cs.length then CharacterNames.find? name else none
  | _ => none

/-- The code points that the inside of a literal denotes. -/
def decodeInside (cs : List Char) : Option (List Symbol) :=
  match cs with
  | [] => some []
  | '\\' :: c :: rest =>
    if c = '\r' then decodeInside rest
    else if c = '\x00' then none
    else if c = 'N' then
      -- the name stands between two braces
      (namedChar? rest).bind fun d =>
        (decodeInside (rest.drop ((braced (rest.drop 1)).length + 2))).map (.char d :: ·)
    else
      match unescape? c with
      | some d => (decodeInside rest).map (.char d :: ·)
      | none =>
        match hexLength? c with
        | some length =>
          (hexSymbol? length rest).bind fun d => (decodeInside (rest.drop length)).map (d :: ·)
        | none =>
          match octalDigits (c :: rest) with
          | [] => (decodeInside rest).map fun text => .char '\\' :: .char c :: text
          | first :: more =>
            let d := Symbol.ofCode (octalValue (first :: more))
            (decodeInside (rest.drop more.length)).map (d :: ·)
  | ['\\'] => none
  | c :: rest =>
    if c = '\r' ∨ c = '\x00' then none else (decodeInside rest).map (.char c :: ·)
termination_by cs.length
decreasing_by all_goals simp only [List.length_drop, List.length_cons]; omega

/-- The text that a literal with its quotes denotes. -/
def decode (lexeme : List Char) : Option Text :=
  (decodeInside (lexeme.drop 1).dropLast).map Text.ofSymbols

end StringLiteral
end Scriptlet
