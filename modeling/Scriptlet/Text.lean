import Scriptlet.Text.Hexadecimal

/-!
# Texts

A text is a sequence of code points.  Most texts are characters and nothing else, but an escape can
spell half of a surrogate pair that stands alone, and no such half has a form in UTF-8.  So a text
is a string, or it is a string up to its first surrogate, that surrogate, and a text after it; every
sequence of code points is one text.

* `Symbol` is one code point, and `Text.ofSymbols` puts a text together from them.
* `Text.encode` gives the string of a text that has one, and says of every other text why it cannot
  be written.
* `Text.escaped` shows a text where nothing may fail, with its surrogates as escapes.
-/

namespace Scriptlet

/-- Half of a surrogate pair, by its place among the halves. -/
structure Surrogate where
  offset : Fin 2048
  deriving DecidableEq, Repr, Inhabited

namespace Surrogate

/-- The code point of a surrogate. -/
def code (u : Surrogate) : Nat := 0xD800 + u.offset

/-- A surrogate as an escape. -/
def escape (u : Surrogate) : List Char := '\\' :: 'u' :: Text.hexadecimal 4 u.code

end Surrogate

/-- A code point. -/
inductive Symbol where
  | char (c : Char)
  | surrogate (u : Surrogate)
  deriving DecidableEq, Repr

namespace Symbol

/-- The symbol with a code point, which is none of the surrogates' or a character's. -/
def ofCode (code : Nat) : Symbol :=
  if h : 0xD800 ≤ code ∧ code < 0xE000 then .surrogate ⟨code - 0xD800, by omega⟩
  else .char (Char.ofNat code)

/-- The code point of a symbol. -/
def code : Symbol → Nat
  | .char c => c.toNat
  | .surrogate u => u.code

end Symbol

/-- A text, cut at its surrogates. -/
inductive Text where
  /-- Characters and nothing else. -/
  | plain (s : String)
  /-- The characters up to the first surrogate, the surrogate, and what follows it. -/
  | broken (front : String) (unit : Surrogate) (rest : Text)
  deriving DecidableEq, Repr

namespace Text

instance : Inhabited Text := ⟨.plain ""⟩

instance : Coe String Text := ⟨.plain⟩

/-- Puts characters in front of a text. -/
def prepend (s : String) : Text → Text
  | .plain t => .plain (s ++ t)
  | .broken front unit rest => .broken (s ++ front) unit rest

/-- Two texts, one after the other. -/
def append : Text → Text → Text
  | .plain s, t => t.prepend s
  | .broken front unit rest, t => .broken front unit (rest.append t)

instance : Append Text := ⟨append⟩

/-- Texts, one after the other, with a separator between any two. -/
def intercalate (separator : Text) : List Text → Text
  | [] => .plain ""
  | [t] => t
  | t :: ts => t ++ separator ++ intercalate separator ts

/-- Whether a text has no code points. -/
def isEmpty : Text → Bool
  | .plain s => s.isEmpty
  | .broken .. => false

/-- The code points of a text. -/
def symbols : Text → List Symbol
  | .plain s => s.toList.map .char
  | .broken front unit rest => front.toList.map .char ++ .surrogate unit :: rest.symbols

/-- The numbers of a text's code points, by which texts are ordered. -/
def codes (t : Text) : List Nat := t.symbols.map Symbol.code

/-- The text of symbols, given the characters in front of them from the last to the first. -/
def ofSymbolsAfter (front : List Char) : List Symbol → Text
  | [] => .plain (String.ofList front.reverse)
  | .char c :: symbols => ofSymbolsAfter (c :: front) symbols
  | .surrogate u :: symbols => .broken (String.ofList front.reverse) u (ofSymbolsAfter [] symbols)

/-- The text with given code points. -/
def ofSymbols (symbols : List Symbol) : Text := ofSymbolsAfter [] symbols

/-- The number of surrogates at the front of a text. -/
def surrogatesAhead : Text → Nat
  | .plain _ => 0
  | .broken front _ rest => if front.isEmpty then rest.surrogatesAhead + 1 else 0

/-- Why a text cannot be written: the first surrogate in it. -/
structure Unencodable where
  /-- The number of characters in front of the surrogate. -/
  position : Nat
  unit : Surrogate
  /-- The number of surrogates that follow it at once. -/
  more : Nat
  deriving DecidableEq, Repr

/-- The wording of the reason. -/
def Unencodable.message (e : Unencodable) : String :=
  let place :=
    if e.more = 0 then
      "character '" ++ String.ofList e.unit.escape ++ "' in position " ++ toString e.position
    else
      "characters in position " ++ toString e.position ++ "-" ++ toString (e.position + e.more)
  "'utf-8' codec can't encode " ++ place ++ ": surrogates not allowed"

/-- The characters of a text as they are written. -/
def encode : Text → Except Unencodable String
  | .plain s => .ok s
  | .broken front unit rest => .error ⟨front.length, unit, rest.surrogatesAhead⟩

/-- A text with its surrogates as escapes. -/
def escaped : Text → String
  | .plain s => s
  | .broken front unit rest => front ++ String.ofList unit.escape ++ rest.escaped

@[simp] theorem plain_append (s t : String) : (.plain s ++ .plain t : Text) = .plain (s ++ t) := rfl

@[simp] theorem plain_append_broken (s front : String) (unit : Surrogate) (rest : Text) :
    (.plain s ++ .broken front unit rest : Text) = .broken (s ++ front) unit rest := rfl

@[simp] theorem broken_append (front : String) (unit : Surrogate) (rest t : Text) :
    (.broken front unit rest ++ t : Text) = .broken front unit (rest ++ t) := rfl

theorem append_assoc (s t u : Text) : s ++ t ++ u = s ++ (t ++ u) := by
  induction s with
  | broken front unit rest ih => simp [ih]
  | plain s => cases t <;> cases u <;> simp [String.append_assoc]

theorem ofSymbolsAfter_chars (front cs : List Char) :
    ofSymbolsAfter front (cs.map .char) = .plain (String.ofList (front.reverse ++ cs)) := by
  induction cs generalizing front with
  | nil => simp [ofSymbolsAfter]
  | cons c cs ih => simp [ofSymbolsAfter, ih]

/-- Characters make a text without surrogates. -/
@[simp] theorem ofSymbols_chars (cs : List Char) :
    ofSymbols (cs.map .char) = .plain (String.ofList cs) :=
  ofSymbolsAfter_chars [] cs

/-- A text can be written if it has no surrogates, and is written as it is. -/
theorem encode_eq_ok_iff {t : Text} {s : String} : t.encode = .ok s ↔ t = .plain s := by
  cases t <;> simp [encode]

end Text
end Scriptlet
