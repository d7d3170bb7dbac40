import Scriptlet.Text
import Scriptlet.Text.Printable

/-!
# Quoted text in messages

Messages show a piece of text between quotes: single ones, unless the text holds a single quote
and no double one.  The quote in use, the backslash and the usual control characters are written
with a backslash, and every other code point that cannot be shown in hexadecimal digits.
-/

namespace Scriptlet
namespace Text

/-- One character of quoted text. -/
def quotedChar (quote c : Char) : List Char :=
  if c = quote ∨ c = '\\' then ['\\', c]
  else if c = '\n' then ['\\', 'n']
  else if c = '\r' then ['\\', 'r']
  else if c = '\t' then ['\\', 't']
  else if isPrintable c then [c]
  else if c.toNat < 0x100 then '\\' :: 'x' :: hexadecimal 2 c.toNat
  else if c.toNat < 0x10000 then '\\' :: 'u' :: hexadecimal 4 c.toNat
  else '\\' :: 'U' :: hexadecimal 8 c.toNat

/-- One code point of quoted text. -/
def quotedSymbol (quote : Char) : Symbol → List Char
  | .char c => quotedChar quote c
  | .surrogate u => u.escape

/-- The quote that a text is shown between. -/
def quoteFor (symbols : List Symbol) : Char :=
  if .char '\'' ∈ symbols ∧ .char '"' ∉ symbols then '"' else '\''

/-- Code points between quotes. -/
def quotedSymbols (symbols : List Symbol) : List Char :=
  let quote := quoteFor symbols
  quote :: symbols.flatMap (quotedSymbol quote) ++ [quote]

/-- A text between quotes. -/
def quoted (t : Text) : List Char := quotedSymbols t.symbols

/-- Characters between quotes. -/
def quotedChars (cs : List Char) : String := String.ofList (quotedSymbols (cs.map .char))

end Text
end Scriptlet
