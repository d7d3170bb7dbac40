import Scriptlet.Text.Hexadecimal

/-!
# Reading bytes as text

Bytes are read one at a time.  A lead byte says how many bytes are owed after it and which range
the first of them has to lie in; that range is what keeps out overlong forms, surrogates and code
points past the last one.  Bytes that are no text are refused with the place and the reason.
-/

namespace Scriptlet
namespace Text

/-- Why bytes are no text. -/
inductive Utf8Reason where
  | startByte
  | continuationByte
  | endOfData
  deriving DecidableEq, Repr

/-- A refusal: the reason, the place of the first byte concerned, and the bytes concerned. -/
structure Utf8Fault where
  reason : Utf8Reason
  position : Nat
  bytes : List UInt8
  deriving DecidableEq, Repr

/-- The wording of a reason. -/
def Utf8Reason.message : Utf8Reason → String
  | .startByte => "invalid start byte"
  | .continuationByte => "invalid continuation byte"
  | .endOfData => "unexpected end of data"

/-- The wording of a refusal. -/
def Utf8Fault.message (f : Utf8Fault) : String :=
  let place :=
    match f.bytes with
    | [b] => "byte 0x" ++ String.ofList (hexadecimal 2 b.toNat) ++ " in position " ++
        toString f.position
    | bytes => "bytes in position " ++ toString f.position ++ "-" ++
        toString (f.position + bytes.length - 1)
  "'utf-8' codec can't decode " ++ place ++ ": " ++ f.reason.message

/-- A character under way: the bytes still owed, the range of the next one, the code point so
far, and the bytes read, last first. -/
structure Utf8Pending where
  owed : Nat
  least : Nat
  greatest : Nat
  code : Nat
  read : List UInt8

/-- The character that a byte from `0x80` on starts, if it starts one. -/
def Utf8Pending.start? (b : UInt8) : Option Utf8Pending :=
  let n := b.toNat
  if n < 0xC2 then none
  else if n ≤ 0xDF then some ⟨1, 0x80, 0xBF, n - 0xC0, [b]⟩
  else if n = 0xE0 then some ⟨2, 0xA0, 0xBF, 0, [b]⟩
  else if n = 0xED then some ⟨2, 0x80, 0x9F, 0xD, [b]⟩
  else if n ≤ 0xEF then some ⟨2, 0x80, 0xBF, n - 0xE0, [b]⟩
  else if n = 0xF0 then some ⟨3, 0x90, 0xBF, 0, [b]⟩
  else if n ≤ 0xF3 then some ⟨3, 0x80, 0xBF, n - 0xF0, [b]⟩
  else if n = 0xF4 then some ⟨3, 0x80, 0x8F, 4, [b]⟩
  else none

/-- The refusal of a character under way, given the place after the bytes read. -/
def Utf8Pending.refuse (u : Utf8Pending) (reason : Utf8Reason) (position : Nat) : Utf8Fault :=
  ⟨reason, position - u.read.length, u.read.reverse⟩

/-- Reads bytes from a place on, with a character under way or none. -/
def readUtf8From : Nat → Option Utf8Pending → List UInt8 → Except Utf8Fault (List Char)
  | _, none, [] => .ok []
  | position, some u, [] => .error (u.refuse .endOfData position)
  | position, none, b :: bytes =>
    if b.toNat < 0x80 then
      (readUtf8From (position + 1) none bytes).map (Char.ofNat b.toNat :: ·)
    else
      match Utf8Pending.start? b with
      | none => .error ⟨.startByte, position, [b]⟩
      | some u => readUtf8From (position + 1) (some u) bytes
  | position, some u, b :: bytes =>
    if u.least ≤ b.toNat ∧ b.toNat ≤ u.greatest then
      let code := u.code * 64 + b.toNat % 64
      if u.owed = 1 then (readUtf8From (position + 1) none bytes).map (Char.ofNat code :: ·)
      else readUtf8From (position + 1) (some ⟨u.owed - 1, 0x80, 0xBF, code, b :: u.read⟩) bytes
    else .error (u.refuse .continuationByte position)

/-- The text that bytes spell. -/
def readUtf8 (bytes : List UInt8) : Except Utf8Fault (List Char) := readUtf8From 0 none bytes

end Text
end Scriptlet
