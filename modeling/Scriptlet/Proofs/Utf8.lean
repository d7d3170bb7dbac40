import Scriptlet.Text.Utf8

/-!
# Text survives as bytes

Text that is written as UTF-8 is read as the same text.

* `Utf8Pending.start?_of_two`, `start?_of_three`, `start?_of_four`: the lead byte of a character
  owes the bytes that follow it, and the first of them lies in the range that it asks for.  This is
  where it matters that no character is a surrogate or lies past the last code point.
* `readUtf8From_character`: hence every character is read back, whichever number of bytes it has.
* `readUtf8_toUTF8` is the result.
-/

namespace Scriptlet
namespace Text

/-! ## Single bytes -/

section Bytes

variable {position : Nat} {b : UInt8} {bytes : List UInt8}

theorem readUtf8From_ascii (h : b.toNat < 0x80) :
    readUtf8From position none (b :: bytes) =
      (readUtf8From (position + 1) none bytes).map (Char.ofNat b.toNat :: ·) := by
  rw [readUtf8From, if_pos h]

theorem readUtf8From_lead {u : Utf8Pending} (h : Utf8Pending.start? b = some u) :
    readUtf8From position none (b :: bytes) = readUtf8From (position + 1) (some u) bytes := by
  have hlarge : ¬ b.toNat < 0x80 := by
    intro hsmall
    have hnone : Utf8Pending.start? b = none := if_pos (by omega)
    rw [h] at hnone
    cases hnone
  rw [readUtf8From, if_neg hlarge, h]

variable {least greatest code r : Nat} {read : List UInt8} (hb : b.toNat = r + 0x80) (hr : r < 64)
  (hleast : least ≤ r + 0x80) (hgreatest : r + 0x80 ≤ greatest)

include hb hr hleast hgreatest

/-- The last byte of a character. -/
theorem readUtf8From_last :
    readUtf8From position (some ⟨1, least, greatest, code, read⟩) (b :: bytes) =
      (readUtf8From (position + 1) none bytes).map (Char.ofNat (code * 64 + r) :: ·) := by
  have hbits : b.toNat % 64 = r := by omega
  rw [readUtf8From, if_pos ⟨hb ▸ hleast, hb ▸ hgreatest⟩]
  dsimp only
  rw [if_pos rfl, hbits]

/-- A byte that others follow. -/
theorem readUtf8From_more (owed : Nat) :
    readUtf8From position (some ⟨owed + 2, least, greatest, code, read⟩) (b :: bytes) =
      readUtf8From (position + 1) (some ⟨owed + 1, 0x80, 0xBF, code * 64 + r, b :: read⟩)
        bytes := by
  have hbits : b.toNat % 64 = r := by omega
  rw [readUtf8From, if_pos ⟨hb ▸ hleast, hb ▸ hgreatest⟩]
  dsimp only
  rw [if_neg (by omega), hbits]
  rfl

end Bytes

/-! ## Lead bytes -/

section Leads

variable {b : UInt8} {n : Nat}

theorem Utf8Pending.start?_of_two (hb : b.toNat = n / 64 + 0xC0) (hlow : 0x7F < n)
    (hhigh : n ≤ 0x7FF) : start? b = some ⟨1, 0x80, 0xBF, n / 64, [b]⟩ := by
  have hcode : b.toNat - 0xC0 = n / 64 := by omega
  unfold start?
  dsimp only
  rw [if_neg (by omega), if_pos (by omega), hcode]

/-- Surrogates are left out here. -/
theorem Utf8Pending.start?_of_three (hb : b.toNat = n / 4096 + 0xE0) (hlow : 0x7FF < n)
    (hhigh : n ≤ 0xFFFF) (hvalid : n.isValidChar) :
    ∃ least greatest, start? b = some ⟨2, least, greatest, n / 4096, [b]⟩ ∧
      least ≤ n / 64 % 64 + 0x80 ∧ n / 64 % 64 + 0x80 ≤ greatest := by
  unfold start?
  dsimp only
  rw [if_neg (by omega), if_neg (by omega)]
  by_cases hfirst : n / 4096 = 0
  · rw [if_pos (by omega), hfirst]
    exact ⟨0xA0, 0xBF, rfl, by omega, by omega⟩
  · by_cases hsurrogate : n / 4096 = 0xD
    · rw [if_neg (by omega), if_pos (by omega), hsurrogate]
      have hbelow : n < 0xD800 := hvalid.resolve_right fun h => by omega
      exact ⟨0x80, 0x9F, rfl, by omega, by omega⟩
    · have hcode : b.toNat - 0xE0 = n / 4096 := by omega
      rw [if_neg (by omega), if_neg (by omega), if_pos (by omega), hcode]
      exact ⟨0x80, 0xBF, rfl, by omega, by omega⟩

/-- What lies past the last code point is left out here. -/
theorem Utf8Pending.start?_of_four (hb : b.toNat = n / 262144 + 0xF0) (hlow : 0xFFFF < n)
    (hhigh : n < 0x110000) :
    ∃ least greatest, start? b = some ⟨3, least, greatest, n / 262144, [b]⟩ ∧
      least ≤ n / 4096 % 64 + 0x80 ∧ n / 4096 % 64 + 0x80 ≤ greatest := by
  unfold start?
  dsimp only
  rw [if_neg (by omega), if_neg (by omega), if_neg (by omega), if_neg (by omega), if_neg (by omega)]
  by_cases hfirst : n / 262144 = 0
  · rw [if_pos (by omega), hfirst]
    exact ⟨0x90, 0xBF, rfl, by omega, by omega⟩
  · by_cases hlast : n / 262144 = 4
    · rw [if_neg (by omega), if_neg (by omega), if_pos (by omega), hlast]
      exact ⟨0x80, 0x8F, rfl, by omega, by omega⟩
    · have hcode : b.toNat - 0xF0 = n / 262144 := by omega
      rw [if_neg (by omega), if_pos (by omega), hcode]
      exact ⟨0x80, 0xBF, rfl, by omega, by omega⟩

end Leads

/-! ## Characters -/

/-- The byte of a number. -/
theorem toNat_byte {k : Nat} (h : k < 256) : (UInt8.ofNat k).toNat = k :=
  UInt8.toNat_ofNat_of_lt' h

/-- The bytes of a character are read as that character. -/
theorem readUtf8From_character (position : Nat) (c : Char) (bytes : List UInt8) :
    ∃ next, readUtf8From position none (String.utf8EncodeChar c ++ bytes) =
      (readUtf8From next none bytes).map (c :: ·) := by
  obtain ⟨n, hn⟩ : ∃ n, n = c.toNat := ⟨_, rfl⟩
  have hvalid : n.isValidChar := hn ▸ c.valid
  have hc : Char.ofNat n = c := hn ▸ Char.ofNat_toNat c
  have hlimit : n < 0x110000 := hvalid.elim (fun h => by omega) And.right
  -- the last byte is the same whatever stands before it
  have htail : (UInt8.ofNat (n % 64 + 128)).toNat = n % 64 + 128 := toNat_byte (by omega)
  have hbits : n % 64 < 64 := Nat.mod_lt n (by decide)
  unfold String.utf8EncodeChar
  rw [show c.val.toNat = n from hn.symm]
  dsimp only
  by_cases hone : n ≤ 0x7F
  · have hlead : (UInt8.ofNat n).toNat = n := toNat_byte (by omega)
    rw [if_pos hone, List.singleton_append, readUtf8From_ascii (by omega), hlead, hc]
    exact ⟨_, rfl⟩
  by_cases htwo : n ≤ 0x7FF
  · have hlead := toNat_byte (k := n / 64 % 32 + 192) (by omega)
    have hcode : n / 64 * 64 + n % 64 = n := by omega
    rw [if_neg hone, if_pos htwo, List.cons_append, List.singleton_append,
      readUtf8From_lead (Utf8Pending.start?_of_two (n := n) (by omega) (by omega) htwo),
      readUtf8From_last htail hbits (by omega) (by omega), hcode, hc]
    exact ⟨_, rfl⟩
  have hmiddle := toNat_byte (k := n / 64 % 64 + 128) (by omega)
  by_cases hthree : n ≤ 0xFFFF
  · have hlead := toNat_byte (k := n / 4096 % 16 + 224) (by omega)
    have hcode : (n / 4096 * 64 + n / 64 % 64) * 64 + n % 64 = n := by omega
    obtain ⟨least, greatest, hstart, hleast, hgreatest⟩ :=
      Utf8Pending.start?_of_three (n := n) (b := .ofNat (n / 4096 % 16 + 224)) (by omega)
        (by omega) hthree hvalid
    rw [if_neg hone, if_neg htwo, if_pos hthree, List.cons_append, List.cons_append,
      List.singleton_append, readUtf8From_lead hstart,
      readUtf8From_more hmiddle (by omega) hleast hgreatest 0,
      readUtf8From_last htail hbits (by omega) (by omega), hcode, hc]
    exact ⟨_, rfl⟩
  · have hlead := toNat_byte (k := n / 262144 % 8 + 240) (by omega)
    have hsecond := toNat_byte (k := n / 4096 % 64 + 128) (by omega)
    have hcode : ((n / 262144 * 64 + n / 4096 % 64) * 64 + n / 64 % 64) * 64 + n % 64 = n := by
      omega
    obtain ⟨least, greatest, hstart, hleast, hgreatest⟩ :=
      Utf8Pending.start?_of_four (n := n) (b := .ofNat (n / 262144 % 8 + 240)) (by omega)
        (by omega) hlimit
    rw [if_neg hone, if_neg htwo, if_neg hthree, List.cons_append, List.cons_append,
      List.cons_append, List.singleton_append, readUtf8From_lead hstart,
      readUtf8From_more hsecond (by omega) hleast hgreatest 1,
      readUtf8From_more hmiddle (by omega) (by omega) (by omega) 0,
      readUtf8From_last htail hbits (by omega) (by omega), hcode, hc]
    exact ⟨_, rfl⟩

/-! ## Texts -/

theorem readUtf8From_characters (position : Nat) (cs : List Char) :
    readUtf8From position none (cs.flatMap String.utf8EncodeChar) = .ok cs := by
  induction cs generalizing position with
  | nil => rfl
  | cons c cs ih =>
    obtain ⟨next, hnext⟩ := readUtf8From_character position c (cs.flatMap String.utf8EncodeChar)
    rw [List.flatMap_cons, hnext, ih]
    rfl

/-- **Text that is written as UTF-8 is read as the same text.** -/
theorem readUtf8_toUTF8 (s : String) : readUtf8 s.toUTF8.data.toList = .ok s.toList := by
  have hbytes : s.toUTF8.data.toList = s.toList.flatMap String.utf8EncodeChar := by
    conv => lhs; rw [← String.ofList_toList (s := s)]
    show (String.ofList s.toList).toByteArray.data.toList = _
    rw [String.toByteArray_ofList, List.utf8Encode, List.data_toByteArray, List.toList_toArray]
  rw [hbytes]
  exact readUtf8From_characters 0 s.toList

end Text
end Scriptlet
