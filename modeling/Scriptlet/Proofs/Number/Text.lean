import Scriptlet.Proofs.Decimal.Layout
import Scriptlet.Proofs.LooseEquality
import Scriptlet.Proofs.Number.Denotation

/-!
# The text of a number denotes the number

A number is written as its shortest decimal, which rounds to the number by what shortest means.
So the text converts back to the number, a number and its text are loosely equal, and only equal
numbers have one text.

* `Text.trim_eq_self`: without blanks there is nothing to trim.
* `ofText_of_decimal`: a text without blanks that is a decimal converts to it.
* `exists_isNumeralOf`: the text of a number is a sign and a tidy numeral.
* `ofText_text`: the text of a number converts back.
* `text_denotes_number`: **the text of a number denotes the number.**
-/

namespace Scriptlet

theorem Text.forall_isBlank_eq_false {cs : List Char} (h : cs.any isBlank = false) :
    ∀ c ∈ cs, isBlank c = false :=
  fun c hc => Bool.eq_false_iff.mpr fun hblank =>
    Bool.false_ne_true (h.symm.trans (List.any_eq_true.mpr ⟨c, hc, hblank⟩))

theorem Text.trim_eq_self {cs : List Char} (h : ∀ c ∈ cs, isBlank c = false) : trim cs = cs := by
  have hdrop {ds : List Char} (hds : ∀ c ∈ ds, isBlank c = false) : ds.dropWhile isBlank = ds := by
    cases ds with
    | nil => rfl
    | cons d ds =>
      exact List.dropWhile_cons_of_neg (Bool.eq_false_iff.mp (hds d (List.mem_cons_self ..)))
  rw [trim, hdrop h, hdrop fun c hc => h c (List.mem_reverse.mp hc), List.reverse_reverse]

namespace Number

open Binary64 (Equal IsNearest Rounds isNegative magnitude magnitudeBits infinityBits)
open Decimal (IsShortest)
open Numeral (IsSign asciiDigit)

variable {cs : List Char} {x y : Float}

/-- The ASCII digits are no blanks, and neither are the marks of numerals. -/
theorem isBlank_of_isWritten {n : Numeral} (h : n.IsWritten asciiDigit) :
    ∀ c ∈ n.text, Text.isBlank c = false := by
  refine h.forall_mem_text (fun c hc => ?_)
    (Text.forall_isBlank_eq_false (by decide))
  unfold asciiDigit at hc
  split at hc
  · rename_i hrange
    have hlower : 48 ≤ c.toNat := hrange.1
    have hupper : c.toNat ≤ 57 := hrange.2
    exact decide_eq_false (by omega)
  · cases hc

/-- A text without blanks that is a decimal converts to it. -/
theorem ofText_of_decimal (hblank : ∀ c ∈ cs, Text.isBlank c = false)
    (h : ofDecimalText? cs = some x) : ofText (String.ofList cs) = .ok x := by
  have hne : cs.isEmpty = false := by
    cases cs with
    | nil => cases h
    | cons => rfl
  rw [ofText, String.toList_ofList, Text.trim_eq_self hblank, hne, h]
  rfl

/-- The sign of a double that has one. -/
def signText (x : Float) : List Char := if isNegative x then ['-'] else []

theorem isSign_signText (x : Float) : IsSign (signText x) (isNegative x) := by
  unfold signText
  cases isNegative x with
  | true => exact .minus
  | false => exact .none

theorem isBlank_signText (x : Float) : ∀ c ∈ signText x, Text.isBlank c = false := by
  refine Text.forall_isBlank_eq_false ?_
  unfold signText
  cases isNegative x <;> decide

/-- The text of a number other than zero is its sign in front of its magnitude. -/
theorem text_eq (hx : x.isNaN = false) (hzero : magnitudeBits x ≠ 0) :
    text x = signText x ++ if infinityBits ≤ magnitudeBits x then "Infinity".toList
      else Decimal.write style (Decimal.shortest (Binary64.parts x)) := by
  unfold text signText
  rw [hx, if_neg Bool.false_ne_true, if_neg hzero]
  dsimp only
  cases isNegative x <;> rfl

/-- The numeral that a finite number other than zero is written with.  It is that of the shortest
decimal which rounds to the number, it has an exponent just if the decimal is below a millionth or
not below a sextillion, and the sign stands in front of it. -/
structure IsNumeralOf (x : Float) (n : Numeral) : Prop where
  isShortest : IsShortest (IsNearest · (magnitudeBits x)) (magnitude (magnitudeBits x))
    (Decimal.shortest (Binary64.parts x))
  isLayout : (Decimal.shortest (Binary64.parts x)).IsLayout n
  mark_ne_nil_iff : n.mark ≠ [] ↔
    (Decimal.shortest (Binary64.parts x)).value < (10 : ℚ) ^ (-6 : ℤ) ∨
      (10 : ℚ) ^ (21 : ℤ) ≤ (Decimal.shortest (Binary64.parts x)).value
  text_eq : text x = signText x ++ n.text

/-- **Every finite number other than zero is written with a numeral.** -/
theorem exists_isNumeralOf (hzero : magnitudeBits x ≠ 0)
    (hfinite : magnitudeBits x < infinityBits) : ∃ n, IsNumeralOf x n := by
  have hx : x.isNaN = false := Bool.eq_false_iff.mpr fun hnan =>
    absurd (Binary64.isNaN_iff.mp hnan) (Nat.not_lt.mpr hfinite.le)
  have hshortest := Decimal.isShortest_shortest (Nat.pos_of_ne_zero hzero) hfinite
  obtain ⟨n, htext, hlayout, hmark⟩ := Decimal.exists_layout hshortest.no_trailing_zero
  refine ⟨n, hshortest, hlayout, hmark, ?_⟩
  rw [text_eq hx hzero, if_neg (Nat.not_le.mpr hfinite), htext]
  rfl

/-- The numeral reads as the number, because the shortest decimal rounds to it. -/
theorem IsNumeralOf.ofDecimalText? {n : Numeral} (h : IsNumeralOf x n) :
    ofDecimalText? (text x) = some x := by
  have hdecimal : IsDecimal n.text (Decimal.shortest (Binary64.parts x)).value :=
    isDecimal_iff.mpr ⟨n, (Numeral.ofChars?_eq_some_iff plain_asciiDigit).mpr
      ⟨h.isLayout.isWritten, rfl⟩, h.isLayout.value_eq.symm⟩
  exact ofDecimalText?_eq_some_iff.mpr ⟨_, _, _, isSign_signText x, h.text_eq,
    Or.inl ⟨_, hdecimal, ⟨rfl, h.isShortest.mem⟩⟩⟩

/-- The infinite numbers are told apart by their sign. -/
theorem eq_infinity (h : magnitudeBits x = infinityBits) :
    x = if isNegative x then -Binary64.infinity else Binary64.infinity := by
  have hle : magnitudeBits Binary64.infinity ≤ infinityBits := by decide +kernel
  have hbits : magnitudeBits Binary64.infinity = infinityBits := by decide +kernel
  have hsign : isNegative Binary64.infinity = false := by decide +kernel
  apply Binary64.eq_of_magnitudeBits
  · cases hnegative : isNegative x with
    | true => exact ((Binary64.isNegative_neg hle).trans (by rw [hsign]; rfl)).symm
    | false => exact hsign.symm
  · cases isNegative x with
    | true => exact h.trans ((Binary64.magnitudeBits_neg hle).trans hbits).symm
    | false => exact h.trans hbits.symm

/-- **The text of a number converts back.** -/
theorem ofText_text (hx : x.isNaN = false) :
    ∃ y, ofText (String.ofList (text x)) = .ok y ∧ Equal y x := by
  by_cases hzero : magnitudeBits x = 0
  · have htext : text x = ['0'] := by
      rw [text, hx, if_neg Bool.false_ne_true, if_pos hzero]
    have hbits : magnitudeBits (Binary64.nearest 0 1) = 0 := by decide +kernel
    refine ⟨Binary64.nearest 0 1, ?_, by decide +kernel, hx, Or.inr ⟨hbits, hzero⟩⟩
    rw [htext]
    exact ofText_of_decimal (Text.forall_isBlank_eq_false (by decide)) rfl
  · rcases (Binary64.magnitudeBits_le_of_isNaN hx).eq_or_lt with hinfinite | hfinite
    · refine ⟨x, ofText_of_decimal ?_ ?_, Binary64.equal_self hx⟩
      · rw [text_eq hx hzero, if_pos hinfinite.ge]
        exact List.forall_mem_append.mpr ⟨isBlank_signText x,
          Text.forall_isBlank_eq_false (by decide)⟩
      · rw [text_eq hx hzero, if_pos hinfinite.ge]
        exact ofDecimalText?_eq_some_iff.mpr ⟨_, _, _, isSign_signText x, rfl,
          Or.inr ⟨rfl, eq_infinity hinfinite⟩⟩
    · obtain ⟨n, hn⟩ := exists_isNumeralOf hzero hfinite
      refine ⟨x, ofText_of_decimal ?_ hn.ofDecimalText?, Binary64.equal_self hx⟩
      rw [hn.text_eq]
      exact List.forall_mem_append.mpr
        ⟨isBlank_signText x, isBlank_of_isWritten hn.isLayout.isWritten⟩

/-- **Only equal numbers are written alike,** and equal numbers are. -/
theorem text_eq_text_iff (hx : x.isNaN = false) (hy : y.isNaN = false) :
    text x = text y ↔ Equal x y := by
  constructor
  · intro h
    obtain ⟨z, hz, hzx⟩ := ofText_text hx
    obtain ⟨w, hw, hwy⟩ := ofText_text hy
    rw [h, hw] at hz
    cases hz
    exact hzx.symm.trans hwy
  · rintro ⟨-, -, rfl | ⟨hzero, hzero'⟩⟩
    · rfl
    · rw [text, text, hx, hy, if_pos hzero, if_pos hzero']

/-- A number and its text are loosely equal, whichever stands first. -/
theorem looselyEqual_toText (hx : x.isNaN = false) :
    Value.LooselyEqual (.number x) (.string (Value.toText (.number x))) := by
  obtain ⟨y, hy, hequal⟩ := ofText_text hx
  exact .number (Or.inl ⟨trivial, trivial⟩) rfl hy hequal.symm

/-- **The text of a number denotes the number.**  A finite number other than zero is written with a
tidy numeral that has the value of its shortest decimal.  The text of every number converts back to
it, so it is loosely equal to its text, and numbers have one text just if they are equal. -/
theorem text_denotes_number {x : Float} (hx : x.isNaN = false) :
    (magnitudeBits x ≠ 0 → magnitudeBits x < infinityBits → ∃ n, IsNumeralOf x n) ∧
    (∃ y, ofText (String.ofList (text x)) = .ok y ∧ (y == x) = true) ∧
    Value.looseEquals (.number x) (.string (Value.toText (.number x))) = .ok true ∧
    Value.looseEquals (.string (Value.toText (.number x))) (.number x) = .ok true ∧
    ∀ y : Float, y.isNaN = false → (text x = text y ↔ (x == y) = true) := by
  obtain ⟨y, hy, hequal⟩ := ofText_text hx
  have hloose := looselyEqual_toText hx
  refine ⟨exists_isNumeralOf, ⟨y, hy, Binary64.beq_iff.mpr hequal⟩,
    Value.looseEquals_eq_ok_true_iff.mpr hloose, Value.looseEquals_eq_ok_true_iff.mpr hloose.symm,
    fun z hz => ?_⟩
  rw [text_eq_text_iff hx hz, Binary64.beq_iff]

/-- A sextillion is written with an exponent, and it is equal to its text. -/
theorem text_sextillion :
    (Binary64.nearest (10 ^ 21) 1).isNaN = false ∧
    String.ofList (text (Binary64.nearest (10 ^ 21) 1)) = "1e+21" ∧
    (∃ n, IsNumeralOf (Binary64.nearest (10 ^ 21) 1) n) ∧
    Value.looseEquals (.number (Binary64.nearest (10 ^ 21) 1)) (.string "1e+21") = .ok true ∧
    ¬ (Binary64.nearest (10 ^ 21) 1 == Binary64.nearest (10 ^ 21 - 1) 10) = true := by
  have htext : String.ofList (text (Binary64.nearest (10 ^ 21) 1)) = "1e+21" := by decide +kernel
  have hall := text_denotes_number (x := Binary64.nearest (10 ^ 21) 1) (by decide +kernel)
  refine ⟨by decide +kernel, htext, hall.1 (by decide +kernel) (by decide +kernel), ?_, ?_⟩
  · rw [← htext]
    exact hall.2.2.1
  · rw [← hall.2.2.2.2 (Binary64.nearest (10 ^ 21 - 1) 10) (by decide +kernel)]
    decide +kernel

end Number

end Scriptlet
