import Scriptlet.Proofs.Number.Spelling
import Scriptlet.Proofs.Operators

/-!
# The number that a text denotes

A text is converted without the blanks at its ends.  Nothing is zero; a decimal with or without a
sign is the double nearest to its value, with that sign; `Infinity` may have a sign too; and an
integer in base 16, 8 or 2 is the double nearest to it, if there is one.  The mark of such an
integer may stand there a second time.  All other texts are no number.

* `Denotes`: the texts that denote a double.
* `ofDecimalText?_eq_some_iff`: reading a decimal or an infinity.
* `ofText_denotes`: **the conversion gives the double that the text denotes**, and no number if
  there is none.
-/

namespace Scriptlet.Number

open Binary64 (Rounds)
open Numeral (IsSign asciiDigit)

/-- The text, which has no blanks at its ends, denotes the double. -/
inductive Denotes : List Char → Float → Prop
  | empty {x : Float} (hx : Rounds false 0 x) : Denotes [] x
  | decimal {sign cs : List Char} {negative : Bool} {q : ℚ} {x : Float} (hsign : IsSign sign negative)
      (hdecimal : IsDecimal cs q) (hx : Rounds negative q x) : Denotes (sign ++ cs) x
  | infinity {sign : List Char} {negative : Bool} (hsign : IsSign sign negative) :
      Denotes (sign ++ "Infinity".toList) (if negative then -Binary64.infinity else Binary64.infinity)
  | integer {cs : List Char} {n : ℕ} {x : Float} (hmarked : IsMarked cs n) (hx : Rounds false n x) :
      Denotes cs x

section Signs

variable {cs sign magnitude : List Char} {negative : Bool} {q : ℚ} {x : Float}

/-- The sign that is split off is one. -/
theorem isSign_of_splitSign (h : splitSign cs = (negative, magnitude)) :
    ∃ sign, IsSign sign negative ∧ cs = sign ++ magnitude := by
  unfold splitSign at h
  split at h
  · cases h
    exact ⟨['+'], .plus, rfl⟩
  · cases h
    exact ⟨['-'], .minus, rfl⟩
  · cases h
    exact ⟨[], .none, rfl⟩

/-- A sign is split off what has no sign itself. -/
theorem splitSign_append (hsign : IsSign sign negative) (hplus : magnitude.head? ≠ some '+')
    (hminus : magnitude.head? ≠ some '-') :
    splitSign (sign ++ magnitude) = (negative, magnitude) := by
  cases hsign with
  | plus => rfl
  | minus => rfl
  | none =>
    show splitSign magnitude = _
    fun_cases splitSign magnitude with
    | case1 => exact absurd rfl hplus
    | case2 => exact absurd rfl hminus
    | case3 => rfl

/-- Digits have no sign in front of them. -/
theorem head?_ne_of_spells {n : ℕ} (hne : cs ≠ []) (h : Spells 10 cs n) :
    cs.head? ≠ some '+' ∧ cs.head? ≠ some '-' := by
  cases cs with
  | nil => exact absurd rfl hne
  | cons c cs =>
    obtain ⟨d, hd⟩ := h.exists_isDigit (List.mem_cons_self ..)
    rw [isDigit_iff_asciiDigit] at hd
    constructor
    · rintro ⟨⟩
      cases hd
    · rintro ⟨⟩
      cases hd

/-- A decimal begins with a digit or with the point. -/
theorem IsDecimal.head?_ne (h : IsDecimal cs q) : cs.head? ≠ some '+' ∧ cs.head? ≠ some '-' := by
  obtain ⟨hmantissa, -⟩ := h
  cases hmantissa with
  | plain hne hwhole =>
    rw [List.head?_append_of_ne_nil _ hne]
    exact head?_ne_of_spells hne hwhole
  | @pointed whole _ _ _ _ hwhole =>
    cases whole with
    | nil => exact ⟨by simp, by simp⟩
    | cons c whole =>
      rw [List.append_assoc, List.head?_append_of_ne_nil _ (List.cons_ne_nil c whole)]
      exact head?_ne_of_spells (List.cons_ne_nil c whole) hwhole

/-- Of a double and its negation, one is what a number with a sign rounds to. -/
theorem rounds_signed (h : Rounds false q x) (negative : Bool) :
    Rounds negative q (if negative then -x else x) := by
  cases negative with
  | true => exact h.neg
  | false => exact h

end Signs

section Decimals

variable {cs : List Char} {x : Float}

/-- The value of a numeral is the only one that its text rounds to. -/
theorem numeral_eq_some_iff {negative : Bool} :
    (((Numeral.ofChars? asciiDigit cs).map fun n => (n.toDecimal asciiDigit).toFloat).map
        fun y => if negative then -y else y) = some x ↔
      ∃ q, IsDecimal cs q ∧ Rounds negative q x := by
  simp only [Option.map_map, Option.map_eq_some_iff, isDecimal_iff, Function.comp_apply]
  constructor
  · rintro ⟨n, hn, rfl⟩
    exact ⟨_, ⟨n, hn, rfl⟩, rounds_signed (Decimal.rounds_toFloat _) negative⟩
  · rintro ⟨_, ⟨n, hn, rfl⟩, hx⟩
    exact ⟨n, hn, (rounds_signed (Decimal.rounds_toFloat _) negative).unique hx⟩

/-- **Reading a decimal or an infinity.** -/
theorem ofDecimalText?_eq_some_iff : ofDecimalText? cs = some x ↔
    ∃ sign negative magnitude, IsSign sign negative ∧ cs = sign ++ magnitude ∧
      ((∃ q, IsDecimal magnitude q ∧ Rounds negative q x) ∨
        magnitude = "Infinity".toList ∧
          x = if negative then -Binary64.infinity else Binary64.infinity) := by
  have hinfinity : Numeral.ofChars? asciiDigit "Infinity".toList = none := by decide
  unfold ofDecimalText?
  constructor
  · intro h
    rcases hsplit : splitSign cs with ⟨negative, magnitude⟩
    obtain ⟨sign, hsign, hcs⟩ := isSign_of_splitSign hsplit
    refine ⟨sign, negative, magnitude, hsign, hcs, ?_⟩
    rw [hsplit] at h
    dsimp only at h
    by_cases hmagnitude : magnitude = "Infinity".toList
    · rw [if_pos hmagnitude] at h
      exact Or.inr ⟨hmagnitude, (Option.some.inj h).symm⟩
    · rw [if_neg hmagnitude] at h
      exact Or.inl (numeral_eq_some_iff.mp h)
  · rintro ⟨sign, negative, magnitude, hsign, rfl, hmagnitude⟩
    have hhead : magnitude.head? ≠ some '+' ∧ magnitude.head? ≠ some '-' := by
      rcases hmagnitude with ⟨q, hdecimal, -⟩ | ⟨rfl, -⟩
      · exact hdecimal.head?_ne
      · decide
    rw [splitSign_append hsign hhead.1 hhead.2]
    dsimp only
    rcases hmagnitude with ⟨q, hdecimal, hx⟩ | ⟨rfl, rfl⟩
    · have hne : magnitude ≠ "Infinity".toList := by
        rintro rfl
        obtain ⟨n, hn, -⟩ := isDecimal_iff.mp hdecimal
        rw [hinfinity] at hn
        cases hn
      rw [if_neg hne]
      exact numeral_eq_some_iff.mpr ⟨q, hdecimal, hx⟩
    · rw [if_pos rfl]
      rfl

theorem denotes_iff : Denotes cs x ↔ (cs = [] ∧ Rounds false 0 x) ∨ ofDecimalText? cs = some x ∨
    ∃ n, ofMarkedText? cs = some n ∧ Rounds false n x := by
  simp only [ofDecimalText?_eq_some_iff, ofMarkedText?_eq_some_iff]
  constructor
  · intro h
    cases h with
    | empty hx => exact Or.inl ⟨rfl, hx⟩
    | decimal hsign hdecimal hx =>
      exact Or.inr (Or.inl ⟨_, _, _, hsign, rfl, Or.inl ⟨_, hdecimal, hx⟩⟩)
    | infinity hsign => exact Or.inr (Or.inl ⟨_, _, _, hsign, rfl, Or.inr ⟨rfl, rfl⟩⟩)
    | integer hmarked hx => exact Or.inr (Or.inr ⟨_, hmarked, hx⟩)
  · rintro (⟨rfl, hx⟩ | ⟨_, _, _, hsign, rfl, ⟨_, hdecimal, hx⟩ | ⟨rfl, rfl⟩⟩ | ⟨_, hmarked, hx⟩)
    · exact .empty hx
    · exact .decimal hsign hdecimal hx
    · exact .infinity hsign
    · exact .integer hmarked hx

/-- The double of a natural number is the nearest to it. -/
theorem rounds_of_ofInt? {n : ℕ} (h : Binary64.ofInt? n = some x) : Rounds false n x := by
  unfold Binary64.ofInt? at h
  split at h
  · cases h
  · rw [if_neg (Int.not_lt.mpr (Int.natCast_nonneg n)), Int.natAbs_natCast] at h
    cases h
    simpa using Binary64.rounds_nearest n Nat.one_pos

/-- What has a mark is no decimal. -/
theorem ofDecimalText?_of_marked {n : ℕ} (h : IsMarked cs n) : ofDecimalText? cs = none := by
  cases h with
  | once hmark | twice hmark => exact ofDecimalText?_of_mark (baseOfMark?_eq_some_iff.mpr hmark) _

/-- **A text denotes at most one double.** -/
theorem Denotes.unique {y : Float} (hx : Denotes cs x) (hy : Denotes cs y) : x = y := by
  rw [denotes_iff] at hx hy
  simp only [ofMarkedText?_eq_some_iff] at hx hy
  rcases hx with ⟨rfl, hx⟩ | hx | ⟨n, hn, hx⟩
  · rcases hy with ⟨-, hy⟩ | hy | ⟨_, hm, _⟩
    · exact hx.unique hy
    · cases hy
    · cases hm
  · rcases hy with ⟨rfl, _⟩ | hy | ⟨_, hm, _⟩
    · cases hx
    · exact Option.some.inj (hx.symm.trans hy)
    · rw [ofDecimalText?_of_marked hm] at hx
      cases hx
  · rcases hy with ⟨rfl, _⟩ | hy | ⟨_, hm, hy⟩
    · cases hn
    · rw [ofDecimalText?_of_marked hn] at hy
      cases hy
    · rw [← ofMarkedText?_eq_some_iff] at hn hm
      cases hn.symm.trans hm
      exact hx.unique hy

/-- What a text converts to is what it denotes, and no number only if it denotes nothing. -/
theorem denotes_of_ofText {s : String} (h : ofText s = .ok x) :
    Denotes (Text.trim s.toList) x ∨ x = Binary64.nan ∧ ∀ y, ¬ Denotes (Text.trim s.toList) y := by
  simp only [denotes_iff]
  unfold ofText at h
  dsimp only at h
  generalize Text.trim s.toList = cs at h
  split at h
  · rename_i hempty
    cases h
    refine Or.inl (Or.inl ⟨List.isEmpty_iff.mp hempty, ?_⟩)
    simpa using Binary64.rounds_nearest 0 Nat.one_pos
  · rename_i hempty
    split at h
    · rename_i hdecimal
      cases h
      exact Or.inl (Or.inr (Or.inl hdecimal))
    · rename_i hdecimal
      split at h
      · rename_i hmarked
        cases h
        refine Or.inr ⟨rfl, ?_⟩
        rintro y (⟨rfl, _⟩ | hy | ⟨n, hn, _⟩)
        · exact hempty rfl
        · rw [hdecimal] at hy
          cases hy
        · rw [hmarked] at hn
          cases hn
      · rename_i n hmarked
        split at h
        · rename_i hint
          cases h
          exact Or.inl (Or.inr (Or.inr ⟨n, hmarked, rounds_of_ofInt? hint⟩))
        · cases h

end Decimals

/-- The text is an integer with a mark that no double stands for: it is not below the half-way point
beyond the largest double. -/
def TooLarge (cs : List Char) : Prop := ∃ n : ℕ, IsMarked cs n ∧ 2 ^ 1024 - 2 ^ 970 ≤ n

theorem oversized_iff {s : String} : Oversized s ↔ TooLarge (Text.trim s.toList) := by
  simp only [Oversized, TooLarge, ofMarkedText?_eq_some_iff]

/-- **What a text converts to**, for every text.  It is the double that is denoted by what is left
of the text without the blanks at its ends, and no number if nothing is.  Only an integer with a
mark that is too large for a double makes the conversion fail.  A text with a surrogate is no
number, whatever else it holds. -/
theorem ofText_denotes (s : String) :
    (∀ x, ofText s = .ok x ↔ ¬ TooLarge (Text.trim s.toList) ∧
      (Denotes (Text.trim s.toList) x ∨
        x = Binary64.nan ∧ ∀ y, ¬ Denotes (Text.trim s.toList) y)) ∧
    (∀ fault, ofText s = .error fault ↔
      TooLarge (Text.trim s.toList) ∧ fault = .integerTooLarge) ∧
    ∀ t : Text, (∀ s : String, t ≠ s) → ofText t = .ok Binary64.nan := by
  have hbroken (t : Text) (ht : ∀ s : String, t ≠ s) : ofText t = .ok Binary64.nan := by
    cases t with
    | plain s => exact absurd rfl (ht s)
    | broken => rfl
  have herror (fault : Fault) : ofText s = .error fault ↔
      TooLarge (Text.trim s.toList) ∧ fault = .integerTooLarge := by
    rw [← oversized_iff]
    exact ofText_eq_error_iff
  refine ⟨fun x => ?_, herror, hbroken⟩
  cases hvalue : ofText s with
  | error fault => exact iff_of_false nofun fun h => h.1 ((herror fault).mp hvalue).1
  | ok y =>
    have hsmall : ¬ TooLarge (Text.trim s.toList) := fun h =>
      nomatch hvalue.symm.trans ((herror _).mpr ⟨h, rfl⟩)
    have hy := denotes_of_ofText hvalue
    rw [Except.ok.injEq]
    constructor
    · rintro rfl
      exact ⟨hsmall, hy⟩
    · rintro ⟨-, hx | ⟨rfl, hnone⟩⟩
      · rcases hy with hy | ⟨-, hnone⟩
        · exact hy.unique hx
        · exact absurd hx (hnone x)
      · rcases hy with hy | ⟨rfl, -⟩
        · exact absurd hy (hnone y)
        · rfl

/-- With its mark written twice `1f` is 31, although what follows the first mark is no hexadecimal
number. -/
theorem ofText_double_mark :
    ofText "0x0x1f" = .ok (Binary64.nearest 31 1) ∧ (Binary64.nearest 31 1).isNaN = false ∧
      ¬ ∃ n, Spells 16 "0x1f".toList n := by
  have hmarked : ofMarkedText? (Text.trim "0x0x1f".toList) = some 31 := by decide +kernel
  have hint : Binary64.ofInt? (31 : ℕ) = some (Binary64.nearest 31 1) := by
    have hbits : Binary64.nearestBits 31 1 ≠ Binary64.infinityBits := by decide +kernel
    exact if_neg hbits
  refine ⟨?_, by decide +kernel, ?_⟩
  · rw [ofText_of_marked hmarked, hint]
    rfl
  · rintro ⟨n, hn⟩
    obtain ⟨d, hd⟩ := hn.exists_isDigit (c := 'x') (by decide)
    exact (IsMark.hexadecimal (Or.inl rfl)).not_isDigit hd

end Scriptlet.Number
