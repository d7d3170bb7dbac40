import Mathlib.Data.List.Forall2
import Mathlib.Data.Nat.Digits.Defs
import Mathlib.Tactic.IntervalCases
import Scriptlet.Number.OfText
import Scriptlet.Proofs.Binary64.Decimals
import Scriptlet.Proofs.Numerals

/-!
# How numbers are spelled

A decimal is spelled by digits with an optional point among them and an optional exponent, and an
integer of base 16, 8 or 2 by its mark and digits.  What is spelled is given by relations between
texts and numbers, and the functions that read numbers off texts are shown to be these relations.

* `Spells`: the digits of a number in a base.  `spells_iff_valueOf` and `ofDigits?_eq_some_iff` are
  about reading them.
* `IsDecimal`: unsigned decimals and their values.  `isDecimal_iff`: **the decimals are the
  numerals**, and their values are those of the numerals.
* `IsMarked`: integers after a mark.  `ofMarkedText?_eq_some_iff` is about reading them.
-/

namespace Scriptlet

/-! ## The value of a numeral -/

namespace Numeral

variable {digit : Char → Option ℕ}

theorem valueOf_concat (cs : List Char) (c : Char) :
    valueOf digit (cs ++ [c]) = 10 * valueOf digit cs + (digit c).getD 0 := by
  rw [valueOf, List.foldl_append]
  rfl

/-- Digits in front of others are worth more by their number. -/
theorem valueOf_append (cs ds : List Char) :
    valueOf digit (cs ++ ds) = valueOf digit cs * 10 ^ ds.length + valueOf digit ds := by
  induction ds using List.reverseRecOn with
  | nil =>
    rw [List.append_nil, List.length_nil, pow_zero, mul_one]
    rfl
  | append_singleton ds d ih =>
    rw [← List.append_assoc, valueOf_concat, valueOf_concat, ih, List.length_append,
      List.length_singleton, pow_succ]
    ring

/-- The power of ten that the exponent of a numeral stands for. -/
def powerOf (digit : Char → Option ℕ) (n : Numeral) : ℤ :=
  if '-' ∈ n.mark then -(valueOf digit n.power : ℤ) else valueOf digit n.power

/-- The value of a numeral is put together from those of its parts. -/
theorem value_toDecimal (n : Numeral) : (n.toDecimal digit).value =
    (valueOf digit n.whole + valueOf digit n.fraction / 10 ^ n.fraction.length) *
      10 ^ n.powerOf digit := by
  have hten : (10 : ℚ) ^ n.fraction.length ≠ 0 := by positivity
  show (valueOf digit (n.whole ++ n.fraction) : ℚ) *
    10 ^ (n.powerOf digit - (n.fraction.length : ℤ)) = _
  rw [valueOf_append, zpow_sub₀ (by norm_num), zpow_natCast, Nat.cast_add, Nat.cast_mul,
    Nat.cast_pow, Nat.cast_ofNat]
  field_simp

end Numeral

namespace Number

open Numeral (asciiDigit valueOf IsSign)

/-! ## Digits -/

/-- The character is the digit of a number in a base.  A letter may have either case. -/
def IsDigit (base : ℕ) (c : Char) (d : ℕ) : Prop :=
  d < base ∧ (c = d.digitChar ∨ c = d.digitChar.toUpper)

/-- The characters are the digits of a number in a base, whose last digit is worth one.  No
characters are the digits of zero. -/
def Spells (base : ℕ) (cs : List Char) (n : ℕ) : Prop :=
  ∃ digits, List.Forall₂ (IsDigit base) cs.reverse digits ∧ n = Nat.ofDigits base digits

section Digits

variable {base n d : ℕ} {c : Char} {cs : List Char}

theorem spells_nil : Spells base [] n ↔ n = 0 := by
  constructor
  · rintro ⟨digits, hdigits, rfl⟩
    cases hdigits
    rfl
  · rintro rfl
    exact ⟨[], .nil, rfl⟩

/-- One more digit makes the others worth more by the base. -/
theorem spells_concat :
    Spells base (cs ++ [c]) n ↔ ∃ m d, Spells base cs m ∧ IsDigit base c d ∧ n = base * m + d := by
  unfold Spells
  rw [List.reverse_append, List.reverse_singleton, List.singleton_append]
  constructor
  · rintro ⟨digits, hdigits, rfl⟩
    obtain ⟨d, rest, hd, hrest, rfl⟩ := List.forall₂_cons_left_iff.mp hdigits
    exact ⟨_, d, ⟨rest, hrest, rfl⟩, hd, Nat.add_comm ..⟩
  · rintro ⟨_, d, ⟨rest, hrest, rfl⟩, hd, rfl⟩
    exact ⟨d :: rest, .cons hd hrest, Nat.add_comm ..⟩

/-- Only digits stand in the spelling of a number. -/
theorem Spells.exists_isDigit (h : Spells base cs n) (hc : c ∈ cs) : ∃ d, IsDigit base c d := by
  induction cs using List.reverseRecOn generalizing n with
  | nil => cases hc
  | append_singleton cs last ih =>
    obtain ⟨m, d, hm, hd, -⟩ := spells_concat.mp h
    rcases List.mem_append.mp hc with hmem | hlast
    · exact ih hm hmem
    · rw [List.mem_singleton.mp hlast]
      exact ⟨d, hd⟩

theorem eq_ofNat (h : c.toNat = n) : c = Char.ofNat n := by
  rw [← h, Char.ofNat_toNat]

/-- The digits of a base are the hexadecimal digits below it. -/
theorem isDigit_iff_hexDigit? (hbase : base ≤ 16) :
    IsDigit base c d ↔ Text.hexDigit? c = some d ∧ d < base := by
  constructor
  · rintro ⟨hd, h⟩
    refine ⟨?_, hd⟩
    have hsixteen : d < 16 := by omega
    interval_cases d <;> rcases h with rfl | rfl <;> rfl
  · rintro ⟨h, hd⟩
    refine ⟨hd, ?_⟩
    unfold Text.hexDigit? at h
    split at h
    · rename_i hrange
      have hlower : 48 ≤ c.toNat := hrange.1
      have hupper : c.toNat ≤ 57 := hrange.2
      have hvalue : c.toNat - 48 = d := Option.some.inj h
      have hc := eq_ofNat (c := c) (n := d + 48) (by omega)
      have hten : d < 10 := by omega
      refine Or.inl (hc.trans ?_)
      interval_cases d <;> rfl
    · split at h
      · rename_i hrange
        have hlower : 97 ≤ c.toNat := hrange.1
        have hupper : c.toNat ≤ 102 := hrange.2
        have hvalue : c.toNat - 97 + 10 = d := Option.some.inj h
        have hc := eq_ofNat (c := c) (n := d + 87) (by omega)
        have hten : 10 ≤ d := by omega
        have hsixteen : d < 16 := by omega
        refine Or.inl (hc.trans ?_)
        interval_cases d <;> rfl
      · split at h
        · rename_i hrange
          have hlower : 65 ≤ c.toNat := hrange.1
          have hupper : c.toNat ≤ 70 := hrange.2
          have hvalue : c.toNat - 65 + 10 = d := Option.some.inj h
          have hc := eq_ofNat (c := c) (n := d + 55) (by omega)
          have hten : 10 ≤ d := by omega
          have hsixteen : d < 16 := by omega
          refine Or.inr (hc.trans ?_)
          interval_cases d <;> rfl
        · cases h

/-- The decimal digits are the ASCII ones, since the others stand for ten and more. -/
theorem isDigit_iff_asciiDigit : IsDigit 10 c d ↔ asciiDigit c = some d := by
  rw [isDigit_iff_hexDigit? (by decide)]
  unfold Text.hexDigit? asciiDigit
  by_cases hrange : '0' ≤ c ∧ c ≤ '9'
  · rw [if_pos hrange, if_pos hrange]
    refine and_iff_left_of_imp fun h => ?_
    have hupper : c.toNat ≤ 57 := hrange.2
    have hvalue : c.toNat - 48 = d := Option.some.inj h
    omega
  · rw [if_neg hrange, if_neg hrange]
    refine iff_of_false ?_ nofun
    rintro ⟨h, hd⟩
    split at h
    · have hvalue : c.toNat - 97 + 10 = d := Option.some.inj h
      omega
    · split at h
      · have hvalue : c.toNat - 65 + 10 = d := Option.some.inj h
        omega
      · cases h

/-- Decimal digits are read off by their values. -/
theorem spells_iff_valueOf :
    Spells 10 cs n ↔ (∀ c ∈ cs, (asciiDigit c).isSome = true) ∧ n = valueOf asciiDigit cs := by
  induction cs using List.reverseRecOn generalizing n with
  | nil =>
    rw [spells_nil]
    exact ⟨fun h => ⟨nofun, h⟩, And.right⟩
  | append_singleton cs c ih =>
    rw [spells_concat, Numeral.valueOf_concat, List.forall_mem_append, List.forall_mem_singleton]
    constructor
    · rintro ⟨m, d, hm, hd, rfl⟩
      obtain ⟨hall, rfl⟩ := ih.mp hm
      rw [isDigit_iff_asciiDigit.mp hd]
      exact ⟨⟨hall, rfl⟩, rfl⟩
    · rintro ⟨⟨hall, hsome⟩, rfl⟩
      obtain ⟨d, hd⟩ := Option.isSome_iff_exists.mp hsome
      rw [hd]
      exact ⟨_, d, ih.mpr ⟨hall, rfl⟩, isDigit_iff_asciiDigit.mpr hd, rfl⟩

/-- Digits of any other base are read off one after the other. -/
theorem ofDigits?_eq_some_iff (hbase : base ≤ 16) :
    ofDigits? base cs = some n ↔ cs ≠ [] ∧ Spells base cs n := by
  have hfold : ∀ n, cs.foldl (fun n? c => do
      let n ← n?
      let d ← Text.hexDigit? c
      if d < base then some (base * n + d) else none) (some 0) = some n ↔ Spells base cs n := by
    induction cs using List.reverseRecOn with
    | nil =>
      intro n
      rw [spells_nil]
      exact ⟨fun h => (Option.some.inj h).symm, fun h => congrArg some h.symm⟩
    | append_singleton cs c ih =>
      intro n
      rw [spells_concat, List.foldl_append]
      simp only [List.foldl_cons, List.foldl_nil, bind, Option.bind_eq_some_iff,
        Option.ite_none_right_eq_some, Option.some.injEq, isDigit_iff_hexDigit? hbase]
      constructor
      · rintro ⟨m, hm, d, hd, hlt, rfl⟩
        exact ⟨m, d, (ih m).mp hm, ⟨hd, hlt⟩, rfl⟩
      · rintro ⟨m, d, hm, ⟨hd, hlt⟩, rfl⟩
        exact ⟨m, (ih m).mpr hm, d, hd, hlt, rfl⟩
  unfold ofDigits?
  split
  · rename_i hempty
    exact iff_of_false nofun fun h => h.1 (List.isEmpty_iff.mp hempty)
  · rename_i hempty
    rw [hfold]
    exact ⟨fun h => ⟨fun hnil => hempty (List.isEmpty_iff.mpr hnil), h⟩, And.right⟩

end Digits

/-! ## Decimals -/

/-- Digits around an optional point, with at least one of them, and the number that they stand
for. -/
inductive Mantissa : List Char → ℚ → Prop
  | plain {whole : List Char} {n : ℕ} (hne : whole ≠ []) (hwhole : Spells 10 whole n) :
      Mantissa whole n
  | pointed {whole fraction : List Char} {n k : ℕ} (hne : whole ≠ [] ∨ fraction ≠ [])
      (hwhole : Spells 10 whole n) (hfraction : Spells 10 fraction k) :
      Mantissa (whole ++ '.' :: fraction) (n + k / 10 ^ fraction.length)

/-- An exponent, or none, and the power of ten that it stands for. -/
inductive Exponent : List Char → ℤ → Prop
  | none : Exponent [] 0
  | written {e : Char} {sign digits : List Char} {negative : Bool} {k : ℕ} (he : e = 'e' ∨ e = 'E')
      (hsign : IsSign sign negative) (hne : digits ≠ []) (hdigits : Spells 10 digits k) :
      Exponent (e :: sign ++ digits) (if negative then -k else k)

/-- An unsigned decimal and its value. -/
inductive IsDecimal : List Char → ℚ → Prop
  | mk {mantissa exponent : List Char} {q : ℚ} {k : ℤ} (hmantissa : Mantissa mantissa q)
      (hexponent : Exponent exponent k) : IsDecimal (mantissa ++ exponent) (q * 10 ^ k)

section Decimals

variable {cs : List Char} {q : ℚ}

/-- No mark of a numeral is an ASCII digit. -/
theorem plain_asciiDigit : Numeral.Plain asciiDigit where
  point := by decide
  plus := by decide
  minus := by decide
  lower := by decide
  upper := by decide

theorem mantissa_iff : Mantissa cs q ↔ ∃ whole hasPoint fraction,
    Numeral.IsMantissa asciiDigit whole hasPoint fraction ∧
      cs = whole ++ (if hasPoint then ['.'] else []) ++ fraction ∧
      q = valueOf asciiDigit whole + valueOf asciiDigit fraction / 10 ^ fraction.length := by
  constructor
  · intro h
    cases h with
    | plain hne hwhole =>
      obtain ⟨hall, rfl⟩ := spells_iff_valueOf.mp hwhole
      refine ⟨cs, false, [], ⟨hall, nofun, Or.inl hne, fun _ => rfl⟩, ?_, ?_⟩
      · simp
      · simp [valueOf]
    | @pointed whole fraction _ _ hne hwhole hfraction =>
      obtain ⟨hall, rfl⟩ := spells_iff_valueOf.mp hwhole
      obtain ⟨hall', rfl⟩ := spells_iff_valueOf.mp hfraction
      exact ⟨whole, true, fraction, ⟨hall, hall', hne, nofun⟩, by simp, rfl⟩
  · rintro ⟨whole, hasPoint, fraction, h, rfl, rfl⟩
    have hwhole := spells_iff_valueOf.mpr ⟨h.isSome_whole, rfl⟩
    have hfraction := spells_iff_valueOf.mpr ⟨h.isSome_fraction, rfl⟩
    cases hasPoint with
    | true =>
      have hpointed := Mantissa.pointed h.nonempty hwhole hfraction
      simpa using hpointed
    | false =>
      obtain rfl := h.point rfl
      have hplain := Mantissa.plain (h.nonempty.resolve_right fun hne => hne rfl) hwhole
      simpa [valueOf] using hplain

theorem exponent_iff {k : ℤ} : Exponent cs k ↔ ∃ mark power,
    Numeral.IsExponent asciiDigit mark power ∧ cs = mark ++ power ∧
      k = if '-' ∈ mark then -(valueOf asciiDigit power : ℤ) else valueOf asciiDigit power := by
  -- the sign of an exponent is the only part of its mark that can be a minus
  have hminus {e : Char} {sign : List Char} {negative : Bool} (he : e = 'e' ∨ e = 'E')
      (hsign : IsSign sign negative) : '-' ∈ e :: sign ↔ negative = true := by
    rcases he with rfl | rfl <;> cases hsign <;> decide
  constructor
  · intro h
    cases h with
    | none => exact ⟨[], [], Or.inl ⟨rfl, rfl⟩, rfl, rfl⟩
    | @written e sign digits negative _ he hsign hne hdigits =>
      obtain ⟨hall, rfl⟩ := spells_iff_valueOf.mp hdigits
      refine ⟨e :: sign, digits, Or.inr ⟨e, sign, negative, he, hsign, rfl, hne, hall⟩, rfl, ?_⟩
      simp only [hminus he hsign]
  · rintro ⟨mark, power, ⟨rfl, rfl⟩ | ⟨e, sign, negative, he, hsign, rfl, hne, hall⟩, rfl, rfl⟩
    · exact .none
    · have hwritten := Exponent.written he hsign hne (spells_iff_valueOf.mpr ⟨hall, rfl⟩)
      simpa only [hminus he hsign] using hwritten

/-- **The decimals are the numerals**, and their values are those of the numerals. -/
theorem isDecimal_iff : IsDecimal cs q ↔
    ∃ n, Numeral.ofChars? asciiDigit cs = some n ∧ q = (n.toDecimal asciiDigit).value := by
  simp only [Numeral.ofChars?_eq_some_iff plain_asciiDigit]
  constructor
  · rintro ⟨hmantissa, hexponent⟩
    obtain ⟨whole, hasPoint, fraction, hdigits, rfl, rfl⟩ := mantissa_iff.mp hmantissa
    obtain ⟨mark, power, hpower, rfl, rfl⟩ := exponent_iff.mp hexponent
    refine ⟨⟨whole, hasPoint, fraction, mark, power⟩, ⟨⟨hdigits, hpower⟩, ?_⟩, ?_⟩
    · exact List.append_assoc ..
    · rw [Numeral.value_toDecimal]
      rfl
  · rintro ⟨n, ⟨⟨hdigits, hpower⟩, rfl⟩, rfl⟩
    rw [Numeral.value_toDecimal, Numeral.text, List.append_assoc _ n.mark]
    exact .mk (mantissa_iff.mpr ⟨_, _, _, hdigits, rfl, rfl⟩)
      (exponent_iff.mpr ⟨_, _, hpower, rfl, rfl⟩)

end Decimals

/-! ## Integers after a mark -/

/-- The letter of a base, in either case. -/
inductive IsMark : Char → ℕ → Prop
  | hexadecimal {c : Char} (h : c = 'x' ∨ c = 'X') : IsMark c 16
  | octal {c : Char} (h : c = 'o' ∨ c = 'O') : IsMark c 8
  | binary {c : Char} (h : c = 'b' ∨ c = 'B') : IsMark c 2

/-- Digits of a base after its mark, which may stand there once or twice. -/
inductive IsMarked : List Char → ℕ → Prop
  | once {mark : Char} {base n : ℕ} {digits : List Char} (hmark : IsMark mark base)
      (hne : digits ≠ []) (hdigits : Spells base digits n) : IsMarked ('0' :: mark :: digits) n
  | twice {mark mark' : Char} {base n : ℕ} {digits : List Char} (hmark : IsMark mark base)
      (hmark' : IsMark mark' base) (hne : digits ≠ []) (hdigits : Spells base digits n) :
      IsMarked ('0' :: mark :: '0' :: mark' :: digits) n

section Marks

variable {cs : List Char} {mark : Char} {base n : ℕ}

theorem baseOfMark?_eq_some_iff : baseOfMark? mark = some base ↔ IsMark mark base := by
  constructor
  · intro h
    unfold baseOfMark? at h
    split at h
    · rename_i hx
      cases h
      exact .hexadecimal hx
    · split at h
      · rename_i ho
        cases h
        exact .octal ho
      · split at h
        · rename_i hb
          cases h
          exact .binary hb
        · cases h
  · intro h
    cases h with
    | hexadecimal h => rcases h with rfl | rfl <;> rfl
    | octal h => rcases h with rfl | rfl <;> rfl
    | binary h => rcases h with rfl | rfl <;> rfl

theorem IsMark.base_le (h : IsMark mark base) : base ≤ 16 := by
  cases h <;> decide

/-- A mark is no digit of its base. -/
theorem IsMark.not_isDigit (h : IsMark mark base) {d : ℕ} : ¬ IsDigit base mark d := by
  rw [isDigit_iff_hexDigit? h.base_le]
  rintro ⟨hdigit, hlt⟩
  cases h with
  | hexadecimal h => rcases h with rfl | rfl <;> cases hdigit
  | octal h => rcases h with rfl | rfl <;> cases hdigit
  | binary h => rcases h with rfl | rfl <;> cases hdigit <;> omega

/-- After a mark the same mark is read again, and digits are read otherwise. -/
theorem ofMarkedDigits?_eq_some_iff (hbase : base ≤ 16) :
    ofMarkedDigits? base cs = some n ↔ (cs ≠ [] ∧ Spells base cs n) ∨
      ∃ mark digits, IsMark mark base ∧ cs = '0' :: mark :: digits ∧ digits ≠ [] ∧
        Spells base digits n := by
  fun_cases ofMarkedDigits? base cs with
  | case1 mark digits hmark =>
    rw [baseOfMark?_eq_some_iff] at hmark
    rw [ofDigits?_eq_some_iff hbase]
    constructor
    · rintro ⟨hne, hdigits⟩
      exact Or.inr ⟨mark, digits, hmark, rfl, hne, hdigits⟩
    · rintro (⟨-, hspells⟩ | ⟨_, _, _, h, hne, hdigits⟩)
      · obtain ⟨d, hd⟩ := hspells.exists_isDigit (List.mem_cons_of_mem _ (List.mem_cons_self ..))
        exact absurd hd hmark.not_isDigit
      · cases h
        exact ⟨hne, hdigits⟩
  | case2 mark digits hmark =>
    rw [ofDigits?_eq_some_iff hbase]
    refine ⟨Or.inl, ?_⟩
    rintro (h | ⟨_, _, h', h, _⟩)
    · exact h
    · cases h
      exact absurd (baseOfMark?_eq_some_iff.mpr h') hmark
  | case3 _ hcs =>
    rw [ofDigits?_eq_some_iff hbase]
    refine ⟨Or.inl, ?_⟩
    rintro (h | ⟨mark, digits, _, h, _⟩)
    · exact h
    · exact absurd h (hcs mark digits)

/-- **The texts of integers with a mark.** -/
theorem ofMarkedText?_eq_some_iff : ofMarkedText? cs = some n ↔ IsMarked cs n := by
  constructor
  · intro h
    unfold ofMarkedText? at h
    split at h
    · obtain ⟨base, hmark, hdigits⟩ := Option.bind_eq_some_iff.mp h
      rw [baseOfMark?_eq_some_iff] at hmark
      rcases (ofMarkedDigits?_eq_some_iff hmark.base_le).mp hdigits with ⟨hne, hspells⟩ |
        ⟨mark', rest, hmark', rfl, hne, hspells⟩
      · exact .once hmark hne hspells
      · exact .twice hmark hmark' hne hspells
    · cases h
  · intro h
    cases h with
    | once hmark hne hspells =>
      exact Option.bind_eq_some_iff.mpr ⟨_, baseOfMark?_eq_some_iff.mpr hmark,
        (ofMarkedDigits?_eq_some_iff hmark.base_le).mpr (Or.inl ⟨hne, hspells⟩)⟩
    | twice hmark hmark' hne hspells =>
      exact Option.bind_eq_some_iff.mpr ⟨_, baseOfMark?_eq_some_iff.mpr hmark,
        (ofMarkedDigits?_eq_some_iff hmark.base_le).mpr
          (Or.inr ⟨_, _, hmark', rfl, hne, hspells⟩)⟩

end Marks

end Number
end Scriptlet
