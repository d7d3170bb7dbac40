import Scriptlet.Decimal.Style
import Scriptlet.Number.Text
import Scriptlet.Proofs.Decimal.Shortest
import Scriptlet.Proofs.Number.Spelling

/-!
# The layouts of a decimal

A decimal without trailing zeros is written in one of four layouts: after the point, around the
point, before the point, or with an exponent.  Each is a numeral with the digits of the decimal and
possibly some zeros, and where those zeros stand they are needed.

* `spells_toDigits`: the digits of a number spell it.
* `Numeral.IsTidy`: no part of a numeral could be left out.
* `Decimal.IsLayout`: the numeral is tidy and has the value of the decimal.
* `exists_behind`, `exists_around`, `exists_before`, `exists_scientific`: each layout is one.
* `exists_layout`: **the text of a decimal is one, with an exponent just outside a fixed range.**
-/

namespace Scriptlet

namespace Number

open Numeral (asciiDigit valueOf)

variable {n : ℕ}

/-! ## Digits -/

theorem isDigit_digitChar (h : n < 10) : IsDigit 10 n.digitChar n := ⟨h, Or.inl rfl⟩

theorem toDigits_concat (h : 10 ≤ n) :
    Nat.toDigits 10 n = Nat.toDigits 10 (n / 10) ++ [(n % 10).digitChar] :=
  Nat.toDigits_of_base_le (by decide) h

/-- **The digits of a number spell it.** -/
theorem spells_toDigits (n : ℕ) : Spells 10 (Nat.toDigits 10 n) n := by
  induction n using Nat.strongRecOn with
  | ind n ih =>
    rcases Nat.lt_or_ge n 10 with hlt | hge
    · rw [Nat.toDigits_of_lt_base hlt]
      exact spells_concat.mpr
        ⟨0, n, spells_nil.mpr rfl, isDigit_digitChar hlt, (Nat.zero_add n).symm⟩
    · rw [toDigits_concat hge]
      exact spells_concat.mpr ⟨n / 10, n % 10, ih (n / 10) (by omega),
        isDigit_digitChar (Nat.mod_lt n (by decide)), (Nat.div_add_mod n 10).symm⟩

theorem digitChar_ne (h : n < 10) (hne : n ≠ 0) : n.digitChar ≠ '0' := by
  interval_cases n <;> first | exact absurd rfl hne | decide

/-- A number has no leading zero. -/
theorem head?_toDigits_ne (h : n ≠ 0) : (Nat.toDigits 10 n).head? ≠ some '0' := by
  induction n using Nat.strongRecOn with
  | ind n ih =>
    rcases Nat.lt_or_ge n 10 with hlt | hge
    · rw [Nat.toDigits_of_lt_base hlt, List.head?_cons]
      exact fun heq => digitChar_ne hlt h (Option.some.inj heq)
    · rw [toDigits_concat hge, List.head?_append_of_ne_nil _ Nat.toDigits_ne_nil]
      exact ih (n / 10) (by omega) (by omega)

theorem getLast?_toDigits_ne (h : n % 10 ≠ 0) : (Nat.toDigits 10 n).getLast? ≠ some '0' := by
  rcases Nat.lt_or_ge n 10 with hlt | hge
  · rw [Nat.toDigits_of_lt_base hlt, List.getLast?_singleton]
    exact fun heq => digitChar_ne hlt (by omega) (Option.some.inj heq)
  · rw [toDigits_concat hge, List.getLast?_concat]
    exact fun heq => digitChar_ne (Nat.mod_lt n (by decide)) h (Option.some.inj heq)

end Number

/-! ## Tidy numerals -/

/-- No part of a numeral could be left out.  In front of the point a zero stands only alone, what is
behind the point does not end in zero, and an exponent follows one digit in front of the point and
does not begin with zero. -/
structure Numeral.IsTidy (n : Numeral) : Prop where
  whole : n.whole = ['0'] ∨ n.whole ≠ [] ∧ n.whole.head? ≠ some '0'
  point : n.hasPoint = true → n.fraction ≠ []
  fraction : n.fraction.getLast? ≠ some '0'
  leading : n.mark ≠ [] → n.whole.length = 1 ∧ n.whole ≠ ['0']
  power : n.power.head? ≠ some '0'

/-- Without an exponent there are only the digits around the point. -/
theorem Numeral.IsTidy.of_plain {whole fraction : List Char} {hasPoint : Bool}
    (hwhole : whole = ['0'] ∨ whole ≠ [] ∧ whole.head? ≠ some '0')
    (hpoint : hasPoint = true → fraction ≠ []) (hfraction : fraction.getLast? ≠ some '0') :
    IsTidy ⟨whole, hasPoint, fraction, [], []⟩ where
  whole := hwhole
  point := hpoint
  fraction := hfraction
  leading := fun hmark => absurd rfl hmark
  power := (Option.some_ne_none '0').symm

namespace Decimal

open Number (spells_toDigits head?_toDigits_ne getLast?_toDigits_ne)
open Numeral (asciiDigit valueOf)

/-- The numeral is tidy, and it has the value of the decimal. -/
structure IsLayout (d : Decimal) (n : Numeral) : Prop where
  isWritten : n.IsWritten asciiDigit
  isTidy : n.IsTidy
  value_eq : (n.toDecimal asciiDigit).value = d.value

variable {d : Decimal}

/-! ## Layouts -/

theorem isSome_toDigits (n : ℕ) : ∀ c ∈ Nat.toDigits 10 n, (asciiDigit c).isSome = true :=
  (Number.spells_iff_valueOf.mp (spells_toDigits n)).1

theorem valueOf_toDigits (n : ℕ) : valueOf asciiDigit (Nat.toDigits 10 n) = n :=
  (Number.spells_iff_valueOf.mp (spells_toDigits n)).2.symm

theorem isSome_replicate (k : ℕ) : ∀ c ∈ List.replicate k '0', (asciiDigit c).isSome = true := by
  intro c hc
  rw [(List.mem_replicate.mp hc).2]
  rfl

theorem valueOf_replicate (k : ℕ) : valueOf asciiDigit (List.replicate k '0') = 0 := by
  induction k with
  | zero => rfl
  | succ k ih =>
    rw [List.replicate_succ', Numeral.valueOf_concat, ih]
    rfl

theorem ne_zero_of_mod (h : d.digits % 10 ≠ 0) : d.digits ≠ 0 := fun hzero => h (by rw [hzero])

theorem value_eq_of {n : Numeral} (hdigits : valueOf asciiDigit (n.whole ++ n.fraction) = d.digits)
    (hexponent : n.powerOf asciiDigit - n.fraction.length = d.exponent) :
    (n.toDecimal asciiDigit).value = d.value := by
  show value ⟨valueOf asciiDigit (n.whole ++ n.fraction),
    n.powerOf asciiDigit - n.fraction.length⟩ = d.value
  rw [hdigits, hexponent]

/-- All digits behind the point, after as many zeros as there have to be. -/
theorem exists_behind (h : d.digits % 10 ≠ 0) (hpoint : d.point ≤ 0) : ∃ n : Numeral,
    n.text = positional Number.style (Nat.toDigits 10 d.digits) d.point ∧ n.mark = [] ∧
      d.IsLayout n := by
  have hne : List.replicate (-d.point).toNat '0' ++ Nat.toDigits 10 d.digits ≠ [] :=
    List.append_ne_nil_of_right_ne_nil _ Nat.toDigits_ne_nil
  refine ⟨⟨['0'], true, List.replicate (-d.point).toNat '0' ++ Nat.toDigits 10 d.digits, [], []⟩,
    ?_, rfl, ⟨⟨?_, Or.inl ⟨rfl, rfl⟩⟩, .of_plain (Or.inl rfl) (fun _ => hne) ?_, ?_⟩⟩
  · rw [positional, if_pos hpoint]
    simp [Numeral.text]
  · exact ⟨isSome_replicate 1,
      List.forall_mem_append.mpr ⟨isSome_replicate _, isSome_toDigits _⟩, Or.inr hne,
      fun hpoint => absurd hpoint.symm Bool.false_ne_true⟩
  · rw [List.getLast?_append_of_ne_nil _ Nat.toDigits_ne_nil]
    exact getLast?_toDigits_ne h
  · refine value_eq_of ?_ ?_
    · show valueOf asciiDigit (List.replicate ((-d.point).toNat + 1) '0' ++ _) = _
      rw [Numeral.valueOf_append, valueOf_replicate, valueOf_toDigits, Nat.zero_mul, Nat.zero_add]
    · show (0 : ℤ) - (List.replicate (-d.point).toNat '0' ++ Nat.toDigits 10 d.digits).length = _
      rw [List.length_append, List.length_replicate]
      unfold point length at *
      omega

/-- Digits on both sides of the point. -/
theorem exists_around (h : d.digits % 10 ≠ 0) (hpoint : 0 < d.point) (hlt : d.exponent < 0) :
    ∃ n : Numeral, n.text = positional Number.style (Nat.toDigits 10 d.digits) d.point ∧
      n.mark = [] ∧ d.IsLayout n := by
  have hlength : d.point < (Nat.toDigits 10 d.digits).length := by
    unfold point length at *
    omega
  have htake : (Nat.toDigits 10 d.digits).take d.point.toNat ≠ [] := by
    rw [ne_eq, List.take_eq_nil_iff]
    rintro (hzero | hnil)
    · omega
    · exact Nat.toDigits_ne_nil hnil
  have hdrop : (Nat.toDigits 10 d.digits).drop d.point.toNat ≠ [] := by
    rw [ne_eq, List.drop_eq_nil_iff]
    omega
  refine ⟨⟨(Nat.toDigits 10 d.digits).take d.point.toNat, true,
    (Nat.toDigits 10 d.digits).drop d.point.toNat, [], []⟩,
    ?_, rfl, ⟨⟨?_, Or.inl ⟨rfl, rfl⟩⟩, .of_plain (Or.inr ⟨htake, ?_⟩) (fun _ => hdrop) ?_, ?_⟩⟩
  · rw [positional, if_neg (by omega), if_pos hlength]
    simp [Numeral.text]
  · exact ⟨fun c hc => isSome_toDigits _ c (List.mem_of_mem_take hc),
      fun c hc => isSome_toDigits _ c (List.mem_of_mem_drop hc), Or.inl htake,
      fun hpoint => absurd hpoint.symm Bool.false_ne_true⟩
  · rw [List.head?_take, if_neg (by omega)]
    exact head?_toDigits_ne (ne_zero_of_mod h)
  · rw [List.getLast?_drop, if_neg (by omega)]
    exact getLast?_toDigits_ne h
  · refine value_eq_of ?_ ?_
    · dsimp only
      rw [List.take_append_drop, valueOf_toDigits]
    · show (0 : ℤ) - ((Nat.toDigits 10 d.digits).drop d.point.toNat).length = _
      rw [List.length_drop]
      unfold point length at *
      omega

/-- All digits in front of the point, before as many zeros as there have to be. -/
theorem exists_before (h : d.digits % 10 ≠ 0) (hge : 0 ≤ d.exponent) :
    ∃ n : Numeral, n.text = positional Number.style (Nat.toDigits 10 d.digits) d.point ∧
      n.mark = [] ∧ d.IsLayout n := by
  have hpos : 0 < (Nat.toDigits 10 d.digits).length := Nat.length_toDigits_pos
  have hzeros : d.point.toNat - (Nat.toDigits 10 d.digits).length = d.exponent.toNat := by
    unfold point length
    omega
  have hne : Nat.toDigits 10 d.digits ++ List.replicate d.exponent.toNat '0' ≠ [] :=
    List.append_ne_nil_of_left_ne_nil Nat.toDigits_ne_nil _
  refine ⟨⟨Nat.toDigits 10 d.digits ++ List.replicate d.exponent.toNat '0', false, [], [], []⟩,
    ?_, rfl, ⟨⟨?_, Or.inl ⟨rfl, rfl⟩⟩, .of_plain (Or.inr ⟨hne, ?_⟩)
      (fun hpoint => absurd hpoint Bool.false_ne_true) (Option.some_ne_none '0').symm, ?_⟩⟩
  · rw [positional, if_neg (by unfold point length; omega), if_neg (by unfold point length; omega),
      hzeros]
    simp [Numeral.text, Number.style]
  · exact ⟨List.forall_mem_append.mpr ⟨isSome_toDigits _, isSome_replicate _⟩,
      List.forall_mem_nil _, Or.inl hne, fun _ => rfl⟩
  · rw [List.head?_append_of_ne_nil _ Nat.toDigits_ne_nil]
    exact head?_toDigits_ne (ne_zero_of_mod h)
  · have hvalue := value_refine d hge
    show value ⟨valueOf asciiDigit (Nat.toDigits 10 d.digits ++ List.replicate _ '0' ++ []), 0⟩ = _
    rw [List.append_nil, Numeral.valueOf_append, valueOf_toDigits, valueOf_replicate,
      List.length_replicate, Nat.add_zero]
    rwa [sub_zero] at hvalue

/-- The mark of an exponent is negative just if it has a minus. -/
theorem isSign_sign (power : ℤ) : ∃ negative,
    Numeral.IsSign [if power < 0 then '-' else '+'] negative ∧
      ('-' ∈ ['e', if power < 0 then '-' else '+'] ↔ power < 0) := by
  by_cases hneg : power < 0
  · rw [if_pos hneg]
    exact ⟨true, .minus, by simp [hneg]⟩
  · rw [if_neg hneg]
    exact ⟨false, .plus, by simp [hneg]⟩

/-- One digit in front of the point, and an exponent. -/
theorem exists_scientific (h : d.digits % 10 ≠ 0) (hpoint : d.point ≠ 1) :
    ∃ n : Numeral, n.text = scientific Number.style (Nat.toDigits 10 d.digits) d.point ∧
      n.mark ≠ [] ∧ d.IsLayout n := by
  have hhead := head?_toDigits_ne (ne_zero_of_mod h)
  have hlast := getLast?_toDigits_ne h
  have hsome := isSome_toDigits d.digits
  have hvalue := valueOf_toDigits d.digits
  have hexponent : d.exponent = d.point - 1 - ((Nat.toDigits 10 d.digits).length - 1) := by
    unfold point length
    omega
  have hexponentText : Number.style.exponentText (d.point - 1).natAbs =
      Nat.toDigits 10 (d.point - 1).natAbs := by
    have hpos : 0 < (Nat.toDigits 10 (d.point - 1).natAbs).length := Nat.length_toDigits_pos
    have hnone : Number.style.exponentDigits - (Nat.toDigits 10 (d.point - 1).natAbs).length = 0 :=
      Nat.sub_eq_zero_of_le hpos
    rw [Style.exponentText, hnone, List.replicate_zero, List.nil_append]
  obtain ⟨negative, hsign, hminus⟩ := isSign_sign (d.point - 1)
  unfold scientific
  dsimp only
  rw [hexponentText]
  cases hdigits : Nat.toDigits 10 d.digits with
  | nil => exact absurd hdigits Nat.toDigits_ne_nil
  | cons first rest =>
    rw [hdigits] at hhead hlast hsome hvalue hexponent
    have hfirst : first ≠ '0' := fun hzero => hhead (congrArg some hzero)
    refine ⟨⟨[first], !rest.isEmpty, rest, ['e', if d.point - 1 < 0 then '-' else '+'],
      Nat.toDigits 10 (d.point - 1).natAbs⟩, ?_, List.cons_ne_nil _ _,
      ⟨⟨⟨?_, ?_, Or.inl (List.cons_ne_nil _ _), ?_⟩,
        Or.inr ⟨'e', _, negative, Or.inl rfl, hsign, rfl, Nat.toDigits_ne_nil, isSome_toDigits _⟩⟩,
      ⟨Or.inr ⟨List.cons_ne_nil _ _, hhead⟩, ?_, ?_, fun _ => ⟨rfl, ?_⟩, ?_⟩,
      value_eq_of hvalue ?_⟩⟩
    · cases rest <;> simp [Numeral.text]
    · exact fun c hc => hsome c (List.mem_cons.mpr (Or.inl (List.mem_singleton.mp hc)))
    · exact fun c hc => hsome c (List.mem_cons_of_mem _ hc)
    · cases rest with
      | nil => exact fun _ => rfl
      | cons => exact fun hpoint => absurd hpoint.symm Bool.false_ne_true
    · cases rest with
      | nil => exact fun hpoint => absurd hpoint Bool.false_ne_true
      | cons => exact fun _ => List.cons_ne_nil _ _
    · cases rest with
      | nil => exact (Option.some_ne_none '0').symm
      | cons => exact hlast
    · exact fun heq => hfirst (List.cons.inj heq).1
    · exact head?_toDigits_ne (by omega)
    · rw [Numeral.powerOf]
      simp only [hminus, valueOf_toDigits]
      rw [hexponent, List.length_cons]
      split <;> omega

/-! ## The text of a decimal -/

section Powers

variable {k : ℤ}

/-- A decimal is below a power of ten just if its point is. -/
theorem value_lt_zpow_iff (h : d.digits ≠ 0) : d.value < (10 : ℚ) ^ k ↔ d.point ≤ k := by
  constructor
  · intro hlt
    by_contra hgt
    have hle := zpow_le_value h
    refine absurd (hle.trans_lt hlt) (not_lt.mpr (zpow_le_zpow_right₀ (by norm_num) ?_))
    unfold point at hgt
    omega
  · exact fun hle => (value_lt_zpow d).trans_le (zpow_le_zpow_right₀ (by norm_num) hle)

end Powers

/-- **The text of a decimal is a tidy numeral with its value.**  It has an exponent just if it is
below a millionth, or a sextillion and more. -/
theorem exists_layout (h : d.digits % 10 ≠ 0) :
    ∃ n : Numeral, n.text = write Number.style d ∧ d.IsLayout n ∧
      (n.mark ≠ [] ↔ d.value < (10 : ℚ) ^ (-6 : ℤ) ∨ (10 : ℚ) ^ (21 : ℤ) ≤ d.value) := by
  have hiff : (d.value < (10 : ℚ) ^ (-6 : ℤ) ∨ (10 : ℚ) ^ (21 : ℤ) ≤ d.value) ↔
      ¬ (-6 < d.point ∧ d.point ≤ 21) := by
    rw [← not_lt, value_lt_zpow_iff (ne_zero_of_mod h), value_lt_zpow_iff (ne_zero_of_mod h)]
    omega
  rw [hiff]
  unfold write
  dsimp only
  by_cases hnear : -6 < d.point ∧ d.point ≤ 21
  · have hpositional : ∃ n : Numeral,
        n.text = positional Number.style (Nat.toDigits 10 d.digits) d.point ∧ n.mark = [] ∧
          d.IsLayout n := by
      rcases le_or_gt d.point 0 with hle | hgt
      · exact exists_behind h hle
      · rcases lt_or_ge d.exponent 0 with hlt | hge
        · exact exists_around h hgt hlt
        · exact exists_before h hge
    obtain ⟨n, htext, hmark, hlayout⟩ := hpositional
    refine ⟨n, ?_, hlayout, iff_of_false (not_not.mpr hmark) (not_not.mpr hnear)⟩
    rw [if_pos (show Number.style.low < d.point ∧ d.point ≤ Number.style.high from hnear), htext]
  · obtain ⟨n, htext, hmark, hlayout⟩ := exists_scientific h fun hone => hnear (by omega)
    refine ⟨n, ?_, hlayout, iff_of_true hmark hnear⟩
    have hfar : ¬ (Number.style.low < d.point ∧ d.point ≤ Number.style.high) := hnear
    rw [if_neg hfar, htext]

end Decimal

end Scriptlet
