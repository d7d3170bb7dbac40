import Scriptlet.Token.Scan

/-!
# Numerals are read back

A text is a numeral just if its parts are what the parts of a numeral have to be, and then scanning
finds these parts and leaves nothing over.  So a lexeme that is a numeral always denotes a number.
For that the marks of numerals must be no digits: otherwise the digits in front of a mark would go
on with it.

* `Numeral.Plain`: the marks of numerals are no digits.
* `Numeral.IsWritten`: the grammar of numerals.
* `Numeral.isWritten_of_scan`, `Numeral.stops_of_scan`: what is scanned is a numeral, and the rest
  does not go on with it.
* `Numeral.Stops.congr`: how far that is seen.
* `Numeral.IsWritten.scan_append_of_stops`: a numeral is scanned from its text.
* `Numeral.ofChars?_eq_some_iff`: so the texts of numerals are those that the grammar has.
* `Token.numeral_of_mem_candidates`: the lexeme of a number token denotes a number.
-/

namespace Scriptlet
namespace Numeral

/-- No mark of a numeral is a digit. -/
structure Plain (digit : Char → Option Nat) : Prop where
  point : digit '.' = none
  plus : digit '+' = none
  minus : digit '-' = none
  lower : digit 'e' = none
  upper : digit 'E' = none

variable {digit : Char → Option Nat} {cs ds tail rest whole fraction mark power : List Char}
  {hasPoint : Bool}

/-! ## Digits -/

/-- The text does not begin with a digit. -/
def NoDigit (digit : Char → Option Nat) (cs : List Char) : Prop :=
  ∀ c ∈ cs.head?, digit c = none

theorem noDigit_nil : NoDigit digit [] := nofun

theorem noDigit_cons {c : Char} (h : digit c = none) (cs : List Char) :
    NoDigit digit (c :: cs) := by
  intro d hd
  cases hd
  exact h

theorem isSome_of_mem_splitDigits {c : Char} (h : c ∈ (splitDigits digit cs).1) :
    (digit c).isSome = true := by
  induction cs with
  | nil => cases h
  | cons d cs ih =>
    have hsplit : (splitDigits digit (d :: cs)).1 =
        if (digit d).isSome then d :: (splitDigits digit cs).1 else [] := by
      unfold splitDigits
      rw [List.takeWhile_cons]
    rw [hsplit] at h
    by_cases hd : (digit d).isSome = true
    · rw [if_pos hd] at h
      rcases List.mem_cons.mp h with rfl | hmem
      · exact hd
      · exact ih hmem
    · rw [if_neg hd] at h
      cases h

/-- Digits end where no digit follows. -/
theorem splitDigits_append_of_all (hds : ∀ c ∈ ds, (digit c).isSome = true)
    (htail : NoDigit digit tail) : splitDigits digit (ds ++ tail) = (ds, tail) := by
  unfold splitDigits
  rw [List.takeWhile_append_of_pos hds, List.dropWhile_append_of_pos hds]
  cases tail with
  | nil => rw [List.takeWhile_nil, List.dropWhile_nil, List.append_nil]
  | cons c tail =>
    have hc : (digit c).isSome = false := by
      rw [htail c rfl]
      rfl
    rw [List.takeWhile_cons, List.dropWhile_cons, hc, if_neg Bool.false_ne_true,
      if_neg Bool.false_ne_true, List.append_nil]

theorem isSome_of_splitDigits (h : splitDigits digit cs = (ds, rest)) :
    ∀ c ∈ ds, (digit c).isSome = true := by
  intro c hc
  have hmem : c ∈ (splitDigits digit cs).1 := by
    rw [h]
    exact hc
  exact isSome_of_mem_splitDigits hmem

/-! ## The grammar -/

/-- A sign, or none, and whether it is negative. -/
inductive IsSign : List Char → Bool → Prop
  | none : IsSign [] false
  | plus : IsSign ['+'] false
  | minus : IsSign ['-'] true

/-- An exponent is an `e` in either case with a sign, or none, and at least one digit. -/
def IsExponent (digit : Char → Option Nat) (mark power : List Char) : Prop :=
  mark = [] ∧ power = [] ∨
    ∃ e sign negative, (e = 'e' ∨ e = 'E') ∧ IsSign sign negative ∧ mark = e :: sign ∧ power ≠ [] ∧
      ∀ c ∈ power, (digit c).isSome = true

/-- There are only digits around the point, and at least one. -/
structure IsMantissa (digit : Char → Option Nat) (whole : List Char) (hasPoint : Bool)
    (fraction : List Char) : Prop where
  isSome_whole : ∀ c ∈ whole, (digit c).isSome = true
  isSome_fraction : ∀ c ∈ fraction, (digit c).isSome = true
  nonempty : whole ≠ [] ∨ fraction ≠ []
  point : hasPoint = false → fraction = []

/-- The parts of a numeral are what they have to be. -/
structure IsWritten (digit : Char → Option Nat) (n : Numeral) : Prop where
  mantissa : IsMantissa digit n.whole n.hasPoint n.fraction
  exponent : IsExponent digit n.mark n.power

/-- In the text of a numeral there are digits and marks. -/
theorem IsWritten.forall_mem_text {n : Numeral} (h : n.IsWritten digit) {p : Char → Prop}
    (hdigits : ∀ c, (digit c).isSome = true → p c)
    (hmarks : ∀ c ∈ ['.', 'e', 'E', '+', '-'], p c) : ∀ c ∈ n.text, p c := by
  have hpoint : ∀ c ∈ (if n.hasPoint then ['.'] else []), p c := by
    intro c hc
    split at hc
    · exact hmarks c (List.mem_cons.mpr (Or.inl (List.mem_singleton.mp hc)))
    · cases hc
  have hexponent : ∀ c ∈ n.mark ++ n.power, p c := by
    rcases h.exponent with ⟨hmark, hpower⟩ | ⟨e, sign, negative, he, hsign, hmark, -, hall⟩
    · rw [hmark, hpower]
      exact nofun
    · rw [hmark, List.cons_append, List.forall_mem_cons, List.forall_mem_append]
      refine ⟨?_, ?_, fun c hc => hdigits c (hall c hc)⟩
      · rcases he with rfl | rfl <;> exact hmarks _ (by decide)
      · intro c hc
        cases hsign with
        | none => cases hc
        | plus | minus => exact hmarks c (by rw [List.mem_singleton.mp hc]; decide)
  unfold text
  rw [List.append_assoc, List.forall_mem_append, List.forall_mem_append, List.forall_mem_append]
  exact ⟨⟨⟨fun c hc => hdigits c (h.mantissa.isSome_whole c hc), hpoint⟩,
    fun c hc => hdigits c (h.mantissa.isSome_fraction c hc)⟩, hexponent⟩

/-! ## Readings that agree -/

section Congr

variable {digit' : Char → Option Nat} {n : Numeral}

theorem valueOf_congr (h : ∀ c ∈ cs, digit c = digit' c) :
    valueOf digit cs = valueOf digit' cs := by
  have hfold : ∀ k, cs.foldl (fun k c => 10 * k + (digit c).getD 0) k =
      cs.foldl (fun k c => 10 * k + (digit' c).getD 0) k := by
    induction cs with
    | nil => exact fun _ => rfl
    | cons c cs ih =>
      obtain ⟨hc, hcs⟩ := List.forall_mem_cons.mp h
      intro k
      rw [List.foldl_cons, List.foldl_cons, hc]
      exact ih hcs _
  exact hfold 0

/-- Readings that agree on the characters of a numeral read the same from it. -/
theorem IsWritten.congr (h : n.IsWritten digit) (hsame : ∀ c ∈ n.text, digit c = digit' c) :
    n.IsWritten digit' ∧ n.toDecimal digit = n.toDecimal digit' := by
  have hwhole : ∀ c ∈ n.whole, digit c = digit' c := fun c hc => hsame c (by simp [text, hc])
  have hfraction : ∀ c ∈ n.fraction, digit c = digit' c := fun c hc =>
    hsame c (by simp [text, hc])
  have hpower : ∀ c ∈ n.power, digit c = digit' c := fun c hc => hsame c (by simp [text, hc])
  constructor
  · refine ⟨⟨fun c hc => ?_, fun c hc => ?_, h.mantissa.nonempty, h.mantissa.point⟩, ?_⟩
    · exact hwhole c hc ▸ h.mantissa.isSome_whole c hc
    · exact hfraction c hc ▸ h.mantissa.isSome_fraction c hc
    · rcases h.exponent with hnone | ⟨e, sign, negative, he, hsign, hmark, hne, hall⟩
      · exact Or.inl hnone
      · exact Or.inr ⟨e, sign, negative, he, hsign, hmark, hne,
          fun c hc => hpower c hc ▸ hall c hc⟩
  · have hdigits : ∀ c ∈ n.whole ++ n.fraction, digit c = digit' c :=
      List.forall_mem_append.mpr ⟨hwhole, hfraction⟩
    rw [toDecimal, toDecimal, valueOf_congr hdigits, valueOf_congr hpower]

end Congr

/-! ## What is scanned is written -/

theorem isSign_splitSign (cs : List Char) : ∃ negative, IsSign (splitSign cs).1 negative := by
  fun_cases splitSign cs with
  | case1 => exact ⟨true, .minus⟩
  | case2 => exact ⟨false, .plus⟩
  | case3 => exact ⟨false, .none⟩

theorem isExponent_of_splitExponent (h : splitExponent digit cs = (mark, power, rest)) :
    IsExponent digit mark power := by
  unfold splitExponent at h
  split at h
  · cases h
    exact Or.inl ⟨rfl, rfl⟩
  · rename_i e cs
    split at h
    · rename_i he
      split at h
      · cases h
        exact Or.inl ⟨rfl, rfl⟩
      · rename_i hne hsplit
        cases h
        obtain ⟨negative, hsign⟩ := isSign_splitSign cs
        exact Or.inr ⟨e, _, negative, he, hsign, rfl, fun hnil => hne hnil,
          isSome_of_splitDigits hsplit⟩
    · cases h
      exact Or.inl ⟨rfl, rfl⟩

theorem isMantissa_of_splitPoint
    (h : splitPoint digit cs = some (whole, hasPoint, fraction, rest)) :
    IsMantissa digit whole hasPoint fraction := by
  unfold splitPoint at h
  split at h
  · split at h
    · cases h
    · rename_i hne hback
      cases h
      exact ⟨nofun, isSome_of_splitDigits hback, Or.inr fun hnil => hne hnil, nofun⟩
  · cases h
  · rename_i hne hfront
    split at h
    rename_i hback
    cases h
    exact ⟨isSome_of_splitDigits hfront, isSome_of_splitDigits hback, Or.inl fun hnil => hne hnil,
      nofun⟩
  · rename_i hne _ hfront
    cases h
    exact ⟨isSome_of_splitDigits hfront, nofun, Or.inl fun hnil => hne hnil, fun _ => rfl⟩

/-- **What is scanned is a numeral.** -/
theorem isWritten_of_scan {n : Numeral} (h : scan digit cs = some (n, rest)) :
    n.IsWritten digit := by
  obtain ⟨⟨whole, hasPoint, fraction, after⟩, hpoint, hn⟩ := Option.map_eq_some_iff.mp h
  rcases hafter : splitExponent digit after with ⟨mark, power, last⟩
  simp only [hafter] at hn
  obtain ⟨rfl, rfl⟩ := Prod.mk.inj hn
  exact ⟨isMantissa_of_splitPoint hpoint, isExponent_of_splitExponent hafter⟩

/-! ## Where a numeral ends -/

/-- The text does not go on with a numeral in front of it. -/
structure Ends (digit : Char → Option Nat) (cs : List Char) : Prop where
  noDigit : NoDigit digit cs
  no_point : '.' ∉ cs.head?
  no_lower : 'e' ∉ cs.head?
  no_upper : 'E' ∉ cs.head?

theorem ends_nil : Ends digit [] := ⟨noDigit_nil, nofun, nofun, nofun⟩

/-- What does not go on with a numeral is no exponent. -/
theorem Ends.splitExponent (h : Ends digit tail) : splitExponent digit tail = ([], [], tail) := by
  cases tail with
  | nil => rfl
  | cons c tail =>
    have hc : ¬ (c = 'e' ∨ c = 'E') := by
      rintro (rfl | rfl)
      · exact h.no_lower rfl
      · exact h.no_upper rfl
    rw [Numeral.splitExponent, if_neg hc]

/-- The text does not go on with this numeral.  Behind an exponent only digits go on with it, and
an `e` goes on with no numeral unless digits follow. -/
structure Stops (digit : Char → Option Nat) (n : Numeral) (cs : List Char) : Prop where
  noDigit : NoDigit digit cs
  no_point : n.hasPoint = false → n.mark = [] → '.' ∉ cs.head?
  no_exponent : n.mark = [] → splitExponent digit cs = ([], [], cs)

theorem Ends.stops (h : Ends digit tail) (n : Numeral) : Stops digit n tail :=
  ⟨h.noDigit, fun _ _ => h.no_point, fun _ => h.splitExponent⟩

theorem noDigit_of_splitDigits (h : splitDigits digit cs = (ds, rest)) : NoDigit digit rest := by
  cases h
  intro c hc
  have hnot := List.head?_dropWhile_not (fun c => (digit c).isSome) cs
  rw [hc] at hnot
  exact Option.isNone_iff_eq_none.mp (Option.isSome_eq_false_iff.mp hnot)

theorem noDigit_of_splitExponent (h : splitExponent digit cs = (mark, power, rest))
    (hmark : mark ≠ []) : NoDigit digit rest := by
  unfold splitExponent at h
  split at h
  · cases h
    exact absurd rfl hmark
  · split at h
    · split at h
      · cases h
        exact absurd rfl hmark
      · rename_i hsplit
        cases h
        exact noDigit_of_splitDigits hsplit
    · cases h
      exact absurd rfl hmark

/-- Behind the digits around the point there is no digit, and behind a whole number no point. -/
theorem noDigit_of_splitPoint
    (h : splitPoint digit cs = some (whole, hasPoint, fraction, rest)) :
    NoDigit digit rest ∧ (hasPoint = false → '.' ∉ rest.head?) := by
  unfold splitPoint at h
  split at h
  · split at h
    · cases h
    · rename_i hback
      cases h
      exact ⟨noDigit_of_splitDigits hback, nofun⟩
  · cases h
  · split at h
    rename_i hback
    cases h
    exact ⟨noDigit_of_splitDigits hback, nofun⟩
  · rename_i hpoint hfront
    cases h
    refine ⟨noDigit_of_splitDigits hfront, fun _ hmem => ?_⟩
    obtain ⟨others, rfl⟩ := List.head?_eq_some_iff.mp hmem
    exact hpoint others rfl

/-- **A numeral that is scanned stops** where the rest begins. -/
theorem stops_of_scan {n : Numeral} (h : scan digit cs = some (n, rest)) : Stops digit n rest := by
  obtain ⟨⟨whole, hasPoint, fraction, after⟩, hpoint, hn⟩ := Option.map_eq_some_iff.mp h
  rcases hafter : splitExponent digit after with ⟨mark, power, last⟩
  simp only [hafter] at hn
  obtain ⟨rfl, rfl⟩ := Prod.mk.inj hn
  obtain ⟨hdigit, hnopoint⟩ := noDigit_of_splitPoint hpoint
  have hnone : mark = [] → splitExponent digit after = ([], [], after) ∧ last = after := by
    intro hmark
    have hwhole := splitExponent_append digit after
    rw [hafter] at hwhole
    rcases isExponent_of_splitExponent hafter with ⟨rfl, rfl⟩ | ⟨e, sign, _, _, _, rfl, _, _⟩
    · exact ⟨hafter.trans (by rw [← hwhole]; rfl), hwhole⟩
    · cases hmark
  by_cases hmark : mark = []
  · obtain ⟨hsplit, rfl⟩ := hnone hmark
    exact ⟨hdigit, fun hfalse _ => hnopoint hfalse, fun _ => hsplit⟩
  · exact ⟨noDigit_of_splitExponent hafter hmark, fun _ heq => absurd heq hmark,
      fun heq => absurd heq hmark⟩

/-! ### How far it is seen that a numeral ends -/

/-- The character stands in no numeral. -/
structure Apart (digit : Char → Option Nat) (d : Char) : Prop where
  noDigit : digit d = none
  no_mark : d ∉ ['.', 'e', 'E', '+', '-']

section Apart

variable {d : Char} {mid : List Char}

theorem NoDigit.congr (h : NoDigit digit (mid ++ rest)) (hd : Apart digit d) :
    NoDigit digit (mid ++ d :: tail) := by
  cases mid with
  | nil => exact noDigit_cons hd.noDigit tail
  | cons c mid => exact noDigit_cons (h c rfl) _

/-- An `e` is the mark of an exponent if digits follow, with or without a sign. -/
theorem splitExponent_cons_eq_none_iff {e : Char} :
    splitExponent digit (e :: cs) = ([], [], e :: cs) ↔
      (e = 'e' ∨ e = 'E' → NoDigit digit (splitSign cs).2) := by
  by_cases he : e = 'e' ∨ e = 'E'
  · rw [splitExponent, if_pos he]
    rcases hsplit : splitDigits digit (splitSign cs).2 with ⟨power, rest⟩
    cases power with
    | nil =>
      have hwhole := splitDigits_append digit (splitSign cs).2
      rw [hsplit] at hwhole
      exact iff_of_true rfl fun _ => hwhole ▸ noDigit_of_splitDigits hsplit
    | cons c power =>
      refine iff_of_false (fun heq => ?_) fun h => ?_
      · cases heq
      · have hnone : splitDigits digit ([] ++ (splitSign cs).2) = ([], (splitSign cs).2) :=
          splitDigits_append_of_all (List.forall_mem_nil _) (h he)
        rw [List.nil_append, hsplit] at hnone
        cases hnone
  · rw [splitExponent, if_neg he]
    exact iff_of_true rfl fun h => absurd h he

/-- A text that begins with no sign has none split off. -/
theorem splitSign_of_ne {c : Char} (hminus : c ≠ '-') (hplus : c ≠ '+') (cs : List Char) :
    splitSign (c :: cs) = ([], c :: cs) := by
  unfold splitSign
  split
  · rename_i heq
    exact absurd (List.cons.inj heq).1 hminus
  · rename_i heq
    exact absurd (List.cons.inj heq).1 hplus
  · rfl

theorem NoDigit.congr_splitSign (h : NoDigit digit (splitSign (mid ++ rest)).2)
    (hd : Apart digit d) : NoDigit digit (splitSign (mid ++ d :: tail)).2 := by
  have hne {c : Char} (hc : c ∈ ['.', 'e', 'E', '+', '-']) : d ≠ c := by
    rintro rfl
    exact hd.no_mark hc
  cases mid with
  | nil =>
    show NoDigit digit (splitSign (d :: tail)).2
    rw [splitSign_of_ne (hne (by decide)) (hne (by decide))]
    exact noDigit_cons hd.noDigit tail
  | cons c mid =>
    rw [List.cons_append] at h ⊢
    by_cases hminus : c = '-'
    · subst hminus
      have h : NoDigit digit (mid ++ rest) := h
      exact h.congr hd
    · by_cases hplus : c = '+'
      · subst hplus
        have h : NoDigit digit (mid ++ rest) := h
        exact h.congr hd
      · rw [splitSign_of_ne hminus hplus] at h ⊢
        exact noDigit_cons (h c rfl) _

/-- **How far it is seen that a numeral ends**: whatever stands between, not farther than to a
character that stands in no numeral. -/
theorem Stops.congr {n : Numeral} (h : Stops digit n (mid ++ rest)) (hd : Apart digit d) :
    Stops digit n (mid ++ d :: tail) := by
  refine ⟨h.noDigit.congr hd, fun hpoint hmark => ?_, fun hmark => ?_⟩
  · have hno := h.no_point hpoint hmark
    cases mid with
    | nil =>
      intro heq
      cases heq
      exact hd.no_mark (by decide)
    | cons c mid => exact hno
  · have hno := h.no_exponent hmark
    cases mid with
    | nil =>
      refine splitExponent_cons_eq_none_iff.mpr ?_
      rintro (rfl | rfl) <;> exact absurd (by decide) hd.no_mark
    | cons c mid =>
      rw [List.cons_append] at hno ⊢
      rw [splitExponent_cons_eq_none_iff] at hno ⊢
      exact fun he => (hno he).congr_splitSign hd

end Apart

/-! ## What is written is scanned -/

/-- Digits have no sign in front of them. -/
theorem splitSign_of_all (hplain : Plain digit) (hne : ds ≠ [])
    (hds : ∀ c ∈ ds, (digit c).isSome = true) : splitSign (ds ++ tail) = ([], ds ++ tail) := by
  cases ds with
  | nil => exact absurd rfl hne
  | cons d ds =>
    have hd := hds d (List.mem_cons_self ..)
    refine splitSign_of_ne ?_ ?_ (ds ++ tail)
    · rintro rfl
      rw [hplain.minus] at hd
      cases hd
    · rintro rfl
      rw [hplain.plus] at hd
      cases hd

theorem IsSign.splitSign_append {sign : List Char} {negative : Bool} (h : IsSign sign negative)
    (hplain : Plain digit) (hne : ds ≠ []) (hds : ∀ c ∈ ds, (digit c).isSome = true) :
    splitSign (sign ++ (ds ++ tail)) = (sign, ds ++ tail) := by
  cases h with
  | none =>
    show splitSign (ds ++ tail) = _
    exact splitSign_of_all hplain hne hds
  | plus => rfl
  | minus => rfl

/-- An exponent is split off, and the digits in front of it do not go on with it. -/
theorem IsExponent.split {n : Numeral} (h : IsExponent digit n.mark n.power)
    (hplain : Plain digit) (htail : Stops digit n tail) :
    splitExponent digit (n.mark ++ n.power ++ tail) = (n.mark, n.power, tail) ∧
      NoDigit digit (n.mark ++ n.power ++ tail) ∧
      (n.hasPoint = false → '.' ∉ (n.mark ++ n.power ++ tail).head?) := by
  obtain ⟨whole, hasPoint, fraction, mark, power⟩ := n
  dsimp only at h ⊢
  rcases h with ⟨rfl, rfl⟩ | ⟨e, sign, negative, he, hsign, rfl, hne, hall⟩
  · exact ⟨htail.no_exponent rfl, htail.noDigit, fun hpoint => htail.no_point hpoint rfl⟩
  · have hpower := splitDigits_append_of_all hall htail.noDigit
    rw [List.append_assoc, List.cons_append]
    refine ⟨?_, ?_, ?_⟩
    · rw [splitExponent, if_pos he, hsign.splitSign_append hplain hne hall, hpower]
      cases power with
      | nil => exact absurd rfl hne
      | cons => rfl
    · rcases he with rfl | rfl
      · exact noDigit_cons hplain.lower _
      · exact noDigit_cons hplain.upper _
    · rcases he with rfl | rfl <;> exact fun _ => by simp

/-- The digits around the point are split off in front of anything that does not go on with
them. -/
theorem IsMantissa.split (h : IsMantissa digit whole hasPoint fraction) (hplain : Plain digit)
    (htail : NoDigit digit tail) (hpoint : hasPoint = false → '.' ∉ tail.head?) :
    splitPoint digit (whole ++ (if hasPoint then ['.'] else []) ++ fraction ++ tail) =
      some (whole, hasPoint, fraction, tail) := by
  cases hasPoint with
  | true =>
    have hwhole := splitDigits_append_of_all h.isSome_whole
      (noDigit_cons hplain.point (fraction ++ tail))
    have hfraction := splitDigits_append_of_all h.isSome_fraction htail
    simp only [if_true, List.append_assoc, List.cons_append, List.nil_append]
    unfold splitPoint
    rw [hwhole]
    cases whole with
    | nil =>
      cases fraction with
      | nil => rcases h.nonempty with hne | hne <;> exact absurd rfl hne
      | cons => simp only [hfraction]
    | cons => simp only [hfraction]
  | false =>
    obtain rfl := h.point rfl
    have hwhole := splitDigits_append_of_all h.isSome_whole htail
    simp only [Bool.false_eq_true, if_false, List.append_nil]
    unfold splitPoint
    rw [hwhole]
    cases whole with
    | nil => rcases h.nonempty with hne | hne <;> exact absurd rfl hne
    | cons =>
      split
      · rename_i heq
        cases heq
      · rename_i heq
        cases heq
      · rename_i heq
        cases heq
        exact absurd rfl (hpoint rfl)
      · rename_i heq
        cases heq
        rfl

/-- **A numeral is scanned from its text** in front of what does not go on with it. -/
theorem IsWritten.scan_append_of_stops {n : Numeral} (h : n.IsWritten digit)
    (hplain : Plain digit) (htail : Stops digit n tail) :
    scan digit (n.text ++ tail) = some (n, tail) := by
  obtain ⟨hexponent, hdigit, hmark⟩ := h.exponent.split hplain htail
  have hpoint := h.mantissa.split hplain hdigit hmark
  rw [← List.append_assoc, ← List.append_assoc] at hpoint
  unfold scan text
  simp only [hpoint, Option.map_some, hexponent]

/-- A numeral is scanned from its text in front of what goes on with no numeral. -/
theorem IsWritten.scan_append {n : Numeral} (h : n.IsWritten digit) (hplain : Plain digit)
    (htail : Ends digit tail) : scan digit (n.text ++ tail) = some (n, tail) :=
  h.scan_append_of_stops hplain (htail.stops n)

/-- Of its own text a numeral leaves nothing over. -/
theorem IsWritten.scan_text {n : Numeral} (h : n.IsWritten digit) (hplain : Plain digit) :
    scan digit n.text = some (n, []) := by
  have hscan := h.scan_append hplain ends_nil
  rwa [List.append_nil] at hscan

/-- **The numerals of texts**: a text is a numeral just if it is written like one, and then it is
the numeral that it is written like. -/
theorem ofChars?_eq_some_iff (hplain : Plain digit) {n : Numeral} :
    ofChars? digit cs = some n ↔ n.IsWritten digit ∧ n.text = cs := by
  constructor
  · intro h
    unfold ofChars? at h
    split at h
    · rename_i hscan
      cases h
      have htext := text_scan hscan
      rw [List.append_nil] at htext
      exact ⟨isWritten_of_scan hscan, htext⟩
    · cases h
  · rintro ⟨hwritten, rfl⟩
    rw [ofChars?, hwritten.scan_text hplain]

/-- What begins with neither a digit nor a point is no numeral. -/
theorem scan_eq_none {c : Char} (hdigit : digit c = none) (hpoint : c ≠ '.') (cs : List Char) :
    scan digit (c :: cs) = none := by
  have hsplit : splitDigits digit ([] ++ c :: cs) = ([], c :: cs) :=
    splitDigits_append_of_all nofun (noDigit_cons hdigit cs)
  rw [List.nil_append] at hsplit
  have hnone : splitPoint digit (c :: cs) = none := by
    unfold splitPoint
    rw [hsplit]
    split
    · rename_i heq
      cases heq
      exact absurd rfl hpoint
    · rfl
    · rename_i hne heq
      cases heq
      exact absurd rfl hne
    · rename_i hne _ heq
      cases heq
      exact absurd rfl hne
  rw [scan, hnone]
  rfl

/-- A numeral's text is a numeral. -/
theorem ofChars?_text_of_scan (hplain : Plain digit) {n : Numeral}
    (h : scan digit cs = some (n, rest)) : ofChars? digit n.text = some n :=
  (ofChars?_eq_some_iff hplain).mpr ⟨isWritten_of_scan h, rfl⟩

end Numeral

/-! ## Digits of ASCII -/

/-- Before the digits of other scripts there are those of ASCII only. -/
theorem Text.digitValue_eq_asciiDigit {c : Char} (h : c.toNat < 0x660) :
    digitValue c = Numeral.asciiDigit c := by
  obtain ⟨others, hzeros, hothers⟩ :
      ∃ others, zeros = 0x30 :: others ∧ ∀ z ∈ others, 0x660 ≤ z := ⟨_, rfl, by decide⟩
  unfold digitValue Numeral.asciiDigit
  rw [hzeros]
  by_cases hrange : 0x30 ≤ c.toNat ∧ c.toNat < 0x30 + 10
  · have hdigit : '0' ≤ c ∧ c ≤ '9' := ⟨hrange.1, Nat.lt_succ_iff.mp hrange.2⟩
    rw [List.find?_cons, decide_eq_true hrange, if_pos hdigit]
    rfl
  · have hdigit : ¬ ('0' ≤ c ∧ c ≤ '9') := fun hd => hrange ⟨hd.1, Nat.lt_succ_iff.mpr hd.2⟩
    have hnone : (others.find? fun z => decide (z ≤ c.toNat ∧ c.toNat < z + 10)) = none := by
      refine List.find?_eq_none.mpr fun z hz => ?_
      have hle := hothers z hz
      simp only [decide_eq_true_eq]
      omega
    rw [List.find?_cons, decide_eq_false hrange, hnone, if_neg hdigit]
    rfl

/-! ## Number tokens -/

namespace Token

/-- Among the digits of every script there is no mark of a numeral. -/
theorem plain_digitValue : Numeral.Plain Text.digitValue where
  point := by decide
  plus := by decide
  minus := by decide
  lower := by decide
  upper := by decide

theorem terminal_ne_number_of_mem_signs {t : Token} (h : t ∈ signs) : t.terminal ≠ .number := by
  have hall : ∀ t ∈ signs, t.terminal ≠ .number := by decide
  exact hall t h

/-- **The lexeme of a number token denotes a number.** -/
theorem numeral_of_mem_candidates {t : Token} {cs : List Char} (h : t ∈ candidates cs)
    (hnumber : t.terminal = .number) :
    ∃ n, Numeral.ofChars? Text.digitValue t.lexeme = some n := by
  rcases mem_candidates_cases h with
    ⟨_, _, -, rfl⟩ | ⟨n, rest, hscan, rfl⟩ | ⟨_, _, -, -, rfl⟩ | ⟨_, rfl⟩ | h
  · cases hnumber
  · exact ⟨n, Numeral.ofChars?_text_of_scan plain_digitValue hscan⟩
  · cases hnumber
  · cases hnumber
  · exact (terminal_ne_number_of_mem_signs h hnumber).elim

end Token
end Scriptlet
