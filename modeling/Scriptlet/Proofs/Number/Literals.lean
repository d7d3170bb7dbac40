import Scriptlet.Proofs.Grammar.Layout
import Scriptlet.Proofs.Grammar.Steps
import Scriptlet.Proofs.Number.Text
import Scriptlet.Proofs.Walk

/-!
# Number literals and texts of numbers

A number in a program and the same number in a string are read by different rules.  A program may
write it with the decimal digits of every script, and a conversion takes those of ASCII only.  So
the two readings agree just if the number is written in ASCII, and otherwise the conversion finds
no number at all.

* `IsNumberText`: the texts that a program reads as one number.
* `isNumberText_iff`: these are the numerals with the digits of every script.
* `ofText_of_numeral`: what such a text converts to.
* `literals_agree_in_ascii`: **literals and conversions agree just in ASCII.**
-/

namespace Scriptlet

namespace Number

open Numeral (asciiDigit)

/-- The text consists of ASCII characters. -/
def IsAscii (cs : List Char) : Bool := cs.all fun c => decide (c.toNat < 128)

/-- The text is read as one number: in front of a semicolon it is a number token. -/
def IsNumberText (t : String) : Prop :=
  Lexes [] (t ++ ";").toList [⟨.number, t.toList⟩, .of .semicolon]

variable {n : Numeral} {t : String} {cs tail : List Char}

/-! ## Numerals in programs -/

/-- The digits that are not ASCII lie apart from the blanks. -/
theorem zeros_spec : ∀ z ∈ Text.zeros, z = 0x30 ∨ 0x660 ≤ z ∧ (z + 10 ≤ 0x1680 ∨ 0x1681 ≤ z) ∧
    (z + 10 ≤ 0x2000 ∨ 0x2060 ≤ z) ∧ (z + 10 ≤ 0x3000 ∨ 0x3001 ≤ z) := by
  decide

/-- Where the digits of numerals are. -/
theorem toNat_of_digitValue {c : Char} (h : (Text.digitValue c).isSome = true) :
    (48 ≤ c.toNat ∧ c.toNat ≤ 57) ∨ (0x660 ≤ c.toNat ∧ Text.isBlank c = false) := by
  obtain ⟨d, hd⟩ := Option.isSome_iff_exists.mp h
  obtain ⟨z, hz, -⟩ := Option.map_eq_some_iff.mp hd
  have hfound := List.find?_some hz
  have hrange : z ≤ c.toNat ∧ c.toNat < z + 10 := of_decide_eq_true hfound
  have hspec := zeros_spec z (List.mem_of_find?_eq_some hz)
  rcases hspec with rfl | ⟨hlarge, hspec⟩
  · exact Or.inl ⟨hrange.1, by omega⟩
  · exact Or.inr ⟨by omega, decide_eq_false (by omega)⟩

/-- Where the characters of numerals are: digits, and the marks. -/
theorem toNat_of_isWritten (h : n.IsWritten Text.digitValue) : ∀ c ∈ n.text,
    (43 ≤ c.toNat ∧ c.toNat ≤ 46) ∨ (48 ≤ c.toNat ∧ c.toNat ≤ 57) ∨ c.toNat = 69 ∨
      c.toNat = 101 ∨ (0x660 ≤ c.toNat ∧ Text.isBlank c = false) := by
  refine h.forall_mem_text (fun c hc => ?_) (by simp)
  rcases toNat_of_digitValue hc with hascii | hother
  · exact Or.inr (Or.inl hascii)
  · exact Or.inr (Or.inr (Or.inr (Or.inr hother)))

theorem ne_of_toNat_ne {c d : Char} (h : c.toNat ≠ d.toNat) : c ≠ d := fun heq => h (heq ▸ rfl)

/-- No character of a numeral has a meaning in a string. -/
theorem isPlainInside_of_isWritten (h : n.IsWritten Text.digitValue) :
    ∀ c ∈ n.text, Reader.IsPlainInside c := by
  intro c hc
  have hcode := toNat_of_isWritten h c hc
  have hne {d : Char} (hd : d.toNat = 34 ∨ d.toNat = 92 ∨ d.toNat ≤ 13) : c ≠ d :=
    ne_of_toNat_ne (by omega)
  exact ⟨hne (by decide), hne (by decide), hne (by decide), hne (by decide), hne (by decide)⟩

theorem isBlank_of_isWritten_digitValue (h : n.IsWritten Text.digitValue) :
    ∀ c ∈ n.text, Text.isBlank c = false := by
  intro c hc
  rcases toNat_of_isWritten h c hc with hcode | hcode | hcode | hcode | ⟨-, hblank⟩
  · exact decide_eq_false (by omega)
  · exact decide_eq_false (by omega)
  · exact decide_eq_false (by omega)
  · exact decide_eq_false (by omega)
  · exact hblank

/-- There is no layout in front of a numeral. -/
theorem splitLayout_numeral (h : n.IsWritten Text.digitValue) (tail : List Char) :
    (Token.splitLayout (n.text ++ tail)).2 = n.text ++ tail := by
  have hcode := toNat_of_isWritten h
  cases htext : n.text with
  | nil => exact absurd htext (Numeral.text_ne_nil_of_scan (h.scan_text Token.plain_digitValue))
  | cons c cs =>
    have hc := hcode c (htext ▸ List.mem_cons_self ..)
    have hslash : c.toNat ≠ 47 := by omega
    exact splitLayout_of_toNat (ne_of_toNat_ne hslash) (by omega) (cs ++ tail)

theorem ends_of_toNat {c : Char} (hdigit : Text.digitValue c = none)
    (h : c.toNat ≠ 46 ∧ c.toNat ≠ 69 ∧ c.toNat ≠ 101) :
    Numeral.Ends Text.digitValue (c :: tail) where
  noDigit := Numeral.noDigit_cons hdigit tail
  no_point := fun heq => h.1 (congrArg Char.toNat (Option.some.inj heq))
  no_lower := fun heq => h.2.2 (congrArg Char.toNat (Option.some.inj heq))
  no_upper := fun heq => h.2.1 (congrArg Char.toNat (Option.some.inj heq))

/-- The statement that is a numeral. -/
theorem scans_numeral [CharacterNames] (h : n.IsWritten Text.digitValue) :
    Scans .start (n.text ++ [';']) [⟨.number, n.text⟩, .of .semicolon]
      [.expression (.literal (.number (Token.numberOf n.text)))] := by
  refine Scans.token (splitLayout_numeral h _)
    (Reader.choose?_number h (ends_of_toNat (by decide) (by decide)) rfl) rfl ?_
  refine Scans.token (splitLayout_of_ne (by decide) (by decide) []) rfl rfl ?_
  exact Scans.done splitLayout_nil rfl

/-- **The texts that a program reads as one number** are the numerals with the digits of every
script. -/
theorem isNumberText_iff :
    IsNumberText t ↔ ∃ n : Numeral, n.IsWritten Text.digitValue ∧ n.text = t.toList := by
  constructor
  · intro h
    obtain ⟨cs, hcs⟩ := h.mem_candidates _ (List.mem_cons_self ..)
    obtain ⟨n, hn⟩ := Token.numeral_of_mem_candidates hcs rfl
    exact ⟨n, (Numeral.ofChars?_eq_some_iff Token.plain_digitValue).mp hn⟩
  · rintro ⟨n, hn, htext⟩
    rw [IsNumberText, String.toList_append, ← htext]
    -- no name is looked up for the tokens, so any table will do
    let _ := CharacterNames.empty
    exact (scans_numeral hn).lexes

/-- The statement that compares a numeral with its text. -/
theorem scans_comparison [CharacterNames] (h : n.IsWritten Text.digitValue) :
    Scans .start (n.text ++ (" == \"".toList ++ (n.text ++ "\";".toList)))
      [⟨.number, n.text⟩, ⟨.operator .equality, "==".toList⟩, ⟨.string, '"' :: n.text ++ ['"']⟩,
        .of .semicolon]
      [.expression (.binary (.string "==") (.literal (.number (Token.numberOf n.text)))
        (.literal (.string (String.ofList n.text))))] := by
  have htext : Token.textOf ('"' :: n.text ++ ['"']) = .plain (String.ofList n.text) := by
    rw [Token.textOf, Reader.decode_of_plain (isPlainInside_of_isWritten h)]
    rfl
  rw [← htext]
  refine Scans.token (splitLayout_numeral h _)
    (Reader.choose?_number h (ends_of_toNat (by decide) (by decide)) rfl) rfl ?_
  have hoperator : (Token.splitLayout (" == \"".toList ++ (n.text ++ "\";".toList))).2 =
      "==".toList ++ ' ' :: '"' :: (n.text ++ ['"', ';']) :=
    (splitLayout_blank _).trans (splitLayout_of_ne (by decide) (by decide) _)
  have hstring : (Token.splitLayout (' ' :: '"' :: (n.text ++ ['"', ';']))).2 =
      '"' :: n.text ++ ['"'] ++ [';'] := by
    rw [List.append_assoc]
    exact (splitLayout_blank _).trans (splitLayout_of_ne (by decide) (by decide) _)
  refine Scans.token hoperator rfl rfl ?_
  refine Scans.token hstring
    (Reader.choose?_string (isPlainInside_of_isWritten h) [';'] rfl) rfl ?_
  refine Scans.token (splitLayout_of_ne (by decide) (by decide) []) rfl rfl ?_
  exact Scans.done splitLayout_nil rfl

/-! ## Conversions -/

theorem isAscii_iff : IsAscii cs = true ↔ ∀ c ∈ cs, c.toNat < 128 := by
  rw [IsAscii, List.all_eq_true]
  simp only [decide_eq_true_eq]

/-- A decimal or an infinity is written in ASCII. -/
theorem isAscii_of_ofDecimalText? {x : Float} (h : ofDecimalText? cs = some x) :
    IsAscii cs = true := by
  obtain ⟨sign, negative, magnitude, hsign, rfl, hmagnitude⟩ := ofDecimalText?_eq_some_iff.mp h
  rw [isAscii_iff, List.forall_mem_append]
  constructor
  · cases hsign with
    | none => exact nofun
    | plus | minus => simp
  · rcases hmagnitude with ⟨q, hdecimal, -⟩ | ⟨rfl, -⟩
    · obtain ⟨m, hm, -⟩ := isDecimal_iff.mp hdecimal
      obtain ⟨hwritten, rfl⟩ := (Numeral.ofChars?_eq_some_iff plain_asciiDigit).mp hm
      refine hwritten.forall_mem_text (fun c hc => ?_) (by simp)
      unfold asciiDigit at hc
      split at hc
      · rename_i hrange
        have hupper : c.toNat ≤ 57 := hrange.2
        omega
      · cases hc
    · exact isAscii_iff.mp (by decide)

theorem IsMarked.exists_isMark {k : ℕ} (h : IsMarked cs k) :
    ∃ mark base, IsMark mark base ∧ mark ∈ cs := by
  cases h with
  | once hmark => exact ⟨_, _, hmark, List.mem_cons_of_mem _ (List.mem_cons_self ..)⟩
  | twice hmark => exact ⟨_, _, hmark, List.mem_cons_of_mem _ (List.mem_cons_self ..)⟩

theorem IsMark.toNat_mem {mark : Char} {base : ℕ} (h : IsMark mark base) :
    mark.toNat ∈ [120, 88, 111, 79, 98, 66] := by
  cases h with
  | hexadecimal h | octal h | binary h => rcases h with rfl | rfl <;> decide

/-- The letter of a base stands in no numeral. -/
theorem ofMarkedText?_numeral (h : n.IsWritten Text.digitValue) : ofMarkedText? n.text = none := by
  cases hmarked : ofMarkedText? n.text with
  | none => rfl
  | some k =>
    obtain ⟨mark, base, hmark, hmem⟩ := (ofMarkedText?_eq_some_iff.mp hmarked).exists_isMark
    have hcode := toNat_of_isWritten h mark hmem
    have hletter := hmark.toNat_mem
    simp only [List.mem_cons, List.not_mem_nil, or_false] at hletter
    omega

/-- **What a numeral converts to**: in ASCII its value, and no number otherwise. -/
theorem ofText_of_numeral (h : n.IsWritten Text.digitValue) (htext : n.text = t.toList) :
    ofText t = .ok (if IsAscii t.toList then (n.toDecimal Text.digitValue).toFloat
      else Binary64.nan) := by
  have hblank := isBlank_of_isWritten_digitValue h
  have ht : t = String.ofList n.text := by rw [htext, String.ofList_toList]
  rw [← htext, ht]
  by_cases hascii : IsAscii n.text = true
  · obtain ⟨hwritten, hdecimal⟩ := h.congr fun c hc =>
      Text.digitValue_eq_asciiDigit ((isAscii_iff.mp hascii c hc).trans (by decide))
    rw [if_pos hascii, hdecimal]
    refine ofText_of_decimal hblank (ofDecimalText?_eq_some_iff.mpr
      ⟨[], false, n.text, .none, rfl, Or.inl ⟨_, ?_, Decimal.rounds_toFloat _⟩⟩)
    exact isDecimal_iff.mpr
      ⟨n, (Numeral.ofChars?_eq_some_iff plain_asciiDigit).mpr ⟨hwritten, rfl⟩, rfl⟩
  · have hdecimal : ofDecimalText? n.text = none := by
      cases hx : ofDecimalText? n.text with
      | none => rfl
      | some x => exact absurd (isAscii_of_ofDecimalText? hx) hascii
    have hne : n.text.isEmpty = false := List.isEmpty_eq_false_iff.mpr
      (Numeral.text_ne_nil_of_scan (h.scan_text Token.plain_digitValue))
    rw [if_neg hascii]
    unfold ofText
    dsimp only
    rw [String.toList_ofList, Text.trim_eq_self hblank, hne, hdecimal, ofMarkedText?_numeral h]
    rfl

end Number

/-! ## Running -/

section Run

variable {bound : ℕ} {scope : ScopeId} {value : Value} {a b : Value} {operator : Json}

theorem applyOperator_of_operate (h : Value.operate operator a b = .ok value)
    (hline : (operatorLine operator a b value).IsPlain) (w : World) :
    ∃ w', applyOperator operator a b w = .ok value w' := by
  obtain ⟨w', hw'⟩ := exists_tell_eq_ok 3 (fun _ => operatorLine operator a b value) hline w
  refine ⟨w', ?_⟩
  unfold applyOperator
  rw [h]
  simp only [bind, EStateM.bind, hw']
  rfl

/-- A program that is one expression has its value, if that can be told. -/
theorem run_expression {body : Node} (hvalue : value.display.IsPlain)
    (h : ∀ w, ∃ w', evaluate (bound + 2) body scope w = .ok value w') (w : World) :
    ∃ w', run (bound + 3) [.expression body] scope w = .ok value w' := by
  obtain ⟨w₁, hw₁⟩ := exists_tell_eq_ok 1
    (fun _ => "run program with " ++ toString [Node.expression body].length ++ " statements")
    (Text.isPlain_plain _) w.opened
  obtain ⟨w₂, hw₂⟩ := h w₁
  obtain ⟨w₃, hw₃⟩ := exists_tell_eq_ok 1 (fun _ => "program finished -> " ++ value.display)
    (Text.isPlain_append.mpr ⟨Text.isPlain_plain _, hvalue⟩) { w₂ with latest := value }
  refine ⟨{ w₃ with tracing := false }, ?_⟩
  rw [run_eq]
  unfold closingTrace runBody
  rw [executeProgram_expression]
  simp only [bind, EStateM.bind, hw₁, hw₂, modify, modifyGet, MonadStateOf.modifyGet,
    EStateM.modifyGet, executeProgram, pure, EStateM.pure, hw₃]

end Run

namespace Number

variable {t : String}

/-- A number that is written is a number. -/
theorem isNaN_numberOf (cs : List Char) : (Token.numberOf cs).isNaN = false :=
  Bool.eq_false_iff.mpr fun hnan => absurd (Binary64.isNaN_iff.mp hnan)
    (Nat.not_lt.mpr (Decimal.rounds_toFloat _).isNearest.le_infinityBits)

/-- A text of a number converts to what a program takes it for, if it is ASCII. -/
theorem ofText_of_isNumberText (h : IsNumberText t) :
    ofText t = .ok (if IsAscii t.toList then Token.numberOf t.toList else Binary64.nan) := by
  obtain ⟨n, hn, htext⟩ := isNumberText_iff.mp h
  have hchars : Numeral.ofChars? Text.digitValue t.toList = some n :=
    (Numeral.ofChars?_eq_some_iff Token.plain_digitValue).mpr ⟨hn, htext⟩
  rw [ofText_of_numeral hn htext, Token.numberOf, hchars]
  rfl

theorem parse_numeral [CharacterNames] (h : IsNumberText t) :
    parse (t ++ ";") = .ok [.expression (.literal (.number (Token.numberOf t.toList)))] := by
  obtain ⟨n, hn, htext⟩ := isNumberText_iff.mp h
  have hscans := scans_numeral hn
  rw [htext] at hscans
  refine hscans.parse_eq_ok String.toList_append ?_
  simp only [List.forall_mem_cons]
  exact ⟨rfl, rfl, nofun⟩

theorem parse_comparison [CharacterNames] (h : IsNumberText t) :
    parse (t ++ " == \"" ++ t ++ "\";") = .ok [.expression (.binary (.string "==")
      (.literal (.number (Token.numberOf t.toList))) (.literal (.string t)))] := by
  obtain ⟨n, hn, htext⟩ := isNumberText_iff.mp h
  have hscans := scans_comparison hn
  have hdecode := Reader.decode_of_plain (isPlainInside_of_isWritten hn)
  rw [htext] at hscans hdecode
  rw [String.ofList_toList] at hscans
  refine hscans.parse_eq_ok ?_ ?_
  · simp only [String.toList_append, List.append_assoc]
  · simp only [List.forall_mem_cons]
    refine ⟨rfl, rfl, ?_, rfl, nofun⟩
    rw [Token.isMalformed, hdecode]
    rfl

/-- A number that a program writes is loosely equal to its text just if it is ASCII. -/
theorem looseEquals_numberOf (h : IsNumberText t) :
    Value.looseEquals (.number (Token.numberOf t.toList)) (.string t) =
      .ok (IsAscii t.toList) := by
  have hcompared : Value.ByNumber (.number (Token.numberOf t.toList)) (.string t) :=
    Or.inl ⟨trivial, trivial⟩
  refine (Value.looseEquals_eq_ok_of_byNumber hcompared).mpr
    ⟨_, _, rfl, ofText_of_isNumberText h, ?_⟩
  have hnumber := isNaN_numberOf t.toList
  cases hascii : IsAscii t.toList with
  | true =>
    rw [if_pos rfl]
    exact Binary64.beq_iff.mpr (Binary64.equal_self hnumber)
  | false =>
    have hnan : Binary64.nan.isNaN = true := by decide +kernel
    rw [if_neg Bool.false_ne_true, Bool.eq_false_iff]
    exact fun hequal => Bool.false_ne_true ((Binary64.beq_iff.mp hequal).2.1.symm.trans hnan)

/-- The program that compares a number with its text finds them equal just in ASCII. -/
theorem run_comparison [CharacterNames] (h : IsNumberText t) :
    ∃ body, parse (t ++ " == \"" ++ t ++ "\";") = .ok body ∧
      ∀ bound scope w, ∃ w',
        run (bound + 3) body scope w = .ok (.boolean (IsAscii t.toList)) w' := by
  have hvalue : (Value.display (.boolean (IsAscii t.toList))).IsPlain := Text.isPlain_plain _
  have hline : (operatorLine (.string "==") (.number (Token.numberOf t.toList)) (.string t)
      (.boolean (IsAscii t.toList))).IsPlain := Text.isPlain_plain _
  refine ⟨_, parse_comparison h, fun bound scope w => run_expression hvalue (fun w => ?_) w⟩
  rw [evaluate_binary, evaluate_literal, evaluate_literal]
  refine applyOperator_of_operate ?_ hline w
  show (Value.looseEquals (.number _) (.string t)).map Value.boolean = _
  rw [looseEquals_numberOf h]
  rfl

theorem nan_ne_numberOf (cs : List Char) : Binary64.nan ≠ Token.numberOf cs := by
  intro heq
  have hnan : Binary64.nan.isNaN = true := by decide +kernel
  rw [heq, isNaN_numberOf] at hnan
  cases hnan

/-- **Literals and conversions agree just in ASCII.**  A text that a program reads as one number
stands for that number in the program.  Converted from a string it is the same number if it is
ASCII, and no number if there are digits of other scripts in it; so that is when the program which
compares the two finds them equal. -/
theorem literals_agree_in_ascii [CharacterNames] (h : IsNumberText t) :
    parse (t ++ ";") = .ok [.expression (.literal (.number (Token.numberOf t.toList)))] ∧
    ofText t = .ok (if IsAscii t.toList then Token.numberOf t.toList else Binary64.nan) ∧
    (ofText t = .ok (Token.numberOf t.toList) ↔ IsAscii t.toList = true) ∧
    ∃ body, parse (t ++ " == \"" ++ t ++ "\";") = .ok body ∧
      ∀ bound scope w, ∃ w',
        run (bound + 3) body scope w = .ok (.boolean (IsAscii t.toList)) w' := by
  have hconverted := ofText_of_isNumberText h
  refine ⟨parse_numeral h, hconverted, ?_, run_comparison h⟩
  rw [hconverted]
  constructor
  · intro hsame
    by_contra hascii
    rw [if_neg hascii] at hsame
    exact nan_ne_numberOf _ (Except.ok.inj hsame)
  · intro hascii
    rw [if_pos hascii]

theorem isNumberText_of_ofChars? {n : Numeral}
    (h : Numeral.ofChars? Text.digitValue t.toList = some n) : IsNumberText t :=
  isNumberText_iff.mpr ⟨n, (Numeral.ofChars?_eq_some_iff Token.plain_digitValue).mp h⟩

/-- A literal beyond all doubles is infinite, and so is its text. -/
theorem literals_agree_at_overflow :
    IsNumberText "1e400" ∧
    ofText "1e400" = .ok (Token.numberOf "1e400".toList) ∧
    Binary64.magnitudeBits (Token.numberOf "1e400".toList) = Binary64.infinityBits ∧
    ∃ body, @parse .empty "1e400 == \"1e400\";" = .ok body ∧
      ∃ w', run 3 body World.globalScope (World.fresh 0) = .ok (.boolean true) w' := by
  have hnumber : IsNumberText "1e400" := isNumberText_of_ofChars?
    (show _ = some ⟨['1'], false, [], ['e'], ['4', '0', '0']⟩ by decide)
  obtain ⟨-, -, hiff, body, hbody, hruns⟩ := @literals_agree_in_ascii _ .empty hnumber
  exact ⟨hnumber, hiff.mpr rfl, by decide +kernel, body, hbody,
    hruns 0 World.globalScope (World.fresh 0)⟩

/-- An Arabic one is a number in a program, and no number in a string. -/
theorem literals_differ_at_arabic_one :
    IsNumberText "١" ∧
    @parse .empty "١;" = .ok [.expression (.literal (.number (Token.numberOf ['1'])))] ∧
    ofText "١" = .ok Binary64.nan ∧ Binary64.nan ≠ Token.numberOf ['1'] ∧
    ∃ body, @parse .empty "١ == \"١\";" = .ok body ∧
      ∃ w', run 3 body World.globalScope (World.fresh 0) = .ok (.boolean false) w' := by
  have hnumber : IsNumberText "١" := isNumberText_of_ofChars?
    (show _ = some ⟨['١'], false, [], [], []⟩ by decide)
  obtain ⟨body, hbody, hruns⟩ := @run_comparison _ .empty hnumber
  exact ⟨hnumber, @parse_numeral _ .empty hnumber, ofText_of_isNumberText hnumber,
    nan_ne_numberOf _, body, hbody, hruns 0 World.globalScope (World.fresh 0)⟩

end Number

end Scriptlet
