import Mathlib.Data.List.TakeWhile
import Scriptlet.Proofs.Grammar.Layout
import Scriptlet.Proofs.Grammar.Steps

/-!
# Words

A word is read as a keyword where the grammar lets that keyword follow, and as a name elsewhere.
So being a keyword is no property of a word, but of a word at a place.

* `Token.candidates_word`: what the word at the front of a text can be read as.
* `Token.isWord_of_candidates`: a name is a word, and every keyword of its spelling is preferred.
* `Reader.choose?_keyword`, `Reader.choose?_name`: which of them is read.
-/

namespace Scriptlet

variable {cs tail word : List Char}

/-- A letter, an underscore or a dollar sign, and then such characters and ASCII digits. -/
inductive IsWord : List Char → Prop
  | mk {c : Char} {cs : List Char} (hstart : Token.isNameStart c = true)
      (hrest : ∀ d ∈ cs, Token.isNameRest d = true) : IsWord (c :: cs)

/-- A word in front of the text ends there. -/
def EndsWord (cs : List Char) : Prop := ∀ c ∈ cs.head?, Token.isNameRest c = false

theorem endsWord_cons {c : Char} (h : Token.isNameRest c = false) (cs : List Char) :
    EndsWord (c :: cs) := by
  intro d hd
  cases hd
  exact h

namespace Token

theorem toNat_of_isNameStart {c : Char} (h : isNameStart c = true) :
    (65 ≤ c.toNat ∧ c.toNat ≤ 90) ∨ (97 ≤ c.toNat ∧ c.toNat ≤ 122) ∨ c.toNat = 95 ∨
      c.toNat = 36 := by
  have h : (c.isUpper || c.isLower || decide (c = '_') || decide (c = '$')) = true := h
  simp only [Bool.or_eq_true, decide_eq_true_eq] at h
  rcases h with ((hupper | hlower) | rfl) | rfl
  · obtain ⟨hle, hle'⟩ : 'A'.val ≤ c.val ∧ c.val ≤ 'Z'.val := of_decide_eq_true hupper
    exact Or.inl ⟨hle, hle'⟩
  · obtain ⟨hle, hle'⟩ := Bool.and_eq_true_iff.mp hlower
    exact Or.inr (Or.inl ⟨of_decide_eq_true hle, of_decide_eq_true hle'⟩)
  · exact Or.inr (Or.inr (Or.inl rfl))
  · exact Or.inr (Or.inr (Or.inr rfl))

/-- No word begins with layout. -/
theorem splitLayout_word (h : IsWord word) (tail : List Char) :
    (splitLayout (word ++ tail)).2 = word ++ tail := by
  obtain ⟨hstart, -⟩ := h
  rename_i c cs
  have hcode := toNat_of_isNameStart hstart
  have hslash : c ≠ '/' := by
    rintro rfl
    cases hstart
  exact splitLayout_of_toNat hslash (by omega) (cs ++ tail)

/-- What starts a word starts neither a string nor a number. -/
theorem scan_of_isNameStart {c : Char} (h : isNameStart c = true) (cs : List Char) :
    scanString (c :: cs) = none ∧ scanNumber (c :: cs) = none := by
  have hcode := toNat_of_isNameStart h
  have hne {d : Char} (hd : d.toNat = 34 ∨ d.toNat = 39 ∨ d.toNat = 46) : c ≠ d := by
    rintro rfl
    omega
  constructor
  · rw [scanString, if_neg]
    rintro (hquote | hquote)
    · exact hne (Or.inl rfl) hquote
    · exact hne (Or.inr (Or.inl rfl)) hquote
  · have hdigit : Text.digitValue c = none := by
      rw [Text.digitValue_eq_asciiDigit (by omega), Numeral.asciiDigit, if_neg]
      rintro ⟨hle, hle'⟩
      have hlower : 48 ≤ c.toNat := hle
      have hupper : c.toNat ≤ 57 := hle'
      omega
    rw [scanNumber, Numeral.scan_eq_none hdigit (hne (Or.inr (Or.inr rfl)))]
    rfl

theorem terminal_ne_name_of_mem_keywordsOf {t : Token} (h : t ∈ keywordsOf word) :
    t.terminal ≠ .name := by
  obtain ⟨k, -, rfl⟩ := List.mem_map.mp h
  exact nofun

/-- **What a word can be read as**: the keyword that it is, and then a name. -/
theorem candidates_word (hword : IsWord word) (htail : EndsWord tail) :
    ∃ others, candidates (word ++ tail) = keywordsOf word ++ ⟨.name, word⟩ :: others := by
  obtain ⟨hstart, hrest⟩ := hword
  rename_i c cs
  obtain ⟨hstring, hnumber⟩ := scan_of_isNameStart hstart (cs ++ tail)
  have htake : (cs ++ tail).takeWhile isNameRest = cs := by
    rw [List.takeWhile_append_of_pos hrest]
    cases tail with
    | nil => rw [List.takeWhile_nil, List.append_nil]
    | cons d tail =>
      have hd := htail d rfl
      rw [List.takeWhile_cons_of_neg (Bool.eq_false_iff.mp hd), List.append_nil]
  refine ⟨keywordsBefore (c :: (cs ++ tail)) ++ scanSign (c :: (cs ++ tail)), ?_⟩
  rw [List.cons_append, candidates, hstring, hnumber, scanWord, if_pos hstart]
  dsimp only
  rw [htake]
  simp

theorem terminal_ne_name_of_mem_signs {t : Token} (h : t ∈ signs) : t.terminal ≠ .name := by
  revert t
  decide

/-- Only a text that begins with the word can be read as a name. -/
theorem exists_tail_of_name_mem_candidates (h : ⟨.name, word⟩ ∈ candidates cs) :
    IsWord word ∧ ∃ tail, cs = word ++ tail ∧ EndsWord tail := by
  rcases mem_candidates_cases h with
    ⟨_, _, -, heq⟩ | ⟨_, _, -, heq⟩ | ⟨first, rest, hstart, rfl, heq⟩ | ⟨_, heq⟩ | hsign
  · cases heq
  · cases heq
  · cases heq
    refine ⟨.mk hstart fun _ => List.mem_takeWhile_imp, rest.dropWhile isNameRest, ?_, ?_⟩
    · rw [List.cons_append, List.takeWhile_append_dropWhile]
    · intro d hd
      have hnot := List.head?_dropWhile_not isNameRest rest
      rw [hd] at hnot
      exact hnot
  · cases heq
  · exact absurd rfl (terminal_ne_name_of_mem_signs hsign)

/-- **A name is a word, and the keywords of its spelling are preferred to it.** -/
theorem isWord_of_candidates {skipped rest : List Token}
    (h : candidates cs = skipped ++ ⟨.name, word⟩ :: rest) :
    IsWord word ∧ keywordsOf word ⊆ skipped := by
  have hmem : ⟨.name, word⟩ ∈ candidates cs := h ▸ List.mem_append_right _ (List.mem_cons_self ..)
  obtain ⟨hword, tail, rfl, htail⟩ := exists_tail_of_name_mem_candidates hmem
  obtain ⟨others, hothers⟩ := candidates_word hword htail
  refine ⟨hword, ?_⟩
  rw [hothers] at h
  rcases List.append_eq_append_iff.mp h with ⟨between, rfl, -⟩ | ⟨between, hkeywords, htokens⟩
  · exact List.subset_append_left _ _
  · cases between with
    | nil =>
      rw [hkeywords, List.append_nil]
      exact List.Subset.refl _
    | cons t between =>
      -- the name would stand among the keywords
      obtain ⟨rfl, -⟩ := List.cons.inj htokens
      have hname : ⟨.name, word⟩ ∈ keywordsOf word :=
        hkeywords ▸ List.mem_append_right _ (List.mem_cons_self ..)
      exact absurd rfl (terminal_ne_name_of_mem_keywordsOf hname)

/-- A word that is read is read as a name or as the keyword that it is. -/
theorem terminal_of_isWord {t : Token} (h : t ∈ candidates cs) (hword : IsWord t.lexeme) :
    t.terminal = .name ∨ ∃ k, t = .of (.keyword k) := by
  rcases mem_candidates_cases h with
    ⟨quote, _, hquote, rfl⟩ | ⟨n, rest, hscan, rfl⟩ | ⟨_, _, -, -, rfl⟩ | ⟨k, rfl⟩ | hsign
  · obtain ⟨hstart, -⟩ := hword
    rcases hquote with rfl | rfl <;> cases hstart
  · have htext := Numeral.text_scan hscan
    generalize n.text = text at *
    obtain ⟨hstart, -⟩ := hword
    rename_i word
    have hnone := (scan_of_isNameStart hstart (word ++ rest)).2
    rw [← List.cons_append, htext, scanNumber, hscan] at hnone
    cases hnone
  · exact Or.inl rfl
  · exact Or.inr ⟨k, rfl⟩
  · have hall : ∀ t ∈ signs, t.lexeme.head?.any isNameStart = false := by decide
    have hnone := hall t hsign
    generalize t.lexeme = lexeme at *
    obtain ⟨hstart, -⟩ := hword
    rw [List.head?_cons, Option.any_some, hstart] at hnone
    cases hnone

end Token

theorem Keyword.isWord (k : Keyword) : IsWord k.spelling.toList := by
  cases k <;> exact .mk rfl (List.all_eq_true.mp rfl)

theorem Keyword.spelling_injective {k k' : Keyword} (h : k.spelling = k'.spelling) : k = k' := by
  cases k <;> cases k' <;> first | rfl | exact absurd h (by decide)

namespace Reader

variable [CharacterNames] {r : Reader}

/-- A keyword is preferred to a name where it is accepted. -/
theorem choose?_keyword (k : Keyword) (htail : EndsWord tail)
    (haccepts : r.accepts (.keyword k) = true) :
    r.choose? (k.spelling.toList ++ tail) = some (.of (.keyword k)) := by
  obtain ⟨others, hothers⟩ := Token.candidates_word k.isWord htail
  refine choose?_of_head? ?_ haccepts
  rw [hothers]
  cases k <;> rfl

/-- **A word is a name unless it is a keyword that is accepted.** -/
theorem choose?_name (hword : IsWord word) (htail : EndsWord tail)
    (haccepts : r.accepts .name = true)
    (hkeyword : ∀ k : Keyword, k.spelling.toList = word → r.accepts (.keyword k) = false) :
    r.choose? (word ++ tail) = some ⟨.name, word⟩ := by
  obtain ⟨others, hothers⟩ := Token.candidates_word hword htail
  have hnone : (Token.keywordsOf word).find? (fun t => r.accepts t.terminal) = none := by
    refine List.find?_eq_none.mpr fun t ht => ?_
    obtain ⟨k, hk, rfl⟩ := List.mem_map.mp ht
    rw [hkeyword k (of_decide_eq_true (List.mem_filter.mp hk).2)]
    exact Bool.false_ne_true
  rw [choose?, hothers, List.find?_append, hnone, Option.none_or, List.find?_cons]
  dsimp only
  rw [haccepts]

end Reader

end Scriptlet
