import Scriptlet.Proofs.Grammar.Layout
import Scriptlet.Proofs.Grammar.Words

/-!
# Where tokens end

The token at the front of a text is chosen by looking at the text behind it too: a word goes on to
where no character of a word follows, and a numeral to where it does not go on.  But nothing looks
farther than to the next blank.  So a token that is taken in front of some text is taken in front of
any other that is the same up to a blank.

* `candidates_of_isNameStart`, `candidates_of_mem_signs`: the first character of a text decides what
  sort of token can stand there.
* `lexeme_isPrefix`: the text begins with each of its candidates.
* `preferred p cs`: the first candidate whose terminal is wanted.  `preferred_congr` says that it
  stays the first, one case for each sort of token.
* `Takes`: the token is the first of the candidates that is expected.  `Takes.congr` is the result,
  and `Takes.lexes_cons` puts layout in front of the token.
-/

namespace Scriptlet
namespace Token

variable {c d : Char} {cs rest mid tail body word : List Char} {t : Token} {p : Terminal → Bool}

/-! ## Blanks -/

theorem isLayoutBlank_cases (h : isLayoutBlank d = true) :
    d = ' ' ∨ d = '\t' ∨ d = '\x0c' ∨ d = '\r' ∨ d = '\n' := by
  simpa only [isLayoutBlank, Bool.or_eq_true, decide_eq_true_eq, or_assoc] using h

/-- A blank stands in no numeral. -/
theorem apart_of_isLayoutBlank (h : isLayoutBlank d = true) :
    Numeral.Apart Text.digitValue d := by
  rcases isLayoutBlank_cases h with rfl | rfl | rfl | rfl | rfl <;>
    exact ⟨by decide, by decide⟩

/-- A blank stands in no word. -/
theorem isNameRest_of_isLayoutBlank (h : isLayoutBlank d = true) : isNameRest d = false := by
  rcases isLayoutBlank_cases h with rfl | rfl | rfl | rfl | rfl <;> rfl

/-- A text without the character that begins this text ends before it. -/
theorem isPrefix_of_not_mem {l as bs : List Char} (h : l <+: as ++ d :: bs) (hd : d ∉ l) :
    l <+: as := by
  rcases List.prefix_or_prefix_of_prefix h (List.prefix_append as _) with hshort | ⟨more, rfl⟩
  · exact hshort
  · rw [List.prefix_append_right_inj] at h
    cases more with
    | nil => exact (List.append_nil as).symm ▸ List.prefix_rfl
    | cons e more =>
      obtain ⟨rfl, -⟩ := List.cons_prefix_cons.mp h
      exact absurd (List.mem_append_right as (List.mem_cons_self ..)) hd

/-! ## Strings -/

/-- A string ends with its closing quote, whatever follows. -/
theorem closeString_append {quote : Char} (hquote : quote ≠ '\\')
    (h : closeString quote cs = some body) :
    body <+: cs ∧ ∀ tail, closeString quote (body ++ tail) = some body := by
  fun_induction closeString quote cs generalizing body with
  | case1 => cases h
  | case2 => cases h
  | case3 c cs hline ih =>
    obtain ⟨rest, hrest, rfl⟩ := Option.map_eq_some_iff.mp h
    obtain ⟨hfront, hagain⟩ := ih hrest
    refine ⟨?_, fun tail => ?_⟩
    · rwa [List.cons_prefix_cons, and_iff_right rfl, List.cons_prefix_cons, and_iff_right rfl]
    · rw [List.cons_append, List.cons_append, closeString, if_neg hline, hagain]
      rfl
  | case4 cs =>
    cases h
    refine ⟨List.cons_prefix_cons.mpr ⟨rfl, List.nil_prefix⟩, fun tail => ?_⟩
    rw [List.cons_append, Reader.closeString_cons hquote, if_pos rfl]
  | case5 => cases h
  | case6 c cs _ hne hline ih =>
    obtain ⟨rest, hrest, rfl⟩ := Option.map_eq_some_iff.mp h
    obtain ⟨hfront, hagain⟩ := ih hrest
    obtain ⟨hfeed, hslash⟩ := not_or.mp hline
    refine ⟨List.cons_prefix_cons.mpr ⟨rfl, hfront⟩, fun tail => ?_⟩
    rw [List.cons_append, Reader.closeString_cons hslash, if_neg hne, if_neg hfeed, hagain]
    rfl

theorem scanString_append (h : scanString cs = some t) :
    t.lexeme <+: cs ∧ ∀ tail, scanString (t.lexeme ++ tail) = some t := by
  cases cs with
  | nil => cases h
  | cons c cs =>
    rw [scanString] at h
    split at h
    · rename_i hquote
      obtain ⟨body, hbody, rfl⟩ := Option.map_eq_some_iff.mp h
      have hslash : c ≠ '\\' := by
        rintro rfl
        rcases hquote with heq | heq <;> cases heq
      obtain ⟨hfront, hagain⟩ := closeString_append hslash hbody
      refine ⟨List.cons_prefix_cons.mpr ⟨rfl, hfront⟩, fun tail => ?_⟩
      rw [List.cons_append, scanString, if_pos hquote, hagain]
      rfl
    · cases h

/-! ## What the first character decides -/

/-- Signs begin with no other token. -/
theorem candidates_of_mem_signs (h : t ∈ signs) (tail : List Char) :
    candidates (t.lexeme ++ tail) = scanSign (t.lexeme ++ tail) := by
  have hall : ∀ t ∈ signs, t.lexeme.head?.all (fun c => c != '"' && c != '\'' && c != '.' &&
      (Text.digitValue c).isNone && !isNameStart c) = true := by decide
  have hfirst := hall t h
  cases hlexeme : t.lexeme with
  | nil => exact absurd hlexeme (signs_nonempty t h)
  | cons c lexeme =>
    rw [hlexeme, List.head?_cons, Option.all_some] at hfirst
    simp only [Bool.and_eq_true, bne_iff_ne, Option.isNone_iff_eq_none,
      Bool.not_eq_true'] at hfirst
    obtain ⟨⟨⟨⟨hdouble, hsingle⟩, hpoint⟩, hdigit⟩, hstart⟩ := hfirst
    rw [List.cons_append, candidates, scanString, if_neg (not_or.mpr ⟨hdouble, hsingle⟩),
      scanNumber, Numeral.scan_eq_none hdigit hpoint, scanWord,
      if_neg (Bool.eq_false_iff.mp hstart)]
    rfl

/-- What starts a word starts no other token. -/
theorem candidates_of_isNameStart (h : isNameStart c = true) (cs : List Char) :
    candidates (c :: cs) = scanWord (c :: cs) := by
  obtain ⟨hstring, hnumber⟩ := scan_of_isNameStart h cs
  have hsign : scanSign (c :: cs) = [] := by
    refine List.filter_eq_nil_iff.mpr fun t ht hfront => ?_
    have hall : ∀ t ∈ signs, t.lexeme.head?.any isNameStart = false := by decide
    have hnot := hall t ht
    cases hlexeme : t.lexeme with
    | nil => exact signs_nonempty t ht hlexeme
    | cons e lexeme =>
      rw [hlexeme] at hfront hnot
      obtain ⟨rfl, -⟩ := List.cons_prefix_cons.mp (List.isPrefixOf_iff_prefix.mp hfront)
      rw [List.head?_cons, Option.any_some, h] at hnot
      cases hnot
  rw [candidates, hstring, hnumber, hsign, List.append_nil]
  rfl

/-- A candidate is a string, a number, a word or a sign. -/
theorem mem_candidates_iff :
    t ∈ candidates cs ↔
      scanString cs = some t ∨ scanNumber cs = some t ∨ t ∈ scanWord cs ∨ t ∈ scanSign cs := by
  simp only [candidates, List.mem_append, Option.mem_toList, or_assoc]

theorem mem_scanWord_iff (h : isNameStart c = true) :
    t ∈ scanWord (c :: cs) ↔ t ∈ keywordsOf (c :: cs.takeWhile isNameRest) ∨
      t = ⟨.name, c :: cs.takeWhile isNameRest⟩ ∨ t ∈ keywordsBefore (c :: cs) := by
  rw [scanWord, if_pos h, List.mem_append, List.mem_cons]

theorem exists_isNameStart_of_mem_scanWord (h : t ∈ scanWord cs) :
    ∃ c others, cs = c :: others ∧ isNameStart c = true := by
  cases cs with
  | nil => cases h
  | cons c others =>
    refine ⟨c, others, rfl, ?_⟩
    by_contra hnot
    rw [scanWord, if_neg hnot] at h
    cases h

/-- What is read as a word is a name or a keyword. -/
theorem terminal_of_mem_scanWord (h : t ∈ scanWord cs) :
    t.terminal = .name ∨ ∃ k, t = .of (.keyword k) := by
  obtain ⟨c, others, rfl, hstart⟩ := exists_isNameStart_of_mem_scanWord h
  rcases (mem_scanWord_iff hstart).mp h with hkeyword | rfl | hkeyword
  · obtain ⟨k, hk, rfl⟩ := List.mem_map.mp hkeyword
    have hspelling := of_decide_eq_true (List.mem_filter.mp hk).2
    exact Or.inr ⟨k, congrArg (Token.mk _) hspelling.symm⟩
  · exact Or.inl rfl
  · obtain ⟨k, -, rfl⟩ := List.mem_map.mp hkeyword
    exact Or.inr ⟨k, rfl⟩

/-- **The text begins with each of its candidates.** -/
theorem lexeme_isPrefix (h : t ∈ candidates cs) : t.lexeme <+: cs := by
  rcases mem_candidates_iff.mp h with hstring | hnumber | hword | hsign
  · exact (scanString_append hstring).1
  · obtain ⟨⟨n, rest⟩, hscan, rfl⟩ := Option.map_eq_some_iff.mp hnumber
    exact ⟨rest, Numeral.text_scan hscan⟩
  · obtain ⟨c, others, rfl, hstart⟩ := exists_isNameStart_of_mem_scanWord hword
    have hwhole : c :: others.takeWhile isNameRest <+: c :: others :=
      List.cons_prefix_cons.mpr ⟨rfl, List.takeWhile_prefix _⟩
    rcases (mem_scanWord_iff hstart).mp hword with hkeyword | rfl | hkeyword
    · obtain ⟨k, -, rfl⟩ := List.mem_map.mp hkeyword
      exact hwhole
    · exact hwhole
    · obtain ⟨k, hk, rfl⟩ := List.mem_map.mp hkeyword
      exact List.isPrefixOf_iff_prefix.mp (List.mem_filter.mp hk).2
  · exact List.isPrefixOf_iff_prefix.mp (List.mem_filter.mp hsign).2

/-- No candidate begins like a comment. -/
theorem not_isPrefix_of_mem_candidates (h : t ∈ candidates cs) : ¬ ['/', '*'] <+: t.lexeme := by
  rcases mem_candidates_cases h with
    ⟨quote, body, hquote, rfl⟩ | ⟨n, rest, hscan, rfl⟩ | ⟨c, rest, hstart, -, rfl⟩ | ⟨k, rfl⟩ |
      hsign
  · intro hfront
    obtain ⟨rfl, -⟩ := List.cons_prefix_cons.mp hfront
    rcases hquote with heq | heq <;> cases heq
  · intro hfront
    have hslash : ∀ c ∈ n.text, c ≠ '/' := by
      refine (Numeral.isWritten_of_scan hscan).forall_mem_text (fun c hc => ?_) (by simp)
      rintro rfl
      cases hc
    exact hslash '/' (hfront.subset (List.mem_cons_self ..)) rfl
  · intro hfront
    obtain ⟨rfl, -⟩ := List.cons_prefix_cons.mp hfront
    cases hstart
  · cases k <;> decide
  · have hall : ∀ t ∈ signs, ¬ ['/', '*'] <+: t.lexeme := by decide
    exact hall t hsign

/-! ## How far a choice is seen -/

/-- If fewer members have a property and the first that had it is among them, then it stays the
first. -/
theorem find?_eq_some_of_imp {α : Type} {p q : α → Bool} {l : List α} {a : α}
    (h : l.find? p = some a) (himp : ∀ x ∈ l, q x = true → p x = true) (ha : q a = true) :
    l.find? q = some a := by
  obtain ⟨-, as, bs, rfl, has⟩ := List.find?_eq_some_iff_append.mp h
  refine List.find?_eq_some_iff_append.mpr ⟨ha, as, bs, rfl, fun x hx => ?_⟩
  have hnot := has x hx
  rw [Bool.not_eq_true'] at hnot ⊢
  exact Bool.eq_false_iff.mpr fun hq =>
    Bool.eq_false_iff.mp hnot (himp x (List.mem_append_left _ hx) hq)

/-- Of two keywords that a text starts with, none goes on where the other ends. -/
theorem keyword_eq_of_isPrefix {k k' : Keyword} (h : k.spelling.toList <+: cs)
    (h' : k'.spelling.toList <+: cs) : k = k' := by
  have hall : ∀ k k' : Keyword, k.spelling.toList <+: k'.spelling.toList → k = k' := by
    intro k k'
    cases k <;> cases k' <;> decide
  rcases List.prefix_or_prefix_of_prefix h h' with hle | hle
  · exact hall k k' hle
  · exact (hall k' k hle).symm

/-- The first candidate whose terminal is wanted. -/
def preferred (p : Terminal → Bool) (cs : List Char) : Option Token :=
  (candidates cs).find? fun t => p t.terminal

theorem wanted_of_preferred (h : preferred p cs = some t) : p t.terminal = true :=
  List.find?_some (p := fun t : Token => p t.terminal) h

/-- A text that begins with a keyword can be read as no other keyword. -/
theorem eq_of_keyword_mem_candidates {k k' : Keyword}
    (h : Token.of (.keyword k') ∈ candidates cs) (hk : k.spelling.toList <+: cs) : k' = k :=
  keyword_eq_of_isPrefix (lexeme_isPrefix h) hk

/-- Where no name is wanted, a keyword is read whatever follows it. -/
theorem preferred_keyword {k : Keyword} (hname : p .name = false) (hk : p (.keyword k) = true)
    (tail : List Char) : preferred p (k.spelling.toList ++ tail) = some (.of (.keyword k)) := by
  have hfront : k.spelling.toList <+: k.spelling.toList ++ tail := List.prefix_append _ _
  generalize htext : k.spelling.toList ++ tail = cs at hfront ⊢
  obtain ⟨c, others, hc, rfl⟩ : ∃ c others, isNameStart c = true ∧ cs = c :: others := by
    cases k <;> exact ⟨_, _, rfl, htext.symm⟩
  have hmem : Token.of (.keyword k) ∈ candidates (c :: others) := by
    rw [candidates_of_isNameStart hc, mem_scanWord_iff hc]
    refine Or.inr (Or.inr (List.mem_map.mpr ⟨k, List.mem_filter.mpr ⟨?_, ?_⟩, rfl⟩))
    · cases k <;> decide
    · exact List.isPrefixOf_iff_prefix.mpr hfront
  have honly : ∀ u ∈ candidates (c :: others), p u.terminal = true → u = .of (.keyword k) := by
    intro u hu hwanted
    have hword : u ∈ scanWord (c :: others) := candidates_of_isNameStart hc others ▸ hu
    rcases terminal_of_mem_scanWord hword with hterminal | ⟨k', rfl⟩
    · rw [hterminal, hname] at hwanted
      cases hwanted
    · rw [eq_of_keyword_mem_candidates hu hfront]
  cases hfind : preferred p (c :: others) with
  | none => exact absurd hk (List.find?_eq_none.mp hfind _ hmem)
  | some u => rw [honly u (List.mem_of_find?_eq_some hfind) (wanted_of_preferred hfind)]

/-- Where a name would do, a word is read up to its end. -/
theorem preferred_word (hname : p .name = true) (hword : IsWord word) (htail : EndsWord tail) :
    preferred p (word ++ tail) =
      (keywordsOf word ++ [(⟨.name, word⟩ : Token)]).find? fun t => p t.terminal := by
  obtain ⟨others, hothers⟩ := candidates_word hword htail
  have hsome : [(⟨.name, word⟩ : Token)].find? (fun t => p t.terminal) = some ⟨.name, word⟩ :=
    List.find?_cons_of_pos hname
  rw [preferred, hothers, List.append_cons, List.find?_append, List.find?_append, hsome]
  cases (keywordsOf word).find? (fun t => p t.terminal) <;> rfl

theorem lexeme_of_preferred_word
    (h : t ∈ keywordsOf word ++ [(⟨.name, word⟩ : Token)]) : t.lexeme = word := by
  rcases List.mem_append.mp h with hkeyword | hname
  · obtain ⟨k, -, rfl⟩ := List.mem_map.mp hkeyword
    rfl
  · rw [List.mem_singleton.mp hname]

/-- A word is seen to its end, or it is a keyword already. -/
theorem preferred_congr_word (hd : isLayoutBlank d = true)
    (h : preferred p (t.lexeme ++ (mid ++ rest)) = some t)
    (hword : t ∈ scanWord (t.lexeme ++ (mid ++ rest))) :
    preferred p (t.lexeme ++ (mid ++ d :: tail)) = some t := by
  generalize htext : t.lexeme ++ (mid ++ rest) = cs at h hword
  obtain ⟨c, others, rfl, hstart⟩ := exists_isNameStart_of_mem_scanWord hword
  have hname : (⟨.name, c :: others.takeWhile isNameRest⟩ : Token) ∈ candidates (c :: others) := by
    rw [candidates_of_isNameStart hstart, mem_scanWord_iff hstart]
    exact Or.inr (Or.inl rfl)
  obtain ⟨hisword, after, hafter, hends⟩ := exists_tail_of_name_mem_candidates hname
  by_cases hwanted : p .name = true
  · -- the name would do, so the word is read up to its end, which is seen
    rw [hafter, preferred_word hwanted hisword hends] at h
    have hlexeme := lexeme_of_preferred_word (List.mem_of_find?_eq_some h)
    rw [← hlexeme] at h hisword hafter
    obtain rfl : mid ++ rest = after := List.append_cancel_left (htext.trans hafter)
    have hends : EndsWord (mid ++ d :: tail) := by
      cases mid with
      | nil => exact endsWord_cons (isNameRest_of_isLayoutBlank hd) tail
      | cons e mid => exact endsWord_cons (hends e rfl) _
    rw [preferred_word hwanted hisword hends, h]
  · rcases terminal_of_mem_scanWord hword with hterminal | ⟨k, rfl⟩
    · exact absurd (hterminal ▸ wanted_of_preferred h) hwanted
    · exact preferred_keyword (Bool.eq_false_iff.mpr hwanted) (wanted_of_preferred h) _

/-- A sign that is seen ends before the blank, so no sign comes in between. -/
theorem preferred_congr_sign (hd : isLayoutBlank d = true)
    (h : preferred p (t.lexeme ++ (mid ++ rest)) = some t) (ht : t ∈ signs) :
    preferred p (t.lexeme ++ (mid ++ d :: tail)) = some t := by
  have hp := wanted_of_preferred h
  have hnoblank : ∀ u ∈ signs, (u.lexeme.all fun c => !isLayoutBlank c) = true := by decide
  rw [preferred, candidates_of_mem_signs ht, scanSign, List.find?_filter] at h ⊢
  refine find?_eq_some_of_imp h (fun u hu hboth => ?_) ?_
  · obtain ⟨hfront, hwanted⟩ := of_decide_eq_true hboth
    have hnot : d ∉ u.lexeme := by
      intro hmem
      have hnot := List.all_eq_true.mp (hnoblank u hu) d hmem
      rw [hd] at hnot
      cases hnot
    rw [List.isPrefixOf_iff_prefix, ← List.append_assoc] at hfront
    have hshort : u.lexeme <+: t.lexeme ++ mid := isPrefix_of_not_mem hfront hnot
    rw [decide_eq_true_eq, List.isPrefixOf_iff_prefix, ← List.append_assoc]
    exact ⟨hshort.trans (List.prefix_append _ rest), hwanted⟩
  · rw [decide_eq_true_eq, List.isPrefixOf_iff_prefix]
    exact ⟨List.prefix_append _ _, hp⟩

/-- A numeral is seen to its end. -/
theorem scanNumber_congr (hd : isLayoutBlank d = true)
    (h : scanNumber (t.lexeme ++ (mid ++ rest)) = some t) (tail : List Char) :
    scanString (t.lexeme ++ (mid ++ d :: tail)) = none ∧
      scanNumber (t.lexeme ++ (mid ++ d :: tail)) = some t := by
  obtain ⟨⟨n, after⟩, hscan, rfl⟩ := Option.map_eq_some_iff.mp h
  obtain rfl : after = mid ++ rest := List.append_cancel_left (Numeral.text_scan hscan)
  have hwritten := Numeral.isWritten_of_scan hscan
  have hstops : Numeral.Stops Text.digitValue n (mid ++ d :: tail) :=
    (Numeral.stops_of_scan hscan).congr (apart_of_isLayoutBlank hd)
  refine ⟨Reader.scanString_numeral hwritten _, ?_⟩
  rw [scanNumber, hwritten.scan_append_of_stops plain_digitValue hstops]
  rfl

/-- **No choice is seen farther than to a blank.**  Of the candidates that are wanted, the first is
the same in front of all texts that are the same up to a blank. -/
theorem preferred_congr (hd : isLayoutBlank d = true)
    (h : preferred p (t.lexeme ++ (mid ++ rest)) = some t) :
    preferred p (t.lexeme ++ (mid ++ d :: tail)) = some t := by
  have hp := wanted_of_preferred h
  rcases mem_candidates_iff.mp (List.mem_of_find?_eq_some h) with hstring | hnumber | hword | hsign
  · rw [preferred, candidates, (scanString_append hstring).2]
    exact List.find?_cons_of_pos hp
  · obtain ⟨hstring, hagain⟩ := scanNumber_congr hd hnumber tail
    rw [preferred, candidates, hstring, hagain]
    exact List.find?_cons_of_pos hp
  · exact preferred_congr_word hd h hword
  · exact preferred_congr_sign hd h (List.mem_filter.mp hsign).1

end Token

/-! ## What is taken -/

section Takes

variable {before ts : List Token} {cs rest mid tail : List Char} {d : Char} {t u : Token}

/-- The token is the first of the candidates at the front of the text that is expected. -/
def Takes (before : List Token) (cs : List Char) (t : Token) : Prop :=
  Expected before t.terminal ∧ ∃ skipped rest, Token.candidates cs = skipped ++ t :: rest ∧
    ∀ u ∈ skipped, ¬ Expected before u.terminal

open Classical in
theorem takes_iff_preferred :
    Takes before cs t ↔ Token.preferred (fun terminal => decide (Expected before terminal)) cs =
      some t := by
  rw [Takes, Token.preferred, List.find?_eq_some_iff_append]
  simp only [decide_eq_true_eq, Bool.not_eq_true', decide_eq_false_iff_not]

/-- The reader chooses what is taken. -/
theorem takes_iff_choose? [CharacterNames] {r : Reader} (hbefore : ∀ t ∈ before, t.IsProper)
    (h : Reader.start.feedAll before = some r) : Takes before cs t ↔ r.choose? cs = some t :=
  (choose?_eq_some_iff hbefore h).symm

theorem Takes.mem_candidates (h : Takes before cs t) : t ∈ Token.candidates cs := by
  obtain ⟨-, skipped, rest, hcandidates, -⟩ := h
  rw [hcandidates]
  exact List.mem_append_right _ (List.mem_cons_self ..)

/-- The text begins with the token that is taken. -/
theorem Takes.exists_rest (h : Takes before cs t) : ∃ rest, cs = t.lexeme ++ rest := by
  obtain ⟨rest, hrest⟩ := Token.lexeme_isPrefix h.mem_candidates
  exact ⟨rest, hrest.symm⟩

/-- **What is taken is seen up to a blank.** -/
theorem Takes.congr (h : Takes before (t.lexeme ++ (mid ++ rest)) t)
    (hd : Token.isLayoutBlank d = true) :
    Takes before (t.lexeme ++ (mid ++ d :: tail)) t := by
  rw [takes_iff_preferred] at h ⊢
  exact Token.preferred_congr hd h

/-- A text is cut at the token that is taken behind its layout. -/
theorem lexes_cons_iff :
    Lexes before cs (t :: ts) ↔ Takes before (Token.splitLayout cs).2 t ∧
      Lexes (before ++ [t]) ((Token.splitLayout cs).2.drop t.lexeme.length) ts := by
  constructor
  · intro h
    cases h with
    | token hcandidates hskipped hexpected hmore =>
      exact ⟨⟨hexpected, _, _, hcandidates, hskipped⟩, hmore⟩
  · rintro ⟨⟨hexpected, skipped, rest, hcandidates, hskipped⟩, hmore⟩
    exact .token hcandidates hskipped hexpected hmore

/-- One token more. -/
theorem Lexes.cons (hlayout : (Token.splitLayout cs).2 = t.lexeme ++ rest)
    (htakes : Takes before (t.lexeme ++ rest) t) (hmore : Lexes (before ++ [t]) rest ts) :
    Lexes before cs (t :: ts) := by
  rw [lexes_cons_iff, hlayout, List.drop_left]
  exact ⟨htakes, hmore⟩

/-- The step: **a token is read again** behind any layout, in front of a text that is the same up to
a blank.  A star behind the blank could end a comment that nothing ends so far.  But it does not if
the blank follows the token at once, since no token begins like a comment. -/
theorem Takes.lexes_cons {l : List Char} (h : Takes before (Token.splitLayout cs).2 t)
    (hrest : (Token.splitLayout cs).2 = t.lexeme ++ (mid ++ rest)) (hl : Token.IsLayout l)
    (hd : Token.isLayoutBlank d = true) (hstar : '*' ∈ tail → mid = [])
    (hmore : Lexes (before ++ [t]) (mid ++ d :: tail) ts) :
    Lexes before (l ++ (t.lexeme ++ (mid ++ d :: tail))) (t :: ts) := by
  have hne := Token.lexeme_ne_nil h.mem_candidates
  have hslash := Token.not_isPrefix_of_mem_candidates h.mem_candidates
  have hbare := Token.isBare_splitLayout cs
  rw [hrest, ← List.append_assoc] at hbare
  have hbare' : Token.IsBare (t.lexeme ++ mid ++ d :: tail) := by
    refine hbare.congr (List.append_ne_nil_of_left_ne_nil hne mid) hd fun hmem => ?_
    rw [hstar hmem, List.append_nil]
    exact hslash
  rw [hrest] at h
  rw [List.append_assoc] at hbare'
  have hlayout := Token.splitLayout_append_of_isLayout hl (t.lexeme ++ (mid ++ d :: tail))
  exact .cons (hlayout.trans hbare') (h.congr hd) hmore

theorem lexes_nil_iff : Lexes before cs [] ↔ (Token.splitLayout cs).2 = [] := by
  constructor
  · rintro ⟨h⟩
    exact h
  · exact .done

/-- The layout in front of a text does not matter. -/
theorem lexes_congr {cs' : List Char} (h : (Token.splitLayout cs).2 = (Token.splitLayout cs').2) :
    Lexes before cs ts ↔ Lexes before cs' ts := by
  cases ts with
  | nil => rw [lexes_nil_iff, lexes_nil_iff, h]
  | cons t ts => rw [lexes_cons_iff, lexes_cons_iff, h]

end Takes

end Scriptlet
