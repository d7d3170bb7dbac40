import Scriptlet.Proofs.Grammar.Boundaries

/-!
# Where a text is at fault

A text that is no program is at fault at one place, and everything before that place could have
been the beginning of a program.  So no error is told late: the reader does not take a token that
has made the text hopeless.

* `Viable ts`: some program begins with the tokens.
* `Cuts before cs ts front rest`: the text is cut into the tokens up to the rest.
* `Cuts.lexes`: what has been cut is cut again in front of any other text without a star.  The star
  would end a comment that the text does not end: there the slash that begins it is read as a sign.
* `Fails`: what an error says about the text.  `fails_of_readTokens` is the run of the reader.
* `parse_error_place` is the result.
-/

namespace Scriptlet

variable {before ts us : List Token} {cs front rest tail : List Char} {t : Token} {r : Reader}

/-! ## Tokens that a program begins with -/

/-- Some program begins with the tokens. -/
def Viable (ts : List Token) : Prop :=
  ∃ (d : Derivation .program) (after : List Token), d.yield = ts ++ after

theorem Viable.of_append (h : Viable (ts ++ us)) : Viable ts := by
  obtain ⟨d, after, hyield⟩ := h
  exact ⟨d, us ++ after, by rw [hyield, List.append_assoc]⟩

/-! ## Plain tokens are read back -/

/-- A plain token with a blank behind it begins with no layout, and no other candidate is preferred
to it. -/
theorem Token.IsPlain.head?_candidates (h : t.IsPlain) (tail : List Char) :
    (Token.splitLayout (t.lexeme ++ ' ' :: tail)).2 = t.lexeme ++ ' ' :: tail ∧
      (Token.candidates (t.lexeme ++ ' ' :: tail)).head? = some t := by
  have hends : EndsWord (' ' :: tail) := endsWord_cons rfl tail
  cases h with
  | of terminal h =>
    cases terminal with
    | number | string | name | operator => cases h
    | keyword k =>
      obtain ⟨others, hothers⟩ := Token.candidates_word k.isWord hends
      refine ⟨Token.splitLayout_word k.isWord _, ?_⟩
      show (Token.candidates (k.spelling.toList ++ ' ' :: tail)).head? = _
      rw [hothers]
      cases k <;> rfl
    | _ => exact ⟨splitLayout_of_ne (by decide) (by decide) _, rfl⟩
  | name =>
    have hword : IsWord ['x'] := .mk rfl nofun
    obtain ⟨others, hothers⟩ := Token.candidates_word hword hends
    exact ⟨Token.splitLayout_word hword _, by rw [hothers]; rfl⟩

theorem Token.IsPlain.star_not_mem (h : t.IsPlain) : '*' ∉ t.lexeme := by
  cases h with
  | of terminal h =>
    cases terminal with
    | number | string | name | operator => cases h
    | keyword k => cases k <;> decide
    | _ => decide
  | name => decide

/-- The tokens with blanks behind them. -/
def plainText (ts : List Token) : List Char := ts.flatMap fun t => t.lexeme ++ [' ']

theorem star_not_mem_plainText (h : ∀ t ∈ ts, t.IsPlain) : '*' ∉ plainText ts := by
  intro hmem
  obtain ⟨t, ht, hmem⟩ := List.mem_flatMap.mp hmem
  rcases List.mem_append.mp hmem with hlexeme | hblank
  · exact (h t ht).star_not_mem hlexeme
  · exact absurd hblank (by decide)

/-- Plain tokens that a program goes on with are read back. -/
theorem lexes_plainText (h : ∀ u ∈ us, u.IsPlain) (hviable : Viable (before ++ us)) :
    Lexes before (plainText us) us := by
  induction us generalizing before with
  | nil => exact .done splitLayout_nil
  | cons u us ih =>
    obtain ⟨hu, hus⟩ := List.forall_mem_cons.mp h
    rw [List.append_cons] at hviable
    have hexpected : Expected before u.terminal := by
      obtain ⟨d, after, hyield⟩ := hviable.of_append
      exact Or.inl ⟨d, u.lexeme, after, by rw [hyield, List.append_assoc]; rfl⟩
    have htext : plainText (u :: us) = u.lexeme ++ ' ' :: plainText us := by
      rw [plainText, List.flatMap_cons, List.append_assoc]
      rfl
    obtain ⟨hbare, hhead⟩ := hu.head?_candidates (plainText us)
    obtain ⟨others, hothers⟩ := List.head?_eq_some_iff.mp hhead
    have htakes : Takes before (u.lexeme ++ ' ' :: plainText us) u :=
      ⟨hexpected, [], others, hothers, nofun⟩
    rw [htext]
    exact .cons hbare htakes ((lexes_congr (splitLayout_blank _)).mpr (ih hus hviable))

/-! ## Texts that are cut up to a rest -/

/-- The text is cut into the tokens, after those before it, up to the rest.  The layout behind the
last of them is no part of the rest. -/
inductive Cuts : List Token → List Char → List Token → List Char → List Char → Prop
  | layout (before : List Token) (cs : List Char) :
      Cuts before cs [] (Token.splitLayout cs).1 (Token.splitLayout cs).2
  | token {before ts : List Token} {cs front rest : List Char} {t : Token}
      (htakes : Takes before (Token.splitLayout cs).2 t)
      (h : Cuts (before ++ [t]) ((Token.splitLayout cs).2.drop t.lexeme.length) ts front rest) :
      Cuts before cs (t :: ts) ((Token.splitLayout cs).1 ++ (t.lexeme ++ front)) rest

theorem Cuts.append (h : Cuts before cs ts front rest) : front ++ rest = cs := by
  induction h with
  | layout before cs => exact Token.splitLayout_append cs
  | @token before ts cs front rest t htakes _ ih =>
    obtain ⟨more, hmore⟩ := htakes.exists_rest
    rw [List.append_assoc, List.append_assoc, ih, hmore, List.drop_left, ← hmore]
    exact Token.splitLayout_append cs

theorem Cuts.isProper (h : Cuts before cs ts front rest) : ∀ t ∈ ts, t.IsProper := by
  induction h with
  | layout => exact nofun
  | token htakes _ ih =>
    exact List.forall_mem_cons.mpr ⟨isProper_of_mem_candidates htakes.mem_candidates, ih⟩

/-- A text that is cut into tokens is cut up to its end. -/
theorem Lexes.cuts (h : Lexes before cs ts) : ∃ front, Cuts before cs ts front [] := by
  induction ts generalizing before cs with
  | nil => exact ⟨_, lexes_nil_iff.mp h ▸ Cuts.layout before cs⟩
  | cons t ts ih =>
    obtain ⟨htakes, hmore⟩ := lexes_cons_iff.mp h
    obtain ⟨front, hfront⟩ := ih hmore
    exact ⟨_, .token htakes hfront⟩

/-- **What has been cut is cut again** in front of any other text without a star. -/
theorem Cuts.lexes (h : Cuts before cs ts front rest) (hstar : '*' ∉ tail)
    (hmore : Lexes (before ++ ts) tail us) :
    Lexes before (front ++ '\n' :: tail) (ts ++ us) := by
  induction h with
  | layout before cs =>
    have hlayout := Token.splitLayout_append_of_isLayout (Token.isLayout_splitLayout cs).1 tail
    rw [List.append_assoc] at hlayout
    rw [List.append_nil] at hmore
    exact (lexes_congr hlayout).mpr hmore
  | @token before ts cs front rest t htakes hcuts ih =>
    rw [List.append_cons] at hmore
    obtain ⟨more, hmore'⟩ := htakes.exists_rest
    obtain rfl : front ++ rest = more := by
      rw [hcuts.append, hmore', List.drop_left]
    have hlayout := (Token.isLayout_splitLayout cs).2 (by
      rw [hmore']
      exact List.append_ne_nil_of_left_ne_nil (Token.lexeme_ne_nil htakes.mem_candidates) _)
    rw [List.append_assoc, List.append_assoc]
    exact htakes.lexes_cons hmore' hlayout rfl (fun hmem => absurd hmem hstar) (ih hmore)

/-! ## What an error says -/

/-- Reading stops between the tokens and the rest: nothing that stands there is expected, or what is
expected there by its letters fits in no program. -/
def Stuck (ts : List Token) (rest : List Char) : Prop :=
  rest ≠ [] ∧ Token.IsBare rest ∧
    ((∀ t, ¬ Takes ts rest t) ∨ ∃ t, Takes ts rest t ∧ ¬ Viable (ts ++ [t]))

/-- What an error says about a text that is read after some tokens, the last of which stands at a
place.  Either reading stops at the place of the error, or the text ends too early, and then the
place of the error is that of the last token. -/
inductive Fails (before : List Token) (cs : List Char) (last place : Text.Position) :
    SyntaxError → Prop
  | stuck {ts : List Token} {front rest : List Char} {e : SyntaxError}
      (hcuts : Cuts before cs ts front rest) (hviable : Viable (before ++ ts))
      (hstuck : Stuck (before ++ ts) rest) (hplace : e.place? = some (place.advance front))
      (hend : ∀ p, e ≠ .unexpectedEnd p) : Fails before cs last place e
  | ended {ts : List Token} {front rest : List Char} {t : Token}
      (hcuts : Cuts before cs ts front rest) (htakes : Takes (before ++ ts) rest t)
      (hlexes : Lexes before cs (ts ++ [t])) (hviable : Viable (before ++ (ts ++ [t])))
      (hnot : ∀ d : Derivation .program, d.yield ≠ before ++ (ts ++ [t])) :
      Fails before cs last place (.unexpectedEnd (place.advance front))
  | empty (hlexes : Lexes before cs []) (hviable : Viable before)
      (hnot : ∀ d : Derivation .program, d.yield ≠ before) :
      Fails before cs last place (.unexpectedEnd last)

theorem place?_unexpected {place : Text.Position} {c : Char} :
    (SyntaxError.unexpected place c cs).place? = some place := by
  unfold SyntaxError.unexpected
  split <;> rfl

theorem unexpected_ne_unexpectedEnd {place p : Text.Position} {c : Char} :
    SyntaxError.unexpected place c cs ≠ .unexpectedEnd p := by
  unfold SyntaxError.unexpected
  split <;> exact nofun

/-- Reading stops behind the layout. -/
theorem Fails.of_stuck {last place : Text.Position} {e : SyntaxError} (hviable : Viable before)
    (hne : (Token.splitLayout cs).2 ≠ [])
    (hnot : (∀ t, ¬ Takes before (Token.splitLayout cs).2 t) ∨
      ∃ t, Takes before (Token.splitLayout cs).2 t ∧ ¬ Viable (before ++ [t]))
    (hplace : e.place? = some (place.advance (Token.splitLayout cs).1))
    (hend : ∀ p, e ≠ .unexpectedEnd p) : Fails before cs last place e := by
  have hnil := List.append_nil before
  refine .stuck (.layout before cs) ?_ ?_ hplace hend
  · rw [hnil]
    exact hviable
  · rw [hnil]
    exact ⟨hne, Token.isBare_splitLayout cs, hnot⟩

/-- The step: what an error says about the rest of a text it says about the text. -/
theorem Fails.token {last place : Text.Position} {e : SyntaxError}
    (htakes : Takes before (Token.splitLayout cs).2 t)
    (h : Fails (before ++ [t]) ((Token.splitLayout cs).2.drop t.lexeme.length)
      (place.advance (Token.splitLayout cs).1)
      ((place.advance (Token.splitLayout cs).1).advance t.lexeme) e) :
    Fails before cs last place e := by
  have hplaces : ∀ front,
      ((place.advance (Token.splitLayout cs).1).advance t.lexeme).advance front =
        place.advance ((Token.splitLayout cs).1 ++ (t.lexeme ++ front)) := by
    intro front
    rw [Text.Position.advance_append, Text.Position.advance_append]
  cases h with
  | stuck hcuts hviable hstuck hplace hend =>
    rw [← List.append_cons] at hviable hstuck
    rw [hplaces] at hplace
    exact .stuck (.token htakes hcuts) hviable hstuck hplace hend
  | @ended ts front rest t' hcuts htakes' hlexes hviable hnot =>
    rw [← List.append_cons] at htakes' hviable hnot
    rw [hplaces]
    exact .ended (.token htakes hcuts) htakes' (lexes_cons_iff.mpr ⟨htakes, hlexes⟩) hviable hnot
  | empty hlexes hviable hnot =>
    -- the token is the last one, and its place is that behind the layout
    have htakes' : Takes (before ++ []) (Token.splitLayout cs).2 t := by
      rw [List.append_nil]
      exact htakes
    exact .ended (.layout before cs) htakes' (lexes_cons_iff.mpr ⟨htakes, hlexes⟩) hviable hnot

/-! ## Places -/

namespace Text.Position

variable {p : Position} {cs ds l : List Char}

theorem line_le_advance (p : Position) (cs : List Char) : p.line ≤ (p.advance cs).line := by
  induction cs generalizing p with
  | nil => exact le_rfl
  | cons c cs ih =>
    refine le_trans ?_ (ih (p.next c))
    unfold next
    split
    · exact Nat.le_succ p.line
    · exact le_rfl

/-- In one line the columns count the characters. -/
theorem column_advance (h : (p.advance cs).line = p.line) :
    (p.advance cs).column = p.column + cs.length := by
  induction cs generalizing p with
  | nil => rfl
  | cons c cs ih =>
    rw [advance_cons] at h ⊢
    have hle := line_le_advance (p.next c) cs
    by_cases hc : c = '\n'
    · rw [h, next, if_pos hc] at hle
      exact absurd hle (Nat.not_succ_le_self p.line)
    · have hnext : p.next c = ⟨p.line, p.column + 1⟩ := if_neg hc
      rw [hnext] at h ⊢
      rw [ih h, List.length_cons, Nat.add_assoc, Nat.add_comm 1]

/-- **A place is that of one piece of a text only.** -/
theorem eq_of_advance_eq (hcs : cs <+: l) (hds : ds <+: l) (h : p.advance cs = p.advance ds) :
    cs = ds := by
  have hself : ∀ (q : Position) (more : List Char), q.advance more = q → more = [] := by
    intro q more hq
    have hcolumn := column_advance (congrArg line hq)
    rw [hq] at hcolumn
    exact List.length_eq_zero_iff.mp (by omega)
  rcases List.prefix_or_prefix_of_prefix hcs hds with ⟨more, rfl⟩ | ⟨more, rfl⟩
  · rw [advance_append] at h
    rw [hself _ more h.symm, List.append_nil]
  · rw [advance_append] at h
    rw [hself _ more h, List.append_nil]

end Text.Position

/-! ## Reading -/

section Reading

variable [CharacterNames]

/-- The reader takes what a program begins with. -/
theorem Viable.feedAll (h : Viable ts) : ∃ r, Reader.start.feedAll ts = some r := by
  obtain ⟨d, after, hyield⟩ := h
  obtain ⟨s, hs, -⟩ := feedAll_yield d
  rw [hyield, Reader.feedAll_append, Option.bind_eq_some_iff] at hs
  obtain ⟨r, hr, -⟩ := hs
  exact ⟨r, hr⟩

theorem viable_of_feedAll (hts : ∀ t ∈ ts, t.IsProper) (h : Reader.start.feedAll ts = some r) :
    Viable ts := by
  obtain ⟨us, d, -, hyield⟩ := exists_plain_completion hts h
  exact ⟨d, us, hyield⟩

/-- The run: **every error of the reader is at the first fault.** -/
theorem fails_of_readTokens {last place : Text.Position} {e : SyntaxError}
    (hbefore : ∀ t ∈ before, t.IsProper) (h : Reader.start.feedAll before = some r)
    (herror : readTokens r last place cs = .error e) : Fails before cs last place e := by
  have hviable := viable_of_feedAll hbefore h
  fun_induction readTokens r last place cs generalizing before e with
  | case1 => cases herror
  | case2 r last place cs hend hfinish =>
    cases herror
    refine .empty (.done hend) hviable fun d hyield => ?_
    obtain ⟨s, hs, hbody⟩ := feedAll_yield d
    rw [hyield, h] at hs
    cases hs
    rw [hfinish] at hbody
    cases hbody
  | case3 r last place cs _ c rest hrest =>
    rename_i hchoose
    cases herror
    refine .of_stuck hviable ?_ (Or.inl fun t ht => ?_) place?_unexpected
      fun _ => unexpected_ne_unexpectedEnd
    · rw [hrest]
      exact List.cons_ne_nil c rest
    · rw [hrest, takes_iff_choose? hbefore h, hchoose] at ht
      cases ht
  | case4 r last place cs _ c rest hrest t hchoose =>
    rename_i hnone
    cases herror
    refine .of_stuck hviable ?_ (Or.inr ⟨t, ?_, ?_⟩) rfl fun _ heq => ?_
    · rw [hrest]
      exact List.cons_ne_nil c rest
    · rw [hrest]
      exact (takes_iff_choose? hbefore h).mpr hchoose
    · intro hmore
      obtain ⟨s, hs⟩ := hmore.feedAll
      rw [Reader.feedAll_append, h, Option.bind_some, Reader.feedAll_cons, hnone] at hs
      cases hs
    · cases heq
  | case5 r last place cs _ c rest hrest t hchoose r' hr' =>
    rename_i ih
    have htakes : Takes before (Token.splitLayout cs).2 t := by
      rw [hrest]
      exact (takes_iff_choose? hbefore h).mpr hchoose
    have hproper : ∀ u ∈ before ++ [t], u.IsProper :=
      List.forall_mem_append.mpr ⟨hbefore, List.forall_mem_singleton.mpr
        (isProper_of_mem_candidates htakes.mem_candidates)⟩
    have hnext : Reader.start.feedAll (before ++ [t]) = some r' := by
      rw [Reader.feedAll_append, h]
      exact Feeds.one hr'
    have hmore := map_eq_error_iff.mp herror
    have hfails := ih hproper hnext hmore (viable_of_feedAll hproper hnext)
    rw [← hrest] at hfails
    exact hfails.token htakes

/-! ## Texts that the grammar accepts -/

/-- The grammar accepts the text, whether or not the strings in it denote anything. -/
def Accepts (source : String) : Prop :=
  ∃ d : Derivation .program, Lexes [] source.toList d.yield

/-- The texts that the grammar accepts are those that are read. -/
theorem accepts_iff_readTokens {source : String} :
    Accepts source ↔
      ∃ ts body, readTokens .start .start .start source.toList = .ok (ts, body) := by
  have hnone : ∀ t ∈ ([] : List Token), t.IsProper := fun _ ht => nomatch ht
  constructor
  · rintro ⟨d, hlexes⟩
    obtain ⟨s, hfeed, hfinish⟩ := feedAll_yield d
    exact ⟨_, _, (readTokens_eq_ok_iff hnone rfl).mpr ⟨hlexes, s, hfeed, hfinish⟩⟩
  · rintro ⟨ts, body, hread⟩
    obtain ⟨hlexes, s, hfeed, hfinish⟩ := (readTokens_eq_ok_iff hnone rfl).mp hread
    obtain ⟨d, rfl, -⟩ := derives_of_feedAll hlexes.isProper hfeed hfinish
    exact ⟨d, hlexes⟩

/-- **What has been cut into the beginning of a program can be completed to a program.** -/
theorem Cuts.exists_accepts (h : Cuts [] cs ts front rest) (hviable : Viable ts) :
    ∃ more, Accepts (String.ofList front ++ more) := by
  obtain ⟨r, hr⟩ := hviable.feedAll
  obtain ⟨us, d, hus, hyield⟩ := exists_plain_completion h.isProper hr
  refine ⟨String.ofList ('\n' :: plainText us), d, ?_⟩
  have hmore : Lexes ts (plainText us) us :=
    lexes_plainText hus ⟨d, [], by rw [hyield, List.append_nil]⟩
  rw [String.toList_append, String.toList_ofList, String.toList_ofList, hyield]
  exact h.lexes (star_not_mem_plainText hus) hmore

/-! ## The result -/

theorem parse_eq_error_of_readTokens {source : String} {e : SyntaxError}
    (h : readTokens .start .start .start source.toList = .error e) : parse source = .error e := by
  rw [parse, parseChars, h]
  rfl

/-- An error with a place comes from the reader. -/
theorem readTokens_of_parse_eq_error {source : String} {e : SyntaxError} {place : Text.Position}
    (h : parse source = .error e) (hplace : e.place? = some place) :
    readTokens .start .start .start source.toList = .error e := by
  unfold parse parseChars at h
  cases hread : readTokens .start .start .start source.toList with
  | error e' =>
    rw [hread, error_bind] at h
    rw [Except.error.inj h]
  | ok result =>
    obtain ⟨ts, body⟩ := result
    rw [hread, ok_bind] at h
    dsimp only at h
    split at h
    · cases h
      cases hplace
    · cases h

/-- **Errors are at the first fault.**  If parsing gives an error with a place, then one beginning
of the text ends at that place, and no other.  It is cut into tokens, and it can be completed to a
text that the grammar accepts.  Behind it reading stops, or the text ends too early: then the last
token stands there, and the whole text can be completed to one that the grammar accepts. -/
theorem parse_error_place {source : String} {e : SyntaxError} {place : Text.Position}
    (h : parse source = .error e) (hplace : e.place? = some place) :
    ∃ ts front rest, Cuts [] source.toList ts front rest ∧ front ++ rest = source.toList ∧
      (∀ front', front' <+: source.toList →
        (Text.Position.start.advance front' = place ↔ front' = front)) ∧
      (∃ more, Accepts (String.ofList front ++ more)) ∧
      ((∀ p, e ≠ .unexpectedEnd p) ∧ Stuck ts rest ∨
        e = .unexpectedEnd place ∧ ∃ t, Takes ts rest t ∧ Lexes [] source.toList (ts ++ [t]) ∧
          (∀ d : Derivation .program, d.yield ≠ ts ++ [t]) ∧
          ∃ more, Accepts (source ++ more)) := by
  have hnone : ∀ t ∈ ([] : List Token), t.IsProper := fun _ ht => nomatch ht
  have hfails := fails_of_readTokens hnone rfl (readTokens_of_parse_eq_error h hplace)
  have hunique : ∀ {ts front rest}, Cuts [] source.toList ts front rest →
      Text.Position.start.advance front = place → ∀ front', front' <+: source.toList →
        (Text.Position.start.advance front' = place ↔ front' = front) := by
    rintro ts front rest hcuts rfl front' hfront'
    have hfront : front <+: source.toList := ⟨rest, hcuts.append⟩
    exact ⟨Text.Position.eq_of_advance_eq hfront' hfront, fun heq => heq ▸ rfl⟩
  cases hfails with
  | @stuck ts front rest _ hcuts hviable hstuck hat hend =>
    have hadvance : Text.Position.start.advance front = place :=
      Option.some.inj (hat.symm.trans hplace)
    exact ⟨ts, front, rest, hcuts, hcuts.append, hunique hcuts hadvance,
      hcuts.exists_accepts hviable, Or.inl ⟨hend, hstuck⟩⟩
  | @ended ts front rest t hcuts htakes hlexes hviable hnot =>
    have hadvance : Text.Position.start.advance front = place := Option.some.inj hplace
    have hviable' : Viable ts := Viable.of_append (show Viable (ts ++ [t]) from hviable)
    obtain ⟨whole, hwhole⟩ := hlexes.cuts
    obtain rfl : whole = source.toList := by
      rw [← hwhole.append, List.append_nil]
    have hmore := hwhole.exists_accepts hviable
    rw [String.ofList_toList] at hmore
    exact ⟨ts, front, rest, hcuts, hcuts.append, hunique hcuts hadvance,
      hcuts.exists_accepts hviable', Or.inr ⟨by rw [hadvance], t, htakes, hlexes, hnot, hmore⟩⟩
  | empty hlexes hviable hnot => exact absurd rfl (hnot (.nil .statement))

end Reading

/-- There is no assignment, so one is at fault at its sign. -/
theorem parse_assignment : @parse .empty "x = 1;" = .error (.unexpectedToken ⟨1, 3⟩ ['=']) := by
  have hname : (Token.splitLayout "x = 1;".toList).2 = ['x'] ++ " = 1;".toList :=
    splitLayout_of_ne (by decide) (by decide) _
  have hsign : Token.IsBare ['=', ' ', '1', ';'] := splitLayout_of_ne (by decide) (by decide) _
  have hlayout : Token.splitLayout " = 1;".toList = ([' '], ['=', ' ', '1', ';']) := by
    show Token.splitLayout (' ' :: ['=', ' ', '1', ';']) = _
    rw [splitLayout_of_isLayoutBlank rfl, hsign.fst_splitLayout, hsign]
  have hnone : (Token.splitLayout "x = 1;".toList).1 = [] := Token.IsBare.fst_splitLayout hname
  let := CharacterNames.empty
  refine parse_eq_error_of_readTokens ?_
  rw [@readTokens_token _ _ _ _ _ ⟨.name, ['x']⟩ hname rfl rfl, hnone,
    readTokens_unexpected (congrArg Prod.snd hlayout) rfl, hlayout]
  rfl

/-- What stands before the fault can be completed to a program. -/
theorem parse_error_place_assignment :
    @parse .empty "x = 1;" = .error (.unexpectedToken ⟨1, 3⟩ ['=']) ∧
      ∃ more, Accepts ("x " ++ more) := by
  obtain ⟨ts, front, rest, -, -, hunique, hmore, -⟩ :=
    @parse_error_place .empty _ _ _ parse_assignment rfl
  have hfront : "x ".toList = front := (hunique "x ".toList ⟨_, rfl⟩).mp rfl
  rw [← hfront, String.ofList_toList] at hmore
  exact ⟨parse_assignment, hmore⟩

end Scriptlet
