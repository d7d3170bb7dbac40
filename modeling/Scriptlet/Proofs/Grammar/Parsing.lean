import Scriptlet.Parse
import Scriptlet.Proofs.Computation
import Scriptlet.Proofs.Grammar.Lexing
import Scriptlet.Proofs.Numerals

/-!
# Parsing is what the grammar says

A text is parsed exactly if it can be cut into the tokens of a derivation, and the result is the
tree of that derivation, of which there is only one.

* `Writes source d` says that the text is cut into the tokens of the derivation, and that every
  string among them denotes something.
* `readTokens_eq_ok_iff` compares the reading of a text with cutting it and reading its tokens.
* `Writes.literals` says that the numbers denote something too.
* `parse_prescribed` is the result.
-/

namespace Scriptlet

/-! ## Candidates -/

/-- A sign is written as its terminal is. -/
theorem isProper_of_mem_signs {t : Token} (h : t ∈ Token.signs) : t.IsProper := by
  have hall : ∀ t ∈ Token.signs, t.terminal.spelling?.all (· == t.lexeme) = true := by decide
  intro spelling hspelling
  have ht := hall t h
  rw [hspelling] at ht
  exact (eq_of_beq ht).symm

/-- Every candidate is written as its terminal is. -/
theorem isProper_of_mem_candidates {cs : List Char} {t : Token} (h : t ∈ Token.candidates cs) :
    t.IsProper := by
  rcases Token.mem_candidates_cases h with
    ⟨_, _, -, rfl⟩ | ⟨_, _, -, rfl⟩ | ⟨_, _, -, -, rfl⟩ | ⟨k, rfl⟩ | h
  · exact nofun
  · exact nofun
  · exact nofun
  · exact Token.isProper_of (.keyword k)
  · exact isProper_of_mem_signs h

/-! ## Cutting a text -/

theorem candidates_nil : Token.candidates [] = [] := rfl

/-- Of a list there is one first member with a property. -/
theorem eq_of_first {α : Type} {p : α → Prop} {as bs cs ds : List α} {x y : α}
    (h : as ++ x :: bs = cs ++ y :: ds) (has : ∀ a ∈ as, ¬ p a) (hx : p x)
    (hcs : ∀ c ∈ cs, ¬ p c) (hy : p y) : x = y := by
  classical
  have hfirst : ∀ (as bs : List α) (x : α), (∀ a ∈ as, ¬ p a) → p x →
      (as ++ x :: bs).find? (fun a => decide (p a)) = some x := by
    intro as bs x has hx
    rw [List.find?_eq_some_iff_append]
    exact ⟨decide_eq_true hx, as, bs, rfl, fun a ha => by rw [decide_eq_false (has a ha)]; rfl⟩
  have hsame := hfirst as bs x has hx
  rw [h, hfirst cs ds y hcs hy] at hsame
  exact (Option.some.inj hsame).symm

/-- A text is cut in one way only. -/
theorem Lexes.unique {before ts us : List Token} {cs : List Char} (h : Lexes before cs ts)
    (h' : Lexes before cs us) : ts = us := by
  induction h generalizing us with
  | done hend =>
    cases h' with
    | done => rfl
    | token hcandidates =>
      rw [hend, candidates_nil] at hcandidates
      cases List.nil_eq_append_iff.mp hcandidates |>.2
  | token hcandidates hskipped hexpected _ ih =>
    cases h' with
    | done hend =>
      rw [hend, candidates_nil] at hcandidates
      cases List.nil_eq_append_iff.mp hcandidates |>.2
    | token hcandidates' hskipped' hexpected' hmore =>
      obtain rfl := eq_of_first (hcandidates.symm.trans hcandidates') hskipped hexpected
        hskipped' hexpected'
      rw [ih hmore]

/-- Each of the tokens that a text is cut into was a candidate somewhere. -/
theorem Lexes.mem_candidates {before ts : List Token} {cs : List Char} (h : Lexes before cs ts) :
    ∀ t ∈ ts, ∃ cs, t ∈ Token.candidates cs := by
  induction h with
  | done => exact nofun
  | @token _ skipped rest _ cs t hcandidates _ _ _ ih =>
    have ht : t ∈ Token.candidates (Token.splitLayout cs).2 := by
      rw [hcandidates]
      exact List.mem_append_right _ (List.mem_cons_self ..)
    exact List.forall_mem_cons.mpr ⟨⟨_, ht⟩, ih⟩

/-- The tokens that a text is cut into are written as their terminals are. -/
theorem Lexes.isProper {before ts : List Token} {cs : List Char} (h : Lexes before cs ts) :
    ∀ t ∈ ts, t.IsProper := by
  intro t ht
  obtain ⟨cs, hcs⟩ := h.mem_candidates t ht
  exact isProper_of_mem_candidates hcs

/-! ## Reading a text -/

variable [CharacterNames]

/-- The reader chooses the first candidate that is expected. -/
theorem choose?_eq_some_iff {r : Reader} {before : List Token} {cs : List Char} {t : Token}
    (hbefore : ∀ t ∈ before, t.IsProper) (h : Reader.start.feedAll before = some r) :
    r.choose? cs = some t ↔ Expected before t.terminal ∧
      ∃ skipped rest, Token.candidates cs = skipped ++ t :: rest ∧
        ∀ u ∈ skipped, ¬ Expected before u.terminal := by
  have hexpected := Reader.accepts_iff_expected hbefore h
  rw [Reader.choose?, List.find?_eq_some_iff_append, hexpected]
  refine and_congr_right fun _ => exists_congr fun skipped => exists_congr fun rest =>
    and_congr_right fun _ => forall_congr' fun u => forall_congr' fun _ => ?_
  rw [← hexpected, Bool.not_eq_true', Bool.not_eq_true]

/-- A text that goes on is cut at the token that the reader chooses. -/
theorem lexes_iff_choose? {r : Reader} {before ts : List Token} {cs rest : List Char} {c : Char}
    (hbefore : ∀ t ∈ before, t.IsProper) (h : Reader.start.feedAll before = some r)
    (hrest : (Token.splitLayout cs).2 = c :: rest) :
    Lexes before cs ts ↔ ∃ t us, ts = t :: us ∧ r.choose? (c :: rest) = some t ∧
      Lexes (before ++ [t]) ((c :: rest).drop t.lexeme.length) us := by
  constructor
  · intro hlexes
    cases hlexes with
    | done hend =>
      rw [hend] at hrest
      cases hrest
    | @token _ skipped others us _ t hcandidates hskipped hexpected hmore =>
      rw [hrest] at hcandidates hmore
      exact ⟨t, us, rfl, (choose?_eq_some_iff hbefore h).mpr
        ⟨hexpected, skipped, others, hcandidates, hskipped⟩, hmore⟩
  · rintro ⟨t, us, rfl, hchoose, hmore⟩
    obtain ⟨hexpected, skipped, others, hcandidates, hskipped⟩ :=
      (choose?_eq_some_iff hbefore h).mp hchoose
    rw [← hrest] at hcandidates hmore
    exact .token hcandidates hskipped hexpected hmore

/-- Reading a text is cutting it into tokens and reading these. -/
theorem readTokens_eq_ok_iff {r : Reader} {before ts : List Token} {last place : Text.Position}
    {cs : List Char} {body : List Node} (hbefore : ∀ t ∈ before, t.IsProper)
    (h : Reader.start.feedAll before = some r) :
    readTokens r last place cs = .ok (ts, body) ↔
      Lexes before cs ts ∧ ∃ s, r.feedAll ts = some s ∧ s.finish? = some body := by
  fun_induction readTokens r last place cs generalizing before ts body with
  | case1 r last place cs hend body' hfinish =>
    constructor
    · intro hok
      cases hok
      exact ⟨.done hend, r, rfl, hfinish⟩
    · rintro ⟨hlexes, s, hfeed, hbody⟩
      obtain rfl := hlexes.unique (.done hend)
      cases hfeed
      rw [hfinish] at hbody
      cases hbody
      rfl
  | case2 r last place cs hend hfinish =>
    constructor
    · intro hok
      cases hok
    · rintro ⟨hlexes, s, hfeed, hbody⟩
      obtain rfl := hlexes.unique (.done hend)
      cases hfeed
      rw [hfinish] at hbody
      cases hbody
  | case3 r last place cs _ c rest hrest =>
    rename_i hchoose
    constructor
    · intro hok
      cases hok
    · rintro ⟨hlexes, -⟩
      obtain ⟨t, us, -, ht, -⟩ := (lexes_iff_choose? hbefore h hrest).mp hlexes
      rw [hchoose] at ht
      cases ht
  | case4 r last place cs _ c rest hrest t hchoose =>
    rename_i hnone
    constructor
    · intro hok
      cases hok
    · rintro ⟨hlexes, s, hfeed, -⟩
      obtain ⟨t', us, rfl, ht', -⟩ := (lexes_iff_choose? hbefore h hrest).mp hlexes
      rw [hchoose] at ht'
      cases ht'
      rw [Reader.feedAll_cons, hnone] at hfeed
      cases hfeed
  | case5 r last place cs _ c rest hrest t hchoose r' hr' =>
    rename_i ih
    have hproper : ∀ u ∈ before ++ [t], u.IsProper := by
      refine List.forall_mem_append.mpr ⟨hbefore, fun u hu => ?_⟩
      rw [List.mem_singleton.mp hu]
      exact isProper_of_mem_candidates (List.mem_of_find?_eq_some hchoose)
    have hnext : Reader.start.feedAll (before ++ [t]) = some r' := by
      rw [Reader.feedAll_append, h]
      exact Feeds.one hr'
    rw [lexes_iff_choose? hbefore h hrest]
    constructor
    · intro hok
      obtain ⟨⟨us, body'⟩, hus, heq⟩ := map_eq_ok_iff.mp hok
      cases heq
      obtain ⟨hmore, s, hfeed, hbody⟩ := (ih hproper hnext).mp hus
      refine ⟨⟨t, us, rfl, hchoose, hmore⟩, s, ?_, hbody⟩
      rw [Reader.feedAll_cons, hr']
      exact hfeed
    · rintro ⟨⟨t', us, rfl, ht', hmore⟩, s, hfeed, hbody⟩
      rw [hchoose] at ht'
      cases ht'
      rw [Reader.feedAll_cons, hr'] at hfeed
      rw [(ih hproper hnext).mpr ⟨hmore, s, hfeed, hbody⟩]
      rfl

/-! ## Parsing -/

/-- The text is cut into the tokens of the derivation, and every string among them denotes
something. -/
def Writes (source : String) (d : Derivation .program) : Prop :=
  Lexes [] source.toList d.yield ∧ ∀ t ∈ d.yield, t.isMalformed = false

/-- A text is parsed if it is read and no string in it is malformed. -/
theorem parse_eq_ok_iff {source : String} {body : List Node} :
    parse source = .ok body ↔ ∃ ts, readTokens .start .start .start source.toList = .ok (ts, body) ∧
      ∀ t ∈ ts, t.isMalformed = false := by
  unfold parse parseChars
  cases hread : readTokens .start .start .start source.toList with
  | error e =>
    constructor
    · intro h
      cases h
    · rintro ⟨ts, h, -⟩
      cases h
  | ok result =>
    obtain ⟨ts, body'⟩ := result
    simp only [ok_bind]
    cases hfind : ts.find? Token.isMalformed with
    | some t =>
      constructor
      · intro h
        cases h
      · rintro ⟨ts', h, hall⟩
        cases h
        have hmalformed := List.find?_some hfind
        rw [hall t (List.mem_of_find?_eq_some hfind)] at hmalformed
        cases hmalformed
    | none =>
      constructor
      · intro h
        cases h
        exact ⟨ts, rfl, fun t ht => Bool.not_eq_true _ ▸ List.find?_eq_none.mp hfind t ht⟩
      · rintro ⟨ts', h, -⟩
        cases h
        rfl

/-- A text is parsed to what it is a derivation of. -/
theorem parse_eq_ok_iff_writes {source : String} {body : List Node} :
    parse source = .ok body ↔ ∃ d, Writes source d ∧ d.meaning = body := by
  have hnone : ∀ t ∈ ([] : List Token), t.IsProper := fun _ ht => nomatch ht
  have hstart : Reader.start.feedAll [] = some .start := rfl
  rw [parse_eq_ok_iff]
  constructor
  · rintro ⟨ts, hread, hall⟩
    obtain ⟨hlexes, s, hfeed, hfinish⟩ := (readTokens_eq_ok_iff hnone hstart).mp hread
    obtain ⟨d, rfl, rfl⟩ := derives_of_feedAll hlexes.isProper hfeed hfinish
    exact ⟨d, ⟨hlexes, hall⟩, rfl⟩
  · rintro ⟨d, ⟨hlexes, hall⟩, rfl⟩
    obtain ⟨s, hfeed, hfinish⟩ := feedAll_yield d
    exact ⟨d.yield, (readTokens_eq_ok_iff hnone hstart).mpr ⟨hlexes, s, hfeed, hfinish⟩, hall⟩

/-- Every literal of a text that is parsed denotes something: no number and no string in it is
taken for an empty one. -/
theorem Writes.literals {source : String} {d : Derivation .program} (h : Writes source d) :
    ∀ t ∈ d.yield,
      (t.terminal = .number → ∃ n, Numeral.ofChars? Text.digitValue t.lexeme = some n) ∧
      (t.terminal = .string → ∃ cs, StringLiteral.decode t.lexeme = some cs) := by
  intro t ht
  obtain ⟨cs, hcs⟩ := h.1.mem_candidates t ht
  refine ⟨Token.numeral_of_mem_candidates hcs, fun hstring => ?_⟩
  have hwell := h.2 t ht
  rw [Token.isMalformed, hstring, beq_self_eq_true, Bool.true_and,
    Option.isNone_eq_false_iff] at hwell
  exact Option.isSome_iff_exists.mp hwell

/-- A text is written by one derivation at most. -/
theorem Writes.unique {source : String} {d e : Derivation .program} (hd : Writes source d)
    (he : Writes source e) : d = e :=
  Derivation.yield_injective rfl (hd.1.unique he.1)

/-- **Parsing is what the grammar says.**  Either there is one derivation from `program`, and no
other, whose tokens the text is cut into with every string among them denoting something; then
parsing gives the tree that the grammar prescribes for that derivation.  Or there is none; then
parsing gives an error. -/
theorem parse_prescribed (source : String) :
    (∃ d, (∀ e, Writes source e ↔ e = d) ∧ parse source = .ok d.meaning) ∨
      ((∀ e, ¬ Writes source e) ∧ ∃ error, parse source = .error error) := by
  cases h : parse source with
  | ok body =>
    obtain ⟨d, hd, rfl⟩ := parse_eq_ok_iff_writes.mp h
    refine Or.inl ⟨d, fun e => ⟨fun he => he.unique hd, ?_⟩, rfl⟩
    rintro rfl
    exact hd
  | error error =>
    refine Or.inr ⟨fun e he => ?_, error, rfl⟩
    have hok := parse_eq_ok_iff_writes.mpr ⟨e, he, rfl⟩
    rw [h] at hok
    cases hok

end Scriptlet
