import Scriptlet.Proofs.Grammar.Mentions
import Scriptlet.Proofs.Grammar.Words

/-!
# Which words are names

A word that is spelled like a keyword is read as that keyword only where the grammar lets the
keyword follow.  Elsewhere it is a name like any other: after `var` only a name can follow, so `if`
is one there.

* `Lexes.name_at`, `Lexes.name_of_not_expected`: a word that is spelled like a keyword is a name
  just where the keyword is not expected.
* `keyword_named_iff`: when a keyword is a name in the tree of a text.
* `mentioned_iff_isPossible`: any word may be introduced, and any but `true` and `false` be read.
-/

namespace Scriptlet

variable {m : Mention}

/-! ## Where a word is a name -/

/-- Each token is the first of the candidates at its place that is expected there. -/
theorem Lexes.token_at {before ts front after : List Token} {cs : List Char} {t : Token}
    (h : Lexes before cs ts) (hts : ts = front ++ t :: after) :
    ∃ cs skipped rest, Token.candidates cs = skipped ++ t :: rest ∧
      Expected (before ++ front) t.terminal ∧
      ∀ u ∈ skipped, ¬ Expected (before ++ front) u.terminal := by
  induction h generalizing front with
  | done => exact absurd hts.symm (List.append_ne_nil_of_right_ne_nil _ (List.cons_ne_nil _ _))
  | token hcandidates hskipped hexpected _ ih =>
    cases front with
    | nil =>
      obtain ⟨rfl, -⟩ := List.cons.inj hts
      rw [List.append_nil]
      exact ⟨_, _, _, hcandidates, hexpected, hskipped⟩
    | cons u front =>
      obtain ⟨rfl, hrest⟩ := List.cons.inj hts
      obtain ⟨cs, skipped, rest, hat, hnot⟩ := ih hrest
      rw [List.append_assoc] at hnot
      exact ⟨cs, skipped, rest, hat, hnot⟩

section Places

variable {front after : List Token} {cs word : List Char}

/-- **A word is a name only where no keyword of its spelling is expected.** -/
theorem Lexes.name_at (h : Lexes [] cs (front ++ ⟨.name, word⟩ :: after)) :
    IsWord word ∧ ∀ k : Keyword, k.spelling.toList = word → ¬ Expected front (.keyword k) := by
  obtain ⟨cs, skipped, rest, hat, -, hnot⟩ := h.token_at rfl
  obtain ⟨hword, hskipped⟩ := Token.isWord_of_candidates hat
  refine ⟨hword, fun k hk => hnot ⟨.keyword k, word⟩ (hskipped ?_)⟩
  refine List.mem_map.mpr ⟨k, List.mem_filter.mpr ⟨?_, decide_eq_true hk⟩, rfl⟩
  cases k <;> decide

/-- Where a keyword is not expected, a word of its spelling is a name. -/
theorem Lexes.name_of_not_expected {t : Token} {k : Keyword}
    (h : Lexes [] cs (front ++ t :: after)) (hspelling : t.lexeme = k.spelling.toList)
    (hnot : ¬ Expected front (.keyword k)) : t = ⟨.name, k.spelling.toList⟩ := by
  obtain ⟨cs, skipped, rest, hat, hexpected, -⟩ := h.token_at rfl
  have hmem : t ∈ Token.candidates cs := hat ▸ List.mem_append_right _ (List.mem_cons_self ..)
  rcases Token.terminal_of_isWord hmem (hspelling ▸ k.isWord) with hname | ⟨k', rfl⟩
  · rw [← hspelling, ← hname]
  · obtain rfl : k' = k := Keyword.spelling_injective (String.toList_inj.mp hspelling)
    exact absurd hexpected hnot

end Places

/-! ## Texts with any word for a name -/

section Scans

variable [CharacterNames] {word : List Char}

theorem scans_identifier (h : IsWord word) (htrue : word ≠ "true".toList)
    (hfalse : word ≠ "false".toList) :
    Scans .start ('(' :: (word ++ [')', ';']))
      [.of .openParen, ⟨.name, word⟩, .of .closeParen, .of .semicolon]
      [.expression (.identifier (String.ofList word))] := by
  refine Scans.token (splitLayout_of_ne (by decide) (by decide) _) rfl rfl ?_
  refine Scans.token (Token.splitLayout_word h _)
    (Reader.choose?_name h (endsWord_cons (by decide) _) rfl fun k hk => ?_) rfl ?_
  · cases k with
    | trueWord => exact absurd hk.symm htrue
    | falseWord => exact absurd hk.symm hfalse
    | _ => rfl
  refine Scans.token (splitLayout_of_ne (by decide) (by decide) _) rfl rfl ?_
  refine Scans.token (splitLayout_of_ne (by decide) (by decide) _) rfl rfl ?_
  exact Scans.done splitLayout_nil rfl

theorem scans_declaration (h : IsWord word) :
    Scans .start ("var".toList ++ ' ' :: (word ++ [';']))
      [.of (.keyword .varWord), ⟨.name, word⟩, .of .semicolon]
      [.declaration (String.ofList word) .absent] := by
  refine Scans.token (splitLayout_of_ne (by decide) (by decide) _)
    (Reader.choose?_keyword .varWord (endsWord_cons (by decide) _) rfl) rfl ?_
  refine Scans.token ((splitLayout_blank _).trans (Token.splitLayout_word h _))
    (Reader.choose?_name h (endsWord_cons (by decide) _) rfl fun k _ => by cases k <;> rfl) rfl ?_
  refine Scans.token (splitLayout_of_ne (by decide) (by decide) _) rfl rfl ?_
  exact Scans.done splitLayout_nil rfl

theorem scans_function (h : IsWord word) :
    Scans .start ("function".toList ++ ' ' :: (word ++ '(' :: (word ++ [')', '\x7b', '\x7d'])))
      [.of (.keyword .functionWord), ⟨.name, word⟩, .of .openParen, ⟨.name, word⟩,
        .of .closeParen, .of .openBrace, .of .closeBrace]
      [.function (String.ofList word) [String.ofList word] []] := by
  refine Scans.token (splitLayout_of_ne (by decide) (by decide) _)
    (Reader.choose?_keyword .functionWord (endsWord_cons (by decide) _) rfl) rfl ?_
  refine Scans.token ((splitLayout_blank _).trans (Token.splitLayout_word h _))
    (Reader.choose?_name h (endsWord_cons (by decide) _) rfl fun k _ => by cases k <;> rfl) rfl ?_
  refine Scans.token (splitLayout_of_ne (by decide) (by decide) _) rfl rfl ?_
  refine Scans.token (Token.splitLayout_word h _)
    (Reader.choose?_name h (endsWord_cons (by decide) _) rfl fun k _ => by cases k <;> rfl) rfl ?_
  refine Scans.token (splitLayout_of_ne (by decide) (by decide) _) rfl rfl ?_
  refine Scans.token (splitLayout_of_ne (by decide) (by decide) _) rfl rfl ?_
  refine Scans.token (splitLayout_of_ne (by decide) (by decide) _) rfl rfl ?_
  exact Scans.done splitLayout_nil rfl

end Scans

section Names

variable [CharacterNames] {name : String}

/-- A variable is read in brackets, where statements do not begin. -/
theorem parse_identifier (h : IsWord name.toList) (htrue : name ≠ "true")
    (hfalse : name ≠ "false") :
    parse ("(" ++ name ++ ");") = .ok [.expression (.identifier name)] := by
  have hscans := scans_identifier h (fun heq => htrue (String.toList_inj.mp heq))
    (fun heq => hfalse (String.toList_inj.mp heq))
  rw [String.ofList_toList] at hscans
  exact hscans.parse_eq_ok (by simp) (by simp [Token.isMalformed])

theorem parse_declaration (h : IsWord name.toList) :
    parse ("var " ++ name ++ ";") = .ok [.declaration name .absent] := by
  have hscans := scans_declaration h
  rw [String.ofList_toList] at hscans
  exact hscans.parse_eq_ok (by simp) (by simp [Token.isMalformed])

theorem parse_function (h : IsWord name.toList) :
    parse ("function " ++ name ++ "(" ++ name ++ ")\x7b\x7d") = .ok [.function name [name] []] := by
  have hscans := scans_function h
  rw [String.ofList_toList] at hscans
  exact hscans.parse_eq_ok (by simp) (by simp [Token.isMalformed])

end Names

/-! ## Programs -/

/-- A program may mention the name: it is a word, and not the word for a truth value where a
variable is read. -/
def Mention.IsPossible (m : Mention) : Prop :=
  (∃ word, IsWord word ∧ m.name = .plain (String.ofList word)) ∧
    m ≠ .identifier "true" ∧ m ≠ .identifier "false"

section Texts

variable [CharacterNames] {source : String} {body : List Node} {n : Node}

/-- A name in the tree of a text stands in the text. -/
theorem exists_name_of_mentions (hparse : parse source = .ok body) (hn : n ∈ body)
    (hm : n.Mentions m) : ∃ lexeme before after, m.name = .plain (String.ofList lexeme) ∧
      Lexes [] source.toList (before ++ ⟨.name, lexeme⟩ :: after) ∧
      ∀ name, m = .identifier name → ∀ p : Derivation .primary, ∃ e : Derivation .program,
        e.yield = before ++ (p.yield ++ after) := by
  obtain ⟨d, ⟨hlexes, -⟩, rfl⟩ := parse_eq_ok_iff_writes.mp hparse
  obtain ⟨lexeme, before, after, hlexeme, hyield, hothers⟩ := d.names ⟨n, hn, hm⟩
  exact ⟨lexeme, before, after, hlexeme, hyield ▸ hlexes, hothers⟩

theorem isPossible_of_mentions (hparse : parse source = .ok body) (hn : n ∈ body)
    (hm : n.Mentions m) : m.IsPossible := by
  obtain ⟨lexeme, before, after, hlexeme, hlexes, hothers⟩ := exists_name_of_mentions hparse hn hm
  obtain ⟨hword, hnot⟩ := hlexes.name_at
  refine ⟨⟨lexeme, hword, hlexeme⟩, ?_, ?_⟩
  -- in the place of a variable that is read the keyword could stand, so it would be expected
  · rintro rfl
    obtain ⟨e, he⟩ := hothers _ rfl .trueWord
    exact hnot .trueWord (congrArg String.toList (Text.plain.inj hlexeme) |>.trans
      String.toList_ofList) (Or.inl ⟨e, _, after, he⟩)
  · rintro rfl
    obtain ⟨e, he⟩ := hothers _ rfl .falseWord
    exact hnot .falseWord (congrArg String.toList (Text.plain.inj hlexeme) |>.trans
      String.toList_ofList) (Or.inl ⟨e, _, after, he⟩)

/-- **When a keyword is a name.**  A keyword is a name in the tree of a text just if a word of its
spelling stands in the text where the keyword is not expected.  The words for truth values are
expected wherever a variable can be read, so none is called `true` or `false`. -/
theorem keyword_named_iff (hparse : parse source = .ok body) :
    (∀ k : Keyword, (∃ n ∈ body, ∃ m : Mention, n.Mentions m ∧ m.name = k.spelling) ↔
      ∃ before t after, Lexes [] source.toList (before ++ t :: after) ∧
        t.lexeme = k.spelling.toList ∧ ¬ Expected before (.keyword k)) ∧
    ∀ n ∈ body, ¬ n.Mentions (.identifier "true") ∧ ¬ n.Mentions (.identifier "false") := by
  constructor
  · intro k
    constructor
    · rintro ⟨n, hn, m, hm, hname⟩
      obtain ⟨lexeme, before, after, hlexeme, hlexes, -⟩ := exists_name_of_mentions hparse hn hm
      have hspelling : lexeme = k.spelling.toList := by
        rw [← String.toList_ofList (l := lexeme), Text.plain.inj (hlexeme.symm.trans hname)]
      exact ⟨before, _, after, hlexes, hspelling, hlexes.name_at.2 k hspelling.symm⟩
    · rintro ⟨before, t, after, hlexes, hspelling, hnot⟩
      obtain rfl := hlexes.name_of_not_expected hspelling hnot
      obtain ⟨d, ⟨hd, -⟩, rfl⟩ := parse_eq_ok_iff_writes.mp hparse
      have hmem : ⟨.name, k.spelling.toList⟩ ∈ d.yield :=
        hd.unique hlexes ▸ List.mem_append_right _ (List.mem_cons_self ..)
      obtain ⟨m, hname, n, hn, hm⟩ := d.mentions_of_mem_yield hmem
      rw [String.ofList_toList] at hname
      exact ⟨n, hn, m, hm, hname⟩
  · intro n hn
    constructor
    · exact fun hm => (isPossible_of_mentions hparse hn hm).2.1 rfl
    · exact fun hm => (isPossible_of_mentions hparse hn hm).2.2 rfl

end Texts

/-- A variable may be called `if`: after `var`, the keyword is not expected. -/
theorem keyword_named_in_declaration :
    @parse .empty "var if;" = .ok [.declaration "if" .absent] ∧
    ∃ before t after, Lexes [] "var if;".toList (before ++ t :: after) ∧
      t.lexeme = "if".toList ∧ ¬ Expected before (.keyword .ifWord) := by
  have hparse : @parse .empty "var if;" = .ok [.declaration "if" .absent] :=
    @parse_declaration .empty "if" Keyword.ifWord.isWord
  exact ⟨hparse, ((@keyword_named_iff .empty _ _ hparse).1 .ifWord).mp
    ⟨_, List.mem_singleton_self _, .declared "if", Node.mentions_declaration.mpr (Or.inl rfl), rfl⟩⟩

/-- `if` is a keyword and the variable that is declared here. -/
theorem keyword_declared :
    Keyword.ifWord.spelling = "if" ∧
      @parse .empty "var if;" = .ok [.declaration "if" .absent] ∧
      (Node.declaration "if" .absent).Mentions (.declared "if") :=
  ⟨rfl, @parse_declaration .empty "if" Keyword.ifWord.isWord,
    Node.mentions_declaration.mpr (Or.inl rfl)⟩

section Possible

variable [CharacterNames]

/-- Any name that may be mentioned is mentioned in some text. -/
theorem exists_text_of_isPossible (h : m.IsPossible) :
    ∃ source body, parse source = .ok body ∧ ∃ n ∈ body, n.Mentions m := by
  obtain ⟨⟨word, hword, hname⟩, htrue, hfalse⟩ := h
  rw [← String.toList_ofList (l := word)] at hword
  cases m with
  | identifier name =>
    obtain rfl : name = .plain (String.ofList word) := hname
    have hparse := parse_identifier hword (fun heq => htrue (by rw [heq]))
      (fun heq => hfalse (by rw [heq]))
    exact ⟨_, _, hparse, _, List.mem_singleton_self _,
      Node.mentions_expression.mpr (Node.mentions_identifier.mpr rfl)⟩
  | function name =>
    obtain rfl : name = .plain (String.ofList word) := hname
    exact ⟨_, _, parse_function hword, _, List.mem_singleton_self _,
      Node.mentions_function.mpr (Or.inl rfl)⟩
  | param name =>
    obtain rfl : name = .plain (String.ofList word) := hname
    exact ⟨_, _, parse_function hword, _, List.mem_singleton_self _,
      Node.mentions_function.mpr (Or.inr (Or.inl ⟨_, List.mem_singleton_self _, rfl⟩))⟩
  | declared name =>
    obtain rfl : name = .plain (String.ofList word) := hname
    exact ⟨_, _, parse_declaration hword, _, List.mem_singleton_self _,
      Node.mentions_declaration.mpr (Or.inl rfl)⟩

/-- **What can be a name in a program**: every word, the keywords too; only a variable that is read
is not called `true` or `false`. -/
theorem mentioned_iff_isPossible :
    (∃ source body, parse source = .ok body ∧ ∃ n ∈ body, n.Mentions m) ↔ m.IsPossible := by
  constructor
  · rintro ⟨source, body, hparse, n, hn, hm⟩
    exact isPossible_of_mentions hparse hn hm
  · exact exists_text_of_isPossible

end Possible

end Scriptlet
