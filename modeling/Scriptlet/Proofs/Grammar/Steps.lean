import Scriptlet.Proofs.Grammar.Parsing

/-!
# Reading token by token

To find the program that a given text spells, its tokens are read off one after another.  What
follows a token matters only as far as the token could go on.

* `Scans r cs ts body`: from the state `r` the text is read as the tokens, and the program is
  `body`.
* `readTokens_token`, `readTokens_unexpected`: one step of the reader.
* `Scans.token`, `Scans.done`: one token more, and the end.
* `Scans.lexes`, `Scans.parse_eq_ok`: what is read is cut that way and parsed.
* `Reader.choose?_number`, `Reader.choose?_string`: two sorts of token without a fixed spelling.
-/

namespace Scriptlet

variable [CharacterNames] {r s : Reader} {cs rest tail word : List Char} {ts : List Token}
  {body : List Node}

/-- From the state the text is read as the tokens, wherever it stands, and the program is the
body. -/
def Scans (r : Reader) (cs : List Char) (ts : List Token) (body : List Node) : Prop :=
  ∀ last place, readTokens r last place cs = .ok (ts, body)

theorem Scans.done (hlayout : (Token.splitLayout cs).2 = []) (hfinish : r.finish? = some body) :
    Scans r cs [] body := by
  intro last place
  unfold readTokens
  dsimp only
  split
  · rw [hfinish]
  · rename_i hrest
    rw [hlayout] at hrest
    cases hrest

/-- After layout a token is read, and then the rest of the text. -/
theorem readTokens_token {t : Token} (hlayout : (Token.splitLayout cs).2 = t.lexeme ++ rest)
    (hchoose : r.choose? (t.lexeme ++ rest) = some t) (hfeed : r.feed t = some s)
    (last place : Text.Position) :
    readTokens r last place cs =
      (readTokens s (place.advance (Token.splitLayout cs).1)
        ((place.advance (Token.splitLayout cs).1).advance t.lexeme) rest).map
          fun (tokens, body) => (t :: tokens, body) := by
  rw [readTokens.eq_def r]
  dsimp only
  split
  · rename_i hrest
    rw [← hlayout, hrest] at hchoose
    cases hchoose
  · rename_i c others hrest
    rw [hlayout] at hrest
    rw [← hrest]
    split
    · rename_i hnone
      rw [hchoose] at hnone
      cases hnone
    · rename_i u hu
      rw [hchoose] at hu
      cases hu
      split
      · rename_i hnone
        rw [hfeed] at hnone
        cases hnone
      · rename_i r' hr'
        rw [hfeed] at hr'
        cases hr'
        rw [List.drop_left]

/-- After layout nothing that stands there is accepted. -/
theorem readTokens_unexpected {c : Char} (hlayout : (Token.splitLayout cs).2 = c :: rest)
    (hchoose : r.choose? (c :: rest) = none) (last place : Text.Position) :
    readTokens r last place cs =
      .error (.unexpected (place.advance (Token.splitLayout cs).1) c rest) := by
  rw [readTokens.eq_def r]
  dsimp only
  split
  · rename_i hrest
    rw [hlayout] at hrest
    cases hrest
  · rename_i c' others hrest
    rw [hlayout] at hrest
    cases hrest
    split
    · rfl
    · rename_i u hu
      rw [hchoose] at hu
      cases hu

theorem Scans.token {t : Token} (hlayout : (Token.splitLayout cs).2 = t.lexeme ++ rest)
    (hchoose : r.choose? (t.lexeme ++ rest) = some t) (hfeed : r.feed t = some s)
    (hmore : Scans s rest ts body) : Scans r cs (t :: ts) body := by
  intro last place
  rw [readTokens_token hlayout hchoose hfeed, hmore]
  rfl

/-- What is read is cut that way. -/
theorem Scans.lexes (h : Scans .start cs ts body) : Lexes [] cs ts := by
  have hnone : ∀ t ∈ ([] : List Token), t.IsProper := fun _ ht => nomatch ht
  exact ((readTokens_eq_ok_iff hnone rfl).mp (h .start .start)).1

theorem Scans.parse_eq_ok {source : String} (h : Scans .start cs ts body)
    (hsource : source.toList = cs) (hwell : ∀ t ∈ ts, t.isMalformed = false) :
    parse source = .ok body :=
  parse_eq_ok_iff.mpr ⟨ts, hsource ▸ h .start .start, hwell⟩

/-! ## Choices -/

namespace Reader

open Token (candidates scanString scanNumber scanWord scanSign isNameStart isNameRest)

/-- A token that no other is preferred to is chosen where it is accepted. -/
theorem choose?_of_head? {t : Token} (h : (candidates cs).head? = some t)
    (haccepts : r.accepts t.terminal = true) : r.choose? cs = some t := by
  obtain ⟨others, hothers⟩ := List.head?_eq_some_iff.mp h
  rw [choose?, hothers]
  exact List.find?_cons_of_pos haccepts

omit [CharacterNames] in
/-- The first character of a numeral is a digit or a point, so it starts no string. -/
theorem scanString_numeral {n : Numeral} (h : n.IsWritten Text.digitValue) (tail : List Char) :
    scanString (n.text ++ tail) = none := by
  have hquote : ∀ c ∈ n.text, ¬ (c = '"' ∨ c = '\'') := by
    refine h.forall_mem_text (fun c hc => ?_) (by simp)
    rintro (rfl | rfl)
    · have hnone : Text.digitValue '"' = none := by decide
      rw [hnone] at hc
      cases hc
    · have hnone : Text.digitValue '\'' = none := by decide
      rw [hnone] at hc
      cases hc
  cases htext : n.text with
  | nil => exact absurd htext (Numeral.text_ne_nil_of_scan (h.scan_text Token.plain_digitValue))
  | cons c cs =>
    rw [List.cons_append, scanString, if_neg]
    exact hquote c (htext ▸ List.mem_cons_self ..)

/-- **A number is read up to where it does not go on.** -/
theorem choose?_number {n : Numeral} (h : n.IsWritten Text.digitValue)
    (htail : Numeral.Ends Text.digitValue tail) (haccepts : r.accepts .number = true) :
    r.choose? (n.text ++ tail) = some ⟨.number, n.text⟩ := by
  have hnumber : scanNumber (n.text ++ tail) = some ⟨.number, n.text⟩ := by
    rw [scanNumber, h.scan_append Token.plain_digitValue htail]
    rfl
  refine choose?_of_head? ?_ haccepts
  rw [candidates, scanString_numeral h, hnumber]
  rfl

/-- The character stands for itself in a string between double quotes. -/
def IsPlainInside (c : Char) : Prop :=
  c ≠ '"' ∧ c ≠ '\\' ∧ c ≠ '\n' ∧ c ≠ '\r' ∧ c ≠ '\x00'

omit [CharacterNames] in
/-- A character that is no backslash ends a string, or is not allowed, or stands in it. -/
theorem closeString_cons {quote c : Char} (hslash : c ≠ '\\') (cs : List Char) :
    Token.closeString quote (c :: cs) =
      if c = quote then some [c]
      else if c = '\n' then none
      else (Token.closeString quote cs).map (c :: ·) := by
  rw [Token.closeString.eq_def]
  split
  · rename_i heq
    cases heq
  · rename_i heq
    exact absurd (List.cons.inj heq).1 hslash
  · rename_i heq
    obtain ⟨rfl, rfl⟩ := List.cons.inj heq
    simp only [or_iff_left hslash]

omit [CharacterNames] in
theorem closeString_of_plain {inside : List Char} (h : ∀ c ∈ inside, IsPlainInside c)
    (tail : List Char) :
    Token.closeString '"' (inside ++ '"' :: tail) = some (inside ++ ['"']) := by
  induction inside with
  | nil => rfl
  | cons c inside ih =>
    obtain ⟨⟨hquote, hslash, hline, -, -⟩, hrest⟩ := List.forall_mem_cons.mp h
    rw [List.cons_append, closeString_cons hslash, if_neg hquote, if_neg hline, ih hrest]
    rfl

/-- **A string of plain characters is read up to its closing quote.** -/
theorem choose?_string {inside : List Char} (h : ∀ c ∈ inside, IsPlainInside c)
    (tail : List Char) (haccepts : r.accepts .string = true) :
    r.choose? ('"' :: inside ++ ['"'] ++ tail) = some ⟨.string, '"' :: inside ++ ['"']⟩ := by
  have hstring : scanString ('"' :: (inside ++ '"' :: tail)) =
      some ⟨.string, '"' :: (inside ++ ['"'])⟩ := by
    rw [scanString, if_pos (Or.inl rfl), closeString_of_plain h]
    rfl
  simp only [List.cons_append, List.append_assoc, List.nil_append]
  refine choose?_of_head? ?_ haccepts
  rw [candidates, hstring]
  rfl

theorem decodeInside_of_plain {inside : List Char} (h : ∀ c ∈ inside, IsPlainInside c) :
    StringLiteral.decodeInside inside = some (inside.map .char) := by
  induction inside with
  | nil => rw [StringLiteral.decodeInside, List.map_nil]
  | cons c inside ih =>
    obtain ⟨⟨-, hslash, -, hreturn, hnull⟩, hrest⟩ := List.forall_mem_cons.mp h
    rw [StringLiteral.decodeInside, if_neg (not_or.mpr ⟨hreturn, hnull⟩), ih hrest]
    · rfl
    · exact fun _ _ heq _ => hslash heq
    · exact fun heq _ => hslash heq

/-- Plain characters denote themselves. -/
theorem decode_of_plain {inside : List Char} (h : ∀ c ∈ inside, IsPlainInside c) :
    StringLiteral.decode ('"' :: inside ++ ['"']) = some (.plain (String.ofList inside)) := by
  have hinside : (('"' :: inside ++ ['"']).drop 1).dropLast = inside := List.dropLast_concat
  rw [StringLiteral.decode, hinside, decodeInside_of_plain h, Option.map_some,
    Text.ofSymbols_chars]

end Reader

end Scriptlet
