import Scriptlet.Proofs.Grammar.Boundaries
import Scriptlet.Proofs.Grammar.Names

/-!
# Layout does not matter

A program may be written again with other layout between its tokens, and it stays the same program.
What each token needs is a blank behind it: nothing that is read looks farther.  The blank also
keeps a slash from beginning a comment with what follows it.

* `IsSeparator`: layout that begins with a blank.
* `Spaced ts cs`: the text is the tokens with separators before, between and after them.
* `Lexes.spaced`: a text with separators is cut as the text that the tokens come from.
* `parse_spaced` is the result.
-/

namespace Scriptlet

variable {before ts : List Token} {cs cs' sep : List Char} {t : Token}

/-- Layout that begins with a blank. -/
def IsSeparator (sep : List Char) : Prop :=
  ∃ d l, Token.isLayoutBlank d = true ∧ Token.IsLayout l ∧ sep = d :: l

theorem IsSeparator.isLayout (h : IsSeparator sep) : Token.IsLayout sep := by
  obtain ⟨d, l, hd, hl, rfl⟩ := h
  exact .blank hd hl

/-- The text is the tokens in order, with a separator before, between and after them. -/
inductive Spaced : List Token → List Char → Prop
  | last {sep : List Char} (hsep : IsSeparator sep) : Spaced [] sep
  | token {sep cs : List Char} {t : Token} {ts : List Token} (hsep : IsSeparator sep)
      (h : Spaced ts cs) : Spaced (t :: ts) (sep ++ (t.lexeme ++ cs))

/-- There is a blank in front of a text with separators. -/
theorem Spaced.exists_blank (h : Spaced ts cs) :
    ∃ d tail, Token.isLayoutBlank d = true ∧ cs = d :: tail := by
  cases h with
  | last hsep =>
    obtain ⟨d, l, hd, -, rfl⟩ := hsep
    exact ⟨d, l, hd, rfl⟩
  | token hsep =>
    obtain ⟨d, l, hd, -, rfl⟩ := hsep
    exact ⟨d, _, hd, rfl⟩

/-- **Other layout leaves the tokens as they are.** -/
theorem Lexes.spaced (h : Lexes before cs ts) (hspaced : Spaced ts cs') :
    Lexes before cs' ts := by
  induction ts generalizing before cs cs' with
  | nil =>
    cases hspaced with
    | last hsep =>
      have hlayout := Token.splitLayout_append_of_isLayout hsep.isLayout []
      rw [List.append_nil, splitLayout_nil] at hlayout
      exact .done hlayout
  | cons t ts ih =>
    obtain ⟨htakes, hmore⟩ := lexes_cons_iff.mp h
    obtain ⟨rest, hrest⟩ := htakes.exists_rest
    cases hspaced with
    | @token sep cs'' _ _ hsep hspaced =>
      have hagain := ih hmore hspaced
      obtain ⟨d, tail, hd, rfl⟩ := hspaced.exists_blank
      have hnext : (Token.splitLayout cs).2 = t.lexeme ++ ([] ++ rest) := hrest
      exact htakes.lexes_cons hnext hsep.isLayout hd (fun _ => rfl) hagain

/-- **Layout does not matter.**  If a text is parsed, then the tokens that were read from it,
written in order with any separators before, between and after them, are read again and parsed to
the same program. -/
theorem parse_spaced [CharacterNames] {source : String} {body : List Node}
    (h : parse source = .ok body) :
    ∃ ts, readTokens .start .start .start source.toList = .ok (ts, body) ∧
      ∀ spaced : String, Spaced ts spaced.toList →
        readTokens .start .start .start spaced.toList = .ok (ts, body) ∧
          parse spaced = .ok body := by
  have hnone : ∀ t ∈ ([] : List Token), t.IsProper := fun _ ht => nomatch ht
  obtain ⟨ts, hread, hwell⟩ := parse_eq_ok_iff.mp h
  refine ⟨ts, hread, fun spaced hspaced => ?_⟩
  obtain ⟨hlexes, hfeed⟩ := (readTokens_eq_ok_iff hnone rfl).mp hread
  have hagain : readTokens .start .start .start spaced.toList = .ok (ts, body) :=
    (readTokens_eq_ok_iff hnone rfl).mpr ⟨hlexes.spaced hspaced, hfeed⟩
  exact ⟨hagain, parse_eq_ok_iff.mpr ⟨ts, hagain, hwell⟩⟩

/-- A declaration of a variable called `if` with a tabulator and a comment between its tokens, and
with other comments before and after them. -/
theorem parse_spaced_declaration :
    @parse .empty "var if;" = .ok [.declaration "if" .absent] ∧
    Spaced [.of (.keyword .varWord), ⟨.name, "if".toList⟩, .of .semicolon]
      " // \x7b\n var\t/* if */if\n; /**/".toList ∧
    @parse .empty " // \x7b\n var\t/* if */if\n; /**/" = .ok [.declaration "if" .absent] := by
  have hparse : @parse .empty "var if;" = .ok [.declaration "if" .absent] :=
    @parse_declaration .empty "if" Keyword.ifWord.isWord
  have hfirst : IsSeparator " // \x7b\n ".toList :=
    ⟨' ', _, rfl, @Token.IsLayout.line [' ', '\x7b'] _ (by decide) (.blank rfl .nil), rfl⟩
  have hsecond : IsSeparator "\t/* if */".toList :=
    ⟨'\t', _, rfl, @Token.IsLayout.block " if ".toList _ (by decide) .nil, rfl⟩
  have hthird : IsSeparator "\n".toList := ⟨'\n', _, rfl, .nil, rfl⟩
  have hlast : IsSeparator " /**/".toList :=
    ⟨' ', _, rfl, @Token.IsLayout.block [] _ (by decide) .nil, rfl⟩
  have hspaced : Spaced [.of (.keyword .varWord), ⟨.name, "if".toList⟩, .of .semicolon]
      " // \x7b\n var\t/* if */if\n; /**/".toList :=
    .token hfirst (.token hsecond (.token hthird (.last hlast)))
  obtain ⟨ts, hread, hall⟩ := @parse_spaced .empty _ _ hparse
  have htokens := @scans_declaration .empty _ Keyword.ifWord.isWord .start .start
  rw [show "var if;".toList = "var".toList ++ ' ' :: ("if".toList ++ [';']) from rfl] at hread
  obtain ⟨rfl, -⟩ := Prod.mk.inj (Except.ok.inj (hread.symm.trans htokens))
  exact ⟨hparse, hspaced, (hall _ hspaced).2⟩

end Scriptlet
