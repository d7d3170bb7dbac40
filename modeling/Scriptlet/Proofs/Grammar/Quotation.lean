import Scriptlet.Json.Write
import Scriptlet.Node.Encode
import Scriptlet.Proofs.Grammar.Layout
import Scriptlet.Proofs.Grammar.Steps

/-!
# Strings are spelled as in documents

What a document writes for a string is a literal of a program too, and it denotes the same string.
Documents write fewer escapes than programs read, so it is enough to know the three ways in which a
document writes a character.

* `Written c cs`: these three ways.
* `Written.closeString`, `Written.decodeInside`: one character of a literal.
* `closeString_flatMap`, `decode_writeString`: all of them.
* `writeBefore_literal` and the lemmas after it: where the string stands in a document.
* `parse_writeString` is the result.
-/

namespace Scriptlet
namespace Quotation

variable {c : Char} {cs tail : List Char}

/-! ## One character -/

/-- The ways in which a document writes a character: a backslash with a letter, a backslash with
the four hexadecimal digits of its code, or the character. -/
inductive Written : Char → List Char → Prop
  | letter {c d : Char} (h : StringLiteral.unescape? d = some c) : Written c ['\\', d]
  | code {c : Char} {digits : List Char} (hlength : digits.length = 4)
      (hdigits : ∀ d ∈ digits, (Text.hexDigit? d).isSome = true)
      (h : StringLiteral.hexSymbol? 4 digits = some (.char c)) : Written c ('\\' :: 'u' :: digits)
  | plain {c : Char} (h : Reader.IsPlainInside c) : Written c [c]

/-- The codes that documents write. -/
theorem written_code (h : c.toNat < 0x20) :
    Written c ('\\' :: 'u' :: Text.hexadecimal 4 c.toNat) := by
  have hlength : ∀ n < 0x20, (Text.hexadecimal 4 n).length = 4 := by decide
  have hdigits : ∀ n < 0x20,
      ((Text.hexadecimal 4 n).all fun d => (Text.hexDigit? d).isSome) = true := by decide
  have hchar : ∀ n < 0x20,
      StringLiteral.hexSymbol? 4 (Text.hexadecimal 4 n) = some (.char (Char.ofNat n)) := by decide
  refine .code (hlength _ h) (List.all_eq_true.mp (hdigits _ h)) ?_
  rw [hchar _ h, Char.ofNat_toNat]

/-- **A document writes each character in one of these ways.** -/
theorem written_writeChar (c : Char) : Written c (Json.writeChar c) := by
  unfold Json.writeChar
  split
  · rename_i h
    rcases h with rfl | rfl <;> exact .letter rfl
  split
  · rename_i h
    exact h ▸ .letter rfl
  split
  · rename_i h
    exact h ▸ .letter rfl
  split
  · rename_i h
    exact h ▸ .letter rfl
  split
  · rename_i h
    exact h ▸ .letter rfl
  split
  · rename_i h
    exact h ▸ .letter rfl
  split
  · rename_i h
    exact written_code h
  · rename_i hquoted hline hreturn _ _ _ hcode
    obtain ⟨hquote, hslash⟩ := not_or.mp hquoted
    refine .plain ⟨hquote, hslash, hline, hreturn, ?_⟩
    rintro rfl
    exact hcode (by decide)

/-- No digit ends a literal. -/
theorem closeString_digits (h : ∀ d ∈ cs, (Text.hexDigit? d).isSome = true) (tail : List Char) :
    Token.closeString '"' (cs ++ tail) = (Token.closeString '"' tail).map (cs ++ ·) := by
  induction cs with
  | nil => exact Option.map_id'.symm
  | cons d cs ih =>
    obtain ⟨hd, hmore⟩ := List.forall_mem_cons.mp h
    have hne {e : Char} (he : Text.hexDigit? e = none) : d ≠ e := by
      rintro rfl
      rw [he] at hd
      cases hd
    rw [List.cons_append, Reader.closeString_cons (hne rfl), if_neg (hne rfl), if_neg (hne rfl),
      ih hmore, Option.map_map]
    rfl

/-- In a literal, what is written for a character is taken as a whole. -/
theorem Written.closeString (h : Written c cs) (tail : List Char) :
    Token.closeString '"' (cs ++ tail) = (Token.closeString '"' tail).map (cs ++ ·) := by
  cases h with
  | @letter d h =>
    have hline : d ≠ '\n' := by
      rintro rfl
      cases h
    show Token.closeString '"' ('\\' :: d :: tail) = _
    rw [Token.closeString, if_neg hline]
    rfl
  | @code digits _ hdigits =>
    show Token.closeString '"' ('\\' :: 'u' :: (digits ++ tail)) = _
    rw [Token.closeString, if_neg (by decide), closeString_digits hdigits, Option.map_map]
    rfl
  | plain h =>
    obtain ⟨hquote, hslash, hline, -, -⟩ := h
    show Token.closeString '"' (c :: tail) = _
    rw [Reader.closeString_cons hslash, if_neg hquote, if_neg hline]
    rfl

/-- The literal ends with the quote that the document ends the string with. -/
theorem closeString_flatMap (cs tail : List Char) :
    Token.closeString '"' (cs.flatMap Json.writeChar ++ '"' :: tail) =
      some (cs.flatMap Json.writeChar ++ ['"']) := by
  induction cs with
  | nil => rfl
  | cons c cs ih =>
    rw [List.flatMap_cons, List.append_assoc, (written_writeChar c).closeString, ih,
      List.append_assoc]
    rfl

section Denotation

variable [CharacterNames]

/-- What is written for a character denotes the character. -/
theorem Written.decodeInside (h : Written c cs) (tail : List Char) :
    StringLiteral.decodeInside (cs ++ tail) =
      (StringLiteral.decodeInside tail).map (.char c :: ·) := by
  cases h with
  | @letter d h =>
    have hne {e : Char} (he : StringLiteral.unescape? e = none) : d ≠ e := by
      rintro rfl
      rw [he] at h
      cases h
    show StringLiteral.decodeInside ('\\' :: d :: tail) = _
    rw [StringLiteral.decodeInside, if_neg (hne rfl), if_neg (hne rfl), if_neg (hne rfl), h]
  | @code digits hlength hdigits h =>
    have hvalue : StringLiteral.hexSymbol? 4 (digits ++ tail) = some (.char c) := by
      rw [← h, StringLiteral.hexSymbol?, StringLiteral.hexSymbol?, ← hlength, List.take_left,
        List.take_length]
    show StringLiteral.decodeInside ('\\' :: 'u' :: (digits ++ tail)) = _
    rw [StringLiteral.decodeInside, if_neg (by decide), if_neg (by decide), if_neg (by decide)]
    show (StringLiteral.hexSymbol? 4 (digits ++ tail)).bind (fun d =>
      (StringLiteral.decodeInside ((digits ++ tail).drop 4)).map (d :: ·)) = _
    rw [hvalue, ← hlength, List.drop_left]
    rfl
  | plain h =>
    obtain ⟨-, hslash, -, hreturn, hnull⟩ := h
    show StringLiteral.decodeInside (c :: tail) = _
    rw [StringLiteral.decodeInside, if_neg (not_or.mpr ⟨hreturn, hnull⟩)]
    · exact fun _ _ heq _ => hslash heq
    · exact fun heq _ => hslash heq

/-! ## Whole strings -/

theorem decodeInside_flatMap (cs : List Char) :
    StringLiteral.decodeInside (cs.flatMap Json.writeChar) = some (cs.map .char) := by
  induction cs with
  | nil => rw [List.flatMap_nil, StringLiteral.decodeInside, List.map_nil]
  | cons c cs ih =>
    rw [List.flatMap_cons, (written_writeChar c).decodeInside, ih]
    rfl

/-- The literal denotes the string. -/
theorem decode_writeString (s : String) :
    StringLiteral.decode (Json.writeString s) = some (.plain s) := by
  have hinside : ((Json.writeString s).drop 1).dropLast = s.toList.flatMap Json.writeChar :=
    List.dropLast_concat
  rw [StringLiteral.decode, hinside, decodeInside_flatMap, Option.map_some, Text.ofSymbols_chars,
    String.ofList_toList]

/-- The string is read from its spelling, whatever follows. -/
theorem choose?_writeString {r : Reader} (s : String) (tail : List Char)
    (haccepts : r.accepts .string = true) :
    r.choose? (Json.writeString s ++ tail) = some ⟨.string, Json.writeString s⟩ := by
  have hstring : Token.scanString (Json.writeString s ++ tail) =
      some ⟨.string, Json.writeString s⟩ := by
    rw [Json.writeString, List.append_assoc, List.cons_append, Token.scanString,
      if_pos (Or.inl rfl)]
    show ((Token.closeString '"' (s.toList.flatMap Json.writeChar ++ '"' :: tail)).map _) = _
    rw [closeString_flatMap]
    rfl
  refine Reader.choose?_of_head? ?_ haccepts
  rw [Token.candidates, hstring]
  rfl

theorem scans_writeString (s : String) :
    Scans .start (Json.writeString s ++ [';'])
      [⟨.string, Json.writeString s⟩, .of .semicolon] [.expression (.literal (.string s))] := by
  have hbody : [Node.expression (.literal (.string s))] =
      [.expression (.literal (.string ((StringLiteral.decode (Json.writeString s)).getD "")))] := by
    rw [decode_writeString]
    rfl
  rw [hbody]
  refine Scans.token (splitLayout_of_ne (by decide) (by decide) _)
    (choose?_writeString s _ rfl) rfl ?_
  refine Scans.token (splitLayout_of_ne (by decide) (by decide) []) rfl rfl ?_
  exact Scans.done splitLayout_nil rfl

end Denotation

/-! ## The document of a string, from the inside to the outside -/

theorem writeBefore_literal (s : String) (rest : List Char) :
    Json.writeBefore .indented 3 (Node.toJson (.literal (.string s))) rest =
      "\x7b\n        \"type\": \"Literal\",\n        \"value\": ".toList ++
        (Json.writeString s ++ ("\n      \x7d".toList ++ rest)) := by
  rfl

theorem writeBefore_expression (n : Node) (rest : List Char) :
    Json.writeBefore .indented 2 (Node.toJson (.expression n)) rest =
      "\x7b\n      \"type\": \"ExpressionStatement\",\n      \"expression\": ".toList ++
        Json.writeBefore .indented 3 n.toJson ("\n    \x7d".toList ++ rest) := by
  rfl

theorem writeMembers_body (n : Node) (rest : List Char) :
    Json.writeMembers .indented 1 [("body", .array [n.toJson])] rest =
      ",\n  \"body\": [\n    ".toList ++
        Json.writeBefore .indented 2 n.toJson ("\n  ]".toList ++ rest) := by
  rfl

theorem writeBefore_program (n : Node) (rest : List Char) :
    Json.writeBefore .indented 0 (Node.toJson (.program [n])) rest =
      "\x7b\n  \"type\": \"Program\",\n  \"sourceType\": \"script\"".toList ++
        Json.writeMembers .indented 1 [("body", .array [n.toJson])] ("\n\x7d".toList ++ rest) := by
  rfl

end Quotation

/-- **Every string can be written as a literal, as documents spell it.**  In front of a semicolon
the spelling is a program whose only statement is the string, and the document of that program has
the spelling for the value of the literal. -/
theorem parse_writeString [CharacterNames] (s : String) :
    parse (Json.write .oneLine (.string s) ++ ";") = .ok [.expression (.literal (.string s))] ∧
    Json.write .indented (Node.toJson (.program [.expression (.literal (.string s))])) =
      "\x7b\n  \"type\": \"Program\",\n  \"sourceType\": \"script\"" ++
      ",\n  \"body\": [\n    " ++
      "\x7b\n      \"type\": \"ExpressionStatement\",\n      \"expression\": " ++
      "\x7b\n        \"type\": \"Literal\",\n        \"value\": " ++
      Json.write .oneLine (.string s) ++ "\n      \x7d" ++ "\n    \x7d" ++ "\n  ]" ++ "\n\x7d" := by
  have hspelling : (Json.write .oneLine (.string s)).toList = Json.writeString s := by
    rw [Json.write, String.toList_ofList, Json.writeBefore, Json.writeText, List.append_nil]
  constructor
  · refine (Quotation.scans_writeString s).parse_eq_ok ?_ ?_
    · rw [String.toList_append, hspelling]
      rfl
    · refine List.forall_mem_cons.mpr ⟨?_, List.forall_mem_singleton.mpr rfl⟩
      rw [Token.isMalformed, Quotation.decode_writeString]
      rfl
  · refine String.toList_inj.mp ?_
    rw [Json.write, String.toList_ofList, Quotation.writeBefore_program,
      Quotation.writeMembers_body, Quotation.writeBefore_expression,
      Quotation.writeBefore_literal]
    simp only [String.toList_append, hspelling, List.append_assoc, List.append_nil]

end Scriptlet
