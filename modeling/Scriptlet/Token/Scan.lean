import Scriptlet.Decimal.Numeral
import Scriptlet.Text.Digit
import Scriptlet.Token

/-!
# Scanning program text

Which token stands at the front of a text depends on what the grammar accepts there: a keyword
where no keyword fits is a name, and `=` before another `=` is an assignment where an assignment
fits.  So scanning gives all candidates, in the order in which they are preferred, and the reader
takes the first that it accepts.

* `candidates` lists the tokens that may stand at the front of a text.
* `splitLayout` takes off the white space and comments at the front of a text.
* `mem_candidates_cases` says what a candidate may be, `lexeme_ne_nil` that no candidate is empty,
  and `splitLayout_append` that layout is only split off; reading a text ends for these reasons.
-/

namespace Scriptlet
namespace Token

/-- A character that starts a name. -/
def isNameStart (c : Char) : Bool := c.isAlpha || c = '_' || c = '$'

/-- A character that continues a name. -/
def isNameRest (c : Char) : Bool := isNameStart c || c.isDigit

/-- The characters of a string literal after its opening quote, up to and with its closing one.
A backslash takes the next character along, and a line feed stands nowhere. -/
def closeString (quote : Char) : List Char → Option (List Char)
  | [] => none
  | '\\' :: c :: cs => if c = '\n' then none else (closeString quote cs).map ('\\' :: c :: ·)
  | c :: cs =>
    if c = quote then some [c]
    else if c = '\n' ∨ c = '\\' then none
    else (closeString quote cs).map (c :: ·)

/-- The string literal at the front of a text. -/
def scanString : List Char → Option Token
  | c :: cs =>
    if c = '"' ∨ c = '\'' then (closeString c cs).map fun body => ⟨.string, c :: body⟩ else none
  | [] => none

/-- The number literal at the front of a text. -/
def scanNumber (cs : List Char) : Option Token :=
  (Numeral.scan Text.digitValue cs).map fun (n, _) => ⟨.number, n.text⟩

/-- The keywords that a word is. -/
def keywordsOf (word : List Char) : List Token :=
  (Keyword.all.filter fun k => k.spelling.toList = word).map fun k => ⟨.keyword k, word⟩

/-- The keywords that a text starts with, whatever follows them. -/
def keywordsBefore (cs : List Char) : List Token :=
  (Keyword.all.filter fun k => k.spelling.toList.isPrefixOf cs).map fun k =>
    ⟨.keyword k, k.spelling.toList⟩

/-- The tokens that the word at the front of a text can be: the keyword that the whole word is, a
name, or a keyword that the word starts with. -/
def scanWord : List Char → List Token
  | c :: cs =>
    if isNameStart c then
      let word := c :: cs.takeWhile isNameRest
      keywordsOf word ++ ⟨.name, word⟩ :: keywordsBefore (c :: cs)
    else []
  | [] => []

/-- The signs at the front of a text. -/
def scanSign (cs : List Char) : List Token := signs.filter fun t => t.lexeme.isPrefixOf cs

/-- The tokens that may stand at the front of a text, the preferred ones first. -/
def candidates (cs : List Char) : List Token :=
  (scanString cs).toList ++ (scanNumber cs).toList ++ scanWord cs ++ scanSign cs

/-- No sign is empty. -/
theorem signs_nonempty : ∀ t ∈ signs, t.lexeme ≠ [] := by decide

/-- What a candidate may be. -/
theorem mem_candidates_cases {t : Token} {cs : List Char} (h : t ∈ candidates cs) :
    (∃ quote body, (quote = '"' ∨ quote = '\'') ∧ t = ⟨.string, quote :: body⟩) ∨
    (∃ n rest, Numeral.scan Text.digitValue cs = some (n, rest) ∧ t = ⟨.number, n.text⟩) ∨
    (∃ first rest, isNameStart first = true ∧ cs = first :: rest ∧
      t = ⟨.name, first :: rest.takeWhile isNameRest⟩) ∨
    (∃ k : Keyword, t = ⟨.keyword k, k.spelling.toList⟩) ∨
    t ∈ signs := by
  simp only [candidates, List.mem_append, Option.mem_toList] at h
  rcases h with ((h | h) | h) | h
  · cases cs with
    | nil => cases h
    | cons c cs =>
      rw [scanString] at h
      split at h
      · rename_i quoted
        obtain ⟨body, -, rfl⟩ := Option.map_eq_some_iff.1 h
        exact .inl ⟨c, body, quoted, rfl⟩
      · cases h
  · obtain ⟨⟨n, rest⟩, found, rfl⟩ := Option.map_eq_some_iff.1 h
    exact .inr (.inl ⟨n, rest, found, rfl⟩)
  · cases cs with
    | nil => cases h
    | cons c cs =>
      rw [scanWord] at h
      split at h
      · rename_i starts
        simp only [List.mem_append, List.mem_cons, keywordsOf, keywordsBefore, List.mem_map,
          List.mem_filter, decide_eq_true_eq] at h
        rcases h with ⟨k, ⟨-, hk⟩, rfl⟩ | rfl | ⟨k, -, rfl⟩
        · exact .inr (.inr (.inr (.inl ⟨k, congrArg (Token.mk _) hk.symm⟩)))
        · exact .inr (.inr (.inl ⟨c, cs, starts, rfl, rfl⟩))
        · exact .inr (.inr (.inr (.inl ⟨k, rfl⟩)))
      · cases h
  · exact .inr (.inr (.inr (.inr (List.mem_filter.1 h).1)))

/-- No candidate is empty. -/
theorem lexeme_ne_nil {t : Token} {cs : List Char} (h : t ∈ candidates cs) : t.lexeme ≠ [] := by
  rcases mem_candidates_cases h with
    ⟨quote, body, -, rfl⟩ | ⟨n, rest, found, rfl⟩ | ⟨first, rest, -, -, rfl⟩ | ⟨k, rfl⟩ | h
  · exact List.cons_ne_nil _ _
  · exact Numeral.text_ne_nil_of_scan found
  · exact List.cons_ne_nil _ _
  · cases k <;> decide
  · exact signs_nonempty t h

/-! ## Layout -/

/-- White space between tokens. -/
def isLayoutBlank (c : Char) : Bool :=
  c = ' ' || c = '\t' || c = '\x0c' || c = '\r' || c = '\n'

/-- The rest of a comment that ends with a star and a slash, and what follows it. -/
def closeComment : List Char → Option (List Char × List Char)
  | '*' :: '/' :: cs => some (['*', '/'], cs)
  | c :: cs => (closeComment cs).map fun (body, rest) => (c :: body, rest)
  | [] => none

/-- The comment at the front of a text, and what follows it.  The line feed after a comment that
two slashes start is no part of it. -/
def splitComment : List Char → Option (List Char × List Char)
  | '/' :: '/' :: cs =>
    some ('/' :: '/' :: cs.takeWhile (· ≠ '\n'), cs.dropWhile (· ≠ '\n'))
  | '/' :: '*' :: cs => (closeComment cs).map fun (body, rest) => ('/' :: '*' :: body, rest)
  | _ => none

theorem closeComment_append {cs body rest : List Char} (h : closeComment cs = some (body, rest)) :
    body ++ rest = cs := by
  fun_induction closeComment cs generalizing body with
  | case1 cs => cases h; rfl
  | case2 c cs _ ih =>
    obtain ⟨⟨b, r⟩, found, same⟩ := Option.map_eq_some_iff.1 h
    simp only [Prod.mk.injEq] at same
    obtain ⟨rfl, rfl⟩ := same
    rw [List.cons_append, ih found]
  | case3 => cases h

theorem splitComment_append {cs body rest : List Char} (h : splitComment cs = some (body, rest)) :
    body ++ rest = cs ∧ body ≠ [] := by
  fun_cases splitComment cs with
  | case1 cs =>
    simp only [splitComment, Option.some.injEq, Prod.mk.injEq] at h
    obtain ⟨rfl, rfl⟩ := h
    simp [List.takeWhile_append_dropWhile]
  | case2 cs =>
    obtain ⟨⟨b, r⟩, found, same⟩ := Option.map_eq_some_iff.1 h
    simp only [Prod.mk.injEq] at same
    obtain ⟨rfl, rfl⟩ := same
    simp [closeComment_append found]
  | case3 h1 h2 => simp [splitComment] at h

/-- The layout at the front of a text, and what follows it. -/
def splitLayout (cs : List Char) : List Char × List Char :=
  match h : splitComment cs with
  | some (comment, rest) =>
    have : rest.length < cs.length := by
      obtain ⟨rfl, nonempty⟩ := splitComment_append h
      have := List.length_pos_iff.2 nonempty
      simp only [List.length_append]
      omega
    (comment ++ (splitLayout rest).1, (splitLayout rest).2)
  | none =>
    match cs with
    | c :: rest =>
      if isLayoutBlank c then (c :: (splitLayout rest).1, (splitLayout rest).2) else ([], c :: rest)
    | [] => ([], [])
termination_by cs.length

/-- Layout is split off and nothing else changes. -/
theorem splitLayout_append (cs : List Char) : (splitLayout cs).1 ++ (splitLayout cs).2 = cs := by
  fun_induction splitLayout cs with
  | case1 cs comment rest h _ ih => rw [List.append_assoc, ih, (splitComment_append h).1]
  | case2 c rest _ _ ih => rw [List.cons_append, ih]
  | case3 => rfl
  | case4 => rfl

end Token
end Scriptlet
