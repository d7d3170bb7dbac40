import Mathlib.Data.List.TakeWhile
import Scriptlet.Token.Scan

/-!
# Layout

What stands between tokens: blanks, comments between a slash with a star and a star with a slash,
and comments from two slashes to the end of a line.  The scanner splits layout off the front of a
text, and here layout is a set of texts of its own.

* `IsLayout`: those texts.  A comment that two slashes start has to end with a line feed, because
  otherwise it would go on with whatever is written behind it.
* `splitLayout_append_of_isLayout`: layout is split off in front of any text.
* `isLayout_splitLayout`: what is split off is layout, except that the line feed can be missing at
  the end of a text.
* `IsBare`: the text does not begin with layout.  `IsBare.congr` says how much of the text that
  depends on.
-/

namespace Scriptlet

variable {c d : Char} {cs rest body comment l p tail : List Char}

/-! ## What is split off -/

/-- No comment begins with any other character than a slash. -/
theorem splitComment_of_ne (hslash : c ≠ '/') (cs : List Char) :
    Token.splitComment (c :: cs) = none := by
  unfold Token.splitComment
  split
  · rename_i heq
    exact absurd (List.cons.inj heq).1 hslash
  · rename_i heq
    exact absurd (List.cons.inj heq).1 hslash
  · rfl

/-- A slash begins a comment only if a slash or a star follows. -/
theorem splitComment_slash (hslash : c ≠ '/') (hstar : c ≠ '*') (cs : List Char) :
    Token.splitComment ('/' :: c :: cs) = none := by
  unfold Token.splitComment
  split
  · rename_i heq
    exact absurd (List.cons.inj (List.cons.inj heq).2).1 hslash
  · rename_i heq
    exact absurd (List.cons.inj (List.cons.inj heq).2).1 hstar
  · rfl

/-- A comment is split off, and then what follows it. -/
theorem splitLayout_of_comment (h : Token.splitComment cs = some (comment, rest)) :
    Token.splitLayout cs =
      (comment ++ (Token.splitLayout rest).1, (Token.splitLayout rest).2) := by
  rw [Token.splitLayout.eq_def cs]
  split
  · rename_i heq
    rw [h] at heq
    cases heq
    rfl
  · rename_i heq
    rw [h] at heq
    cases heq

/-- A blank is split off, and then what follows it. -/
theorem splitLayout_of_isLayoutBlank (h : Token.isLayoutBlank c = true) (cs : List Char) :
    Token.splitLayout (c :: cs) = (c :: (Token.splitLayout cs).1, (Token.splitLayout cs).2) := by
  have hslash : c ≠ '/' := by
    rintro rfl
    cases h
  rw [Token.splitLayout.eq_def (c :: cs)]
  split
  · rename_i heq
    rw [splitComment_of_ne hslash] at heq
    cases heq
  · dsimp only
    rw [if_pos h]

/-- What begins with neither a blank nor a slash begins with no layout. -/
theorem splitLayout_of_ne (hslash : c ≠ '/') (hblank : Token.isLayoutBlank c = false)
    (cs : List Char) : (Token.splitLayout (c :: cs)).2 = c :: cs := by
  unfold Token.splitLayout
  split
  · rename_i heq
    rw [splitComment_of_ne hslash] at heq
    cases heq
  · dsimp only
    rw [if_neg (Bool.eq_false_iff.mp hblank)]

/-- All blanks between tokens are among the first characters. -/
theorem splitLayout_of_toNat (hslash : c ≠ '/') (h : 32 < c.toNat) (cs : List Char) :
    (Token.splitLayout (c :: cs)).2 = c :: cs := by
  have hne {d : Char} (hd : d.toNat ≤ 32) : c ≠ d := by
    rintro rfl
    omega
  refine splitLayout_of_ne hslash ?_ cs
  simp only [Token.isLayoutBlank, Bool.or_eq_false_iff, decide_eq_false_iff_not]
  exact ⟨⟨⟨⟨hne (by decide), hne (by decide)⟩, hne (by decide)⟩, hne (by decide)⟩,
    hne (by decide)⟩

theorem splitLayout_nil : (Token.splitLayout []).2 = [] :=
  (List.append_eq_nil_iff.mp (Token.splitLayout_append [])).2

/-- A blank is skipped. -/
theorem splitLayout_blank (cs : List Char) :
    (Token.splitLayout (' ' :: cs)).2 = (Token.splitLayout cs).2 := by
  rw [splitLayout_of_isLayoutBlank rfl]

namespace Token

/-! ## Comments -/

/-- A comment ends with the first star that a slash follows. -/
theorem closeComment_append_of_not_infix (h : ¬ ['*', '/'] <:+: body) (rest : List Char) :
    closeComment (body ++ '*' :: '/' :: rest) = some (body ++ ['*', '/'], rest) := by
  induction body with
  | nil => rfl
  | cons c body ih =>
    have hrest : closeComment (body ++ '*' :: '/' :: rest) = some (body ++ ['*', '/'], rest) :=
      ih fun hinside => h (hinside.trans (List.suffix_cons c body).isInfix)
    rw [List.cons_append]
    unfold closeComment
    split
    · rename_i heq
      obtain ⟨rfl, hslash⟩ := List.cons.inj heq
      cases body with
      | nil => cases hslash
      | cons e body =>
        obtain ⟨rfl, -⟩ := List.cons.inj hslash
        exact absurd (List.prefix_append ['*', '/'] body).isInfix h
    · rename_i heq
      obtain ⟨rfl, rfl⟩ := List.cons.inj heq
      rw [hrest]
      rfl
    · rename_i heq
      cases heq

/-- The part of a comment that is found has one end only. -/
theorem exists_of_closeComment (h : closeComment cs = some (l, rest)) :
    ∃ body, l = body ++ ['*', '/'] ∧ ¬ ['*', '/'] <:+: body := by
  fun_induction closeComment cs generalizing l with
  | case1 cs =>
    cases h
    exact ⟨[], rfl, fun hinside => List.cons_ne_nil _ _ (List.infix_nil.mp hinside)⟩
  | case2 c cs hends ih =>
    obtain ⟨⟨m, r⟩, hfound, hsame⟩ := Option.map_eq_some_iff.mp h
    obtain ⟨rfl, rfl⟩ := Prod.mk.inj hsame
    obtain ⟨body, rfl, hbody⟩ := ih hfound
    refine ⟨c :: body, rfl, fun hinside => ?_⟩
    rcases List.infix_cons_iff.mp hinside with hfront | hinside
    · -- the comment would have ended here already
      obtain ⟨more, hmore⟩ := hfront
      obtain ⟨rfl, rfl⟩ := List.cons.inj hmore
      have hwhole := closeComment_append hfound
      exact hends _ rfl hwhole.symm
    · exact hbody hinside
  | case3 => cases h

/-- Without a star no comment ends. -/
theorem closeComment_of_not_mem (h : '*' ∉ cs) : closeComment cs = none := by
  induction cs with
  | nil => rfl
  | cons c cs ih =>
    obtain ⟨hc, hcs⟩ := not_or.mp fun hmem => h (List.mem_cons.mpr hmem)
    unfold closeComment
    split
    · rename_i heq
      exact absurd (List.cons.inj heq).1.symm hc
    · rename_i heq
      obtain ⟨rfl, rfl⟩ := List.cons.inj heq
      rw [ih hcs]
      rfl
    · rfl

/-- A comment that does not end is not ended by what has no star, as long as that does not begin
with a slash. -/
theorem closeComment_congr (h : closeComment (p ++ rest) = none) (hd : d ≠ '/')
    (hstar : '*' ∉ d :: tail) : closeComment (p ++ d :: tail) = none := by
  induction p with
  | nil => exact closeComment_of_not_mem hstar
  | cons c p ih =>
    rw [List.cons_append] at h ⊢
    unfold closeComment at h ⊢
    split
    · rename_i heq
      obtain ⟨rfl, hslash⟩ := List.cons.inj heq
      cases p with
      | nil => exact absurd (List.cons.inj hslash).1 hd
      | cons e p =>
        obtain ⟨rfl, -⟩ := List.cons.inj hslash
        cases h
    · rename_i heq
      obtain ⟨rfl, rfl⟩ := List.cons.inj heq
      split at h
      · cases h
      · rename_i heq
        obtain ⟨rfl, rfl⟩ := List.cons.inj heq
        rw [ih (Option.map_eq_none_iff.mp h)]
        rfl
      · rename_i heq
        cases heq
    · rfl

/-! ## Layout as a set of texts -/

/-- Blanks and whole comments. -/
inductive IsLayout : List Char → Prop
  | nil : IsLayout []
  | blank {c : Char} {cs : List Char} (hc : isLayoutBlank c = true) (h : IsLayout cs) :
      IsLayout (c :: cs)
  | block {body cs : List Char} (hbody : ¬ ['*', '/'] <:+: body) (h : IsLayout cs) :
      IsLayout ('/' :: '*' :: (body ++ '*' :: '/' :: cs))
  | line {body cs : List Char} (hbody : '\n' ∉ body) (h : IsLayout cs) :
      IsLayout ('/' :: '/' :: (body ++ '\n' :: cs))

/-- The comment that two slashes start goes on to the end of the line. -/
theorem splitComment_line (hbody : '\n' ∉ body) (cs : List Char) :
    splitComment ('/' :: '/' :: (body ++ '\n' :: cs)) = some ('/' :: '/' :: body, '\n' :: cs) := by
  have hall : ∀ c ∈ body, decide (c ≠ '\n') = true :=
    fun c hc => decide_eq_true fun heq => hbody (heq ▸ hc)
  rw [splitComment, List.takeWhile_append_of_pos hall, List.dropWhile_append_of_pos hall,
    List.takeWhile_cons_of_neg (by decide), List.dropWhile_cons_of_neg (by decide),
    List.append_nil]

/-- **Layout is skipped** in front of any text. -/
theorem splitLayout_append_of_isLayout (h : IsLayout l) (cs : List Char) :
    (splitLayout (l ++ cs)).2 = (splitLayout cs).2 := by
  induction h with
  | nil => rfl
  | blank hc _ ih =>
    rw [List.cons_append, splitLayout_of_isLayoutBlank hc]
    exact ih
  | @block body l hbody _ ih =>
    have hcomment : splitComment ('/' :: '*' :: (body ++ '*' :: '/' :: (l ++ cs))) =
        some ('/' :: '*' :: (body ++ ['*', '/']), l ++ cs) := by
      rw [splitComment, closeComment_append_of_not_infix hbody]
      rfl
    simp only [List.cons_append, List.append_assoc]
    rw [splitLayout_of_comment hcomment]
    exact ih
  | @line body l hbody _ ih =>
    simp only [List.cons_append, List.append_assoc]
    rw [splitLayout_of_comment (splitComment_line hbody _), splitLayout_of_isLayoutBlank rfl]
    exact ih

/-- The line feed behind a comment is a blank. -/
theorem IsLayout.of_lineFeed (h : IsLayout ('\n' :: l)) : IsLayout l := by
  cases h with
  | blank _ h => exact h

/-- A comment that is found has one end only, and one that two slashes start goes on to the end of
the line or of the text. -/
theorem splitComment_cases (h : splitComment cs = some (comment, rest)) :
    (∃ body, ¬ ['*', '/'] <:+: body ∧ comment = '/' :: '*' :: (body ++ ['*', '/'])) ∨
      ∃ body, '\n' ∉ body ∧ comment = '/' :: '/' :: body ∧
        (rest = [] ∨ ∃ others, rest = '\n' :: others) := by
  unfold splitComment at h
  split at h
  · rename_i cs
    cases h
    refine Or.inr ⟨_, fun hmem => ?_, rfl, ?_⟩
    · have hne := List.mem_takeWhile_imp hmem
      exact of_decide_eq_true hne rfl
    · cases hdrop : cs.dropWhile (· ≠ '\n') with
      | nil => exact Or.inl rfl
      | cons c others =>
        have hnot := List.head?_dropWhile_not (fun c => decide (c ≠ '\n')) cs
        rw [hdrop] at hnot
        have hc : ¬ c ≠ '\n' := of_decide_eq_false hnot
        rw [Decidable.not_not.mp hc]
        exact Or.inr ⟨others, rfl⟩
  · obtain ⟨⟨l, r⟩, hclose, hsame⟩ := Option.map_eq_some_iff.mp h
    obtain ⟨rfl, rfl⟩ := Prod.mk.inj hsame
    obtain ⟨body, rfl, hbody⟩ := exists_of_closeComment hclose
    exact Or.inl ⟨body, hbody, rfl⟩
  · cases h

/-- **What is skipped is layout.**  Behind the last token of a text the line feed after a comment
can be missing. -/
theorem isLayout_splitLayout (cs : List Char) :
    IsLayout ((splitLayout cs).1 ++ ['\n']) ∧
      ((splitLayout cs).2 ≠ [] → IsLayout (splitLayout cs).1) := by
  have hfeed : IsLayout ['\n'] := .blank rfl .nil
  fun_induction splitLayout cs with
  | case1 cs comment rest hcomment _ ih =>
    obtain ⟨hline, hwhole⟩ := ih
    rcases splitComment_cases hcomment with
      ⟨body, hbody, rfl⟩ | ⟨body, hbody, rfl, rfl | ⟨others, rfl⟩⟩
    · simp only [List.cons_append, List.append_assoc, List.nil_append]
      exact ⟨.block hbody hline, fun hne => .block hbody (hwhole hne)⟩
    · have hnil := List.append_eq_nil_iff.mp (splitLayout_append [])
      rw [hnil.1, hnil.2, List.append_nil]
      exact ⟨.line hbody .nil, fun hne => absurd rfl hne⟩
    · rw [splitLayout_of_isLayoutBlank rfl] at hline hwhole ⊢
      simp only [List.cons_append, List.append_assoc]
      exact ⟨.line hbody hline.of_lineFeed, fun hne => .line hbody (hwhole hne).of_lineFeed⟩
  | case2 c rest _ hblank ih =>
    exact ⟨.blank hblank ih.1, fun hne => .blank hblank (ih.2 hne)⟩
  | case3 c rest => exact ⟨hfeed, fun _ => .nil⟩
  | case4 => exact ⟨hfeed, fun _ => .nil⟩

/-! ## Where no layout stands -/

/-- The text does not begin with layout. -/
def IsBare (cs : List Char) : Prop := (splitLayout cs).2 = cs

/-- In front of a text that does not begin with layout, nothing is split off. -/
theorem IsBare.fst_splitLayout (h : IsBare cs) : (splitLayout cs).1 = [] := by
  have hwhole := splitLayout_append cs
  rw [h] at hwhole
  exact List.append_cancel_right (hwhole.trans (List.nil_append cs).symm)

theorem length_splitLayout_le (cs : List Char) : (splitLayout cs).2.length ≤ cs.length := by
  have hwhole := congrArg List.length (splitLayout_append cs)
  rw [List.length_append] at hwhole
  omega

/-- Layout begins with a blank or a comment. -/
theorem isBare_cons_iff :
    IsBare (c :: cs) ↔ splitComment (c :: cs) = none ∧ isLayoutBlank c = false := by
  unfold IsBare
  cases hcomment : splitComment (c :: cs) with
  | some found =>
    obtain ⟨comment, rest⟩ := found
    refine iff_of_false (fun hbare => ?_) nofun
    rw [splitLayout_of_comment hcomment] at hbare
    obtain ⟨hwhole, hne⟩ := splitComment_append hcomment
    have hle := length_splitLayout_le rest
    have hpos := List.length_pos_iff.mpr hne
    have hlength := congrArg List.length hwhole
    rw [List.length_append] at hlength
    rw [hbare] at hle
    omega
  | none =>
    cases hblank : isLayoutBlank c with
    | true =>
      refine iff_of_false (fun hbare => ?_) nofun
      rw [splitLayout_of_isLayoutBlank hblank] at hbare
      have hle := length_splitLayout_le cs
      rw [hbare, List.length_cons] at hle
      omega
    | false =>
      refine iff_of_true ?_ ⟨rfl, rfl⟩
      unfold splitLayout
      split
      · rename_i heq
        rw [hcomment] at heq
        cases heq
      · dsimp only
        rw [if_neg (Bool.eq_false_iff.mp hblank)]

/-- Layout is skipped as a whole. -/
theorem isBare_splitLayout (cs : List Char) : IsBare (splitLayout cs).2 := by
  fun_induction splitLayout cs with
  | case1 cs comment rest _ _ ih => exact ih
  | case2 c rest _ _ ih => exact ih
  | case3 c rest hcomment hblank =>
    exact isBare_cons_iff.mpr ⟨hcomment, Bool.eq_false_iff.mpr hblank⟩
  | case4 => exact splitLayout_nil

/-- **How far it is seen that no layout begins.**  Behind some characters it does not matter what
follows a blank, unless it could end a comment. -/
theorem IsBare.congr (h : IsBare (p ++ rest)) (hp : p ≠ []) (hd : isLayoutBlank d = true)
    (hstar : '*' ∈ tail → ¬ ['/', '*'] <+: p) : IsBare (p ++ d :: tail) := by
  obtain ⟨hslash, hstar'⟩ : d ≠ '/' ∧ d ≠ '*' := by
    constructor <;> rintro rfl <;> cases hd
  cases p with
  | nil => exact absurd rfl hp
  | cons c p =>
    rw [List.cons_append, isBare_cons_iff] at h ⊢
    refine ⟨?_, h.2⟩
    by_cases hc : c = '/'
    · subst hc
      cases p with
      | nil => exact splitComment_slash hslash hstar' tail
      | cons e p =>
        by_cases hline : e = '/'
        · subst hline
          cases h.1
        · by_cases hblock : e = '*'
          · subst hblock
            have hopen : closeComment (p ++ rest) = none := Option.map_eq_none_iff.mp h.1
            have hnone : '*' ∉ d :: tail := by
              rintro (- | ⟨-, hmem⟩)
              · exact hstar' rfl
              · exact hstar hmem ⟨p, rfl⟩
            exact Option.map_eq_none_iff.mpr (closeComment_congr hopen hslash hnone)
          · exact splitComment_slash hline hblock _
    · exact splitComment_of_ne hc _

end Token
end Scriptlet
