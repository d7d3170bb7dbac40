import Scriptlet.Evaluation
import Scriptlet.Proofs.Computation

/-!
# What writing does

A line is encoded when it is written.  To tell the trace of an event changes nothing if the trace
does not take it, adds an event if the line has a form in UTF-8, and is a fault otherwise, with
nothing written; printing is the same without the question whether to print.

* `tell_cases`, `printLine_cases`: everything that writing can do.
* `ensures_tell`, `ensures_printLine`: what holds of a world once something has been written.
* `relates_tell`, `relates_printLine`: one line written to two worlds.
-/

namespace Scriptlet

/-! ## Texts that can be written -/

namespace Text

/-- Half of a surrogate pair and nothing else. -/
def half : Text := .broken "" ⟨0⟩ (.plain "")

/-- The text holds no surrogates. -/
def IsPlain (t : Text) : Prop := ∃ s : String, t = .plain s

theorem isPlain_plain (s : String) : IsPlain (.plain s) := ⟨s, rfl⟩

theorem not_isPlain_broken (front : String) (unit : Surrogate) (rest : Text) :
    ¬ IsPlain (.broken front unit rest) := fun ⟨_, h⟩ => nomatch h

/-- Two texts one after the other hold no surrogates if neither does. -/
theorem isPlain_append {s t : Text} : (s ++ t).IsPlain ↔ s.IsPlain ∧ t.IsPlain := by
  cases s with
  | broken front unit rest =>
    rw [broken_append]
    exact iff_of_false (not_isPlain_broken _ _ _) fun h => not_isPlain_broken _ _ _ h.1
  | plain s =>
    cases t with
    | plain t => exact iff_of_true (isPlain_plain _) ⟨isPlain_plain s, isPlain_plain t⟩
    | broken front unit rest =>
      rw [plain_append_broken]
      exact iff_of_false (not_isPlain_broken _ _ _) fun h => not_isPlain_broken _ _ _ h.2

/-- What follows characters in a text without surrogates is such a text. -/
theorem plain_append_eq_plain_iff {s line : String} {t : Text} :
    (.plain s ++ t : Text) = .plain line ↔ ∃ rest, t = .plain rest ∧ line = s ++ rest := by
  cases t with
  | plain rest =>
    rw [plain_append]
    constructor
    · rintro ⟨⟩
      exact ⟨rest, rfl, rfl⟩
    · rintro ⟨_, ⟨⟩, rfl⟩
      rfl
  | broken front unit rest => exact iff_of_false nofun fun ⟨_, h, _⟩ => nomatch h

@[simp] theorem symbols_append (s t : Text) : (s ++ t).symbols = s.symbols ++ t.symbols := by
  induction s with
  | broken front unit rest ih =>
    rw [broken_append, symbols, ih, symbols, List.append_assoc, List.cons_append]
  | plain s =>
    cases t with
    | plain t => rw [plain_append, symbols, symbols, symbols, String.toList_append, List.map_append]
    | broken front unit rest =>
      rw [plain_append_broken, symbols, symbols, symbols, String.toList_append, List.map_append,
        List.append_assoc]

theorem encode_cases (t : Text) :
    (∃ line, t = .plain line ∧ t.encode = .ok line) ∨
      ∃ reason, ¬ t.IsPlain ∧ t.encode = .error reason := by
  cases t with
  | plain s => exact Or.inl ⟨s, rfl, rfl⟩
  | broken front unit rest => exact Or.inr ⟨_, not_isPlain_broken _ _ _, rfl⟩

end Text

/-! ## The trace -/

variable {w v : World} {level : Nat} {text text' : Unit → Text}

/-- The world decides whether there is anything to write. -/
theorem tell_apply (level : Nat) (text : Unit → Text) (w : World) :
    tell level text w =
      (if w.Takes level then
          encoded .trace (text ()) >>= fun line => modify fun w => w.record level line
        else pure ()) w := rfl

theorem tell_of_not_takes (h : ¬ w.Takes level) (text : Unit → Text) :
    tell level text w = .ok () w := by
  rw [tell_apply, if_neg h]
  rfl

/-- A trace of level zero takes nothing. -/
theorem tell_of_silent (h : w.verbosity = 0) (hlevel : 0 < level) (text : Unit → Text) :
    tell level text w = .ok () w :=
  tell_of_not_takes (fun htakes => by
    have hle := htakes.2
    omega) text

theorem tell_of_plain (h : w.Takes level) {line : String} (hline : text () = .plain line) :
    tell level text w = .ok () (w.record level line) := by
  rw [tell_apply, if_pos h, hline]
  rfl

theorem tell_of_broken (h : w.Takes level) {reason : Text.Unencodable}
    (hreason : (text ()).encode = .error reason) :
    tell level text w = .error (.unwritable .trace reason) w := by
  rw [tell_apply, if_pos h, encoded, hreason]
  rfl

/-- **Everything that telling the trace can do.** -/
theorem tell_cases (w : World) (level : Nat) (text : Unit → Text) :
    (¬ w.Takes level ∧ tell level text w = .ok () w) ∨
    (∃ line, w.Takes level ∧ text () = .plain line ∧
      tell level text w = .ok () (w.record level line)) ∨
    ∃ reason, w.Takes level ∧ (text ()).encode = .error reason ∧
      tell level text w = .error (.unwritable .trace reason) w := by
  by_cases htakes : w.Takes level
  · rcases (text ()).encode_cases with ⟨line, hline, -⟩ | ⟨reason, -, hreason⟩
    · exact Or.inr (Or.inl ⟨line, htakes, hline, tell_of_plain htakes hline⟩)
    · exact Or.inr (Or.inr ⟨reason, htakes, hreason, tell_of_broken htakes hreason⟩)
  · exact Or.inl ⟨htakes, tell_of_not_takes htakes text⟩

/-- A line without surrogates can be told in any world. -/
theorem exists_tell_eq_ok (level : Nat) (text : Unit → Text) (h : (text ()).IsPlain) (w : World) :
    ∃ w', tell level text w = .ok () w' := by
  rcases tell_cases w level text with ⟨-, htell⟩ | ⟨line, -, -, htell⟩ | ⟨reason, -, hreason, -⟩
  · exact ⟨w, htell⟩
  · exact ⟨w.record level line, htell⟩
  · obtain ⟨line, hline⟩ := h
    rw [hline] at hreason
    cases hreason

theorem ensures_tell {Q : Unit → World → Prop} {E : Fault → World → Prop}
    (hsilent : ¬ w.Takes level → Q () w)
    (hwritten : ∀ line, w.Takes level → text () = .plain line → Q () (w.record level line))
    (hfails : ∀ reason, w.Takes level → (text ()).encode = .error reason →
      E (.unwritable .trace reason) w) :
    Ensures (tell level text) w Q E := by
  unfold Ensures
  rcases tell_cases w level text with ⟨h, htell⟩ | ⟨line, h, hline, htell⟩ |
    ⟨reason, h, hreason, htell⟩
  · rw [htell]
    exact hsilent h
  · rw [htell]
    exact hwritten line h hline
  · rw [htell]
    exact hfails reason h hreason

/-- One line told in two worlds whose traces take the same. -/
theorem relates_tell {Q : Unit → Unit → World → World → Prop}
    {E : Fault → Fault → World → World → Prop} (htakes : w.Takes level ↔ v.Takes level)
    (htext : text () = text' ()) (hsilent : Q () () w v)
    (hwritten : ∀ line, Q () () (w.record level line) (v.record level line))
    (hfails : ∀ reason, E (.unwritable .trace reason) (.unwritable .trace reason) w v) :
    Relates (tell level text) (tell level text') w v Q E := by
  unfold Relates
  rcases tell_cases w level text with ⟨h, htell⟩ | ⟨line, h, hline, htell⟩ |
    ⟨reason, h, hreason, htell⟩
  · rw [htell, tell_of_not_takes fun hv => h (htakes.mpr hv)]
    exact hsilent
  · rw [htell, tell_of_plain (htakes.mp h) (htext.symm.trans hline)]
    exact hwritten line
  · rw [htell, tell_of_broken (htakes.mp h) (htext ▸ hreason)]
    exact hfails reason

/-! ## The output -/

/-- **Everything that printing can do.** -/
theorem printLine_cases (w : World) (text : Text) :
    (∃ line, text = .plain line ∧ printLine text w = .ok () (w.print line)) ∨
    ∃ reason, text.encode = .error reason ∧
      printLine text w = .error (.unwritable .output reason) w := by
  cases text with
  | plain line => exact Or.inl ⟨line, rfl, rfl⟩
  | broken front unit rest => exact Or.inr ⟨_, rfl, rfl⟩

theorem ensures_printLine {text : Text} {Q : Unit → World → Prop} {E : Fault → World → Prop}
    (hwritten : ∀ line, text = .plain line → Q () (w.print line))
    (hfails : ∀ reason, text.encode = .error reason → E (.unwritable .output reason) w) :
    Ensures (printLine text) w Q E := by
  unfold Ensures
  rcases printLine_cases w text with ⟨line, hline, hprint⟩ | ⟨reason, hreason, hprint⟩
  · rw [hprint]
    exact hwritten line hline
  · rw [hprint]
    exact hfails reason hreason

/-- One line printed in two worlds. -/
theorem relates_printLine (text : Text) {Q : Unit → Unit → World → World → Prop}
    {E : Fault → Fault → World → World → Prop}
    (hwritten : ∀ line, Q () () (w.print line) (v.print line))
    (hfails : ∀ reason, E (.unwritable .output reason) (.unwritable .output reason) w v) :
    Relates (printLine text) (printLine text) w v Q E := by
  cases text with
  | plain line => exact hwritten line
  | broken front unit rest => exact hfails _

end Scriptlet
