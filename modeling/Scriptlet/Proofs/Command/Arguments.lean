import Scriptlet.Command.Options
import Scriptlet.Proofs.Computation

/-!
# What arguments ask for

Arguments of the simplest form: some marks of verbosity, and then a path or an option with a path.

* `IsWord`: the texts that are taken for words wherever they stand.
* `readArguments_verbose`: marks of verbosity are counted, and what follows them is read as if it
  stood alone.
* `readArguments_program`, `readArguments_option`: what a path, and an option with a path, ask for.
-/

namespace Scriptlet
namespace Command

/-- A text that is taken for a word: it is not empty, and no dash stands at its front. -/
def IsWord (text : String) : Prop := text ≠ "" ∧ text.toList.head? ≠ some '-'

section Words

variable {text : String}

theorem classify_of_isWord (h : IsWord text) : classify text = .ok (.word text) := by
  unfold classify
  dsimp only
  split
  · rename_i hdash
    exact (h.2 (by rw [hdash]; rfl)).elim
  · rfl

theorem ne_separator_of_isWord (h : IsWord text) : text ≠ "--" := by
  rintro rfl
  exact h.2 (by decide)

theorem classifyAll_of_isWord (h : IsWord text) (arguments : List String) :
    classifyAll (text :: arguments) =
      (classifyAll arguments).map fun rest => .word text :: rest := by
  rw [classifyAll, classify_of_isWord h]
  · cases classifyAll arguments <;> rfl
  · exact ne_separator_of_isWord h

end Words

/-! ## Verbosity -/

theorem classify_verbose : classify "-v" = .ok (.option .verbose true none) := rfl

theorem classifyAll_verbose (k : Nat) (arguments : List String) :
    classifyAll (List.replicate k "-v" ++ arguments) =
      (classifyAll arguments).map (List.replicate k (.option .verbose true none) ++ ·) := by
  induction k with
  | zero =>
    rw [List.replicate_zero, List.nil_append, List.replicate_zero]
    cases classifyAll arguments <;> rfl
  | succ k ih =>
    rw [List.replicate_succ, List.cons_append, classifyAll, classify_verbose, ih]
    · cases classifyAll arguments <;> rfl
    · exact by decide

/-- Arguments that were taken, with more verbosity. -/
def Taken.more (t : Taken) (k : Nat) : Taken :=
  { t with request := { t.request with verbosity := t.request.verbosity + k } }

theorem takeAll_verbose (t : Taken) (k : Nat) (arguments : List Argument) :
    takeAll t (List.replicate k (.option .verbose true none) ++ arguments) =
      takeAll (t.more k) arguments := by
  induction k generalizing t with
  | zero => rfl
  | succ k ih =>
    have hstep : takeAll t (.option .verbose true none ::
        (List.replicate k (.option .verbose true none) ++ arguments)) =
          takeAll (t.more 1) (List.replicate k (.option .verbose true none) ++ arguments) := by
      rw [takeAll.eq_def]
      rfl
    have hmore : (t.more 1).more k = t.more (k + 1) := by
      simp only [Taken.more, Nat.add_assoc, Nat.add_comm 1 k]
    rw [List.replicate_succ, List.cons_append, hstep, ih, hmore]

/-- Marks of verbosity are counted. -/
theorem readArguments_verbose (k : Nat) (arguments : List String) :
    readArguments (List.replicate k "-v" ++ arguments) =
      (do takeAll (Taken.start.more k) (← classifyAll arguments)) := by
  unfold readArguments
  rw [classifyAll_verbose]
  cases classifyAll arguments with
  | error e => rfl
  | ok rest => exact takeAll_verbose Taken.start k rest

/-! ## Paths -/

/-- A word at the end asks for the program of that name. -/
theorem readArguments_program {path : String} (h : IsWord path) (k : Nat) :
    readArguments (List.replicate k "-v" ++ [path]) =
      .ok (.request ⟨k, none, none, some path⟩) := by
  have hclassified : classifyAll [path] = .ok [.word path] := by
    rw [classifyAll_of_isWord h]
    rfl
  rw [readArguments_verbose, hclassified, ok_bind]
  simp [takeAll, Taken.word, Taken.more, Taken.start]

/-- An option that takes a value is set to the word after it. -/
theorem readArguments_option {spelling path : String} {flag : Flag} {isShort : Bool}
    {taken : Taken} {k : Nat} (hspelling : classify spelling = .ok (.option flag isShort none))
    (hseparator : spelling ≠ "--") (htakes : flag.takesValue = true) (h : IsWord path)
    (hset : (Taken.start.more k).setValue flag path = .ok taken) :
    readArguments (List.replicate k "-v" ++ [spelling, path]) = takeAll taken [] := by
  have hclassified : classifyAll [spelling, path] = .ok [.option flag isShort none, .word path] := by
    rw [classifyAll, hspelling, classifyAll_of_isWord h]
    · rfl
    · exact hseparator
  rw [readArguments_verbose, hclassified, ok_bind, takeAll.eq_def]
  dsimp only
  rw [if_pos htakes, hset]
  rfl

theorem readArguments_emit {path : String} (h : IsWord path) :
    readArguments ["--emit-ast", path] = .ok (.request ⟨0, some path, none, none⟩) := by
  show readArguments (List.replicate 0 "-v" ++ ["--emit-ast", path]) = _
  rw [readArguments_option rfl (by decide) rfl h rfl]
  rfl

theorem readArguments_tree {path : String} (h : IsWord path) (k : Nat) :
    readArguments (List.replicate k "-v" ++ ["--ast", path]) =
      .ok (.request ⟨k, none, some path, none⟩) := by
  rw [readArguments_option rfl (by decide) rfl h rfl]
  simp [takeAll, Taken.more, Taken.start]

end Command
end Scriptlet
