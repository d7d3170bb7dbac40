import Scriptlet.Command
import Scriptlet.Proofs.Command.Routes
import Scriptlet.Proofs.Computation
import Scriptlet.Proofs.Documents.Rejection

/-!
# How commands end

A command ends with a status, which is 0 if all went well, 1 if it failed and 2 if its arguments
are refused, and it says why on standard error unless all went well.  Or it is ended by an escape,
which nothing has made a message of.

* `Report.IsOrderly`: the status and the messages of a report fit together.
* `Disk.Blocks`: what stands under a path and cannot be opened as a file.  `SourceEscapes` and
  `TreeEscapes` add what can be in a file that no message is made of: bytes that are no text, if
  the file is to be a program, and what the loader does not check, if it is to be a tree.
  `TargetEscapes` adds that the tree of a program can hold a surrogate.
* `Request.Escapes` puts them together for everything that can be asked for.
* `runCommand_ends`: **these are all the escapes that there are**, and every other ending is
  orderly.
-/

namespace Scriptlet
namespace Command

/-! ## Reports -/

/-- A status that a report ends with is at most 2, and something stands on standard error unless it
is 0. -/
def Report.IsOrderly (r : Report) : Prop :=
  ∀ status, r.ending = .exit status → status ≤ 2 ∧ (r.stderr = "" ↔ status = 0)

section Reports

variable {disk : Disk} {path : String} {escape : Escape}

theorem line_ne_empty (message : String) : message ++ "\n" ≠ "" := by
  intro h
  have hlist := congrArg String.toList h
  rw [String.toList_append] at hlist
  cases (List.append_eq_nil_iff.mp hlist).2

theorem isOrderly_ofProblem (problem : Problem) : (Report.ofProblem problem).IsOrderly := by
  intro status h
  cases problem with
  | failure message =>
    cases h
    exact ⟨by decide, iff_of_false (line_ne_empty message) (by decide)⟩
  | escape e => cases h

theorem isOrderly_ofUsageError (error : UsageError) : (Report.ofUsageError error).IsOrderly := by
  intro status h
  cases h
  exact ⟨by decide, iff_of_false (line_ne_empty _) (by decide)⟩

theorem ending_ofUsageError (error : UsageError) :
    (Report.ofUsageError error).ending ≠ .escape escape := nofun

theorem ending_ofProblem {problem : Problem} :
    (Report.ofProblem problem).ending = .escape escape ↔ problem = .escape escape := by
  cases problem with
  | failure message => exact ⟨fun h => (nomatch h), fun h => (nomatch h)⟩
  | escape e =>
    constructor
    · intro h
      cases h
      rfl
    · intro h
      cases h
      rfl

variable {program : Except Problem (List Node)} {act : List Node → Report}

theorem isOrderly_ofResult (h : ∀ body, (act body).IsOrderly) :
    (Report.ofResult program act).IsOrderly := by
  cases program with
  | error problem => exact isOrderly_ofProblem problem
  | ok body => exact h body

/-- Something done with a program escapes in reading the program or in doing it. -/
theorem ending_ofResult : (Report.ofResult program act).ending = .escape escape ↔
    program = .error (.escape escape) ∨
      ∃ body, program = .ok body ∧ (act body).ending = .escape escape := by
  cases program with
  | error problem =>
    refine ending_ofProblem.trans ?_
    constructor
    · rintro rfl
      exact Or.inl rfl
    · rintro (h | ⟨_, h, _⟩)
      · cases h
        rfl
      · cases h
  | ok body =>
    constructor
    · intro h
      exact Or.inr ⟨body, rfl, h⟩
    · rintro (h | ⟨_, h, hends⟩)
      · cases h
      · cases h
        exact hends

/-! ## Running and writing -/

theorem isOrderly_runProgram (verbosity : Nat) (body : List Node) :
    (runProgram disk verbosity body).IsOrderly := by
  unfold runProgram
  split
  · exact isOrderly_ofProblem _
  · dsimp only
    split
    · intro status h
      cases h
      exact ⟨by decide, iff_of_true rfl rfl⟩
    · intro status h
      cases h
      exact ⟨by decide, iff_of_false (line_ne_empty _) (by decide)⟩

/-- A program that runs escapes only if its trace cannot be written. -/
theorem ending_runProgram {verbosity : Nat} {body : List Node} :
    (runProgram disk verbosity body).ending = .escape escape ↔
      (0 < verbosity ∧ disk traceFile = some .folder) ∧ escape = .folder := by
  unfold runProgram
  split
  · rename_i htrace
    refine ending_ofProblem.trans ?_
    constructor
    · intro h
      cases h
      exact ⟨htrace, rfl⟩
    · rintro ⟨-, rfl⟩
      rfl
  · rename_i htrace
    dsimp only
    split
    · exact ⟨fun h => (nomatch h), fun h => absurd h.1 htrace⟩
    · exact ⟨fun h => (nomatch h), fun h => absurd h.1 htrace⟩

/-- Under the path stands something that cannot be opened as a file, and the attempt to do so
escapes. -/
inductive Disk.Blocks (disk : Disk) (path : String) : Escape → Prop
  | folder (h : disk path = some .folder) : Blocks disk path .folder
  | overlong (h : disk path = some .overlong) : Blocks disk path (.overlong path)

theorem Disk.blocks_of_folder (h : disk path = some .folder) :
    disk.Blocks path escape ↔ .folder = escape := by
  constructor
  · rintro (- | hlong)
    · rfl
    · cases h.symm.trans hlong
  · rintro rfl
    exact .folder h

theorem Disk.blocks_of_overlong (h : disk path = some .overlong) :
    disk.Blocks path escape ↔ .overlong path = escape := by
  constructor
  · rintro (hfolder | -)
    · cases h.symm.trans hfolder
    · rfl
  · rintro rfl
    exact .overlong h

theorem Disk.not_blocks (hfolder : disk path ≠ some .folder) (hlong : disk path ≠ some .overlong) :
    ¬ disk.Blocks path escape := by
  rintro (h | h)
  · exact hfolder h
  · exact hlong h

theorem isOrderly_emitTree (path : String) (body : List Node) :
    (emitTree disk path body).IsOrderly := by
  unfold emitTree
  dsimp only
  split
  · exact isOrderly_ofProblem _
  · exact isOrderly_ofProblem _
  · split
    · exact fun _ h => nomatch h
    · intro status h
      cases h
      exact ⟨by decide, iff_of_true rfl rfl⟩

/-- What keeps the tree of a program from being written, so that nothing makes a message of it: the
tree file, or a text in the tree. -/
inductive TargetEscapes (disk : Disk) (path : String) (body : List Node) : Escape → Prop
  | blocked {escape : Escape} (h : disk.Blocks (treeFile path) escape) :
      TargetEscapes disk path body escape
  | unencodable {reason : Text.Unencodable} (hopens : ∀ e, ¬ disk.Blocks (treeFile path) e)
      (h : (Node.toJson (.program body)).unencodable? = some reason) :
      TargetEscapes disk path body (.unencodable reason)

/-- If the tree file is blocked, nothing else matters. -/
theorem TargetEscapes.iff_of_blocks {body : List Node} {e : Escape}
    (h : disk.Blocks (treeFile path) e) :
    TargetEscapes disk path body escape ↔ disk.Blocks (treeFile path) escape := by
  constructor
  · rintro (hblocked | ⟨hopens, -⟩)
    · exact hblocked
    · exact absurd h (hopens e)
  · exact .blocked

theorem ending_emitTree {body : List Node} :
    (emitTree disk path body).ending = .escape escape ↔ TargetEscapes disk path body escape := by
  unfold emitTree
  dsimp only
  split
  · rename_i hfolder
    rw [ending_ofProblem, Problem.escape.injEq, TargetEscapes.iff_of_blocks (.folder hfolder),
      Disk.blocks_of_folder hfolder]
  · rename_i hlong
    rw [ending_ofProblem, Problem.escape.injEq, TargetEscapes.iff_of_blocks (.overlong hlong),
      Disk.blocks_of_overlong hlong]
  · rename_i hfolder hlong
    have hopens (e : Escape) : ¬ disk.Blocks (treeFile path) e := Disk.not_blocks hfolder hlong
    split
    · rename_i reason hreason
      constructor
      · intro h
        cases h
        exact .unencodable hopens hreason
      · rintro (hblocked | ⟨-, h⟩)
        · exact absurd hblocked (hopens escape)
        · cases hreason.symm.trans h
          rfl
    · rename_i hnone
      refine ⟨fun h => (nomatch h), ?_⟩
      rintro (hblocked | ⟨-, h⟩)
      · exact absurd hblocked (hopens escape)
      · cases hnone.symm.trans h

/-! ## Reading -/

theorem readBytes_eq_escape_iff :
    readBytes disk path = .error (.escape escape) ↔ disk.Blocks (normalPath path) escape := by
  unfold readBytes
  dsimp only
  split
  · rename_i hnone
    refine iff_of_false nofun (Disk.not_blocks ?_ ?_) <;> rw [hnone] <;> exact nofun
  · rename_i hfolder
    rw [Except.error.injEq, Problem.escape.injEq, Disk.blocks_of_folder hfolder]
  · rename_i hlong
    rw [Except.error.injEq, Problem.escape.injEq, Disk.blocks_of_overlong hlong]
  · rename_i hfile
    refine iff_of_false nofun (Disk.not_blocks ?_ ?_) <;> rw [hfile] <;> exact nofun

theorem readBytes_eq_ok_iff {bytes : List UInt8} :
    readBytes disk path = .ok bytes ↔ disk (normalPath path) = some (.file bytes) := by
  unfold readBytes
  dsimp only
  split
  · rename_i hnone
    rw [hnone]
    exact iff_of_false nofun nofun
  · rename_i hfolder
    rw [hfolder]
    exact iff_of_false nofun nofun
  · rename_i hlong
    rw [hlong]
    exact iff_of_false nofun nofun
  · rename_i hfile
    rw [hfile, Except.ok.injEq, Option.some.injEq, Entry.file.injEq]

/-- What cannot be read of a file that is to hold the text of a program, so that nothing makes a
message of it: the file itself, or its bytes. -/
inductive SourceEscapes (disk : Disk) (path : String) : Escape → Prop
  | blocked {escape : Escape} (h : disk.Blocks (normalPath path) escape) :
      SourceEscapes disk path escape
  | undecodable {bytes : List UInt8} {fault : Text.Utf8Fault}
      (hfile : disk (normalPath path) = some (.file bytes))
      (htext : decodeText bytes = .error fault) :
      SourceEscapes disk path (.undecodable fault)

theorem readProgram_eq_escape_iff [CharacterNames] :
    readProgram disk path = .error (.escape escape) ↔ SourceEscapes disk path escape := by
  unfold readProgram
  simp only [bind_eq_error_iff, mapError_eq_error_iff, readBytes_eq_escape_iff, readBytes_eq_ok_iff]
  constructor
  · rintro (h | ⟨bytes, hfile, ⟨fault, htext, h⟩ | ⟨_, _, ⟨_, _, h⟩⟩⟩)
    · exact .blocked h
    · cases h
      exact .undecodable hfile htext
    · cases h
  · rintro (h | ⟨hfile, htext⟩)
    · exact Or.inl h
    · exact Or.inr ⟨_, hfile, Or.inl ⟨_, htext, rfl⟩⟩

/-- What cannot be read of a file that is to hold a tree, so that nothing makes a message of it: the
file itself, or a part of its document that the loader does not check. -/
inductive TreeEscapes (disk : Disk) (path : String) : Escape → Prop
  | blocked {escape : Escape} (h : disk.Blocks (normalPath path) escape) :
      TreeEscapes disk path escape
  | load {bytes : List UInt8} {text : String} {document part : Json} {error : LoadError}
      (hfile : disk (normalPath path) = some (.file bytes)) (htext : decodeText bytes = .ok text)
      (hread : Json.read text = .ok document) (hreaches : document.Reaches part)
      (hbreaks : part.Breaks error) (hsilent : error ≠ .tooManyDigits) :
      TreeEscapes disk path (.load error)

/-- Errors about the form of a document have a message, and so has the one about what cannot be
shown in such a message.  The others escape. -/
theorem loadProblem_eq_escape_iff {describe : String → Problem} {error : LoadError}
    (hdescribe : ∀ message, describe message ≠ .escape escape) :
    loadProblem describe error = .escape escape ↔
      (¬ error.IsFormat ∧ error ≠ .tooManyDigits) ∧ .load error = escape := by
  cases error with
  | notIterable | integerTooLarge =>
    unfold loadProblem
    dsimp only
    rw [Problem.escape.injEq]
    exact ⟨fun h => ⟨⟨id, nofun⟩, h⟩, And.right⟩
  | tooManyDigits => exact iff_of_false (hdescribe _) fun h => h.1.2 rfl
  | _ => exact iff_of_false (hdescribe _) fun h => h.1.1 trivial

theorem readTree_eq_escape_iff :
    readTree disk path = .error (.escape escape) ↔ TreeEscapes disk path escape := by
  have hfailure (e : Escape) (message : String) :
      Problem.failure ("Error: cannot load AST from " ++ path ++ ": " ++ message) ≠ .escape e := nofun
  unfold readTree
  simp only [bind_eq_error_iff, mapError_eq_error_iff, mapError_eq_ok_iff, readBytes_eq_escape_iff,
    readBytes_eq_ok_iff]
  constructor
  · rintro (h | ⟨bytes, hfile, ⟨_, _, h⟩ | ⟨text, htext, ⟨_, _, h⟩ |
      ⟨document, hread, ⟨error, herror, h⟩ | ⟨node, _, h⟩⟩⟩⟩)
    · exact .blocked h
    · cases h
    · cases h
    · obtain ⟨⟨hformat, hsilent⟩, rfl⟩ := (loadProblem_eq_escape_iff (hfailure _)).mp h
      obtain ⟨part, hreaches, hbreaks⟩ := Node.exists_breaks_of_ofJson hformat document herror
      exact .load hfile htext hread hreaches hbreaks hsilent
    · split at h <;> cases h
  · rintro (h | ⟨hfile, htext, hread, hreaches, hbreaks, hsilent⟩)
    · exact Or.inl h
    · refine Or.inr ⟨_, hfile, Or.inr ⟨_, htext, Or.inr ⟨_, hread, Or.inl ?_⟩⟩⟩
      have herror := hreaches.ofJson_eq_error hbreaks.ofJson_eq_error
      exact ⟨_, herror, (loadProblem_eq_escape_iff (hfailure _)).mpr
        ⟨⟨hbreaks.not_isFormat, hsilent⟩, rfl⟩⟩

end Reports

/-! ## Commands -/

section Commands

variable [CharacterNames]

/-- What a request is ended by that nothing makes a message of.  A request for a tree file goes
before one for running a tree, and that goes before one for running a program; an empty path counts
as none. -/
inductive Request.Escapes (disk : Disk) (r : Request) : Escape → Prop
  | emitSource {path : String} {escape : Escape} (hemit : r.emit.filter (· ≠ "") = some path)
      (h : SourceEscapes disk path escape) : Escapes disk r escape
  | emitTarget {path : String} {body : List Node} {escape : Escape}
      (hemit : r.emit.filter (· ≠ "") = some path) (hbody : readProgram disk path = .ok body)
      (h : TargetEscapes disk path body escape) : Escapes disk r escape
  | treeSource {path : String} {escape : Escape} (hemit : r.emit.filter (· ≠ "") = none)
      (htree : r.tree.filter (· ≠ "") = some path) (h : TreeEscapes disk path escape) :
      Escapes disk r escape
  | treeTrace {path : String} {body : List Node} (hemit : r.emit.filter (· ≠ "") = none)
      (htree : r.tree.filter (· ≠ "") = some path) (hbody : readTree disk path = .ok body)
      (hverbose : 0 < r.verbosity) (htrace : disk traceFile = some .folder) :
      Escapes disk r .folder
  | programSource {path : String} {escape : Escape} (hemit : r.emit.filter (· ≠ "") = none)
      (htree : r.tree.filter (· ≠ "") = none) (hprogram : r.program.filter (· ≠ "") = some path)
      (h : SourceEscapes disk path escape) : Escapes disk r escape
  | programTrace {path : String} {body : List Node} (hemit : r.emit.filter (· ≠ "") = none)
      (htree : r.tree.filter (· ≠ "") = none) (hprogram : r.program.filter (· ≠ "") = some path)
      (hbody : readProgram disk path = .ok body) (hverbose : 0 < r.verbosity)
      (htrace : disk traceFile = some .folder) : Escapes disk r .folder

variable {disk : Disk} {escape : Escape}

theorem isOrderly_serve (r : Request) : (serve disk r).IsOrderly := by
  unfold serve
  split
  · exact isOrderly_ofResult (isOrderly_emitTree _)
  · exact isOrderly_ofResult (isOrderly_runProgram _)
  · exact isOrderly_ofResult (isOrderly_runProgram _)
  · exact isOrderly_ofUsageError _

theorem ending_serve {r : Request} :
    (serve disk r).ending = .escape escape ↔ r.Escapes disk escape := by
  unfold serve
  split
  · rename_i path _ _ hemit
    simp only [ending_ofResult, readProgram_eq_escape_iff, ending_emitTree]
    constructor
    · rintro (h | ⟨body, hbody, h⟩)
      · exact .emitSource hemit h
      · exact .emitTarget hemit hbody h
    · intro h
      cases h with
      | emitSource hemit' h =>
        cases hemit.symm.trans hemit'
        exact Or.inl h
      | emitTarget hemit' hbody h =>
        cases hemit.symm.trans hemit'
        exact Or.inr ⟨_, hbody, h⟩
      | treeSource hnone | treeTrace hnone | programSource hnone | programTrace hnone =>
        cases hemit.symm.trans hnone
  · rename_i path _ hemit htree
    simp only [ending_ofResult, readTree_eq_escape_iff, ending_runProgram]
    constructor
    · rintro (h | ⟨body, hbody, ⟨hverbose, htrace⟩, rfl⟩)
      · exact .treeSource hemit htree h
      · exact .treeTrace hemit htree hbody hverbose htrace
    · intro h
      cases h with
      | emitSource hsome | emitTarget hsome => cases hemit.symm.trans hsome
      | treeSource _ htree' h =>
        cases htree.symm.trans htree'
        exact Or.inl h
      | treeTrace _ htree' hbody hverbose htrace =>
        cases htree.symm.trans htree'
        exact Or.inr ⟨_, hbody, ⟨hverbose, htrace⟩, rfl⟩
      | programSource _ hnone | programTrace _ hnone => cases htree.symm.trans hnone
  · rename_i path hemit htree hprogram
    simp only [ending_ofResult, readProgram_eq_escape_iff, ending_runProgram]
    constructor
    · rintro (h | ⟨body, hbody, ⟨hverbose, htrace⟩, rfl⟩)
      · exact .programSource hemit htree hprogram h
      · exact .programTrace hemit htree hprogram hbody hverbose htrace
    · intro h
      cases h with
      | emitSource hsome | emitTarget hsome => cases hemit.symm.trans hsome
      | treeSource _ hsome | treeTrace _ hsome => cases htree.symm.trans hsome
      | programSource _ _ hprogram' h =>
        cases hprogram.symm.trans hprogram'
        exact Or.inl h
      | programTrace _ _ hprogram' hbody hverbose htrace =>
        cases hprogram.symm.trans hprogram'
        exact Or.inr ⟨_, hbody, ⟨hverbose, htrace⟩, rfl⟩
  · rename_i hemit htree hprogram
    refine iff_of_false (ending_ofUsageError _) fun h => ?_
    cases h with
    | emitSource hsome | emitTarget hsome => cases hemit.symm.trans hsome
    | treeSource _ hsome | treeTrace _ hsome => cases htree.symm.trans hsome
    | programSource _ _ hsome | programTrace _ _ hsome => cases hprogram.symm.trans hsome

/-- **How commands end**, whatever their arguments and whatever stands under paths.

* A command escapes exactly if its arguments ask for something that does: a program or a tree is
  read from a path that is no file or too long, a program from bytes that are no text, or a tree
  from a document with a part that the loader does not check; or else the tree file or the trace
  cannot be written, or the tree holds a surrogate.
* Otherwise it ends with a status of at most 2, and with something on standard error unless the
  status is 0. -/
theorem runCommand_ends (arguments : List String) (disk : Disk) :
    (∀ escape, (runCommand arguments disk).ending = .escape escape ↔
      ∃ r, readArguments arguments = .ok (.request r) ∧ r.Escapes disk escape) ∧
    ∀ status, (runCommand arguments disk).ending = .exit status →
      status ≤ 2 ∧ ((runCommand arguments disk).stderr = "" ↔ status = 0) := by
  unfold runCommand
  cases readArguments arguments with
  | error error =>
    refine ⟨fun escape => iff_of_false (ending_ofUsageError error) ?_, isOrderly_ofUsageError error⟩
    rintro ⟨_, h, _⟩
    cases h
  | ok answer =>
    cases answer with
    | help =>
      refine ⟨fun escape => iff_of_false nofun ?_, ?_⟩
      · rintro ⟨_, h, _⟩
        cases h
      · intro status h
        cases h
        exact ⟨by decide, iff_of_true rfl rfl⟩
    | request r =>
      refine ⟨fun escape => ending_serve.trans ?_, isOrderly_serve r⟩
      constructor
      · intro h
        exact ⟨r, rfl, h⟩
      · rintro ⟨_, h, hescapes⟩
        cases h
        exact hescapes

end Commands

/-- Two programs that cannot be read, each with nothing said about it: one byte that is no text, and
a folder. -/
theorem runCommand_escapes_at_bytes :
    (@runCommand .empty ["p.js"] (Folder.entry? (.ofEntries [("p.js", .file [0xFF])]))).ending =
      .escape (.undecodable ⟨.startByte, 0, [0xFF]⟩) ∧
    (@runCommand .empty ["p.js"] (Folder.entry? (.ofEntries [("p.js", .folder)]))).ending =
      .escape .folder := by
  let _ := CharacterNames.empty
  have hword : IsWord "p.js" := ⟨by decide, by decide⟩
  have hescapes {disk : Disk} {escape : Escape} (h : SourceEscapes disk "p.js" escape) :
      (runCommand ["p.js"] disk).ending = .escape escape := by
    rw [show ["p.js"] = List.replicate 0 "-v" ++ ["p.js"] from rfl, runCommand_program hword]
    exact ending_ofResult.mpr (Or.inl (readProgram_eq_escape_iff.mpr h))
  have hfile : Folder.entry? (.ofEntries [("p.js", .file [0xFF])]) (normalPath "p.js") =
      some (.file [0xFF]) := by decide +kernel
  have hfolder : Folder.entry? (.ofEntries [("p.js", .folder)]) (normalPath "p.js") =
      some .folder := by decide +kernel
  exact ⟨hescapes (.undecodable hfile rfl), hescapes (.blocked (.folder hfolder))⟩

end Command
end Scriptlet
