import Scriptlet.Command
import Scriptlet.Proofs.Command.Arguments
import Scriptlet.Proofs.Command.Paths
import Scriptlet.Proofs.Documents.Rerunning
import Scriptlet.Proofs.Documents.Written
import Scriptlet.Proofs.Utf8

/-!
# Two routes to running a program

A program can be run from its text, and it can be written to a tree file first and run from that.
Both come to the same.

* `Disk.after`: what stands under paths once files have been written.
* `Spells`: a file that holds the text of a program.
* `readTree_after`: the program that is read from a tree file that was written.
* `runProgram_eq`: programs that end in the same way have the same report.
* `routes_agree` is the result.
-/

namespace Scriptlet
namespace Command

/-! ## Files that were written -/

/-- What stands under paths once files have been written. -/
def Disk.after (disk : Disk) (written : List (String × String)) : Disk := fun path =>
  match written.lookup path with
  | some text => some (.file text.toUTF8.data.toList)
  | none => disk path

/-- Under the path stands a file that holds the text. -/
def Spells (disk : Disk) (path source : String) : Prop :=
  ∃ bytes, disk (normalPath path) = some (.file bytes) ∧ decodeText bytes = .ok source

section Written

variable {disk : Disk} {target text path : String}

theorem Disk.after_self : disk.after [(target, text)] target =
    some (.file text.toUTF8.data.toList) := by
  unfold Disk.after
  rw [List.lookup_cons_self]

theorem Disk.after_of_ne (h : path ≠ target) : disk.after [(target, text)] path = disk path := by
  unfold Disk.after
  rw [List.lookup_cons, beq_false_of_ne h]
  rfl

/-- The text of a document is read from the bytes that it is written as. -/
theorem decodeText_write (l : Json.Layout) (j : Json) :
    decodeText (Json.write l j).toUTF8.data.toList = .ok (Json.write l j) := by
  unfold decodeText
  rw [Text.readUtf8_toUTF8, ok_map, Json.unifyNewlines_write, String.ofList_toList]

theorem readBytes_of_file {bytes : List UInt8} (h : disk (normalPath path) = some (.file bytes)) :
    readBytes disk path = .ok bytes := by
  unfold readBytes
  dsimp only
  rw [h]

/-- What is read from a file that holds a text. -/
theorem readProgram_of_spells [CharacterNames] {source : String} (h : Spells disk path source) :
    readProgram disk path =
      (parse source).mapError fun error => .failure ("Syntax error: " ++ error.message) := by
  obtain ⟨bytes, hfile, htext⟩ := h
  unfold readProgram
  rw [readBytes_of_file hfile, ok_bind, htext]
  rfl

/-- What is read from a tree file, if it holds the document of a program. -/
theorem readTree_after {document : Json} {body : List Node}
    (hpath : normalPath path = target)
    (hjson : Json.read (Json.write .indented document) = .ok document)
    (hloads : Node.ofJson document = .ok (.program body)) :
    readTree (disk.after [(target, Json.write .indented document)]) path = .ok body := by
  have hfile : disk.after [(target, Json.write .indented document)] (normalPath path) =
      some (.file (Json.write .indented document).toUTF8.data.toList) := by
    rw [hpath]
    exact Disk.after_self
  unfold readTree
  rw [readBytes_of_file hfile, ok_bind, decodeText_write]
  dsimp only [Except.mapError]
  rw [ok_bind, hjson]
  dsimp only
  rw [ok_bind, hloads]
  rfl

/-- No tree file is the trace file. -/
theorem treeFile_ne_traceFile (program : String) : treeFile program ≠ traceFile := by
  intro h
  have hlast := congrArg (fun s => s.toList.getLast?) h
  have hname : (treeFile program).toList.getLast? = some 'n' := by
    rw [treeFile, String.toList_append, List.getLast?_append]
    rfl
  rw [hname] at hlast
  revert hlast
  decide

end Written

/-! ## Reports -/

/-- Programs that end in the same way, having printed and traced the same, have the same report. -/
theorem runProgram_eq {disk disk' : Disk} {verbosity : Nat} {body body' : List Node}
    (hdisk : disk' traceFile = disk traceFile)
    (hruns : Relates (run defaultBound body World.globalScope)
      (run defaultBound body' World.globalScope) (World.fresh verbosity) (World.fresh verbosity)
      (fun _ _ w v => w.output = v.output ∧ w.trace = v.trace)
      fun e f w v => e = f ∧ w.output = v.output ∧ w.trace = v.trace) :
    runProgram disk' verbosity body' = runProgram disk verbosity body := by
  unfold runProgram
  rw [hdisk]
  split
  · rfl
  · dsimp only
    unfold Relates at hruns
    cases hm : run defaultBound body World.globalScope (World.fresh verbosity) with
    | ok a w =>
      cases hn : run defaultBound body' World.globalScope (World.fresh verbosity) with
      | ok b v =>
        rw [hm, hn] at hruns
        obtain ⟨houtput, htrace⟩ := hruns
        dsimp only
        rw [houtput, htrace]
      | error f v =>
        rw [hm, hn] at hruns
        exact hruns.elim
    | error e w =>
      cases hn : run defaultBound body' World.globalScope (World.fresh verbosity) with
      | ok b v =>
        rw [hm, hn] at hruns
        exact hruns.elim
      | error f v =>
        rw [hm, hn] at hruns
        obtain ⟨rfl, houtput, htrace⟩ := hruns
        dsimp only
        rw [houtput, htrace]

/-! ## Commands -/

section Commands

variable {disk : Disk} {path source : String}

theorem filter_ne_empty (h : IsWord path) : (some path).filter (· ≠ "") = some path := by
  rw [Option.filter_some, if_pos (decide_eq_true h.1)]

/-- The tree of a program is written to the file beside it, unless something keeps the file from
being written. -/
theorem emitTree_eq {body : List Node} (hfolder : disk (treeFile path) ≠ some .folder)
    (hlength : disk (treeFile path) ≠ some .overlong)
    (hplain : ¬ (Node.toJson (.program body)).HoldsSurrogate) :
    emitTree disk path body = ⟨.exit 0, treeFile path ++ "\n", "",
      [(treeFile path, Json.write .indented (Node.toJson (.program body)))]⟩ := by
  unfold emitTree
  dsimp only
  split
  · rename_i hfound
    exact (hfolder hfound).elim
  · rename_i hfound
    exact (hlength hfound).elim
  · rw [Json.unencodable?_eq_none_iff.mpr hplain]

variable [CharacterNames]

theorem runCommand_emit (h : IsWord path) :
    runCommand ["--emit-ast", path] disk =
      .ofResult (readProgram disk path) (emitTree disk path) := by
  unfold runCommand serve
  rw [readArguments_emit h]
  dsimp only
  rw [filter_ne_empty h]

theorem runCommand_program (h : IsWord path) (k : Nat) :
    runCommand (List.replicate k "-v" ++ [path]) disk =
      .ofResult (readProgram disk path) (runProgram disk k) := by
  unfold runCommand serve
  rw [readArguments_program h]
  dsimp only
  rw [filter_ne_empty h]
  rfl

theorem runCommand_tree (h : IsWord path) (k : Nat) :
    runCommand (List.replicate k "-v" ++ ["--ast", path]) disk =
      .ofResult (readTree disk path) (runProgram disk k) := by
  unfold runCommand serve
  rw [readArguments_tree h]
  dsimp only
  rw [filter_ne_empty h]
  rfl

/-- **Both routes to running a program come to the same.**  Let a file hold a text, let its tree
file be one that can be written, and let the document of the program, if there is one, hold no
surrogate and be read as it is written.

* If the text is no program, writing its tree fails with the message that running it fails with,
  however verbose, and writes nothing.
* Otherwise the tree is written to the tree file, and its path is printed.  By that path, and by
  every other that is shown as it is, running the tree does what running the text does: it ends
  with the same status, prints the same, reports the same error and leaves the same trace, however
  verbose it is. -/
theorem routes_agree (hpath : IsWord path) (hfile : Spells disk path source)
    (hfolder : disk (treeFile path) ≠ some .folder)
    (hlength : disk (treeFile path) ≠ some .overlong)
    (hplain : ∀ body, parse source = .ok body →
      ¬ (Node.toJson (.program body)).HoldsSurrogate)
    (hjson : ∀ body, parse source = .ok body →
      Json.read (Json.write .indented (Node.toJson (.program body))) =
        .ok (Node.toJson (.program body))) :
    (∃ error, parse source = .error error ∧
      runCommand ["--emit-ast", path] disk =
        ⟨.exit 1, "", "Syntax error: " ++ error.message ++ "\n", []⟩ ∧
      ∀ k, runCommand (List.replicate k "-v" ++ [path]) disk =
        runCommand ["--emit-ast", path] disk) ∨
    (∃ text,
      runCommand ["--emit-ast", path] disk =
        ⟨.exit 0, treeFile path ++ "\n", "", [(treeFile path, text)]⟩ ∧
      normalPath (treeFile path) = treeFile path ∧
      ∀ k tree, IsWord tree → normalPath tree = treeFile path →
        runCommand (List.replicate k "-v" ++ ["--ast", tree])
            (disk.after [(treeFile path, text)]) =
          runCommand (List.replicate k "-v" ++ [path]) disk) := by
  have hread := readProgram_of_spells hfile
  have hemit : runCommand ["--emit-ast", path] disk = _ := runCommand_emit hpath
  have hrun : ∀ k, runCommand (List.replicate k "-v" ++ [path]) disk = _ :=
    runCommand_program hpath
  simp only [hread] at hemit hrun
  cases hparse : parse source with
  | error error =>
    rw [hparse] at hemit hrun
    exact Or.inl ⟨error, rfl, hemit, fun k => (hrun k).trans hemit.symm⟩
  | ok body =>
    rw [hparse] at hemit hrun
    obtain ⟨body', hloads, hruns⟩ := run_reloaded hparse
    have hwritten := emitTree_eq hfolder hlength (hplain body hparse)
    refine Or.inr ⟨_, hemit.trans hwritten, normalPath_treeFile path, fun k tree htree hsame => ?_⟩
    rw [runCommand_tree htree, readTree_after hsame (hjson body hparse) hloads, hrun]
    exact runProgram_eq (Disk.after_of_ne (treeFile_ne_traceFile path).symm)
      (hruns defaultBound k)

end Commands

/-- The program of no text. -/
theorem parse_empty : @parse .empty "" = .ok [] := by
  have hempty : (@parse .empty "").toOption.map List.isEmpty = some true := by decide +kernel
  cases hparse : @parse .empty "" with
  | error e =>
    rw [hparse] at hempty
    cases hempty
  | ok body =>
    rw [hparse] at hempty
    rw [List.isEmpty_iff.mp (Option.some.inj hempty)]

/-! Programs and documents have no decidable equality, but whether they have a given shape can be
computed. -/

/-- Whether a program does nothing but call a function, without arguments. -/
def isCallOf (name : String) : List Node → Bool
  | [.expression (.call (.identifier callee) [])] => callee == .plain name
  | _ => false

theorem eq_of_isCallOf {name : String} {body : List Node} (h : isCallOf name body = true) :
    body = [.expression (.call (.identifier name) [])] := by
  unfold isCallOf at h
  split at h
  · rw [eq_of_beq h]
  · cases h

/-- Whether a document is the document of such a program. -/
def isCallDocument (name : String) : Json → Bool
  | .object [(k₁, .string s₁), (k₂, .string s₂), (k₃, .array [.object [(k₄, .string s₄),
      (k₅, .object [(k₆, .string s₆), (k₇, .object [(k₈, .string s₈), (k₉, .string s₉)]),
        (k₁₀, .array [])])]])] =>
    [k₁, s₁, k₂, s₂, k₃] == ([.plain "type", .plain "Program", .plain "sourceType",
        .plain "script", .plain "body"] : List Text) &&
      [k₄, s₄, k₅] == ([.plain "type", .plain "ExpressionStatement", .plain "expression"] :
        List Text) &&
      [k₆, s₆, k₇] == ([.plain "type", .plain "CallExpression", .plain "callee"] : List Text) &&
      [k₈, s₈, k₉, s₉, k₁₀] == ([.plain "type", .plain "Identifier", .plain "name", .plain name,
        .plain "arguments"] : List Text)
  | _ => false

theorem eq_of_isCallDocument {name : String} {j : Json} (h : isCallDocument name j = true) :
    j = Node.toJson (.program [.expression (.call (.identifier name) [])]) := by
  unfold isCallDocument at h
  split at h
  · simp only [Bool.and_eq_true, beq_iff_eq, List.cons.injEq, and_true] at h
    obtain ⟨⟨⟨⟨rfl, rfl, rfl, rfl, rfl⟩, rfl, rfl, rfl⟩, rfl, rfl, rfl⟩, rfl, rfl, rfl, rfl, rfl⟩ := h
    rfl
  · cases h

/-- The program of a text that calls something. -/
theorem parse_call : @parse .empty "f();" = .ok [.expression (.call (.identifier "f") [])] := by
  have hcall : (@parse .empty "f();").toOption.map (isCallOf "f") = some true := by decide +kernel
  cases hparse : @parse .empty "f();" with
  | error e =>
    rw [hparse] at hcall
    cases hcall
  | ok body =>
    rw [hparse] at hcall
    rw [eq_of_isCallOf (Option.some.inj hcall)]

/-- The document of that program is read as it is written. -/
theorem read_write_call :
    Json.read (Json.write .indented
        (Node.toJson (.program [.expression (.call (.identifier "f") [])]))) =
      .ok (Node.toJson (.program [.expression (.call (.identifier "f") [])])) := by
  have hdocument : (Json.readChars (Json.writeBefore .indented 0
      (Node.toJson (.program [.expression (.call (.identifier "f") [])])) [])).toOption.map
        (isCallDocument "f") = some true := by decide +kernel
  unfold Json.read Json.write
  dsimp only
  rw [String.toList_ofList]
  cases hread : Json.readChars (Json.writeBefore .indented 0
      (Node.toJson (.program [.expression (.call (.identifier "f") [])])) []) with
  | error e =>
    rw [hread] at hdocument
    cases hdocument
  | ok j =>
    rw [hread] at hdocument
    rw [eq_of_isCallDocument (Option.some.inj hdocument)]
    rfl

/-- The theorem at a program that fails after its trace has begun. -/
theorem routes_agree_at_call :
    let disk : Disk := Folder.entry? (.ofEntries [("f.js", .file "f();".toUTF8.data.toList)])
    IsWord "f.js" ∧ Spells disk "f.js" "f();" ∧ disk (treeFile "f.js") ≠ some .folder ∧
      disk (treeFile "f.js") ≠ some .overlong ∧
      (∀ body, @parse .empty "f();" = .ok body →
        ¬ (Node.toJson (.program body)).HoldsSurrogate) ∧
      (∀ body, @parse .empty "f();" = .ok body →
        Json.read (Json.write .indented (Node.toJson (.program body))) =
          .ok (Node.toJson (.program body))) ∧
      ∃ text, @runCommand .empty ["--emit-ast", "f.js"] disk =
          ⟨.exit 0, "f.js.ast.json\n", "", [("f.js.ast.json", text)]⟩ ∧
        @runCommand .empty (List.replicate 2 "-v" ++ ["--ast", "f.js.ast.json"])
            (disk.after [("f.js.ast.json", text)]) =
          @runCommand .empty (List.replicate 2 "-v" ++ ["f.js"]) disk := by
  intro disk
  have hpath : IsWord "f.js" := ⟨by decide, by decide⟩
  have htree : IsWord "f.js.ast.json" := ⟨by decide, by decide⟩
  have htarget : treeFile "f.js" = "f.js.ast.json" := by decide +kernel
  have hspells : Spells disk "f.js" "f();" := by
    refine ⟨"f();".toUTF8.data.toList, by decide +kernel, ?_⟩
    rw [decodeText, Text.readUtf8_toUTF8, ok_map]
    rfl
  have hnone : disk (treeFile "f.js") = none := by decide +kernel
  have hplain : ∀ body, @parse .empty "f();" = .ok body →
      ¬ (Node.toJson (.program body)).HoldsSurrogate := by
    intro body hbody
    rw [parse_call] at hbody
    cases hbody
    exact Json.unencodable?_eq_none_iff.mp rfl
  have hjson : ∀ body, @parse .empty "f();" = .ok body →
      Json.read (Json.write .indented (Node.toJson (.program body))) =
        .ok (Node.toJson (.program body)) := by
    intro body hbody
    rw [parse_call] at hbody
    cases hbody
    exact read_write_call
  have hfolder : disk (treeFile "f.js") ≠ some .folder := by
    rw [hnone]
    exact nofun
  have hlength : disk (treeFile "f.js") ≠ some .overlong := by
    rw [hnone]
    exact nofun
  refine ⟨hpath, hspells, hfolder, hlength, hplain, hjson, ?_⟩
  rcases @routes_agree _ _ _ .empty hpath hspells hfolder hlength hplain hjson with
    ⟨error, herror, -⟩ |
    ⟨text, hemit, hnormal, hruns⟩
  · rw [parse_call] at herror
    cases herror
  · rw [htarget] at hemit hnormal hruns
    exact ⟨text, hemit, hruns 2 _ htree hnormal⟩

/-- A tree file whose path is too long is not written, and what keeps it from being written gets no
message. -/
theorem emit_of_overlong [CharacterNames] {disk : Disk} {path source : String} {body : List Node}
    (hpath : IsWord path) (hfile : Spells disk path source) (hparse : parse source = .ok body)
    (hlong : disk (treeFile path) = some .overlong) :
    runCommand ["--emit-ast", path] disk = ⟨.escape (.overlong (treeFile path)), "", "", []⟩ := by
  rw [runCommand_emit hpath, readProgram_of_spells hfile, hparse]
  show emitTree disk path body = _
  unfold emitTree
  dsimp only
  rw [hlong]
  rfl

/-- A name that is short enough for a program and too long for its tree file. -/
theorem emit_escapes_at_long_name :
    let name := String.ofList (List.replicate 250 'a')
    let disk : Disk := Folder.entry? (.ofEntries [(name, .file [])])
    IsWord name ∧ Spells disk name "" ∧
      @runCommand .empty ["--emit-ast", name] disk =
        ⟨.escape (.overlong (treeFile name)), "", "", []⟩ ∧
      @runCommand .empty [name] disk = ⟨.exit 0, "", "", []⟩ := by
  intro name disk
  have hpart : IsPart (List.replicate 250 'a') :=
    ⟨by decide +kernel, by decide +kernel, by decide +kernel⟩
  have htreePart : IsPart (List.replicate 250 'a' ++ ".ast.json".toList) :=
    hpart.append ⟨by decide, by decide, by decide⟩
  have hpath : IsWord name := by
    constructor
    · intro h
      have hlist := congrArg String.toList h
      rw [String.toList_ofList] at hlist
      cases hlist
    · rw [String.toList_ofList]
      decide +kernel
  have hspells : Spells disk name "" := by
    refine ⟨[], ?_, rfl⟩
    rw [normalPath_of_part hpart]
    show Folder.entry? _ (String.ofList (List.replicate 250 'a')) = _
    rw [Folder.entry_of_part _ hpart (by decide +kernel) (by decide +kernel) (by decide +kernel),
      if_neg (by decide +kernel), Folder.entryAt?_single hpart]
  have hlong : disk (treeFile name) = some .overlong := by
    rw [treeFile_of_part hpart]
    show Folder.entry? _ _ = _
    rw [Folder.entry_of_part _ htreePart (by decide +kernel) (by decide +kernel)
      (by decide +kernel), if_pos (by decide +kernel)]
  refine ⟨hpath, hspells, @emit_of_overlong .empty _ _ _ _ hpath hspells parse_empty hlong, ?_⟩
  have hrun : @runCommand .empty [name] disk = _ := @runCommand_program _ _ .empty hpath 0
  rw [@readProgram_of_spells _ _ .empty _ hspells, parse_empty] at hrun
  exact hrun

end Command
end Scriptlet
