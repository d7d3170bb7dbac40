import Scriptlet.Command

/-!
# Paths that are shown

A path is shown without the parts that do not matter.  Nothing is left out of the path of a tree
file when it is shown again, so what a command prints leads to the file that it has written.

* `IsPart`, `IsRoot`: what paths that are shown consist of.
* `splitPath_intercalate`: parts are found again between the slashes.
* `normalPath_of_parts`: a path of such parts is shown as it is.
* `normalPath_treeFile`: so is the path of a tree file.
* `Folder.entry_of_part`: what stands in a folder under a single name.
-/

namespace Scriptlet
namespace Command

/-- A part that matters. -/
structure IsPart (part : List Char) : Prop where
  slash : '/' ∉ part
  ne_nil : part ≠ []
  ne_dot : part ≠ ['.']

/-- The slashes that a path may start with. -/
def IsRoot (root : List Char) : Prop := root = [] ∨ root = ['/'] ∨ root = ['/', '/']

theorem isRoot_pathRoot (cs : List Char) : IsRoot (pathRoot cs) := by
  unfold pathRoot
  split
  · exact .inr (.inl rfl)
  · exact .inr (.inr rfl)
  · exact .inr (.inl rfl)
  · exact .inl rfl

/-! ## Splitting -/

section Splitting

variable {c : Char} {part first cs : List Char} {parts rest : List (List Char)}

theorem splitPath_cons_of_ne (h : c ≠ '/') (hcs : splitPath cs = first :: rest) :
    splitPath (c :: cs) = (c :: first) :: rest := by
  unfold splitPath at hcs ⊢
  rw [List.foldr_cons, if_neg h, hcs]

theorem splitPath_append (h : '/' ∉ part) (hcs : splitPath cs = first :: rest) :
    splitPath (part ++ cs) = (part ++ first) :: rest := by
  induction part with
  | nil => exact hcs
  | cons c part ih =>
    rw [List.mem_cons, not_or] at h
    exact splitPath_cons_of_ne (Ne.symm h.1) (ih h.2)

/-- Parts without slashes are found again between the slashes. -/
theorem splitPath_intercalate (h : ∀ p ∈ part :: parts, '/' ∉ p) :
    splitPath (['/'].intercalate (part :: parts)) = part :: parts := by
  induction parts generalizing part with
  | nil =>
    have hpart : splitPath (part ++ []) = [part ++ []] :=
      splitPath_append (h part (List.mem_cons_self ..)) rfl
    rw [List.append_nil] at hpart
    simpa using hpart
  | cons next parts ih =>
    rw [List.forall_mem_cons] at h
    have hnext : splitPath ('/' :: ['/'].intercalate (next :: parts)) = [] :: next :: parts :=
      congrArg (List.cons []) (ih h.2)
    have hpart := splitPath_append h.1 hnext
    rw [List.append_nil] at hpart
    simpa using hpart

theorem slash_not_mem_of_mem_splitPath (h : part ∈ splitPath cs) : '/' ∉ part := by
  induction cs generalizing part with
  | nil =>
    rw [List.mem_singleton.mp h]
    exact List.not_mem_nil
  | cons c cs ih =>
    by_cases hc : c = '/'
    · subst hc
      rcases List.mem_cons.mp h with rfl | h
      · exact List.not_mem_nil
      · exact ih h
    · have hslash : ∀ {p : List Char}, '/' ∉ p → '/' ∉ c :: p := fun hp hmem =>
        (List.mem_cons.mp hmem).elim (Ne.symm hc) hp
      cases hcs : splitPath cs with
      | nil =>
        unfold splitPath at hcs h
        rw [List.foldr_cons, if_neg hc, hcs] at h
        rw [List.mem_singleton.mp h]
        exact hslash List.not_mem_nil
      | cons first rest =>
        rw [splitPath_cons_of_ne hc hcs] at h
        rw [hcs] at ih
        rcases List.mem_cons.mp h with rfl | h
        · exact hslash (ih (List.mem_cons_self ..))
        · exact ih (List.mem_cons_of_mem first h)

theorem isPart_of_mem_pathParts (h : part ∈ pathParts cs) : IsPart part := by
  obtain ⟨hmem, hpart⟩ := List.mem_filter.mp h
  obtain ⟨hnil, hdot⟩ := of_decide_eq_true hpart
  exact ⟨slash_not_mem_of_mem_splitPath hmem, hnil, hdot⟩

end Splitting

/-! ## Shown paths -/

section Shown

variable {c : Char} {root part cs : List Char} {parts : List (List Char)}

theorem pathRoot_append (hroot : IsRoot root) (hc : c ≠ '/') :
    pathRoot (root ++ c :: cs) = root := by
  rcases hroot with rfl | rfl | rfl
  · simp [pathRoot, hc]
  · simp [pathRoot, hc]
  · simp [pathRoot, hc]

theorem pathParts_append (hroot : IsRoot root) (cs : List Char) :
    pathParts (root ++ cs) = pathParts cs := by
  have hslash : ∀ cs, pathParts ('/' :: cs) = pathParts cs := fun cs =>
    List.filter_cons_of_neg (by decide)
  rcases hroot with rfl | rfl | rfl
  · rfl
  · exact hslash cs
  · exact (hslash ('/' :: cs)).trans (hslash cs)

/-- No slash stands in front of the first part. -/
theorem exists_intercalate_eq_cons (hne : parts ≠ []) (h : ∀ p ∈ parts, IsPart p) :
    ∃ c cs, c ≠ '/' ∧ ['/'].intercalate parts = c :: cs := by
  obtain ⟨part, parts, rfl⟩ := List.exists_cons_of_ne_nil hne
  have hpart := h part (List.mem_cons_self ..)
  obtain ⟨c, rest, rfl⟩ := List.exists_cons_of_ne_nil hpart.ne_nil
  have hc : c ≠ '/' := fun hc => hpart.slash (hc ▸ List.mem_cons_self ..)
  cases parts with
  | nil => exact ⟨c, rest, hc, by simp⟩
  | cons next parts => exact ⟨c, rest ++ '/' :: ['/'].intercalate (next :: parts), hc, by simp⟩

/-- How a path of some parts is shown. -/
theorem normalPath_eq {path : String} (hne : pathParts path.toList ≠ []) :
    normalPath path =
      String.ofList (pathRoot path.toList ++ ['/'].intercalate (pathParts path.toList)) := by
  obtain ⟨c, cs, -, hcs⟩ := exists_intercalate_eq_cons hne fun _ => isPart_of_mem_pathParts
  unfold normalPath
  dsimp only
  split
  · rename_i heq
    rw [hcs] at heq
    exact (List.append_ne_nil_of_right_ne_nil _ (List.cons_ne_nil c cs) heq).elim
  · rfl

/-- A path of parts that matter is shown as it is. -/
theorem normalPath_of_parts (hroot : IsRoot root) (hne : parts ≠ []) (h : ∀ p ∈ parts, IsPart p) :
    normalPath (String.ofList (root ++ ['/'].intercalate parts)) =
      String.ofList (root ++ ['/'].intercalate parts) := by
  obtain ⟨c, cs, hc, hcs⟩ := exists_intercalate_eq_cons hne h
  have hparts : pathParts (root ++ ['/'].intercalate parts) = parts := by
    obtain ⟨part, parts, rfl⟩ := List.exists_cons_of_ne_nil hne
    rw [pathParts_append hroot, pathParts, splitPath_intercalate fun p hp => (h p hp).slash]
    exact List.filter_eq_self.mpr fun p hp => decide_eq_true ⟨(h p hp).ne_nil, (h p hp).ne_dot⟩
  have hpathRoot : pathRoot (root ++ ['/'].intercalate parts) = root := by
    rw [hcs, pathRoot_append hroot hc]
  rw [normalPath_eq, String.toList_ofList, hparts, hpathRoot]
  rw [String.toList_ofList, hparts]
  exact hne

/-! ## Tree files -/

/-- A part with more written after it. -/
theorem IsPart.append (h : IsPart part) {more : List Char} (hmore : IsPart more) :
    IsPart (part ++ more) where
  slash := by
    rw [List.mem_append]
    exact fun hmem => hmem.elim h.slash hmore.slash
  ne_nil := List.append_ne_nil_of_right_ne_nil part hmore.ne_nil
  ne_dot := by
    intro hdot
    have hlength := congrArg List.length hdot
    rw [List.length_append, List.length_singleton] at hlength
    have hpart := List.length_pos_iff.mpr h.ne_nil
    have hpos := List.length_pos_iff.mpr hmore.ne_nil
    omega

/-- What is written after a path is written after its last part. -/
theorem intercalate_concat_append (parts : List (List Char)) (last more : List Char) :
    ['/'].intercalate (parts ++ [last]) ++ more = ['/'].intercalate (parts ++ [last ++ more]) := by
  induction parts with
  | nil => simp
  | cons part parts ih =>
    cases parts with
    | nil => simp
    | cons next parts => simpa using ih

/-- What the path of a tree file consists of. -/
theorem treeFile_eq (program : String) : ∃ root parts, IsRoot root ∧ parts ≠ [] ∧
    (∀ p ∈ parts, IsPart p) ∧
      treeFile program = String.ofList (root ++ ['/'].intercalate parts) := by
  have hending : IsPart ".ast.json".toList := ⟨by decide, by decide, by decide⟩
  have hroot := isRoot_pathRoot program.toList
  have htree : (treeFile program).toList =
      (normalPath program).toList ++ ".ast.json".toList := String.toList_append
  have heach : ∀ p ∈ pathParts program.toList, IsPart p := fun _ => isPart_of_mem_pathParts
  rcases List.eq_nil_or_concat (pathParts program.toList) with hnone | ⟨init, last, hlast⟩
  · -- such a path is shown as a dot or as its slashes
    obtain ⟨part, hpart, htree⟩ : ∃ part, IsPart part ∧
        (treeFile program).toList = pathRoot program.toList ++ part := by
      rw [htree]
      unfold normalPath
      dsimp only
      rw [hnone]
      rcases hroot with h | h | h <;> rw [h]
      · exact ⟨"..ast.json".toList, ⟨by decide, by decide, by decide⟩, by decide⟩
      · exact ⟨_, hending, by decide⟩
      · exact ⟨_, hending, by decide⟩
    refine ⟨_, [part], hroot, List.cons_ne_nil _ _, List.forall_mem_singleton.mpr hpart, ?_⟩
    rw [← String.toList_inj, htree]
    simp
  · rw [List.concat_eq_append] at hlast
    have hne : pathParts program.toList ≠ [] := by
      rw [hlast]
      exact List.append_ne_nil_of_right_ne_nil init (List.cons_ne_nil last [])
    rw [hlast] at heach
    obtain ⟨hinit, hend⟩ := List.forall_mem_append.mp heach
    refine ⟨_, init ++ [last ++ ".ast.json".toList], hroot, ?_, ?_, ?_⟩
    · exact List.append_ne_nil_of_right_ne_nil init (List.cons_ne_nil _ [])
    · refine List.forall_mem_append.mpr ⟨hinit, List.forall_mem_singleton.mpr ?_⟩
      exact (List.forall_mem_singleton.mp hend).append hending
    · rw [← String.toList_inj, htree, normalPath_eq hne, hlast, ← intercalate_concat_append]
      simp only [String.toList_ofList, List.append_assoc]

/-- A path that is a single name is shown as it is. -/
theorem normalPath_of_part (h : IsPart part) :
    normalPath (String.ofList part) = String.ofList part := by
  have hsingle := normalPath_of_parts (.inl rfl) (List.cons_ne_nil part [])
    (List.forall_mem_singleton.mpr h)
  simpa using hsingle

theorem treeFile_of_part (h : IsPart part) :
    treeFile (String.ofList part) = String.ofList (part ++ ".ast.json".toList) := by
  rw [treeFile, normalPath_of_part h, ← String.toList_inj, String.toList_append]
  simp only [String.toList_ofList]

/-- **The path of a tree file is shown as it is.** -/
theorem normalPath_treeFile (program : String) :
    normalPath (treeFile program) = treeFile program := by
  obtain ⟨root, parts, hroot, hne, hparts, heq⟩ := treeFile_eq program
  rw [heq]
  exact normalPath_of_parts hroot hne hparts

end Shown

/-! ## Names in a folder -/

section Names

variable {part : List Char}

theorem pathParts_of_part (h : IsPart part) : pathParts part = [part] := by
  have hsplit : splitPath (['/'].intercalate [part]) = [part] :=
    splitPath_intercalate (List.forall_mem_singleton.mpr h.slash)
  rw [List.intercalate_singleton] at hsplit
  rw [pathParts, hsplit]
  exact List.filter_eq_self.mpr
    (List.forall_mem_singleton.mpr (decide_eq_true ⟨h.ne_nil, h.ne_dot⟩))

/-- What stands in a folder under a single name, which may be too long. -/
theorem Folder.entry_of_part (f : Folder) (h : IsPart part)
    (hdots : part ≠ ['.', '.']) (hnull : '\x00' ∉ part)
    (hlength : (String.ofList part).utf8ByteSize ≤ maxPathBytes) :
    f.entry? (String.ofList part) =
      if maxNameBytes < (String.ofList part).utf8ByteSize then some .overlong
      else f.entryAt? [part] := by
  have hroot : pathRoot part = [] := by
    obtain ⟨c, cs, rfl⟩ := List.exists_cons_of_ne_nil h.ne_nil
    exact pathRoot_append (.inl rfl) fun hc => h.slash (hc ▸ List.mem_cons_self ..)
  have hplace : f.place? (String.ofList part) = Place.enter? (.inside []) part := by
    unfold Folder.place?
    dsimp only
    rw [String.toList_ofList, if_neg hnull, if_neg (Nat.not_lt.mpr hlength), hroot,
      pathParts_of_part h, if_pos rfl, List.foldlM_cons]
    show (Place.enter? (.inside []) part >>= fun place => [].foldlM (Place.step? f) place) = _
    cases Place.enter? (.inside []) part <;> rfl
  have henter : Place.enter? (.inside []) part =
      if maxNameBytes < (String.ofList part).utf8ByteSize then some .overlong
      else some (.inside [part]) := by
    unfold Place.enter?
    dsimp only
    rw [if_neg hdots]
    rfl
  unfold Folder.entry?
  rw [hplace, henter]
  split <;> rfl

/-- A folder with a single entry has it. -/
theorem Folder.entryAt?_single (h : IsPart part) (entry : Entry) :
    (Folder.ofEntries [(String.ofList part, entry)]).entryAt? [part] = some entry := by
  have hentries : (Folder.ofEntries [(String.ofList part, entry)]).entries = [([part], entry)] := by
    rw [Folder.ofEntries, List.map_singleton]
    dsimp only
    rw [String.toList_ofList, pathParts_of_part h]
  rw [Folder.entryAt?, hentries, List.lookup_cons_self]

end Names

end Command
end Scriptlet
