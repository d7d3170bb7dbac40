import Mathlib.Data.List.Nodup
import Mathlib.Data.List.Perm.Basic
import Scriptlet.Proofs.Simulation.Pairing
import Scriptlet.Proofs.Writing

/-!
# Functions that are declared one after another

A declaration cannot fail, as long as the bound allows for it, and does nothing but make a function
and bind it.  So it can be said in full what several of them do: the functions get the next
identities in the order of the declarations, and the scope binds them by their names.  If the names
are different, the order shows in the identities alone.

* `executeDeclarations`: the declarations are executed, and then whatever comes after them
  (`executeEach_declarations`, `executeProgram_declarations`).
* `World.declare`: what becomes of the world.  `Declaration.closures` are the functions.
* `Coding.Tied.declare`: worlds that are tied stay so if the same functions are declared in both, in
  any order.  The new functions are paired by their names.
-/

namespace Scriptlet

/-! ## Execution -/

/-- Executes declarations. -/
def executeDeclarations (bound : Nat) (scope : ScopeId) : List Declaration → Run PUnit
  | [] => pure ⟨⟩
  | d :: ds => do
    let _ ← execute bound d.node scope
    executeDeclarations bound scope ds

/-- A declaration does not return. -/
theorem execute_declaration_bind {α : Type} (bound : Nat) (d : Declaration) (scope : ScopeId)
    (k : Outcome → Run α) :
    (execute bound d.node scope >>= k) = execute bound d.node scope >>= fun _ => k .proceed := by
  cases bound with
  | zero =>
    rw [execute_zero]
    rfl
  | succ bound =>
    rw [Declaration.node, execute_function]
    simp only [bind_assoc, pure_bind]

theorem executeEach_declarations (bound : Nat) (scope : ScopeId) (ds : List Declaration)
    (nodes : List Node) :
    executeEach (fun node => execute bound node scope) (ds.map Declaration.node ++ nodes) =
      executeDeclarations bound scope ds >>= fun _ =>
        executeEach (fun node => execute bound node scope) nodes := by
  induction ds with
  | nil => rfl
  | cons d ds ih =>
    rw [List.map_cons, List.cons_append, executeEach, execute_declaration_bind]
    dsimp only
    rw [ih, executeDeclarations, bind_assoc]

theorem executeProgram_declarations (bound : Nat) (scope : ScopeId) (result : Value)
    (ds : List Declaration) (nodes : List Node) :
    executeProgram bound scope result (ds.map Declaration.node ++ nodes) =
      executeDeclarations bound scope ds >>= fun _ =>
        executeProgram bound scope result nodes := by
  induction ds with
  | nil => rfl
  | cons d ds ih =>
    rw [List.map_cons, List.cons_append, executeProgram_of_not_isExpression bound scope rfl, ih,
      executeDeclarations, bind_assoc]

theorem executeDeclarations_zero (scope : ScopeId) {ds : List Declaration} (h : ds ≠ []) :
    executeDeclarations 0 scope ds = throw .stackExhausted := by
  cases ds with
  | nil => exact absurd rfl h
  | cons d ds =>
    rw [executeDeclarations, execute_zero]
    rfl

namespace World

/-- The function that a declaration makes. -/
def closureOf (w : World) (scope : ScopeId) (d : Declaration) : Closure :=
  (w.addClosure d.name d.params d.body scope).1

/-- The world after declarations. -/
def declare (scope : ScopeId) : List Declaration → World → World
  | [], w => w
  | d :: ds, w =>
    declare scope ds (w.issueIdentity.2.bind scope d.name (.closure (w.closureOf scope d)))

end World

/-- A declaration, with the event for it. -/
theorem execute_declaration (bound : Nat) (d : Declaration) (scope : ScopeId) :
    execute (bound + 1) d.node scope =
      (modify (World.declare scope [d]) >>= fun _ =>
        tell 2 (fun _ =>
          "define function " ++ d.name ++ "(" ++ Text.intercalate ", " d.params ++ ")")
          >>= fun _ => pure .proceed) := by
  rw [Declaration.node, execute_function]
  rfl

/-- **What declarations do** where nothing is traced. -/
theorem executeDeclarations_succ (bound : Nat) (scope : ScopeId) (ds : List Declaration) {w : World}
    (hsilent : w.verbosity = 0) :
    executeDeclarations (bound + 1) scope ds w = .ok ⟨⟩ (World.declare scope ds w) := by
  induction ds generalizing w with
  | nil => rfl
  | cons d ds ih =>
    have hdeclared : execute (bound + 1) d.node scope w =
        .ok .proceed (World.declare scope [d] w) := by
      have hdeclares : (World.declare scope [d] w).verbosity = 0 := hsilent
      rw [execute_declaration]
      show (tell 2 _ >>= fun _ => pure Outcome.proceed : Run Outcome)
        (World.declare scope [d] w) = _
      simp only [Bind.bind, EStateM.bind, tell_of_silent hdeclares Nat.two_pos]
      rfl
    rw [executeDeclarations]
    simp only [Bind.bind, EStateM.bind, hdeclared]
    exact ih hsilent

/-! ## The functions that are made -/

/-- The functions that declarations make, if these are the identities from here on. -/
def Declaration.closures (scope : ScopeId) : Nat → List Declaration → List Closure
  | _, [] => []
  | identity, d :: ds =>
    ⟨identity, d.name, d.params, d.body, scope⟩ :: closures scope (identity + 1) ds

namespace Declaration

variable {scope : ScopeId} {identity : Nat} {ds : List Declaration} {f g : Closure}

theorem map_name_closures (scope : ScopeId) (identity : Nat) (ds : List Declaration) :
    (closures scope identity ds).map Closure.name = ds.map Declaration.name := by
  induction ds generalizing identity with
  | nil => rfl
  | cons d ds ih => rw [closures, List.map_cons, List.map_cons, ih]

theorem map_identity_closures (scope : ScopeId) (identity : Nat) (ds : List Declaration) :
    (closures scope identity ds).map Closure.identity = List.range' identity ds.length := by
  induction ds generalizing identity with
  | nil => rfl
  | cons d ds ih => rw [closures, List.map_cons, ih, List.length_cons, List.range'_succ]

/-- Functions are told apart by their identities. -/
theorem eq_of_identity_eq (hf : f ∈ closures scope identity ds)
    (hg : g ∈ closures scope identity ds) (h : f.identity = g.identity) : f = g := by
  refine List.inj_on_of_nodup_map ?_ hf hg h
  rw [map_identity_closures]
  exact List.nodup_range'

/-- Functions of different names are told apart by their names. -/
theorem eq_of_name_eq (hds : (ds.map Declaration.name).Nodup)
    (hf : f ∈ closures scope identity ds) (hg : g ∈ closures scope identity ds)
    (h : f.name = g.name) : f = g := by
  refine List.inj_on_of_nodup_map ?_ hf hg h
  rw [map_name_closures]
  exact hds

theorem identity_mem (hf : f ∈ closures scope identity ds) :
    identity ≤ f.identity ∧ f.identity < identity + ds.length := by
  have hmem := List.mem_map_of_mem (f := Closure.identity) hf
  rw [map_identity_closures, List.mem_range'_1] at hmem
  exact hmem

/-- Every declaration makes a function. -/
theorem exists_closure (scope : ScopeId) (identity : Nat) {d : Declaration} (h : d ∈ ds) :
    ∃ f ∈ closures scope identity ds, f.name = d.name ∧ f.params = d.params ∧ f.body = d.body ∧
      f.scope = scope := by
  induction ds generalizing identity with
  | nil => cases h
  | cons d' ds ih =>
    rcases List.mem_cons.mp h with rfl | h
    · exact ⟨_, List.mem_cons_self .., rfl, rfl, rfl, rfl⟩
    · obtain ⟨f, hf, hclosure⟩ := ih (identity + 1) h
      exact ⟨f, List.mem_cons_of_mem _ hf, hclosure⟩

end Declaration

namespace Scope

variable {fs : List Closure} {f : Closure}

/-- A function is bound by its name if no other has it. -/
theorem get?_declare_of_mem (s : Scope) (hfs : (fs.map Closure.name).Nodup) (hf : f ∈ fs) :
    (s.declare fs).get? f.name = some (.closure f) := by
  induction fs generalizing s with
  | nil => cases hf
  | cons g fs ih =>
    obtain ⟨hg, hfs⟩ := List.nodup_cons.mp hfs
    rcases List.mem_cons.mp hf with rfl | hf
    · -- nothing that is declared later has the name
      rcases (s.bind f.name (.closure f)).get?_declare fs f.name with h | ⟨g, hmem, hname, -⟩
      · exact h.trans (get?_bind_self ..)
      · exact absurd (hname ▸ List.mem_map_of_mem hmem) hg
    · exact ih (s.bind g.name (.closure g)) hfs hf

theorem get?_declare_of_not_mem (s : Scope) {name : Text} (h : name ∉ fs.map Closure.name) :
    (s.declare fs).get? name = s.get? name := by
  rcases s.get?_declare fs name with heq | ⟨f, hf, rfl, -⟩
  · exact heq
  · exact absurd (List.mem_map_of_mem hf) h

end Scope

/-! ## Worlds after declarations -/

namespace World

variable (scope : ScopeId) (ds : List Declaration) (w : World)

/-- Declarations touch nothing but the scopes and the identities. -/
theorem declare_eq : declare scope ds w =
    { w with scopes := (declare scope ds w).scopes
             nextIdentity := (declare scope ds w).nextIdentity } := by
  induction ds generalizing w with
  | nil => rfl
  | cons d ds ih =>
    rw [declare, ih]
    rfl

theorem nextIdentity_declare : (declare scope ds w).nextIdentity = w.nextIdentity + ds.length := by
  induction ds generalizing w with
  | nil => rfl
  | cons d ds ih =>
    rw [declare, ih, List.length_cons, Nat.add_comm ds.length, ← Nat.add_assoc]
    rfl

theorem size_declare : (declare scope ds w).scopes.size = w.scopes.size := by
  induction ds generalizing w with
  | nil => rfl
  | cons d ds ih =>
    rw [declare, ih, size_bind]
    rfl

theorem scopeAt_declare_of_ne {id : ScopeId} (h : scope ≠ id) :
    (declare scope ds w).scopeAt id = w.scopeAt id := by
  induction ds generalizing w with
  | nil => rfl
  | cons d ds ih =>
    rw [declare, ih, scopeAt_bind_of_ne _ h]
    rfl

theorem scopeAt_declare_self (h : scope < w.scopes.size) : (declare scope ds w).scopeAt scope =
    (w.scopeAt scope).declare (Declaration.closures scope w.nextIdentity ds) := by
  induction ds generalizing w with
  | nil => rfl
  | cons d ds ih =>
    have hsize : scope < (w.issueIdentity.2.bind scope d.name
        (.closure (w.closureOf scope d))).scopes.size := by
      rw [size_bind]
      exact h
    rw [declare, ih _ hsize, scopeAt_bind_self _ (by exact h)]
    rfl

end World

/-! ## Declarations in tied worlds -/

namespace Coding

variable {C : Coding} {p : Pairing} {w v : World} {i j : ScopeId} {ds es : List Declaration}

/-- The identities of functions of one name. -/
def SameName (i j : ScopeId) (w v : World) (ds es : List Declaration) (m n : Nat) : Prop :=
  ∃ f ∈ Declaration.closures i w.nextIdentity ds, ∃ g ∈ Declaration.closures j v.nextIdentity es,
    f.name = g.name ∧ f.identity = m ∧ g.identity = n

theorem oneToOne_sameName (i j : ScopeId) (w v : World) (hds : (ds.map Declaration.name).Nodup)
    (hes : (es.map Declaration.name).Nodup) : OneToOne (SameName i j w v ds es) := by
  rintro m m' n n' ⟨f, hf, g, hg, hname, rfl, rfl⟩ ⟨f', hf', g', hg', hname', rfl, rfl⟩
  constructor
  · intro h
    obtain rfl := Declaration.eq_of_identity_eq hf hf' h
    rw [Declaration.eq_of_name_eq hes hg hg' (hname.symm.trans hname')]
  · intro h
    obtain rfl := Declaration.eq_of_identity_eq hg hg' h
    rw [Declaration.eq_of_name_eq hds hf hf' (hname.trans hname'.symm)]

/-- What is needed of two lists of declarations: names are different in each, and every declaration
of the one stands for one of the other. -/
structure Interchangeable (C : Coding) (ds es : List Declaration) : Prop where
  left : (ds.map Declaration.name).Nodup
  right : (es.map Declaration.name).Nodup
  forth : ∀ d ∈ ds, ∃ e ∈ es, C.node d.node e.node
  back : ∀ e ∈ es, ∃ d ∈ ds, C.node d.node e.node

namespace Interchangeable

variable (h : C.Interchangeable ds es)

include h

theorem mem_names_iff {name : Text} :
    name ∈ ds.map Declaration.name ↔ name ∈ es.map Declaration.name := by
  constructor
  · intro hname
    obtain ⟨d, hd, rfl⟩ := List.mem_map.mp hname
    obtain ⟨e, he, hnode⟩ := h.forth d hd
    exact List.mem_map.mpr ⟨e, he, (declaration hnode).1.symm⟩
  · intro hname
    obtain ⟨e, he, rfl⟩ := List.mem_map.mp hname
    obtain ⟨d, hd, hnode⟩ := h.back e he
    exact List.mem_map.mpr ⟨d, hd, (declaration hnode).1⟩

theorem mentions {name : Text} (hname : name ∈ es.map Declaration.name) :
    C.mentions name = true := by
  obtain ⟨e, he, rfl⟩ := List.mem_map.mp hname
  obtain ⟨d, -, hnode⟩ := h.back e he
  obtain ⟨heq, -, hmentions, -⟩ := declaration hnode
  exact heq ▸ hmentions

theorem eq_nil_iff : ds = [] ↔ es = [] := by
  constructor
  · rintro rfl
    refine List.eq_nil_iff_forall_not_mem.mpr fun e he => ?_
    obtain ⟨d, hd, -⟩ := h.back e he
    cases hd
  · rintro rfl
    refine List.eq_nil_iff_forall_not_mem.mpr fun d hd => ?_
    obtain ⟨e, he, -⟩ := h.forth d hd
    cases he

theorem length_eq : ds.length = es.length := by
  have hperm := (List.perm_ext_iff_of_nodup h.left h.right).mpr fun _ => h.mem_names_iff
  have hlength := hperm.length_eq
  rw [List.length_map, List.length_map] at hlength
  exact hlength

/-- What a declaration makes is alike to what the one that it stands for makes, if functions of one
name are paired. -/
theorem exists_alike {q : Pairing} (hij : q.scope i j)
    (hpaired : ∀ {m n}, SameName i j w v ds es m n → q.identity m n) {d : Declaration}
    (hd : d ∈ ds) :
    ∃ f ∈ Declaration.closures i w.nextIdentity ds, ∃ g ∈ Declaration.closures j v.nextIdentity es,
      f.name = d.name ∧ g.name = d.name ∧ C.Alike q (.closure f) (.closure g) := by
  obtain ⟨e, he, hnode⟩ := h.forth d hd
  obtain ⟨hname, hparams, -, hmentions, hbody⟩ := declaration hnode
  obtain ⟨f, hf, hfname, hfparams, hfbody, hfscope⟩ :=
    Declaration.exists_closure i w.nextIdentity hd
  obtain ⟨g, hg, hgname, hgparams, hgbody, hgscope⟩ :=
    Declaration.exists_closure j v.nextIdentity he
  have hfg : f.name = g.name := hfname.trans (hname.trans hgname.symm)
  refine ⟨f, hf, g, hg, hfname, hfg.symm.trans hfname,
    .closure (hpaired ⟨f, hf, g, hg, hfg, rfl, rfl⟩) hfg ?_ ?_ ?_ ?_⟩
  · rw [hfparams, hgparams, hparams]
  · rw [hfparams]
    exact hmentions
  · rw [hfbody, hgbody]
    exact hbody
  · rw [hfscope, hgscope]
    exact hij

/-- Scopes that are alike stay so, if functions of one name are paired. -/
theorem scopesAlike {q : Pairing} {s t : Scope} (hst : C.ScopesAlike q s t) (hij : q.scope i j)
    (hpaired : ∀ {m n}, SameName i j w v ds es m n → q.identity m n) :
    C.ScopesAlike q (s.declare (Declaration.closures i w.nextIdentity ds))
      (t.declare (Declaration.closures j v.nextIdentity es)) := by
  intro name hmentions
  by_cases hname : name ∈ ds.map Declaration.name
  · obtain ⟨d, hd, rfl⟩ := List.mem_map.mp hname
    obtain ⟨f, hf, g, hg, hfname, hgname, hfg⟩ := h.exists_alike hij hpaired hd
    have hbound := s.get?_declare_of_mem (Declaration.map_name_closures i _ ds ▸ h.left) hf
    have hbound' := t.get?_declare_of_mem (Declaration.map_name_closures j _ es ▸ h.right) hg
    rw [hfname] at hbound
    rw [hgname] at hbound'
    rw [hbound, hbound']
    exact .some hfg
  · have hname' : name ∉ es.map Declaration.name := fun he => hname (h.mem_names_iff.mpr he)
    rw [Scope.get?_declare_of_not_mem, Scope.get?_declare_of_not_mem]
    · exact hst name hmentions
    · rw [Declaration.map_name_closures]
      exact hname'
    · rw [Declaration.map_name_closures]
      exact hname

end Interchangeable

theorem interchangeable_singleton {d e : Declaration} (h : C.node d.node e.node) :
    C.Interchangeable [d] [e] where
  left := List.nodup_singleton _
  right := List.nodup_singleton _
  forth := List.forall_mem_singleton.mpr ⟨e, List.mem_singleton_self e, h⟩
  back := List.forall_mem_singleton.mpr ⟨d, List.mem_singleton_self d, h⟩

/-- What is declared next has not been paired yet. -/
theorem Tied.apart_sameName (h : C.Tied p w v) (i j : ScopeId) (ds es : List Declaration)
    ⦃m m' n n' : Nat⦄ (hmn : p.identity m n) (hsame : SameName i j w v ds es m' n') :
    m ≠ m' ∧ n ≠ n' := by
  obtain ⟨f, hf, g, hg, -, rfl, rfl⟩ := hsame
  obtain ⟨hm, hn⟩ := h.identity_lt hmn
  exact ⟨Nat.ne_of_lt (Nat.lt_of_lt_of_le hm (Declaration.identity_mem hf).1),
    Nat.ne_of_lt (Nat.lt_of_lt_of_le hn (Declaration.identity_mem hg).1)⟩

/-- **The same functions, declared in any order.**  They are paired by their names. -/
theorem Tied.declare (h : C.Tied p w v) (hij : p.scope i j) (hdeclared : C.Interchangeable ds es) :
    ∃ q, C.Advances p q v (World.declare i ds w) (World.declare j es v) := by
  obtain ⟨hi, hj⟩ := h.scope_lt hij
  have hapart := h.apart_sameName i j ds es
  have hnames := oneToOne_sameName i j w v hdeclared.left hdeclared.right
  have hgrows := Pairing.grows_addIdentities hnames hapart
  refine ⟨p.addIdentities _ hnames hapart, hgrows, ⟨fun hkl => ?_, ?_, fun {k l} hkl => ?_, ?_, ?_,
    ?_, ?_, ?_⟩, ?_, fun id _ name hname => ?_⟩
  · rw [World.size_declare, World.size_declare]
    exact h.scope_lt hkl
  · rw [World.nextIdentity_declare, World.nextIdentity_declare]
    rintro m n (hmn | ⟨f, hf, g, hg, -, rfl, rfl⟩)
    · exact (h.identity_lt hmn).imp (Nat.lt_add_right _) (Nat.lt_add_right _)
    · exact ⟨(Declaration.identity_mem hf).2, (Declaration.identity_mem hg).2⟩
  · have hiff := p.scope_iff hij hkl
    by_cases hik : i = k
    · obtain rfl := hik
      obtain rfl := hiff.mp rfl
      rw [World.scopeAt_declare_self i ds w hi, World.scopeAt_declare_self j es v hj]
      exact hdeclared.scopesAlike ((h.scopes hij).mono hgrows) hij Or.inr
    · rw [World.scopeAt_declare_of_ne i ds w hik,
        World.scopeAt_declare_of_ne j es v fun hjl => hik (hiff.mpr hjl)]
      exact (h.scopes hkl).mono hgrows
  · rw [World.declare_eq, World.declare_eq j]
    exact h.output
  · rw [World.declare_eq, World.declare_eq j]
    exact h.trace
  · rw [World.declare_eq, World.declare_eq j]
    exact h.tracing
  · rw [World.declare_eq, World.declare_eq j]
    exact h.verbosity
  · rw [World.declare_eq]
    exact h.silent
  · rw [World.size_declare]
  · by_cases hid : j = id
    · obtain rfl := hid
      rw [World.scopeAt_declare_self j es v hj, Scope.get?_declare_of_not_mem]
      rw [Declaration.map_name_closures]
      exact fun he => Bool.false_ne_true (hname.symm.trans (hdeclared.mentions he))
    · rw [World.scopeAt_declare_of_ne j es v hid]

end Coding

end Scriptlet
