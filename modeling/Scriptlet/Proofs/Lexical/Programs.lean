import Scriptlet.Proofs.Lexical.Agreement

/-!
# Programs in a row

What somebody sees who runs programs one after another in the same world: how each of them ended,
what has been printed and traced by then, and what the global names are bound to.  Whether calls
copy the captured scope or look names up along the links, it is the same.

* `runEach` and `Lexical.runEach` list what is seen after each program, also after one that failed,
  since the next program starts in the world that it left.
* `runEach_eq_lexical` says that the two lists are equal.
-/

namespace Scriptlet

/-- What can be seen after a run. -/
structure Sight where
  /-- What the program gave, or the fault that it ended with. -/
  result : Except Fault Value
  output : Array String
  trace : Array Event
  /-- What each name is bound to in the global scope. -/
  globals : Text → Option Value

/-- What can be seen of a world after a run with a given result. -/
def World.sight (w : World) (result : Except Fault Value) : Sight :=
  ⟨result, w.output, w.trace, (w.scopeAt globalScope).get?⟩

/-- What can be seen of a world of lexical scoping after a run with a given result. -/
def Lexical.sight (l : Lexical) (result : Except Fault Value) : Sight :=
  ⟨result, l.world.output, l.world.trace, l.get? World.globalScope⟩

/-- Runs programs in the global scope one after another, and looks after each of them. -/
def runEach (bound : Nat) : List (List Node) → World → List Sight
  | [], _ => []
  | body :: programs, w =>
    match run bound body World.globalScope w with
    | .ok value w => w.sight (.ok value) :: runEach bound programs w
    | .error fault w => w.sight (.error fault) :: runEach bound programs w

/-- Runs programs in the global scope one after another, and looks after each of them. -/
def Lexical.runEach (bound : Nat) : List (List Node) → Lexical → List Sight
  | [], _ => []
  | body :: programs, l =>
    match Lexical.run bound body World.globalScope l with
    | .ok value l => l.sight (.ok value) :: runEach bound programs l
    | .error fault l => l.sight (.error fault) :: runEach bound programs l

variable {w : World} {l : Lexical} {scope : ScopeId}

/-! ## One program -/

theorem executeProgram_agrees (bound : Nat) (body : List Node) (hm : Matches w l)
    (hf : Faithful w l scope) (result : Value) :
    Agrees scope w l (fun _ _ _ => True) (executeProgram bound scope result body)
      (Lexical.executeProgram bound scope result body) := by
  induction body generalizing w l result with
  | nil => exact Agrees.pure hm trivial
  | cons node nodes ih =>
    rw [executeProgram, Lexical.executeProgram]
    refine Agrees.bind ((agreement bound).execute node hm hf) fun _ w₁ l₁ _ h₁ => ?_
    have hlatest : l₁.world.latest = w₁.latest := by rw [h₁.worlds.world]
    have hnext := ih h₁.worlds (h₁.faithful scope (Nat.le_refl _) hf)
      (if node.isExpression then w₁.latest else result)
    unfold Agrees at hnext ⊢
    unfold Relates at hnext ⊢
    simp only [bind, EStateM.bind, get, getThe, MonadStateOf.get, EStateM.get, hlatest]
    exact hnext

theorem closingTrace_agrees {m : Run Value} {m' : Lexical.Run Value}
    (h : Agrees scope w l (fun _ _ _ => True) m m') :
    Agrees scope w l (fun _ _ _ => True) (closingTrace m) (Lexical.closingTrace m') := by
  have hclosed : ∀ w' l', Ends scope w w' l l' → Ends scope w { w' with tracing := false } l
      { l' with world := { l'.world with tracing := false } } := by
    intro w' l' hends
    refine hends.trans (.of_scopes_eq scope ⟨?_, hends.worlds.size, hends.worlds.parents⟩
      rfl rfl rfl)
    exact congrArg (fun v : World => { v with tracing := false }) hends.worlds.world
  unfold Agrees Relates at h ⊢
  unfold closingTrace Lexical.closingTrace
  cases hm : m w with
  | ok a w₁ =>
    cases hm' : m' l with
    | ok b l₁ =>
      rw [hm, hm'] at h
      exact ⟨h.1, trivial, hclosed w₁ l₁ h.2.2⟩
    | error f l₁ =>
      rw [hm, hm'] at h
      exact h.elim
  | error e w₁ =>
    cases hm' : m' l with
    | ok b l₁ =>
      rw [hm, hm'] at h
      exact h.elim
    | error f l₁ =>
      rw [hm, hm'] at h
      exact ⟨h.1, hclosed w₁ l₁ h.2⟩

theorem run_agrees (bound : Nat) (body : List Node) (hm : Matches w l) (hf : Faithful w l scope) :
    Agrees scope w l (fun _ _ _ => True) (run bound body scope)
      (Lexical.run bound body scope) := by
  refine closingTrace_agrees ?_
  refine Agrees.bind (blind_modify_agrees scope hm fun _ _ => rfl) fun _ w₁ l₁ _ h₁ => ?_
  refine Agrees.bind (tell_agrees scope h₁.worlds 1 _) fun _ w₂ l₂ _ h₂ => ?_
  have hf₂ := (h₁.trans h₂).faithful scope (Nat.le_refl _) hf
  refine Agrees.bind (executeProgram_agrees bound body h₂.worlds hf₂ _) fun v w₃ l₃ _ h₃ => ?_
  refine Agrees.bind (tell_agrees scope h₃.worlds 1 _) fun _ w₄ l₄ _ h₄ => ?_
  exact Agrees.pure h₄.worlds trivial

/-! ## Programs in a row -/

theorem matches_fresh (verbosity : Nat) :
    Matches (World.fresh verbosity) (Lexical.fresh verbosity) := ⟨rfl, rfl, rfl⟩

/-- The global scope of a new world holds `print` alone. -/
theorem faithful_fresh (verbosity : Nat) :
    Faithful (World.fresh verbosity) (Lexical.fresh verbosity) World.globalScope := by
  have hbound : ∀ name v, ((World.fresh verbosity).scopeAt World.globalScope).get? name = some v →
      v = .builtin ⟨0, "print", .print⟩ := by
    intro name v hv
    have hscope : (World.fresh verbosity).scopeAt World.globalScope =
      Scope.empty.bind "print" (.builtin ⟨0, "print", .print⟩) := rfl
    rw [hscope, Scope.get?_bind] at hv
    split at hv
    · exact (Option.some.inj hv).symm
    · cases hv
  refine .intro Nat.zero_lt_one ?_ ?_ ?_ ?_
  · intro name
    rw [Lexical.get?]
    cases h : ((Lexical.fresh verbosity).world.scopeAt World.globalScope).get? name with
    | some v => exact h.symm
    | none => exact h.symm
  · intro name f hf
    cases hbound name _ hf
    rfl
  · intro name f hf
    cases hbound name _ hf
  · intro name f hf _
    cases hbound name _ hf

/-- Faithful worlds look the same. -/
theorem sight_eq (hm : Matches w l) (hf : Faithful w l World.globalScope)
    (result : Except Fault Value) : w.sight result = l.sight result := by
  have hglobals : (w.scopeAt World.globalScope).get? = l.get? World.globalScope :=
    funext fun name => (hf.get?_eq name).symm
  rw [World.sight, Lexical.sight, hglobals, hm.world]

theorem runEach_eq_of_faithful (bound : Nat) (programs : List (List Node)) (hm : Matches w l)
    (hf : Faithful w l World.globalScope) :
    runEach bound programs w = Lexical.runEach bound programs l := by
  induction programs generalizing w l with
  | nil => rfl
  | cons body programs ih =>
    have h := run_agrees bound body hm hf
    unfold Agrees Relates at h
    rw [runEach, Lexical.runEach]
    cases hw : run bound body World.globalScope w with
    | ok a w₁ =>
      cases hl : Lexical.run bound body World.globalScope l with
      | ok b l₁ =>
        rw [hw, hl] at h
        obtain ⟨rfl, -, hends⟩ := h
        have hf₁ := hends.faithful _ (Nat.le_refl _) hf
        exact congr (congrArg List.cons (sight_eq hends.worlds hf₁ _)) (ih hends.worlds hf₁)
      | error f l₁ =>
        rw [hw, hl] at h
        exact h.elim
    | error e w₁ =>
      cases hl : Lexical.run bound body World.globalScope l with
      | ok b l₁ =>
        rw [hw, hl] at h
        exact h.elim
      | error f l₁ =>
        rw [hw, hl] at h
        obtain ⟨rfl, hends⟩ := h
        have hf₁ := hends.faithful _ (Nat.le_refl _) hf
        exact congr (congrArg List.cons (sight_eq hends.worlds hf₁ _)) (ih hends.worlds hf₁)

/-- **Copying the captured scope at each call is lexical scoping.**  Whatever programs are run one
after another in a new world, under whatever bound on nesting: after each of them the two kinds of
walk have given the same value or the same fault, have printed and traced the same, and have bound
the same global names to the same values. -/
theorem runEach_eq_lexical (bound verbosity : Nat) (programs : List (List Node)) :
    runEach bound programs (World.fresh verbosity) =
      Lexical.runEach bound programs (Lexical.fresh verbosity) :=
  runEach_eq_of_faithful bound programs (matches_fresh verbosity) (faithful_fresh verbosity)

end Scriptlet
