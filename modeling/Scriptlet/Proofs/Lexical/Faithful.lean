import Scriptlet.Proofs.Bindings
import Scriptlet.Proofs.Lexical.Semantics

/-!
# Scopes that look names up lexically

A call that copies the captured scope freezes it, and lexical scoping would see it change.  So the
two could differ as soon as a scope is bound in while a function is alive that was declared in a
call of something declared there.  They do not, because no such function is alive then: a program
can bind functions only where it executes statements, and what a call gave back is gone when the
statement has ended.

The invariant that says so is `Faithful`.  A scope is faithful if it binds every name as lexical
scoping would look it up, and all functions that can be got at from it were declared in the scope
itself or in faithful scopes *before* it.

* `Faithful.of_keeps`: it stays faithful as long as no scope up to it changes.
* `Faithful.declare`: it stays faithful when a function is declared in it, since every scope that
  matters to it is before it.
* `Faithful.addFrame`: the scope of a call begins faithful.
-/

namespace Scriptlet

variable {w w' w'' : World} {l l' l'' : Lexical}

/-! ## Looking up along the links -/

namespace Lexical

/-- What a scope binds itself is what it looks up. -/
theorem get?_of_own {id : ScopeId} {name : Text} {value : Value}
    (h : (l.world.scopeAt id).get? name = some value) : l.get? id name = some value := by
  rw [get?, h]

/-- What a scope does not bind itself is looked up around it. -/
theorem get?_of_parent {id parent : ScopeId} {name : Text} (hparent : l.parent? id = some parent)
    (hlt : parent < id) (h : (l.world.scopeAt id).get? name = none) :
    l.get? id name = l.get? parent name := by
  rw [get?, h, hparent]
  exact if_pos hlt

/-- Looking up reads no scope after the one that it starts from. -/
theorem get?_congr {n : Nat} (hown : ∀ id < n, l'.world.scopeAt id = l.world.scopeAt id)
    (hparent : ∀ id < n, l'.parent? id = l.parent? id) (name : Text) {id : ScopeId}
    (hid : id < n) : l'.get? id name = l.get? id name := by
  induction id using Nat.strongRecOn with
  | ind id ih =>
    rw [get?, get?, hown id hid, hparent id hid]
    cases (l.world.scopeAt id).get? name with
    | some value => rfl
    | none =>
      cases l.parent? id with
      | none => rfl
      | some parent =>
        by_cases hlt : parent < id
        · simp only [if_pos hlt]
          exact ih parent hlt (Nat.lt_trans hlt hid)
        · simp only [if_neg hlt]

end Lexical

/-! ## The invariant -/

/-- The two worlds have as many scopes, with their links, and differ in nothing but what these
hold. -/
structure Matches (w : World) (l : Lexical) : Prop where
  world : l.world = { w with scopes := l.world.scopes }
  size : l.world.scopes.size = w.scopes.size
  parents : l.parents.size = w.scopes.size

/-- The first scopes of both worlds are left as they were. -/
structure Keeps (n : Nat) (w w' : World) (l l' : Lexical) : Prop where
  size_le : w.scopes.size ≤ w'.scopes.size
  copied : ∀ id < n, w'.scopeAt id = w.scopeAt id
  own : ∀ id < n, l'.world.scopeAt id = l.world.scopeAt id
  parent : ∀ id < n, l'.parent? id = l.parent? id

theorem Keeps.refl (n : Nat) (w : World) (l : Lexical) : Keeps n w w l l :=
  ⟨Nat.le_refl _, fun _ _ => rfl, fun _ _ => rfl, fun _ _ => rfl⟩

theorem Keeps.trans {n : Nat} (h : Keeps n w w' l l') (h' : Keeps n w' w'' l' l'') :
    Keeps n w w'' l l'' where
  size_le := Nat.le_trans h.size_le h'.size_le
  copied id hid := (h'.copied id hid).trans (h.copied id hid)
  own id hid := (h'.own id hid).trans (h.own id hid)
  parent id hid := (h'.parent id hid).trans (h.parent id hid)

theorem Keeps.of_le {m n : Nat} (h : Keeps n w w' l l') (hmn : m ≤ n) : Keeps m w w' l l' where
  size_le := h.size_le
  copied id hid := h.copied id (Nat.lt_of_lt_of_le hid hmn)
  own id hid := h.own id (Nat.lt_of_lt_of_le hid hmn)
  parent id hid := h.parent id (Nat.lt_of_lt_of_le hid hmn)

/-- A scope that binds every name as lexical scoping looks it up.  Its builtins print, and its
functions were declared in it or in faithful scopes before it. -/
inductive Faithful (w : World) (l : Lexical) : ScopeId → Prop
  | intro {id : ScopeId} (lt : id < w.scopes.size)
      (get : ∀ name, l.get? id name = (w.scopeAt id).get? name)
      (print : ∀ name f, (w.scopeAt id).get? name = some (.builtin f) → f.action = .print)
      (le : ∀ name f, (w.scopeAt id).get? name = some (.closure f) → f.scope ≤ id)
      (before : ∀ name f, (w.scopeAt id).get? name = some (.closure f) → f.scope ≠ id →
        Faithful w l f.scope) : Faithful w l id

namespace Faithful

variable {id : ScopeId}

theorem lt (h : Faithful w l id) : id < w.scopes.size := by
  cases h
  assumption

theorem get?_eq (h : Faithful w l id) (name : Text) :
    l.get? id name = (w.scopeAt id).get? name := by
  cases h with
  | intro _ get _ _ _ => exact get name

/-- **What is faithful stays so** if nothing up to it changes. -/
theorem of_keeps {n : Nat} (h : Faithful w l id) (hk : Keeps n w w' l l') (hid : id < n) :
    Faithful w' l' id := by
  induction h with
  | @intro id lt get print le before ih =>
    refine .intro (Nat.lt_of_lt_of_le lt hk.size_le) ?_ ?_ ?_ ?_
    · intro name
      rw [hk.copied id hid, Lexical.get?_congr hk.own hk.parent name hid, get name]
    · rw [hk.copied id hid]
      exact print
    · rw [hk.copied id hid]
      exact le
    · rw [hk.copied id hid]
      intro name f hf hne
      exact ih name f hf hne (Nat.lt_of_le_of_lt (le name f hf) hid)

end Faithful

/-- A value that a program may get at: a function's scope is faithful, and a builtin prints. -/
structure Value.Sound (w : World) (l : Lexical) (v : Value) : Prop where
  scope : ∀ f, v = .closure f → Faithful w l f.scope
  print : ∀ f, v = .builtin f → f.action = .print

theorem Value.sound_of_plain {v : Value} (h : v.isFunction = false) : v.Sound w l where
  scope f hf := by
    subst hf
    cases h
  print f hf := by
    subst hf
    cases h

theorem Value.Sound.of_keeps {v : Value} (h : v.Sound w l)
    (hk : Keeps w.scopes.size w w' l l') : v.Sound w' l' where
  scope f hf := (h.scope f hf).of_keeps hk (h.scope f hf).lt
  print := h.print

/-- An outcome that returns a sound value, if it returns one. -/
def Outcome.Sound (w : World) (l : Lexical) (o : Outcome) : Prop :=
  ∀ v, o = .returned v → v.Sound w l

/-- What a faithful scope binds is sound. -/
theorem Faithful.sound {id : ScopeId} (h : Faithful w l id) {name : Text} {v : Value}
    (hv : (w.scopeAt id).get? name = some v) : v.Sound w l where
  scope f hf := by
    subst hf
    by_cases hid : f.scope = id
    · rw [hid]
      exact h
    · cases h with
      | intro _ _ _ _ before => exact before name f hv hid
  print f hf := by
    subst hf
    cases h with
    | intro _ _ print _ _ => exact print name f hv

/-! ## Declarations and calls -/

/-- A binding in a scope leaves the scopes before it alone. -/
theorem keeps_bind (w : World) (l : Lexical) (id : ScopeId) (name : Text) (value : Value) :
    Keeps id w (w.bind id name value) l { l with world := l.world.bind id name value } where
  size_le := Nat.le_of_eq (World.size_bind w id name value).symm
  copied _ hother := World.scopeAt_bind_of_ne w (Nat.ne_of_gt hother) name value
  own _ hother := World.scopeAt_bind_of_ne l.world (Nat.ne_of_gt hother) name value
  parent _ _ := rfl

/-- What one binding changes for lexical scoping, seen from the scope that it is made in. -/
theorem Lexical.get?_bind {id : ScopeId} (hid : id < l.world.scopes.size) (name other : Text)
    (value : Value) :
    ({ l with world := l.world.bind id name value } : Lexical).get? id other =
      if name = other then some value else l.get? id other := by
  have hself := World.scopeAt_bind_self l.world hid name value
  have hkeeps := keeps_bind l.world l id name value
  by_cases hname : name = other
  · rw [if_pos hname]
    refine Lexical.get?_of_own ?_
    rw [hself, Scope.get?_bind, if_pos hname]
  · have hother : ((l.world.bind id name value).scopeAt id).get? other =
        (l.world.scopeAt id).get? other := by
      rw [hself, Scope.get?_bind, if_neg hname]
    have hparent : ({ l with world := l.world.bind id name value } : Lexical).parent? id =
        l.parent? id := rfl
    rw [if_neg hname, Lexical.get?, Lexical.get?, hother, hparent]
    cases (l.world.scopeAt id).get? other with
    | some value => rfl
    | none =>
      cases l.parent? id with
      | none => rfl
      | some parent =>
        by_cases hlt : parent < id
        · simp only [if_pos hlt]
          exact Lexical.get?_congr hkeeps.own hkeeps.parent other hlt
        · simp only [if_neg hlt]

theorem Matches.bind (h : Matches w l) (id : ScopeId) (name : Text) (value : Value) :
    Matches (w.bind id name value) { l with world := l.world.bind id name value } where
  world := congrArg (fun v : World => { v with scopes := (l.world.bind id name value).scopes })
    h.world
  size := by
    show (l.world.bind id name value).scopes.size = (w.bind id name value).scopes.size
    rw [World.size_bind, World.size_bind, h.size]
  parents := by
    rw [World.size_bind]
    exact h.parents

/-- **A scope stays faithful when a function is declared in it.** -/
theorem Faithful.declare {id : ScopeId} (h : Faithful w l id) (hm : Matches w l) {f : Closure}
    (hf : f.scope = id) :
    Faithful (w.bind id f.name (.closure f))
      { l with world := l.world.bind id f.name (.closure f) } id := by
  have hself := World.scopeAt_bind_self w h.lt f.name (.closure f)
  -- what is bound now is the new function or was bound before
  have hbound : ∀ name v, ((w.bind id f.name (.closure f)).scopeAt id).get? name = some v →
      v = .closure f ∨ (w.scopeAt id).get? name = some v := by
    intro name v hv
    rw [hself, Scope.get?_bind] at hv
    split at hv
    · exact Or.inl (Option.some.inj hv).symm
    · exact Or.inr hv
  refine .intro ?_ ?_ ?_ ?_ ?_
  · rw [World.size_bind]
    exact h.lt
  · intro name
    rw [Lexical.get?_bind (hm.size ▸ h.lt), hself, Scope.get?_bind, h.get?_eq]
  · intro name g hg
    rcases hbound name _ hg with hg | hg
    · cases hg
    · exact (h.sound hg).print g rfl
  · intro name g hg
    rcases hbound name _ hg with hg | hg
    · cases hg
      exact Nat.le_of_eq hf
    · cases h with
      | intro _ _ _ le _ => exact le name g hg
  · intro name g hg hne
    rcases hbound name _ hg with hg | hg
    · cases hg
      exact absurd hf hne
    · cases h with
      | intro _ _ _ le before =>
        have hlt : g.scope < id := Nat.lt_of_le_of_ne (le name g hg) hne
        exact (before name g hg hne).of_keeps (keeps_bind w l id _ _) hlt

/-- What a call adds on both sides: here a copy with the parameters on top, there the parameters
alone. -/
theorem Matches.addFrame (h : Matches w l) (copy own : Scope) (parent : ScopeId) :
    Matches (w.addScope copy).2 (l.addFrame own parent).2 where
  world := congrArg (fun v : World => { v with scopes := (l.world.addScope own).2.scopes }) h.world
  size := by
    show (l.world.addScope own).2.scopes.size = (w.addScope copy).2.scopes.size
    rw [World.size_addScope, World.size_addScope, h.size]
  parents := by
    show (l.parents.push (some parent)).size = _
    rw [Array.size_push, World.size_addScope, h.parents]

theorem Matches.parent?_addFrame_of_lt (h : Matches w l) (own : Scope) (parent : ScopeId)
    {id : ScopeId} (hid : id < w.scopes.size) :
    (l.addFrame own parent).2.parent? id = l.parent? id := by
  have hne : id ≠ l.parents.size := by
    rw [h.parents]
    exact Nat.ne_of_lt hid
  simp only [Lexical.parent?, Lexical.addFrame, Array.getD_eq_getD_getElem?, Array.getElem?_push,
    if_neg hne]

theorem Matches.parent?_addFrame_self (h : Matches w l) (own : Scope) (parent : ScopeId) :
    (l.addFrame own parent).2.parent? w.scopes.size = some parent := by
  rw [← h.parents]
  simp only [Lexical.parent?, Lexical.addFrame, Array.getD_eq_getD_getElem?,
    Array.getElem?_push_size, Option.getD_some]

theorem Matches.scopeAt_addFrame_self (h : Matches w l) (own : Scope) (parent : ScopeId) :
    (l.addFrame own parent).2.world.scopeAt w.scopes.size = own := by
  rw [← h.size]
  exact World.scopeAt_addScope_self l.world own

theorem Matches.keeps_addFrame (h : Matches w l) (copy own : Scope) (parent : ScopeId) :
    Keeps w.scopes.size w (w.addScope copy).2 l (l.addFrame own parent).2 where
  size_le := by
    rw [World.size_addScope]
    exact Nat.le_succ _
  copied _ hid := World.scopeAt_addScope_of_lt w copy hid
  own _ hid := World.scopeAt_addScope_of_lt l.world own (h.size ▸ hid)
  parent _ hid := h.parent?_addFrame_of_lt own parent hid

/-- **The scope of a call begins faithful**: what it copied is what the link leads to. -/
theorem Faithful.addFrame {parent : ScopeId} (h : Faithful w l parent) (hm : Matches w l)
    {args : List Value} (hargs : ∀ a ∈ args, a.Sound w l) (params : List Text) :
    Faithful (w.addScope ((w.scopeAt parent).bindParams params args)).2
      (l.addFrame (Scope.empty.bindParams params args) parent).2 w.scopes.size := by
  have hkeeps := hm.keeps_addFrame ((w.scopeAt parent).bindParams params args)
    (Scope.empty.bindParams params args) parent
  have hcopy : ∀ name, ((w.addScope ((w.scopeAt parent).bindParams params args)).2.scopeAt
      w.scopes.size).get? name =
        (Scope.argument? name params args).or ((w.scopeAt parent).get? name) := by
    intro name
    rw [World.scopeAt_addScope_self, Scope.get?_bindParams]
  have hsound : ∀ name v, ((w.addScope ((w.scopeAt parent).bindParams params args)).2.scopeAt
      w.scopes.size).get? name = some v → v.Sound w l := by
    intro name v hv
    rw [hcopy, Option.or_eq_some_iff] at hv
    rcases hv with hv | ⟨-, hv⟩
    · rcases Scope.mem_of_argument?_eq_some hv with hv | rfl
      · exact hargs v hv
      · exact Value.sound_of_plain rfl
    · exact h.sound hv
  refine .intro ?_ ?_ ?_ ?_ ?_
  · rw [World.size_addScope]
    exact Nat.lt_succ_self _
  · intro name
    have hown : ((l.addFrame (Scope.empty.bindParams params args) parent).2.world.scopeAt
        w.scopes.size).get? name = Scope.argument? name params args := by
      rw [hm.scopeAt_addFrame_self, Scope.get?_bindParams, Scope.get?_empty, Option.or_none]
    rw [hcopy]
    cases harg : Scope.argument? name params args with
    | some v => exact Lexical.get?_of_own (hown.trans harg)
    | none =>
      rw [Lexical.get?_of_parent (hm.parent?_addFrame_self _ parent) h.lt (hown.trans harg),
        Lexical.get?_congr hkeeps.own hkeeps.parent name h.lt, h.get?_eq, Option.none_or]
  · exact fun name f hf => (hsound name _ hf).print f rfl
  · exact fun name f hf => Nat.le_of_lt ((hsound name _ hf).scope f rfl).lt
  · intro name f hf _
    have hscope := (hsound name _ hf).scope f rfl
    exact hscope.of_keeps hkeeps hscope.lt

end Scriptlet
