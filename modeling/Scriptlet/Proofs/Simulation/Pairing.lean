import Scriptlet.Proofs.Simulation.Likeness

/-!
# Pairings that grow

Two runs that declare functions in different orders, or that begin in worlds of which one holds
more than the other, hand out different numbers for what is the same.  Which numbers belong
together cannot be said beforehand.  It is found out on the way: whenever both runs have made a
scope or a function, the two are paired, and what is paired stays so.

* `Coding` says in which ways the code of two walks may differ, as a `Likeness` does, but knows of
  no numbers.  `Rearranged` is how it relates bodies.
* `Pairing`: the scopes and identities that are paired by now, each with one at most.
* `Coding.Alike`, `Coding.ScopesAlike`: values and scopes that are the same up to the pairing.  They
  stay so when it grows.
* `Coding.Tied`: worlds whose paired scopes are alike, and in which nothing is paired that is not
  there yet.
* `Coding.Advances`: from tied worlds to tied worlds under a pairing that has grown.  On the way
  nothing happens to names that the code does not mention.  There is one rule for each operation on
  worlds.
-/

namespace Scriptlet

/-! ## Code -/

/-- A declaration of a function. -/
structure Declaration where
  name : Text
  params : List Text
  body : List Node

/-- The declaration as a statement. -/
def Declaration.node (d : Declaration) : Node := .function d.name d.params d.body

/-- Statements that are related one by one.  If `reorders` holds, functions of different names that
are declared one after another may be declared in another order. -/
inductive Rearranged (reorders : Prop) (R : Node → Node → Prop) : List Node → List Node → Prop
  | nil : Rearranged reorders R [] []
  | cons {m n : Node} {ms ns : List Node} (head : R m n) (tail : Rearranged reorders R ms ns) :
      Rearranged reorders R (m :: ms) (n :: ns)
  | functions (hreorders : reorders) {ds es : List Declaration} {ms ns : List Node}
      (hds : (ds.map Declaration.name).Nodup) (hes : (es.map Declaration.name).Nodup)
      (forth : ∀ d ∈ ds, ∃ e ∈ es, R d.node e.node) (back : ∀ e ∈ es, ∃ d ∈ ds, R d.node e.node)
      (tail : Rearranged reorders R ms ns) :
      Rearranged reorders R (ds.map Declaration.node ++ ms) (es.map Declaration.node ++ ns)

theorem Rearranged.of_forall₂ {reorders : Prop} {R : Node → Node → Prop} {ms ns : List Node}
    (h : List.Forall₂ R ms ns) : Rearranged reorders R ms ns := by
  induction h with
  | nil => exact .nil
  | cons head _ ih => exact .cons head ih

/-- In which ways the code of two walks may differ. -/
structure Coding where
  /-- The nodes of the first walk that those of the second stand for. -/
  node : Node → Node → Prop
  /-- The names that the code may mention; the others may be bound in any way. -/
  mentions : Text → Bool
  /-- Whether functions may be declared in another order.  Then nothing is traced. -/
  reorders : Prop
  parallel : ∀ {m n : Node}, node m n →
    Node.Parallel node (Rearranged reorders node) mentions (fun _ => False) m n

namespace Coding

variable (C : Coding)

/-- The bodies of blocks and functions. -/
abbrev body : List Node → List Node → Prop := Rearranged C.reorders C.node

/-- Declarations stand for declarations of the same name. -/
theorem declaration {C : Coding} {d e : Declaration} (h : C.node d.node e.node) :
    d.name = e.name ∧ d.params = e.params ∧ C.mentions d.name = true ∧
      (∀ param ∈ d.params, C.mentions param = true) ∧ C.body d.body e.body := by
  obtain ⟨name, params, body⟩ := d
  obtain ⟨name', params', body'⟩ := e
  cases C.parallel h with
  | function hname hparams hbody => exact ⟨rfl, rfl, hname, hparams, hbody⟩
  | refused hnode => exact nomatch hnode.2
  | escaping _ hescapes => exact (hescapes .statement "").elim

end Coding

/-! ## Pairings -/

/-- A relation between numbers that pairs each with one at most. -/
def OneToOne (R : Nat → Nat → Prop) : Prop :=
  ∀ ⦃i i' j j' : Nat⦄, R i j → R i' j' → (i = i' ↔ j = j')

theorem OneToOne.or {R S : Nat → Nat → Prop} (hR : OneToOne R) (hS : OneToOne S)
    (hapart : ∀ ⦃i i' j j' : Nat⦄, R i j → S i' j' → i ≠ i' ∧ j ≠ j') :
    OneToOne fun i j => R i j ∨ S i j := by
  rintro i i' j j' (h | h) (h' | h')
  · exact hR h h'
  · obtain ⟨hi, hj⟩ := hapart h h'
    exact iff_of_false hi hj
  · obtain ⟨hi, hj⟩ := hapart h' h
    exact iff_of_false hi.symm hj.symm
  · exact hS h h'

/-- The numbers that belong together. -/
structure Pairing where
  scope : ScopeId → ScopeId → Prop
  identity : Nat → Nat → Prop
  scope_iff : OneToOne scope
  identity_iff : OneToOne identity

namespace Pairing

variable {p q r : Pairing}

/-- What is paired stays paired. -/
structure Grows (p q : Pairing) : Prop where
  scope : ∀ {i j}, p.scope i j → q.scope i j
  identity : ∀ {i j}, p.identity i j → q.identity i j

theorem Grows.refl (p : Pairing) : p.Grows p := ⟨id, id⟩

theorem Grows.trans (h : p.Grows q) (h' : q.Grows r) : p.Grows r :=
  ⟨fun hij => h'.scope (h.scope hij), fun hij => h'.identity (h.identity hij)⟩

/-- One more pair of scopes. -/
def addScope (p : Pairing) (i j : ScopeId)
    (hapart : ∀ ⦃i' j' : ScopeId⦄, p.scope i' j' → i' ≠ i ∧ j' ≠ j) : Pairing where
  scope a b := p.scope a b ∨ (a = i ∧ b = j)
  identity := p.identity
  scope_iff := p.scope_iff.or
    (fun _ _ _ _ h h' => iff_of_true (h.1.trans h'.1.symm) (h.2.trans h'.2.symm))
    fun _ _ _ _ h h' => ⟨h'.1 ▸ (hapart h).1, h'.2 ▸ (hapart h).2⟩
  identity_iff := p.identity_iff

/-- More pairs of identities. -/
def addIdentities (p : Pairing) (R : Nat → Nat → Prop) (hR : OneToOne R)
    (hapart : ∀ ⦃i i' j j' : Nat⦄, p.identity i j → R i' j' → i ≠ i' ∧ j ≠ j') : Pairing where
  scope := p.scope
  identity i j := p.identity i j ∨ R i j
  scope_iff := p.scope_iff
  identity_iff := p.identity_iff.or hR hapart

theorem grows_addScope {i j : ScopeId}
    (hapart : ∀ ⦃i' j' : ScopeId⦄, p.scope i' j' → i' ≠ i ∧ j' ≠ j) :
    p.Grows (p.addScope i j hapart) := ⟨Or.inl, id⟩

theorem grows_addIdentities {R : Nat → Nat → Prop} (hR : OneToOne R)
    (hapart : ∀ ⦃i i' j j' : Nat⦄, p.identity i j → R i' j' → i ≠ i' ∧ j ≠ j') :
    p.Grows (p.addIdentities R hR hapart) := ⟨id, Or.inl⟩

end Pairing

namespace Coding

variable (C : Coding)

/-! ## Values -/

/-- Values that stand for each other. -/
inductive Alike (p : Pairing) : Value → Value → Prop
  | undefined : Alike p .undefined .undefined
  | boolean (b : Bool) : Alike p (.boolean b) (.boolean b)
  | number (x : Float) : Alike p (.number x) (.number x)
  | string (s : Text) : Alike p (.string s) (.string s)
  | closure {f g : Closure} (hidentity : p.identity f.identity g.identity)
      (hname : f.name = g.name) (hparams : f.params = g.params)
      (hmentions : ∀ param ∈ f.params, C.mentions param = true)
      (hbody : C.body f.body g.body) (hscope : p.scope f.scope g.scope) :
      Alike p (.closure f) (.closure g)
  | builtin {f g : Builtin} (hidentity : p.identity f.identity g.identity)
      (hname : f.name = g.name) (haction : f.action = g.action)
      (hreads : f.action.readsNames = false) : Alike p (.builtin f) (.builtin g)

variable {C} {p q r : Pairing} {a b a' b' : Value}

theorem Alike.mono (h : C.Alike p a b) (hgrows : p.Grows q) : C.Alike q a b := by
  cases h with
  | undefined => exact .undefined
  | boolean b => exact .boolean b
  | number x => exact .number x
  | string s => exact .string s
  | closure hidentity hname hparams hmentions hbody hscope =>
    exact .closure (hgrows.identity hidentity) hname hparams hmentions hbody (hgrows.scope hscope)
  | builtin hidentity hname haction hreads =>
    exact .builtin (hgrows.identity hidentity) hname haction hreads

theorem alike_of_not_isFunction (p : Pairing) (h : a.isFunction = false) : C.Alike p a a := by
  cases a with
  | undefined => exact .undefined
  | boolean b => exact .boolean b
  | number x => exact .number x
  | string s => exact .string s
  | closure f => cases h
  | builtin f => cases h

theorem alike_literal (p : Pairing) (value : Literal) : C.Alike p value.toValue value.toValue := by
  cases value <;> exact alike_of_not_isFunction p rfl

/-- Values that are alike show the same. -/
theorem Alike.akin (h : C.Alike p a b) : a.Akin b := by
  cases h with
  | undefined | boolean | number | string => exact .plain rfl
  | closure _ hname => exact .functions rfl (congrArg (fun name => some (name, _)) hname.symm)
  | builtin _ hname => exact .functions rfl (congrArg (fun name => some (name, _)) hname.symm)

theorem Alike.identity (h : C.Alike p a b) {m n : Text} {i j : Nat}
    (ha : a.asFunction? = some (m, i)) (hb : b.asFunction? = some (n, j)) : p.identity i j := by
  cases h with
  | undefined | boolean | number | string => cases ha
  | closure hidentity =>
    cases ha
    cases hb
    exact hidentity
  | builtin hidentity =>
    cases ha
    cases hb
    exact hidentity

/-- **No operator tells values apart that are alike.** -/
theorem Alike.operate_eq (ha : C.Alike p a a') (hb : C.Alike p b b') (operator : Json) :
    Value.operate operator a b = Value.operate operator a' b' := by
  refine ha.akin.operate_eq hb.akin ?_ operator
  intro m n m' n' i j i' j' hm hn hm' hn'
  exact p.identity_iff (ha.identity hm hm') (hb.identity hn hn')

theorem Alike.all_mono {args args' : List Value} (h : List.Forall₂ (C.Alike p) args args')
    (hgrows : p.Grows q) : List.Forall₂ (C.Alike q) args args' :=
  h.imp fun _ _ hv => hv.mono hgrows

/-! ## Scopes -/

/-- Scopes that bind the names that may be mentioned to values that are alike. -/
def ScopesAlike (C : Coding) (p : Pairing) (s t : Scope) : Prop :=
  ∀ name, C.mentions name = true → Option.Rel (C.Alike p) (s.get? name) (t.get? name)

variable {s t : Scope}

theorem ScopesAlike.mono (h : C.ScopesAlike p s t) (hgrows : p.Grows q) : C.ScopesAlike q s t := by
  intro name hname
  have hrel := h name hname
  generalize s.get? name = o at hrel ⊢
  generalize t.get? name = o' at hrel ⊢
  cases hrel with
  | some hv => exact .some (hv.mono hgrows)
  | none => exact .none

theorem ScopesAlike.lookup (h : C.ScopesAlike p s t) {name : Text}
    (hname : C.mentions name = true) : C.Alike p (s.lookup name) (t.lookup name) := by
  unfold Scope.lookup
  have hrel := h name hname
  generalize s.get? name = o at hrel ⊢
  generalize t.get? name = o' at hrel ⊢
  cases hrel with
  | some hv => exact hv
  | none => exact .undefined

theorem ScopesAlike.bind (h : C.ScopesAlike p s t) (name : Text) (hv : C.Alike p a b) :
    C.ScopesAlike p (s.bind name a) (t.bind name b) := by
  intro other hother
  rw [Scope.get?_bind, Scope.get?_bind]
  split
  · exact .some hv
  · exact h other hother

theorem ScopesAlike.bindParams {args args' : List Value} (params : List Text)
    (h : C.ScopesAlike p s t) (hargs : List.Forall₂ (C.Alike p) args args') :
    C.ScopesAlike p (s.bindParams params args) (t.bindParams params args') := by
  induction params generalizing s t args args' with
  | nil => exact h
  | cons param params ih =>
    cases hargs with
    | nil => exact ih (h.bind param .undefined) .nil
    | cons hv hrest => exact ih (h.bind param hv) hrest

/-! ## Worlds -/

/-- Worlds whose paired scopes are alike.  Nothing is paired that has not been handed out yet, and
what is printed and traced is the same. -/
structure Tied (C : Coding) (p : Pairing) (w v : World) : Prop where
  scope_lt : ∀ {i j}, p.scope i j → i < w.scopes.size ∧ j < v.scopes.size
  identity_lt : ∀ {i j}, p.identity i j → i < w.nextIdentity ∧ j < v.nextIdentity
  scopes : ∀ {i j}, p.scope i j → C.ScopesAlike p (w.scopeAt i) (v.scopeAt j)
  output : w.output = v.output
  trace : w.trace = v.trace
  tracing : w.tracing = v.tracing
  verbosity : w.verbosity = v.verbosity
  silent : C.reorders → w.verbosity = 0

/-- Every scope of the first world is in the second, with names that are not mentioned bound as they
were. -/
structure Keeps (C : Coding) (v v' : World) : Prop where
  size_le : v.scopes.size ≤ v'.scopes.size
  get?_eq : ∀ id < v.scopes.size, ∀ name, C.mentions name = false →
    (v'.scopeAt id).get? name = (v.scopeAt id).get? name

/-- Both walks have gone on, the second from the world `v`. -/
structure Advances (C : Coding) (p q : Pairing) (v w' v' : World) : Prop where
  grows : p.Grows q
  tied : C.Tied q w' v'
  keeps : C.Keeps v v'

variable {w v w' v' w'' v'' : World}

theorem Keeps.of_scopes_eq (C : Coding) (h : v'.scopes = v.scopes) : C.Keeps v v' :=
  ⟨Nat.le_of_eq (congrArg Array.size h.symm), fun id _ _ _ => by rw [World.scopeAt_congr h id]⟩

theorem Advances.trans (h : C.Advances p q v w' v') (h' : C.Advances q r v' w'' v'') :
    C.Advances p r v w'' v'' where
  grows := h.grows.trans h'.grows
  tied := h'.tied
  keeps := by
    refine ⟨Nat.le_trans h.keeps.size_le h'.keeps.size_le, fun id hid name hname => ?_⟩
    rw [h'.keeps.get?_eq id (Nat.lt_of_lt_of_le hid h.keeps.size_le) name hname,
      h.keeps.get?_eq id hid name hname]

namespace Tied

variable (h : C.Tied p w v)

include h

theorem advances_self : C.Advances p p v w v := ⟨.refl p, h, .of_scopes_eq C rfl⟩

/-- Which value came last is nothing that a walk could see. -/
theorem setLatest (a b : Value) :
    C.Advances p p v { w with latest := a } { v with latest := b } :=
  ⟨.refl p, ⟨h.scope_lt, h.identity_lt, h.scopes, h.output, h.trace, h.tracing, h.verbosity,
    h.silent⟩, .of_scopes_eq C rfl⟩

theorem print (line : String) : C.Advances p p v (w.print line) (v.print line) := by
  refine ⟨.refl p, ⟨h.scope_lt, h.identity_lt, h.scopes, ?_, h.trace, h.tracing, h.verbosity,
    h.silent⟩, .of_scopes_eq C rfl⟩
  rw [World.print, World.print, h.output]

theorem setTracing (tracing : Bool) :
    C.Tied p { w with tracing := tracing } { v with tracing := tracing } :=
  ⟨h.scope_lt, h.identity_lt, h.scopes, h.output, h.trace, rfl, h.verbosity, h.silent⟩

theorem takes_iff (level : Nat) : w.Takes level ↔ v.Takes level := by
  rw [World.Takes, World.Takes, h.tracing, h.verbosity]

theorem record (level : Nat) (line : String) :
    C.Advances p p v (w.record level line) (v.record level line) := by
  refine ⟨.refl p, ⟨h.scope_lt, h.identity_lt, h.scopes, h.output, ?_, h.tracing, h.verbosity,
    h.silent⟩, .of_scopes_eq C rfl⟩
  rw [World.record, World.record, h.trace]

/-- Scopes that are added to both worlds are paired. -/
theorem addScope (hs : C.ScopesAlike p s t) :
    ∃ q, C.Advances p q v (w.addScope s).2 (v.addScope t).2 ∧
      q.scope w.scopes.size v.scopes.size := by
  have hapart : ∀ ⦃i j : ScopeId⦄, p.scope i j → i ≠ w.scopes.size ∧ j ≠ v.scopes.size :=
    fun i j hij => (h.scope_lt hij).imp Nat.ne_of_lt Nat.ne_of_lt
  have hgrows := Pairing.grows_addScope hapart
  refine ⟨p.addScope _ _ hapart, ⟨hgrows, ⟨?_, h.identity_lt, ?_, h.output, h.trace, h.tracing,
    h.verbosity, h.silent⟩, ?_, fun id hid name _ => ?_⟩, Or.inr ⟨rfl, rfl⟩⟩
  · rintro i j (hij | ⟨rfl, rfl⟩)
    · rw [World.size_addScope, World.size_addScope]
      exact (h.scope_lt hij).imp (Nat.lt_succ_of_lt ·) (Nat.lt_succ_of_lt ·)
    · rw [World.size_addScope, World.size_addScope]
      exact ⟨Nat.lt_succ_self _, Nat.lt_succ_self _⟩
  · rintro i j (hij | ⟨rfl, rfl⟩)
    · obtain ⟨hi, hj⟩ := h.scope_lt hij
      rw [World.scopeAt_addScope_of_lt w s hi, World.scopeAt_addScope_of_lt v t hj]
      exact (h.scopes hij).mono hgrows
    · rw [World.scopeAt_addScope_self, World.scopeAt_addScope_self]
      exact hs.mono hgrows
  · rw [World.size_addScope]
    exact Nat.le_succ _
  · rw [World.scopeAt_addScope_of_lt v t hid]

end Tied

end Coding

end Scriptlet
