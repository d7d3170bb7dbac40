import Scriptlet.Proofs.Akin
import Scriptlet.Proofs.Bindings
import Scriptlet.Proofs.Simulation.Refinement
import Scriptlet.Proofs.Walk

/-!
# Likenesses

Many properties of runs compare two of them that differ in some way that is not to matter: in how
much they trace, in nodes that are never reached, in the identities of functions.  A `Likeness`
says in which ways two walks may differ.  It relates the nodes, the scopes and the functions of
the one to those of the other, and it owes only a few conditions, of which the one on nodes is
about a single node at a time.  Bodies need not be related statement by statement, as long as one
that refines the first is.  Everything else follows from it:

* `Likeness.Alike`: values are alike if they are equal, or functions that the likeness relates.
  Alike values are akin, and `Likeness.Alike.operate_eq` says that no operator tells them
  apart.
* `Likeness.ScopesAlike`: scopes that bind the names that matter to values that are alike.
* `Likeness.Heaps`: worlds whose related scopes are alike, and which hand out related places and
  identities for ever.  It is kept up by everything that changes scopes.
-/

namespace Scriptlet

/-! ## Nodes -/

/-- The nodes that are refused wherever they stand. -/
def Node.IsRefused (node : Node) : Prop := node.hasValue = false ∧ node.hasEffect = false

/-- Whether what a builtin does depends on how names are spelled. -/
def Action.readsNames : Action → Bool
  | .note => true
  | .getName => true
  | .setName => true
  | _ => false

/-- Nodes that do the same as far as can be seen at themselves, where the nodes below them are
related by `R` and the bodies of blocks and functions by `S`.  A node that is refused may stand for
any other if nothing is compared after the refusal. -/
inductive Node.Parallel (R : Node → Node → Prop) (S : List Node → List Node → Prop)
    (mentions : Text → Bool) (escapes : Fault → Prop) : Node → Node → Prop
  | absent : Parallel R S mentions escapes .absent .absent
  | literal (value : Literal) : Parallel R S mentions escapes (.literal value) (.literal value)
  | identifier {name : Text} (hname : mentions name = true) :
      Parallel R S mentions escapes (.identifier name) (.identifier name)
  | binary (operator : Json) {left left' right right' : Node} (hleft : R left left')
      (hright : R right right') :
      Parallel R S mentions escapes (.binary operator left right) (.binary operator left' right')
  | call {callee callee' : Node} {arguments arguments' : List Node} (hcallee : R callee callee')
      (harguments : List.Forall₂ R arguments arguments') :
      Parallel R S mentions escapes (.call callee arguments) (.call callee' arguments')
  | expression {body body' : Node} (hbody : R body body') :
      Parallel R S mentions escapes (.expression body) (.expression body')
  | conditional {test test' consequent consequent' alternate alternate' : Node}
      (htest : R test test') (hconsequent : R consequent consequent')
      (halternate : R alternate alternate') :
      Parallel R S mentions escapes (.conditional test consequent alternate)
        (.conditional test' consequent' alternate')
  | returning {argument argument' : Node} (habsent : argument = .absent ↔ argument' = .absent)
      (hargument : R argument argument') :
      Parallel R S mentions escapes (.returning argument) (.returning argument')
  | block {body body' : List Node} (hbody : S body body') :
      Parallel R S mentions escapes (.block body) (.block body')
  | function {name : Text} {params : List Text} {body body' : List Node}
      (hname : mentions name = true) (hparams : ∀ param ∈ params, mentions param = true)
      (hbody : S body body') :
      Parallel R S mentions escapes (.function name params body) (.function name params body')
  | refused {node node' : Node} (hnode : node.IsRefused) (hnode' : node'.IsRefused)
      (hkind : node.kind = node'.kind) : Parallel R S mentions escapes node node'
  | escaping {node node' : Node} (hnode : node.IsRefused)
      (hescapes : ∀ role kind, escapes (.unsupportedNode role kind)) :
      Parallel R S mentions escapes node node'

/-- Where everything below it stands for itself, a node does so too. -/
theorem Node.parallel_self {R : Node → Node → Prop} {S : List Node → List Node → Prop}
    {mentions : Text → Bool} (hR : ∀ node, R node node) (hS : ∀ nodes, S nodes nodes)
    (hall : ∀ name, mentions name = true) (escapes : Fault → Prop) (node : Node) :
    Node.Parallel R S mentions escapes node node := by
  cases node with
  | absent => exact .absent
  | literal value => exact .literal value
  | identifier name => exact .identifier (hall name)
  | binary operator left right => exact .binary operator (hR left) (hR right)
  | call callee arguments => exact .call (hR callee) (List.forall₂_same.mpr fun _ _ => hR _)
  | expression body => exact .expression (hR body)
  | conditional test consequent alternate =>
    exact .conditional (hR test) (hR consequent) (hR alternate)
  | returning argument => exact .returning Iff.rfl (hR argument)
  | block body => exact .block (hS body)
  | function name params body => exact .function (hall name) (fun _ _ => hall _) (hS body)
  | program | whileLoop | declaration | «foreign» => exact .refused ⟨rfl, rfl⟩ ⟨rfl, rfl⟩ rfl

/-- Equal nodes do the same. -/
theorem Node.parallel_of_eq {mentions : Text → Bool} (hall : ∀ name, mentions name = true)
    (escapes : Fault → Prop) {m n : Node} (h : m = n) :
    Node.Parallel (· = ·) (List.Forall₂ (· = ·)) mentions escapes m n := by
  obtain rfl := h
  exact Node.parallel_self (fun _ => rfl) (fun _ => List.forall₂_same.mpr fun _ _ => rfl) hall
    escapes m

/-- In which ways two walks may differ. -/
structure Likeness where
  /-- The nodes of the first walk that those of the second stand for. -/
  node : Node → Node → Prop
  /-- The bodies of blocks and functions likewise. -/
  body : List Node → List Node → Prop := List.Forall₂ node
  /-- The names that the programs may mention; the others may be bound in any way. -/
  mentions : Text → Bool
  scope : ScopeId → ScopeId → Prop
  /-- The identities of functions. -/
  identity : Nat → Nat → Prop
  /-- The faults of the first walk that end the comparison. -/
  escapes : Fault → Prop
  parallel : ∀ {m n : Node}, node m n → Node.Parallel node body mentions escapes m n
  /-- A body may be rewritten into one that refines it before it is compared. -/
  bodies : ∀ {ms ns : List Node}, body ms ns → ∃ between, List.Forall₂ node between ns ∧
    ∀ bound scope, Refines escapes (executeBlock bound ms scope) (executeBlock bound between scope)
  scope_iff : ∀ {i i' j j' : ScopeId}, scope i j → scope i' j' → (i = i' ↔ j = j')
  identity_iff : ∀ {i i' j j' : Nat}, identity i j → identity i' j' → (i = i' ↔ j = j')

namespace Likeness

/-- Bodies that are related statement by statement need not be rewritten. -/
theorem bodies_of_forall₂ {R : Node → Node → Prop} (E : Fault → Prop) {ms ns : List Node}
    (h : List.Forall₂ R ms ns) : ∃ between, List.Forall₂ R between ns ∧
    ∀ bound scope, Refines E (executeBlock bound ms scope) (executeBlock bound between scope) :=
  ⟨ms, h, fun _ _ => Refines.refl _⟩

variable (L : Likeness)

/-- A builtin to which names are more than their meaning can only be admitted if no name is left
out. -/
def Admits (action : Action) : Prop :=
  action.readsNames = true → ∀ name, L.mentions name = true

/-! ## Values -/

/-- Values that stand for each other. -/
inductive Alike : Value → Value → Prop
  | undefined : Alike .undefined .undefined
  | boolean (b : Bool) : Alike (.boolean b) (.boolean b)
  | number (x : Float) : Alike (.number x) (.number x)
  | string (s : Text) : Alike (.string s) (.string s)
  | closure {f g : Closure} (hidentity : L.identity f.identity g.identity)
      (hname : f.name = g.name) (hparams : f.params = g.params)
      (hmentions : ∀ param ∈ f.params, L.mentions param = true)
      (hbody : L.body f.body g.body) (hscope : L.scope f.scope g.scope) :
      Alike (.closure f) (.closure g)
  | builtin {f g : Builtin} (hidentity : L.identity f.identity g.identity)
      (hname : f.name = g.name) (haction : f.action = g.action) (hadmits : L.Admits f.action) :
      Alike (.builtin f) (.builtin g)

variable {L} {a b a' b' : Value}

theorem alike_literal (value : Literal) : L.Alike value.toValue value.toValue := by
  cases value with
  | undefined => exact .undefined
  | boolean b => exact .boolean b
  | number x => exact .number x
  | string s => exact .string s

/-- A value is alike to itself where code and the numbers of functions stand for themselves. -/
theorem alike_self (hall : ∀ name, L.mentions name = true) (hbody : ∀ nodes, L.body nodes nodes)
    (hidentity : ∀ name i, a.asFunction? = some (name, i) → L.identity i i)
    (hscope : ∀ f, a = .closure f → L.scope f.scope f.scope) : L.Alike a a := by
  cases a with
  | undefined => exact .undefined
  | boolean b => exact .boolean b
  | number x => exact .number x
  | string s => exact .string s
  | closure f =>
    exact .closure (hidentity f.name f.identity rfl) rfl rfl (fun _ _ => hall _) (hbody f.body)
      (hscope f rfl)
  | builtin f => exact .builtin (hidentity f.name f.identity rfl) rfl rfl fun _ => hall

theorem alike_of_not_isFunction (h : a.isFunction = false) : L.Alike a a := by
  cases a with
  | undefined => exact .undefined
  | boolean b => exact .boolean b
  | number x => exact .number x
  | string s => exact .string s
  | closure f => cases h
  | builtin f => cases h

/-- Values that are alike show the same. -/
theorem Alike.akin (h : L.Alike a b) : a.Akin b := by
  cases h with
  | undefined | boolean | number | string => exact .plain rfl
  | closure _ hname => exact .functions rfl (congrArg (fun name => some (name, _)) hname.symm)
  | builtin _ hname => exact .functions rfl (congrArg (fun name => some (name, _)) hname.symm)

namespace Alike

variable (h : L.Alike a b)

include h

theorem isFunction_eq : a.isFunction = b.isFunction := h.akin.isFunction_eq

/-- Only functions can be alike and not equal. -/
theorem eq_of_not_isFunction (ha : a.isFunction = false) : a = b :=
  h.akin.eq_of_not_isFunction ha

theorem display_eq : a.display = b.display := h.akin.display_eq

theorem isTruthy_eq : a.isTruthy = b.isTruthy := h.akin.isTruthy_eq

/-- Alike functions have related identities. -/
theorem identity {m n : Text} {i j : Nat} (ha : a.asFunction? = some (m, i))
    (hb : b.asFunction? = some (n, j)) : L.identity i j := by
  cases h with
  | undefined | boolean | number | string => cases ha
  | closure hidentity =>
    cases ha
    cases hb
    exact hidentity
  | builtin hidentity =>
    cases ha
    cases hb
    exact hidentity

end Alike

/-- Related identities are equal together. -/
theorem Alike.equalTogether (ha : L.Alike a a') (hb : L.Alike b b') :
    Value.EqualTogether a b a' b' := by
  intro m n m' n' i j i' j' hm hn hm' hn'
  exact L.identity_iff (ha.identity hm hm') (hb.identity hn hn')

/-- **No operator tells values apart that are alike.** -/
theorem Alike.operate_eq (ha : L.Alike a a') (hb : L.Alike b b') (operator : Json) :
    Value.operate operator a b = Value.operate operator a' b' :=
  ha.akin.operate_eq hb.akin (ha.equalTogether hb) operator

/-- What is missing on both sides is undefined on both. -/
theorem alike_getD {o p : Option Value} (h : Option.Rel L.Alike o p) :
    L.Alike (o.getD .undefined) (p.getD .undefined) := by
  cases h with
  | some hv => exact hv
  | none => exact .undefined

theorem rel_alike_self {o : Option Value} (h : ∀ a, o = some a → L.Alike a a) :
    Option.Rel L.Alike o o := by
  cases o with
  | none => exact .none
  | some a => exact .some (h a rfl)

theorem displayAll_eq {args args' : List Value} (h : List.Forall₂ L.Alike args args')
    (separator : Text) : displayAll separator args = displayAll separator args' :=
  displayAll_eq_of_akin (h.imp fun _ _ hv => hv.akin) separator

/-! ## Scopes -/

variable (L)

/-- Scopes that bind the same names among those that may be mentioned, to values that are alike.
If no name is left out they bind them in the same order. -/
structure ScopesAlike (s t : Scope) : Prop where
  get? : ∀ name, L.mentions name = true → Option.Rel L.Alike (s.get? name) (t.get? name)
  bindings : (∀ name, L.mentions name = true) →
    List.Forall₂ (fun p q => p.1 = q.1 ∧ L.Alike p.2 q.2) s.bindings t.bindings

variable {L} {s t : Scope}

theorem scopesAlike_empty : L.ScopesAlike .empty .empty :=
  ⟨fun _ _ => .none, fun _ => .nil⟩

theorem scopesAlike_self (h : s.All fun a => L.Alike a a) : L.ScopesAlike s s where
  get? _ _ := rel_alike_self fun _ ha => h.get? ha
  bindings _ := List.forall₂_same.mpr fun binding hbinding => ⟨rfl, h binding hbinding⟩

theorem ScopesAlike.lookup (h : L.ScopesAlike s t) {name : Text}
    (hname : L.mentions name = true) : L.Alike (s.lookup name) (t.lookup name) :=
  alike_getD (h.get? name hname)

theorem alike_insert {bs cs : List (Text × Value)}
    (h : List.Forall₂ (fun p q => p.1 = q.1 ∧ L.Alike p.2 q.2) bs cs) (name : Text)
    (hv : L.Alike a b) :
    List.Forall₂ (fun p q => p.1 = q.1 ∧ L.Alike p.2 q.2) (Scope.insert name a bs)
      (Scope.insert name b cs) := by
  induction h with
  | nil => exact .cons ⟨rfl, hv⟩ .nil
  | @cons p q bs cs hpq hrest ih =>
    obtain ⟨m, u⟩ := p
    obtain ⟨n, v⟩ := q
    obtain ⟨rfl, huv⟩ : m = n ∧ L.Alike u v := hpq
    by_cases hm : m = name
    · simp only [Scope.insert, if_pos hm]
      exact .cons ⟨rfl, hv⟩ hrest
    · simp only [Scope.insert, if_neg hm]
      exact .cons ⟨rfl, huv⟩ ih

theorem ScopesAlike.bind (h : L.ScopesAlike s t) (name : Text) (hv : L.Alike a b) :
    L.ScopesAlike (s.bind name a) (t.bind name b) where
  get? other hother := by
    rw [Scope.get?_bind, Scope.get?_bind]
    by_cases hname : name = other
    · rw [if_pos hname, if_pos hname]
      exact .some hv
    · rw [if_neg hname, if_neg hname]
      exact h.get? other hother
  bindings hall := alike_insert (h.bindings hall) name hv

theorem ScopesAlike.bindParams {args args' : List Value} (params : List Text)
    (h : L.ScopesAlike s t) (hargs : List.Forall₂ L.Alike args args') :
    L.ScopesAlike (s.bindParams params args) (t.bindParams params args') := by
  induction params generalizing s t args args' with
  | nil => exact h
  | cons param params ih =>
    cases hargs with
    | nil => exact ih (h.bind param .undefined) .nil
    | cons hv hrest => exact ih (h.bind param hv) hrest

theorem ScopesAlike.names_eq (h : L.ScopesAlike s t) (hall : ∀ name, L.mentions name = true) :
    s.names = t.names := by
  have hkeys : ∀ {bs cs : List (Text × Value)},
      List.Forall₂ (fun p q => p.1 = q.1 ∧ L.Alike p.2 q.2) bs cs →
        bs.map Prod.fst = cs.map Prod.fst := by
    intro bs cs hbs
    induction hbs with
    | nil => rfl
    | cons hpq _ ih => rw [List.map_cons, List.map_cons, hpq.1, ih]
  rw [Scope.names, Scope.names, hkeys (h.bindings hall)]

/-! ## Worlds -/

variable (L)

/-- Worlds whose scopes are alike, and which hand out places and identities that are related. -/
structure Heaps (w v : World) : Prop where
  scopes : ∀ {i j}, L.scope i j → L.ScopesAlike (w.scopeAt i) (v.scopeAt j)
  nextScope : ∀ k, L.scope (w.scopes.size + k) (v.scopes.size + k)
  nextIdentity : ∀ k, L.identity (w.nextIdentity + k) (v.nextIdentity + k)
  replies : ∀ {i j}, L.identity i j →
    Option.Rel L.Alike (w.replies.lookup i) (v.replies.lookup j)

variable {L} {w v w' v' : World}

namespace Heaps

/-- They are a matter of the scopes, of the identities and of the replies. -/
theorem congr (h : L.Heaps w v) (hws : w'.scopes = w.scopes)
    (hwi : w'.nextIdentity = w.nextIdentity) (hwr : w'.replies = w.replies)
    (hvs : v'.scopes = v.scopes) (hvi : v'.nextIdentity = v.nextIdentity)
    (hvr : v'.replies = v.replies) : L.Heaps w' v' where
  scopes hij := by
    rw [World.scopeAt_congr hws, World.scopeAt_congr hvs]
    exact h.scopes hij
  nextScope k := by
    rw [hws, hvs]
    exact h.nextScope k
  nextIdentity k := by
    rw [hwi, hvi]
    exact h.nextIdentity k
  replies hij := by
    rw [hwr, hvr]
    exact h.replies hij

theorem scope_size (h : L.Heaps w v) : L.scope w.scopes.size v.scopes.size := h.nextScope 0

theorem identity_next (h : L.Heaps w v) : L.identity w.nextIdentity v.nextIdentity :=
  h.nextIdentity 0

/-- Related places are both taken or both free. -/
theorem lt_size_iff (h : L.Heaps w v) {i j : ScopeId} (hij : L.scope i j) :
    i < w.scopes.size ↔ j < v.scopes.size := by
  rw [← not_iff_not, Nat.not_lt, Nat.not_lt]
  constructor
  · intro hle
    obtain ⟨k, rfl⟩ := Nat.exists_eq_add_of_le hle
    rw [(L.scope_iff hij (h.nextScope k)).mp rfl]
    exact Nat.le_add_right ..
  · intro hle
    obtain ⟨k, rfl⟩ := Nat.exists_eq_add_of_le hle
    rw [(L.scope_iff hij (h.nextScope k)).mpr rfl]
    exact Nat.le_add_right ..

theorem replyOf (h : L.Heaps w v) {i j : Nat} (hij : L.identity i j) :
    L.Alike (w.replyOf i) (v.replyOf j) := alike_getD (h.replies hij)

theorem bind (h : L.Heaps w v) {i j : ScopeId} (hij : L.scope i j) (name : Text)
    (hv : L.Alike a b) : L.Heaps (w.bind i name a) (v.bind j name b) where
  scopes := by
    intro k l hkl
    have hne := L.scope_iff hij hkl
    by_cases hik : i = k
    · obtain rfl := hik
      obtain rfl := hne.mp rfl
      by_cases hi : i < w.scopes.size
      · rw [World.scopeAt_bind_self w hi, World.scopeAt_bind_self v ((h.lt_size_iff hij).mp hi)]
        exact (h.scopes hij).bind name hv
      · have hj : ¬ j < v.scopes.size := fun hj => hi ((h.lt_size_iff hij).mpr hj)
        rw [World.scopeAt_of_size_le _ (by rw [World.size_bind]; exact Nat.not_lt.mp hi),
          World.scopeAt_of_size_le _ (by rw [World.size_bind]; exact Nat.not_lt.mp hj)]
        exact scopesAlike_empty
    · rw [World.scopeAt_bind_of_ne w hik, World.scopeAt_bind_of_ne v fun hjl => hik (hne.mpr hjl)]
      exact h.scopes hkl
  nextScope k := by
    rw [World.size_bind, World.size_bind]
    exact h.nextScope k
  nextIdentity := h.nextIdentity
  replies := h.replies

theorem addScope (h : L.Heaps w v) (hs : L.ScopesAlike s t) :
    L.Heaps (w.addScope s).2 (v.addScope t).2 where
  scopes := by
    intro i j hij
    have hne := L.scope_iff hij h.scope_size
    by_cases hi : i = w.scopes.size
    · obtain rfl := hi
      obtain rfl := hne.mp rfl
      rw [World.scopeAt_addScope_self, World.scopeAt_addScope_self]
      exact hs
    · rw [World.scopeAt_addScope_of_ne w s hi,
        World.scopeAt_addScope_of_ne v t fun hj => hi (hne.mpr hj)]
      exact h.scopes hij
  nextScope k := by
    rw [World.size_addScope, World.size_addScope, Nat.add_assoc, Nat.add_assoc]
    exact h.nextScope (1 + k)
  nextIdentity := h.nextIdentity
  replies := h.replies

/-- A function that both worlds declare is the same function in both. -/
theorem addClosure (h : L.Heaps w v) {i j : ScopeId} (hij : L.scope i j) (name : Text)
    {params : List Text} (hparams : ∀ param ∈ params, L.mentions param = true)
    {body body' : List Node} (hbody : L.body body body') :
    L.Alike (.closure (w.addClosure name params body i).1)
        (.closure (v.addClosure name params body' j).1) ∧
      L.Heaps (w.addClosure name params body i).2 (v.addClosure name params body' j).2 := by
  refine ⟨.closure h.identity_next rfl rfl hparams hbody hij, h.scopes, h.nextScope, ?_, h.replies⟩
  intro k
  show L.identity (w.nextIdentity + 1 + k) (v.nextIdentity + 1 + k)
  rw [Nat.add_assoc, Nat.add_assoc]
  exact h.nextIdentity (1 + k)

end Heaps

/-- New worlds are alike where places and identities are related to themselves. -/
theorem heaps_fresh (L : Likeness) (hscope : ∀ i j, L.scope i j ↔ i = j)
    (hidentity : ∀ i, L.identity i i) (verbosity verbosity' : Nat) :
    L.Heaps (World.fresh verbosity) (World.fresh verbosity') where
  scopes := by
    intro i j hij
    obtain rfl := (hscope i j).mp hij
    cases i with
    | zero => exact scopesAlike_empty.bind "print" (.builtin (hidentity 0) rfl rfl nofun)
    | succ i =>
      have hsize : ∀ verbosity, (World.fresh verbosity).scopes.size ≤ i + 1 := fun _ =>
        Nat.le_add_left 1 i
      rw [World.scopeAt_of_size_le _ (hsize _), World.scopeAt_of_size_le _ (hsize _)]
      exact scopesAlike_empty
  nextScope k := (hscope _ _).mpr rfl
  nextIdentity k := hidentity _
  replies _ := .none

/-! ## Equality -/

/-- The likeness of walks that do not differ at all, up to faults that escape. -/
def equality (escapes : Fault → Prop) : Likeness where
  node m n := m = n
  mentions _ := true
  scope i j := i = j
  identity i j := i = j
  escapes := escapes
  parallel := Node.parallel_of_eq (fun _ => rfl) escapes
  bodies := bodies_of_forall₂ escapes
  scope_iff := Eq.congr
  identity_iff := Eq.congr

section Equality

variable {escapes : Fault → Prop}

theorem alike_equality_iff : (equality escapes).Alike a b ↔ a = b := by
  constructor
  · intro h
    cases h with
    | undefined | boolean | number | string => rfl
    | @closure f g hidentity hname hparams _ hbody hscope =>
      have hbodies : f.body = g.body := List.forall₂_eq_eq_eq ▸ hbody
      cases f
      cases g
      cases hidentity
      cases hname
      cases hparams
      cases hbodies
      cases hscope
      rfl
    | @builtin f g hidentity hname haction _ =>
      cases f
      cases g
      cases hidentity
      cases hname
      cases haction
      rfl
  · rintro rfl
    exact alike_self (fun _ => rfl) (fun _ => List.forall₂_same.mpr fun _ _ => rfl)
      (fun _ _ _ => rfl) fun _ _ => rfl

theorem rel_equality_iff {o p : Option Value} :
    Option.Rel (equality escapes).Alike o p ↔ o = p := by
  constructor
  · intro h
    cases h with
    | none => rfl
    | some hv => exact congrArg some (alike_equality_iff.mp hv)
  · rintro rfl
    exact rel_alike_self fun _ _ => alike_equality_iff.mpr rfl

theorem scopesAlike_equality_iff : (equality escapes).ScopesAlike s t ↔ s = t := by
  constructor
  · intro h
    have hbindings : List.Forall₂ (fun p q => p = q) s.bindings t.bindings :=
      (h.bindings fun _ => rfl).imp fun p q hpq => Prod.ext hpq.1 (alike_equality_iff.mp hpq.2)
    exact congrArg Scope.mk (List.forall₂_eq_eq_eq ▸ hbindings)
  · rintro rfl
    exact scopesAlike_self fun _ _ => alike_equality_iff.mpr rfl

theorem heaps_equality_iff : (equality escapes).Heaps w v ↔
    w.scopes = v.scopes ∧ w.nextIdentity = v.nextIdentity ∧
      ∀ identity, w.replies.lookup identity = v.replies.lookup identity := by
  constructor
  · intro h
    refine ⟨World.scopes_ext h.scope_size fun id => ?_, h.identity_next, fun identity => ?_⟩
    · exact scopesAlike_equality_iff.mp (h.scopes rfl)
    · exact rel_equality_iff.mp (h.replies rfl)
  · rintro ⟨hscopes, hidentity, hreplies⟩
    refine ⟨?_, fun k => ?_, fun k => ?_, ?_⟩
    · rintro id _ rfl
      exact scopesAlike_equality_iff.mpr (World.scopeAt_congr hscopes id)
    · show w.scopes.size + k = v.scopes.size + k
      rw [hscopes]
    · show w.nextIdentity + k = v.nextIdentity + k
      rw [hidentity]
    · rintro identity _ rfl
      exact rel_equality_iff.mpr (hreplies identity)

end Equality

end Likeness
end Scriptlet
