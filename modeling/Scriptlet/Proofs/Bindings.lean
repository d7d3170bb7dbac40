import Scriptlet.World

/-!
# What scopes and worlds bind

The equations by which everything later speaks of scopes: what a name is bound to after one more
binding, after a call has bound its parameters, and which scopes of a world an operation leaves
alone.

* `Scope.argument?` is what a call binds a name to: the argument of the *last* parameter of that
  name, so a name that is given twice goes to the later argument.  `Scope.get?_bindParams` says
  that parameters hide the names of the scope below them and nothing else.
* `Scope.declare` binds functions by their own names, one after another.
* `Scope.All P` says that every value that is bound lies in `P`, hidden ones included.
* `World.scopeAt_addScope_of_ne` and `World.scopeAt_bind_of_ne` are the frame conditions of the two
  operations that touch scopes.
* `World.Holds P` says that every value that can be got at in a world lies in `P`, and each
  operation keeps it up.
-/

namespace Scriptlet

namespace Scope

theorem get?_bind (s : Scope) (name other : Text) (value : Value) :
    (s.bind name value).get? other = if name = other then some value else s.get? other := by
  by_cases h : name = other
  · rw [if_pos h, h, get?_bind_self]
  · rw [if_neg h, get?_bind_of_ne s h]

@[simp] theorem get?_empty (name : Text) : empty.get? name = none := rfl

/-- What a call binds a name to: the argument of the last parameter of that name, which is
undefined if there are too few arguments. -/
def argument? (name : Text) : List Text → List Value → Option Value
  | [], _ => none
  | param :: params, args =>
    (argument? name params args.tail).or
      (if param = name then some (args.headD .undefined) else none)

/-- **Parameters hide the names of the scope below them and nothing else.** -/
theorem get?_bindParams (s : Scope) (params : List Text) (args : List Value) (name : Text) :
    (s.bindParams params args).get? name = (argument? name params args).or (s.get? name) := by
  induction params generalizing s args with
  | nil => rfl
  | cons param params ih =>
    have hstep : ∀ value, (s.bind param value).get? name =
        (if param = name then some value else none).or (s.get? name) := by
      intro value
      rw [get?_bind]
      split <;> rfl
    cases args with
    | nil => rw [bindParams, ih, hstep, argument?, Option.or_assoc]; rfl
    | cons arg args => rw [bindParams, ih, hstep, argument?, Option.or_assoc]; rfl

/-- A call binds nothing but its arguments and undefined. -/
theorem mem_of_argument?_eq_some {name : Text} {params : List Text} {args : List Value}
    {value : Value} (h : argument? name params args = some value) :
    value ∈ args ∨ value = .undefined := by
  induction params generalizing args with
  | nil => cases h
  | cons param params ih =>
    rw [argument?, Option.or_eq_some_iff] at h
    rcases h with h | ⟨-, h⟩
    · exact (ih h).imp_left List.mem_of_mem_tail
    · split at h
      · have hv : args.headD .undefined = value := Option.some.inj h
        cases args with
        | nil => exact Or.inr hv.symm
        | cons arg args => exact Or.inl (hv ▸ List.mem_cons_self ..)
      · cases h

/-- Binds functions by their own names, one after another. -/
def declare (s : Scope) (fs : List Closure) : Scope :=
  fs.foldl (fun s f => s.bind f.name (.closure f)) s

theorem declare_append (s : Scope) (fs gs : List Closure) :
    s.declare (fs ++ gs) = (s.declare fs).declare gs := List.foldl_append

/-- A name that functions are declared over keeps its value or becomes one of the functions, the
one of that name. -/
theorem get?_declare (s : Scope) (fs : List Closure) (name : Text) :
    (s.declare fs).get? name = s.get? name ∨
      ∃ f ∈ fs, f.name = name ∧ (s.declare fs).get? name = some (.closure f) := by
  induction fs generalizing s with
  | nil => exact Or.inl rfl
  | cons f fs ih =>
    rcases ih (s.bind f.name (.closure f)) with h | ⟨g, hg, hname, h⟩
    · rw [get?_bind] at h
      by_cases hf : f.name = name
      · rw [if_pos hf] at h
        exact Or.inr ⟨f, List.mem_cons_self .., hf, h⟩
      · rw [if_neg hf] at h
        exact Or.inl h
    · exact Or.inr ⟨g, List.mem_cons_of_mem f hg, hname, h⟩

/-! ## Everything that a scope binds -/

/-- Every value that the scope binds lies in `P`. -/
def All (P : Value → Prop) (s : Scope) : Prop := ∀ binding ∈ s.bindings, P binding.2

variable {P : Value → Prop} {s t : Scope}

theorem all_empty : empty.All P := nofun

theorem All.mono {Q : Value → Prop} (h : s.All P) (hPQ : ∀ a, P a → Q a) : s.All Q :=
  fun binding hbinding => hPQ binding.2 (h binding hbinding)

theorem All.get? (h : s.All P) {name : Text} {a : Value} (ha : s.get? name = some a) : P a := by
  have hfind : ∀ bs : List (Text × Value), (∀ binding ∈ bs, P binding.2) →
      find? name bs = some a → P a := by
    intro bs hbs hname
    induction bs with
    | nil => cases hname
    | cons b bs ih =>
      rw [find?] at hname
      split at hname
      · cases hname
        exact hbs _ (List.mem_cons_self ..)
      · exact ih (fun binding hmem => hbs binding (List.mem_cons_of_mem b hmem)) hname
  exact hfind s.bindings h ha

theorem All.bind (h : s.All P) (name : Text) {a : Value} (ha : P a) : (s.bind name a).All P := by
  have hinsert : ∀ bs : List (Text × Value), (∀ binding ∈ bs, P binding.2) →
      ∀ binding ∈ insert name a bs, P binding.2 := by
    intro bs hbs
    induction bs with
    | nil => exact List.forall_mem_singleton.mpr ha
    | cons b bs ih =>
      obtain ⟨hb, hrest⟩ := List.forall_mem_cons.mp hbs
      rw [insert]
      split
      · exact List.forall_mem_cons.mpr ⟨ha, hrest⟩
      · exact List.forall_mem_cons.mpr ⟨hb, ih hrest⟩
  exact hinsert s.bindings h

theorem All.bindParams (h : s.All P) (hundefined : P .undefined) (params : List Text)
    {args : List Value} (hargs : ∀ a ∈ args, P a) : (s.bindParams params args).All P := by
  induction params generalizing s args with
  | nil => exact h
  | cons param params ih =>
    cases args with
    | nil => exact ih (h.bind param hundefined) nofun
    | cons a args =>
      obtain ⟨ha, hrest⟩ := List.forall_mem_cons.mp hargs
      exact ih (h.bind param ha) hrest

theorem All.merge (h : s.All P) (ht : t.All P) : (s.merge t).All P := by
  have hfold : ∀ (bs : List (Text × Value)) (s : Scope), s.All P →
      (∀ binding ∈ bs, P binding.2) →
      (bs.foldl (fun s binding => s.bind binding.1 binding.2) s).All P := by
    intro bs
    induction bs with
    | nil => exact fun s hs _ => hs
    | cons b bs ih =>
      intro s hs hbs
      obtain ⟨hb, hrest⟩ := List.forall_mem_cons.mp hbs
      exact ih _ (hs.bind b.1 hb) hrest
  exact hfold t.bindings s h ht

end Scope

namespace World

variable (w : World)

@[simp] theorem addScope_fst (s : Scope) : (w.addScope s).1 = w.scopes.size := rfl

@[simp] theorem size_addScope (s : Scope) :
    (w.addScope s).2.scopes.size = w.scopes.size + 1 := Array.size_push ..

/-- Adding a scope leaves the others alone. -/
theorem scopeAt_addScope_of_ne (s : Scope) {id : ScopeId} (h : id ≠ w.scopes.size) :
    (w.addScope s).2.scopeAt id = w.scopeAt id := by
  simp only [scopeAt, addScope, Array.getD_eq_getD_getElem?, Array.getElem?_push, if_neg h]

theorem scopeAt_addScope_of_lt (s : Scope) {id : ScopeId} (h : id < w.scopes.size) :
    (w.addScope s).2.scopeAt id = w.scopeAt id := w.scopeAt_addScope_of_ne s (Nat.ne_of_lt h)

@[simp] theorem scopeAt_addScope_self (s : Scope) :
    (w.addScope s).2.scopeAt w.scopes.size = s := by
  simp only [scopeAt, addScope, Array.getD_eq_getD_getElem?, Array.getElem?_push_size,
    Option.getD_some]

@[simp] theorem size_bind (id : ScopeId) (name : Text) (value : Value) :
    (w.bind id name value).scopes.size = w.scopes.size := Array.size_modify

/-- Binding a name in one scope leaves the others alone. -/
theorem scopeAt_bind_of_ne {id other : ScopeId} (h : id ≠ other) (name : Text) (value : Value) :
    (w.bind id name value).scopeAt other = w.scopeAt other := by
  simp only [scopeAt, bind, modifyScope, Array.getD_eq_getD_getElem?, Array.getElem?_modify,
    if_neg h]

theorem scopeAt_bind_self {id : ScopeId} (h : id < w.scopes.size) (name : Text)
    (value : Value) : (w.bind id name value).scopeAt id = (w.scopeAt id).bind name value := by
  simp only [scopeAt, bind, modifyScope, Array.getD_eq_getD_getElem?, Array.getElem?_modify,
    if_true, Array.getElem?_eq_getElem h, Option.map_some, Option.getD_some]

/-- Beyond the last scope there is nothing. -/
theorem scopeAt_of_size_le {id : ScopeId} (h : w.scopes.size ≤ id) : w.scopeAt id = .empty := by
  simp only [scopeAt, Array.getD_eq_getD_getElem?, Array.getElem?_eq_none h, Option.getD_none]

@[simp] theorem scopes_record (level : Nat) (line : String) :
    (w.record level line).scopes = w.scopes := rfl

/-- What a scope holds is a matter of the scopes alone. -/
theorem scopeAt_congr {w v : World} (h : w.scopes = v.scopes) (id : ScopeId) :
    w.scopeAt id = v.scopeAt id := by
  rw [scopeAt, scopeAt, h]

/-- Worlds with the same scopes at all places have the same scopes. -/
theorem scopes_ext {w v : World} (hsize : w.scopes.size = v.scopes.size)
    (h : ∀ id, w.scopeAt id = v.scopeAt id) : w.scopes = v.scopes := by
  refine Array.ext hsize fun id hw hv => ?_
  have hid := h id
  simp only [scopeAt, Array.getD_eq_getD_getElem?, Array.getElem?_eq_getElem hw,
    Array.getElem?_eq_getElem hv, Option.getD_some] at hid
  exact hid

/-! ## Values that can be got at -/

/-- Every value that can be got at lies in `P`: those that scopes bind and those that builtins
answer with. -/
structure Holds (P : Value → Prop) (w : World) : Prop where
  bound : ∀ id name v, (w.scopeAt id).get? name = some v → P v
  replies : ∀ identity v, w.replies.lookup identity = some v → P v

namespace Holds

variable {P : Value → Prop} {w : World} (h : w.Holds P)

include h

theorem lookup (hundefined : P .undefined) (id : ScopeId) (name : Text) :
    P ((w.scopeAt id).lookup name) := by
  rw [Scope.lookup]
  cases hv : (w.scopeAt id).get? name with
  | none => exact hundefined
  | some v => exact h.bound id name v hv

theorem replyOf (hundefined : P .undefined) (identity : Nat) : P (w.replyOf identity) := by
  rw [World.replyOf]
  cases hv : w.replies.lookup identity with
  | none => exact hundefined
  | some v => exact h.replies identity v hv

/-- What can be got at is a matter of the scopes and the replies. -/
theorem congr {v : World} (hs : v.scopes = w.scopes) (hr : v.replies = w.replies) : v.Holds P where
  bound id name value hv := h.bound id name value (scopeAt_congr hs id ▸ hv)
  replies identity value hv := h.replies identity value (hr ▸ hv)

theorem addScope {s : Scope} (hs : ∀ name v, s.get? name = some v → P v) :
    (w.addScope s).2.Holds P where
  bound id name v hv := by
    by_cases hid : id = w.scopes.size
    · obtain rfl := hid
      rw [scopeAt_addScope_self] at hv
      exact hs name v hv
    · rw [scopeAt_addScope_of_ne w s hid] at hv
      exact h.bound id name v hv
  replies := h.replies

theorem bind (id : ScopeId) (name : Text) {v : Value} (hv : P v) : (w.bind id name v).Holds P where
  bound other n u hu := by
    by_cases hne : id = other
    · subst hne
      rcases Nat.lt_or_ge id w.scopes.size with hid | hid
      · rw [scopeAt_bind_self w hid, Scope.get?_bind] at hu
        split at hu
        · cases hu
          exact hv
        · exact h.bound id n u hu
      · rw [scopeAt_of_size_le _ (by rw [size_bind]; exact hid)] at hu
        cases hu
    · rw [scopeAt_bind_of_ne w hne] at hu
      exact h.bound other n u hu
  replies := h.replies

/-- The scope that a call adds binds only what the captured scope and the arguments hold. -/
theorem bindParams (hundefined : P .undefined) {args : List Value} (hargs : ∀ a ∈ args, P a)
    (id : ScopeId) (params : List Text) (name : Text) (v : Value)
    (hv : ((w.scopeAt id).bindParams params args).get? name = some v) : P v := by
  rw [Scope.get?_bindParams, Option.or_eq_some_iff] at hv
  rcases hv with hv | ⟨-, hv⟩
  · rcases Scope.mem_of_argument?_eq_some hv with hv | rfl
    · exact hargs v hv
    · exact hundefined
  · exact h.bound id name v hv

end Holds

/-- In a new world nothing can be got at but `print`. -/
theorem holds_fresh {P : Value → Prop} (hprint : P (.builtin ⟨0, "print", .print⟩))
    (verbosity : Nat) : (World.fresh verbosity).Holds P where
  bound id name v hv := by
    have hscope : (World.fresh verbosity).scopeAt id = .empty ∨
        (World.fresh verbosity).scopeAt id =
          Scope.empty.bind "print" (.builtin ⟨0, "print", .print⟩) := by
      cases id with
      | zero => exact Or.inr rfl
      | succ id => exact Or.inl (World.scopeAt_of_size_le _ (Nat.le_add_left 1 id))
    rcases hscope with h | h
    · rw [h] at hv
      cases hv
    · rw [h, Scope.get?_bind] at hv
      split at hv
      · cases hv
        exact hprint
      · cases hv
  replies identity v hv := by cases hv

end World

end Scriptlet
