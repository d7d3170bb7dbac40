/-!
# Reasoning about computations

A computation that keeps a state ends with a value or with a fault, and with a state either way.
So a statement about it has two parts, one for each way of ending, and nothing is ever said only
of the runs that succeed.

* `Ensures m s Q E` speaks of one computation: started in `s` it ends with a value and a state in
  `Q`, or with a fault and a state in `E`.  `ensures_bind` is an equivalence, so unfolding it
  computes what has to hold at the start.
* `stateAfter m s` is the state that it ends with, whichever way it ends.
* `Relates m n s t Q E` speaks of two: they end in the same way, with results in `Q` or in `E`.
* `Concur A W m n s t` is the second at its most frequent: the values are in `A`, the faults are the
  same, and the states are in `W` either way.
* `Moves R I V m` is the first at its most frequent: under the invariant `I` every ending is
  `R`-related to the start, keeps `I`, and has its value in `V`.  For a reflexive and transitive
  `R` such statements compose without any bookkeeping.
* `Upholds I V F m` says what becomes of the invariant `I` alone, and where faults lie as well.
* `bind_eq_ok_iff`, `bind_eq_error_iff` and their like for `map`, `mapError` and `mapM`: when a
  computation without a state succeeds, and what it fails with.
-/

namespace Scriptlet

variable {ε ε' σ σ' : Type} {α α' β β' : Type}

/-! ## One computation -/

/-- Started in `s`, the computation ends with a value and a state in `Q`, or with a fault and a
state in `E`. -/
def Ensures (m : EStateM ε σ α) (s : σ) (Q : α → σ → Prop) (E : ε → σ → Prop) : Prop :=
  match m s with
  | .ok a s => Q a s
  | .error e s => E e s

section Ensures

variable {s : σ} {Q : α → σ → Prop} {E : ε → σ → Prop}

@[simp] theorem ensures_pure (a : α) : Ensures (pure a) s Q E ↔ Q a s := Iff.rfl

@[simp] theorem ensures_throw (e : ε) : Ensures (throw e : EStateM ε σ α) s Q E ↔ E e s := Iff.rfl

@[simp] theorem ensures_get {Q : σ → σ → Prop} :
    Ensures (get : EStateM ε σ σ) s Q E ↔ Q s s := Iff.rfl

@[simp] theorem ensures_modify {Q : PUnit → σ → Prop} (f : σ → σ) :
    Ensures (modify f : EStateM ε σ PUnit) s Q E ↔ Q ⟨⟩ (f s) := Iff.rfl

@[simp] theorem ensures_modifyGet (f : σ → α × σ) :
    Ensures (modifyGet f : EStateM ε σ α) s Q E ↔ Q (f s).1 (f s).2 := Iff.rfl

@[simp] theorem ensures_bind {m : EStateM ε σ α} {k : α → EStateM ε σ β} {Q : β → σ → Prop} :
    Ensures (m >>= k) s Q E ↔ Ensures m s (fun a s => Ensures (k a) s Q E) E := by
  simp only [Ensures, bind, EStateM.bind]
  cases m s <;> exact Iff.rfl

theorem Ensures.mono {m : EStateM ε σ α} {Q' : α → σ → Prop} {E' : ε → σ → Prop}
    (h : Ensures m s Q E) (hQ : ∀ a s, Q a s → Q' a s) (hE : ∀ e s, E e s → E' e s) :
    Ensures m s Q' E' := by
  unfold Ensures at h ⊢
  cases hm : m s with
  | ok a s =>
    rw [hm] at h
    exact hQ a s h
  | error e s =>
    rw [hm] at h
    exact hE e s h

/-- The state that a computation ends with, whichever way it ends. -/
def stateAfter (m : EStateM ε σ α) (s : σ) : σ :=
  match m s with
  | .ok _ t => t
  | .error _ t => t

theorem Ensures.stateAfter {m : EStateM ε σ α} {P : σ → Prop}
    (h : Ensures m s (fun _ t => P t) (fun _ t => P t)) : P (stateAfter m s) := by
  unfold Ensures at h
  unfold Scriptlet.stateAfter
  cases hm : m s with
  | ok a t =>
    rw [hm] at h
    exact h
  | error e t =>
    rw [hm] at h
    exact h

end Ensures

/-! ## Computations that only move along a relation -/

/-- Wherever the invariant holds at the start, it holds at the end, the end is related to the
start, and a value that is returned lies in `V`. -/
def Moves (R : σ → σ → Prop) (I : σ → Prop) (V : α → Prop) (m : EStateM ε σ α) : Prop :=
  ∀ s, I s → Ensures m s (fun a t => V a ∧ R s t ∧ I t) (fun _ t => R s t ∧ I t)

section Moves

variable {R : σ → σ → Prop} {I : σ → Prop} {V : α → Prop}

theorem Moves.pure (hrefl : ∀ s, R s s) {a : α} (ha : V a) :
    Moves R I V (pure a : EStateM ε σ α) :=
  fun s hs => ⟨ha, hrefl s, hs⟩

theorem Moves.throw (hrefl : ∀ s, R s s) (e : ε) :
    Moves R I V (throw e : EStateM ε σ α) :=
  fun s hs => ⟨hrefl s, hs⟩

theorem Moves.bind (htrans : ∀ s t u, R s t → R t u → R s u) {m : EStateM ε σ α}
    {k : α → EStateM ε σ β} {U : β → Prop} (hm : Moves R I V m)
    (hk : ∀ a, V a → Moves R I U (k a)) : Moves R I U (m >>= k) := by
  intro s hs
  rw [ensures_bind]
  refine (hm s hs).mono ?_ fun _ _ h => h
  rintro a t ⟨ha, hst, ht⟩
  refine (hk a ha t ht).mono ?_ ?_
  · rintro b u ⟨hb, htu, hu⟩
    exact ⟨hb, htrans s t u hst htu, hu⟩
  · rintro e u ⟨htu, hu⟩
    exact ⟨htrans s t u hst htu, hu⟩

theorem Moves.stateAfter {m : EStateM ε σ α} (h : Moves R I V m) {s : σ} (hs : I s) :
    R s (stateAfter m s) ∧ I (stateAfter m s) :=
  Ensures.stateAfter (P := fun t => R s t ∧ I t)
    ((h s hs).mono (fun _ _ ht => ht.2) fun _ _ ht => ht)

theorem Moves.modify {f : σ → σ} (hf : ∀ s, I s → R s (f s) ∧ I (f s)) :
    Moves R I (fun _ => True) (modify f : EStateM ε σ PUnit) :=
  fun s hs => ⟨trivial, hf s hs⟩

end Moves

/-! ## Computations that keep up an invariant -/

/-- Wherever the invariant holds at the start, it holds at the end, a value that is returned lies
in `V`, and a fault in `F`. -/
def Upholds (I : σ → Prop) (V : α → Prop) (F : ε → Prop) (m : EStateM ε σ α) : Prop :=
  ∀ s, I s → Ensures m s (fun a t => V a ∧ I t) (fun e t => F e ∧ I t)

section Upholds

variable {I : σ → Prop} {V : α → Prop} {U : β → Prop} {F : ε → Prop}

theorem Upholds.pure {a : α} (ha : V a) : Upholds I V F (pure a : EStateM ε σ α) :=
  fun _ hs => ⟨ha, hs⟩

theorem Upholds.throw {e : ε} (he : F e) : Upholds I V F (throw e : EStateM ε σ α) :=
  fun _ hs => ⟨he, hs⟩

theorem Upholds.bind {m : EStateM ε σ α} {k : α → EStateM ε σ β} (hm : Upholds I V F m)
    (hk : ∀ a, V a → Upholds I U F (k a)) : Upholds I U F (m >>= k) := by
  intro s hs
  rw [ensures_bind]
  refine (hm s hs).mono ?_ fun _ _ h => h
  rintro a t ⟨ha, ht⟩
  exact hk a ha t ht

theorem Upholds.modify {f : σ → σ} (hf : ∀ s, I s → I (f s)) :
    Upholds I (fun _ => True) F (modify f : EStateM ε σ PUnit) :=
  fun s hs => ⟨trivial, hf s hs⟩

theorem Upholds.modifyGet {f : σ → α × σ} (hf : ∀ s, I s → V (f s).1 ∧ I (f s).2) :
    Upholds I V F (modifyGet f : EStateM ε σ α) := hf

/-- A result that is read off the state. -/
theorem Upholds.get {f : σ → α} (hf : ∀ s, I s → V (f s)) :
    Upholds I V F (do return f (← get) : EStateM ε σ α) :=
  fun s hs => ⟨hf s hs, hs⟩

end Upholds

/-! ## Two computations -/

/-- Started in `s` and in `t`, the two computations end in the same way: with values and states in
`Q`, or with faults and states in `E`. -/
def Relates (m : EStateM ε σ α) (n : EStateM ε' σ' α') (s : σ) (t : σ')
    (Q : α → α' → σ → σ' → Prop) (E : ε → ε' → σ → σ' → Prop) : Prop :=
  match m s, n t with
  | .ok a s, .ok b t => Q a b s t
  | .error e s, .error f t => E e f s t
  | _, _ => False

section Relates

variable {s : σ} {t : σ'} {Q : α → α' → σ → σ' → Prop} {E : ε → ε' → σ → σ' → Prop}

theorem Relates.pure {a : α} {b : α'} (h : Q a b s t) :
    Relates (pure a : EStateM ε σ α) (pure b : EStateM ε' σ' α') s t Q E := h

theorem Relates.throw {e : ε} {f : ε'} (h : E e f s t) :
    Relates (throw e : EStateM ε σ α) (throw f : EStateM ε' σ' α') s t Q E := h

theorem Relates.mono {m : EStateM ε σ α} {n : EStateM ε' σ' α'} {Q' : α → α' → σ → σ' → Prop}
    {E' : ε → ε' → σ → σ' → Prop} (h : Relates m n s t Q E)
    (hQ : ∀ a b s t, Q a b s t → Q' a b s t) (hE : ∀ e f s t, E e f s t → E' e f s t) :
    Relates m n s t Q' E' := by
  unfold Relates at h ⊢
  cases hm : m s with
  | ok a s =>
    cases hn : n t with
    | ok b t =>
      rw [hm, hn] at h
      exact hQ a b s t h
    | error f t =>
      rw [hm, hn] at h
      exact h.elim
  | error e s =>
    cases hn : n t with
    | ok b t =>
      rw [hm, hn] at h
      exact h.elim
    | error f t =>
      rw [hm, hn] at h
      exact hE e f s t h

theorem Relates.symm {m : EStateM ε σ α} {n : EStateM ε' σ' α'} (h : Relates m n s t Q E) :
    Relates n m t s (fun b a t s => Q a b s t) fun f e t s => E e f s t := by
  unfold Relates at h ⊢
  cases hm : m s with
  | ok a s =>
    cases hn : n t with
    | ok b t =>
      rw [hm, hn] at h
      exact h
    | error f t =>
      rw [hm, hn] at h
      exact h.elim
  | error e s =>
    cases hn : n t with
    | ok b t =>
      rw [hm, hn] at h
      exact h.elim
    | error f t =>
      rw [hm, hn] at h
      exact h

/-- Two computations that end like a third end like each other. -/
theorem Relates.trans {ε'' σ'' α'' : Type} {m : EStateM ε σ α} {n : EStateM ε' σ' α'}
    {k : EStateM ε'' σ'' α''} {u : σ''} {Q' : α' → α'' → σ' → σ'' → Prop}
    {E' : ε' → ε'' → σ' → σ'' → Prop} (h : Relates m n s t Q E) (h' : Relates n k t u Q' E') :
    Relates m k s u (fun a c s u => ∃ b t, Q a b s t ∧ Q' b c t u)
      fun e g s u => ∃ f t, E e f s t ∧ E' f g t u := by
  unfold Relates at h h' ⊢
  cases hn : n t with
  | ok b t =>
    cases hm : m s with
    | ok a s =>
      cases hk : k u with
      | ok c u =>
        rw [hm, hn] at h
        rw [hn, hk] at h'
        exact ⟨b, t, h, h'⟩
      | error g u =>
        rw [hn, hk] at h'
        exact h'.elim
    | error e s =>
      rw [hm, hn] at h
      exact h.elim
  | error f t =>
    cases hm : m s with
    | ok a s =>
      rw [hm, hn] at h
      exact h.elim
    | error e s =>
      cases hk : k u with
      | ok c u =>
        rw [hn, hk] at h'
        exact h'.elim
      | error g u =>
        rw [hm, hn] at h
        rw [hn, hk] at h'
        exact ⟨f, t, h, h'⟩

theorem Relates.bind {m : EStateM ε σ α} {n : EStateM ε' σ' α'} {k : α → EStateM ε σ β}
    {l : α' → EStateM ε' σ' β'} {Q' : β → β' → σ → σ' → Prop} (h : Relates m n s t Q E)
    (hk : ∀ a b s t, Q a b s t → Relates (k a) (l b) s t Q' E) :
    Relates (m >>= k) (n >>= l) s t Q' E := by
  unfold Relates at h ⊢
  simp only [Bind.bind, EStateM.bind]
  cases hm : m s with
  | ok a s =>
    cases hn : n t with
    | ok b t =>
      rw [hm, hn] at h
      exact hk a b s t h
    | error f t =>
      rw [hm, hn] at h
      exact h.elim
  | error e s =>
    cases hn : n t with
    | ok b t =>
      rw [hm, hn] at h
      exact h.elim
    | error f t =>
      rw [hm, hn] at h
      exact h

end Relates

/-- Started in `s` and in `t`, the two computations end with values in `A` or with the same fault,
and in states in `W` either way. -/
def Concur (A : α → α' → Prop) (W : σ → σ' → Prop) (m : EStateM ε σ α) (n : EStateM ε σ' α')
    (s : σ) (t : σ') : Prop :=
  Relates m n s t (fun a b s t => A a b ∧ W s t) fun e f s t => e = f ∧ W s t

namespace Concur

variable {A : α → α' → Prop} {W : σ → σ' → Prop} {m : EStateM ε σ α} {n : EStateM ε σ' α'} {s : σ}
  {t : σ'}

theorem mono {A' : α → α' → Prop} {W' : σ → σ' → Prop} (h : Concur A W m n s t)
    (hA : ∀ a b, A a b → A' a b) (hW : ∀ s t, W s t → W' s t) : Concur A' W' m n s t :=
  Relates.mono h (fun a b s t hends => ⟨hA a b hends.1, hW s t hends.2⟩)
    fun _ _ s t hends => ⟨hends.1, hW s t hends.2⟩

theorem symm (h : Concur A W m n s t) : Concur (fun b a => A a b) (fun t s => W s t) n m t s :=
  (Relates.symm h).mono (fun _ _ _ _ hends => hends) fun _ _ _ _ hends => ⟨hends.1.symm, hends.2⟩

theorem trans {σ'' α'' : Type} {k : EStateM ε σ'' α''} {u : σ''} {A' : α' → α'' → Prop}
    {W' : σ' → σ'' → Prop} (h : Concur A W m n s t) (h' : Concur A' W' n k t u) :
    Concur (fun a c => ∃ b, A a b ∧ A' b c) (fun s u => ∃ t, W s t ∧ W' t u) m k s u := by
  refine (Relates.trans h h').mono ?_ ?_
  · rintro a c x z ⟨b, y, ⟨hab, hxy⟩, hbc, hyz⟩
    exact ⟨⟨b, hab, hbc⟩, y, hxy, hyz⟩
  · rintro e g x z ⟨f, y, ⟨hef, hxy⟩, hfg, hyz⟩
    exact ⟨hef.trans hfg, y, hxy, hyz⟩

theorem bind {B : β → β' → Prop} {k : α → EStateM ε σ β} {l : α' → EStateM ε σ' β'}
    (h : Concur A W m n s t) (hk : ∀ a b s t, A a b → W s t → Concur B W (k a) (l b) s t) :
    Concur B W (m >>= k) (n >>= l) s t :=
  Relates.bind h fun a b s t hends => hk a b s t hends.1 hends.2

/-- The state that the first computation ends with is the one after it. -/
theorem stateAfter (h : Concur A W m n s t) :
    Concur A (fun x y => x = stateAfter m s ∧ W x y) m n s t := by
  unfold Concur Relates Scriptlet.stateAfter at *
  cases hm : m s with
  | ok a x =>
    cases hn : n t with
    | ok b y =>
      rw [hm, hn] at h
      exact ⟨h.1, rfl, h.2⟩
    | error f y =>
      rw [hm, hn] at h
      exact h.elim
  | error e x =>
    cases hn : n t with
    | ok b y =>
      rw [hm, hn] at h
      exact h.elim
    | error f y =>
      rw [hm, hn] at h
      exact ⟨h.1, rfl, h.2⟩

end Concur

/-! ## Computations without a state -/

section Results

variable {x : Except ε α} {b : β}

theorem ok_bind (a : α) (f : α → Except ε β) : ((Except.ok a : Except ε α) >>= f) = f a := rfl

theorem ok_map (a : α) (f : α → β) : (Except.ok a : Except ε α).map f = .ok (f a) := rfl

theorem bind_eq_ok_iff {f : α → Except ε β} :
    (x >>= f) = .ok b ↔ ∃ a, x = .ok a ∧ f a = .ok b := by
  cases x with
  | error e => exact ⟨fun h => (nomatch h), fun ⟨_, h, _⟩ => (nomatch h)⟩
  | ok a =>
    constructor
    · intro h
      exact ⟨a, rfl, h⟩
    · rintro ⟨_, h, hb⟩
      cases h
      exact hb

theorem map_eq_ok_iff {f : α → β} : x.map f = .ok b ↔ ∃ a, x = .ok a ∧ f a = b := by
  cases x with
  | error e => exact ⟨fun h => (nomatch h), fun ⟨_, h, _⟩ => (nomatch h)⟩
  | ok a =>
    constructor
    · intro h
      exact ⟨a, rfl, Except.ok.inj h⟩
    · rintro ⟨_, h, rfl⟩
      cases h
      rfl

theorem bind_eq_error_iff {f : α → Except ε β} {e : ε} :
    (x >>= f) = .error e ↔ x = .error e ∨ ∃ a, x = .ok a ∧ f a = .error e := by
  cases x with
  | error e' =>
    constructor
    · intro h
      cases h
      exact Or.inl rfl
    · rintro (h | ⟨_, h, _⟩)
      · cases h
        rfl
      · cases h
  | ok a =>
    constructor
    · intro h
      exact Or.inr ⟨a, rfl, h⟩
    · rintro (h | ⟨_, h, he⟩)
      · cases h
      · cases h
        exact he

theorem map_eq_error_iff {f : α → β} {e : ε} : x.map f = .error e ↔ x = .error e := by
  cases x with
  | error e' =>
    constructor
    · intro h
      cases h
      rfl
    · intro h
      cases h
      rfl
  | ok a => exact ⟨fun h => (nomatch h), fun h => (nomatch h)⟩

/-- A list is worked through up to the first item that fails. -/
theorem mapM_eq_error_iff {f : α → Except ε β} {items : List α} {e : ε} :
    items.mapM f = .error e ↔ ∃ pre item post, items = pre ++ item :: post ∧
      (∀ i ∈ pre, ∃ b, f i = .ok b) ∧ f item = .error e := by
  induction items with
  | nil =>
    refine ⟨fun h => (nomatch h), ?_⟩
    rintro ⟨pre, item, post, h, -⟩
    cases pre <;> cases h
  | cons item items ih =>
    rw [List.mapM_cons, bind_eq_error_iff]
    constructor
    · rintro (h | ⟨b, hb, h⟩)
      · exact ⟨[], item, items, rfl, nofun, h⟩
      · rcases bind_eq_error_iff.mp h with h | ⟨_, _, h⟩
        · obtain ⟨pre, j, post, rfl, hpre, hj⟩ := ih.mp h
          exact ⟨item :: pre, j, post, rfl, List.forall_mem_cons.mpr ⟨⟨b, hb⟩, hpre⟩, hj⟩
        · cases h
    · rintro ⟨pre, j, post, h, hpre, hj⟩
      cases pre with
      | nil =>
        cases h
        exact Or.inl hj
      | cons i pre =>
        cases h
        obtain ⟨⟨b, hb⟩, hpre⟩ := List.forall_mem_cons.mp hpre
        refine Or.inr ⟨b, hb, bind_eq_error_iff.mpr (Or.inl (ih.mpr ?_))⟩
        exact ⟨pre, j, post, rfl, hpre, hj⟩

theorem mapError_eq_ok_iff {f : ε → ε'} {a : α} : x.mapError f = .ok a ↔ x = .ok a := by
  cases x with
  | error e => exact ⟨fun h => (nomatch h), fun h => (nomatch h)⟩
  | ok b =>
    constructor
    · intro h
      cases h
      rfl
    · intro h
      cases h
      rfl

theorem mapError_eq_error_iff {f : ε → ε'} {e' : ε'} :
    x.mapError f = .error e' ↔ ∃ e, x = .error e ∧ f e = e' := by
  cases x with
  | error e =>
    constructor
    · intro h
      exact ⟨e, rfl, Except.error.inj h⟩
    · rintro ⟨_, h, rfl⟩
      cases h
      rfl
  | ok b => exact ⟨fun h => (nomatch h), fun ⟨_, h, _⟩ => (nomatch h)⟩

theorem error_bind (e : ε) (f : α → Except ε β) :
    ((Except.error e : Except ε α) >>= f) = .error e := rfl

end Results

end Scriptlet
