import Scriptlet.Proofs.Bindings
import Scriptlet.Proofs.Computation
import Scriptlet.Proofs.Operators
import Scriptlet.Proofs.Walk

/-!
# Worlds that refer to nothing beyond themselves

Scopes and functions go by numbers that a world hands out one after another.  In every world that
there can be, what is bound refers only to numbers that have been handed out already.  So what is
handed out next is new indeed.

* `World.Knows`: the numbers of a value have been handed out.  `World.Settled`: so have those of
  every value that is bound anywhere.
* `World.Onward`: what a walk makes of the numbers and of the settings of a world.
* `Steady bound`: walks under this bound lead from settled worlds to settled worlds, however they
  end, and come back with values that are known there.  By induction on the bound (`steady`).
* `World.Reachable`: the worlds that programs and their host can bring about.
  `World.Reachable.settled` says that they are settled.
-/

namespace Scriptlet

namespace World

variable {u v w : World}

/-- The numbers of a value have been handed out: the identity of a function, and the place of the
scope that it was declared in. -/
def Knows (w : World) : Value → Prop
  | .closure f => f.identity < w.nextIdentity ∧ f.scope < w.scopes.size
  | .builtin f => f.identity < w.nextIdentity
  | .undefined | .boolean _ | .number _ | .string _ => True

theorem knows_of_not_isFunction (w : World) {a : Value} (h : a.isFunction = false) : w.Knows a := by
  cases a with
  | undefined | boolean | number | string => trivial
  | closure f => cases h
  | builtin f => cases h

theorem knows_literal (w : World) (value : Literal) : w.Knows value.toValue := by
  cases value <;> trivial

/-- Every value that is bound anywhere is known, and so are the builtins that have a reply and what
they reply with. -/
structure Settled (w : World) : Prop where
  scopes : ∀ id, (w.scopeAt id).All w.Knows
  replies : ∀ identity a, w.replies.lookup identity = some a →
    identity < w.nextIdentity ∧ w.Knows a

/-- At least as much has been handed out in the second world. -/
structure Grows (w v : World) : Prop where
  size_le : w.scopes.size ≤ v.scopes.size
  identity_le : w.nextIdentity ≤ v.nextIdentity

/-- More has been handed out in the second world, and the settings are the same. -/
structure Onward (w v : World) : Prop extends w.Grows v where
  replies : v.replies = w.replies
  verbosity : v.verbosity = w.verbosity
  tracing : v.tracing = w.tracing

theorem Onward.refl (w : World) : w.Onward w := ⟨⟨Nat.le_refl _, Nat.le_refl _⟩, rfl, rfl, rfl⟩

theorem Onward.trans (h : u.Onward v) (h' : v.Onward w) : u.Onward w where
  size_le := Nat.le_trans h.size_le h'.size_le
  identity_le := Nat.le_trans h.identity_le h'.identity_le
  replies := h'.replies.trans h.replies
  verbosity := h'.verbosity.trans h.verbosity
  tracing := h'.tracing.trans h.tracing

/-- What is known stays known. -/
theorem Grows.knows (h : w.Grows v) (a : Value) (ha : w.Knows a) : v.Knows a := by
  cases a with
  | undefined | boolean | number | string => trivial
  | closure f => exact ⟨Nat.lt_of_lt_of_le ha.1 h.identity_le, Nat.lt_of_lt_of_le ha.2 h.size_le⟩
  | builtin f => exact Nat.lt_of_lt_of_le ha h.identity_le

theorem all_addScope {P : Value → Prop} (h : ∀ id, (w.scopeAt id).All P) {s : Scope} (hs : s.All P)
    (id : ScopeId) : ((w.addScope s).2.scopeAt id).All P := by
  by_cases hid : id = w.scopes.size
  · rw [hid, scopeAt_addScope_self]
    exact hs
  · rw [scopeAt_addScope_of_ne w s hid]
    exact h id

theorem all_modifyScope {P : Value → Prop} (h : ∀ id, (w.scopeAt id).All P) {f : Scope → Scope}
    (hf : ∀ s, s.All P → (f s).All P) (id other : ScopeId) :
    ((w.modifyScope id f).scopeAt other).All P := by
  have hother := h other
  simp only [scopeAt, modifyScope, Array.getD_eq_getD_getElem?, Array.getElem?_modify] at hother ⊢
  split
  · cases hs : w.scopes[other]? with
    | none => exact Scope.all_empty
    | some s =>
      rw [hs] at hother
      exact hf s hother
  · exact hother

namespace Settled

theorem lookup (h : w.Settled) (id : ScopeId) (name : Text) :
    w.Knows ((w.scopeAt id).lookup name) := by
  rw [Scope.lookup]
  cases ha : (w.scopeAt id).get? name with
  | none => trivial
  | some a => exact (h.scopes id).get? ha

theorem replyOf (h : w.Settled) (identity : Nat) : w.Knows (w.replyOf identity) := by
  rw [World.replyOf]
  cases ha : w.replies.lookup identity with
  | none => trivial
  | some a => exact (h.replies identity a ha).2

/-- In a world that grows, it is enough that values are known in the world before. -/
theorem of_grows (hgrows : w.Grows v) (hscopes : ∀ id, (v.scopeAt id).All w.Knows)
    (hreplies : ∀ identity a, v.replies.lookup identity = some a →
      identity < w.nextIdentity ∧ w.Knows a) : v.Settled where
  scopes id := (hscopes id).mono hgrows.knows
  replies identity a ha :=
    have ⟨hidentity, hknown⟩ := hreplies identity a ha
    ⟨Nat.lt_of_lt_of_le hidentity hgrows.identity_le, hgrows.knows a hknown⟩

theorem congr (h : w.Settled) (hscopes : v.scopes = w.scopes)
    (hidentity : v.nextIdentity = w.nextIdentity) (hreplies : v.replies = w.replies) :
    v.Settled := by
  refine of_grows (w := w) ⟨?_, Nat.le_of_eq hidentity.symm⟩ (fun id => ?_) ?_
  · rw [hscopes]
  · rw [scopeAt_congr hscopes]
    exact h.scopes id
  · rw [hreplies]
    exact h.replies

theorem addScope (h : w.Settled) {s : Scope} (hs : s.All w.Knows) : (w.addScope s).2.Settled := by
  refine of_grows (w := w) ⟨?_, Nat.le_refl _⟩ (all_addScope h.scopes hs) h.replies
  rw [size_addScope]
  exact Nat.le_succ _

theorem modifyScope (h : w.Settled) (id : ScopeId) {f : Scope → Scope}
    (hf : ∀ s, s.All w.Knows → (f s).All w.Knows) : (w.modifyScope id f).Settled := by
  refine of_grows (w := w) ⟨?_, Nat.le_refl _⟩ (all_modifyScope h.scopes hf id) h.replies
  exact Nat.le_of_eq Array.size_modify.symm

theorem bind (h : w.Settled) (id : ScopeId) (name : Text) {a : Value} (ha : w.Knows a) :
    (w.bind id name a).Settled :=
  h.modifyScope id fun _ hs => hs.bind name ha

/-- An identity that has been handed out is not bound to anything yet. -/
theorem issueIdentity (h : w.Settled) : w.issueIdentity.2.Settled :=
  of_grows (w := w) ⟨Nat.le_refl _, Nat.le_succ _⟩ h.scopes h.replies

theorem reply (h : w.Settled) {identity : Nat} (hidentity : identity < w.nextIdentity) {a : Value}
    (ha : w.Knows a) : ({ w with replies := (identity, a) :: w.replies } : World).Settled := by
  refine of_grows (w := w) ⟨Nat.le_refl _, Nat.le_refl _⟩ h.scopes fun other b hb => ?_
  rw [List.lookup_cons] at hb
  split at hb
  · rename_i heq
    cases hb
    rw [eq_of_beq heq]
    exact ⟨hidentity, ha⟩
  · exact h.replies other b hb

end Settled

theorem settled_fresh (verbosity : Nat) : (World.fresh verbosity).Settled where
  scopes id := by
    cases id with
    | zero => exact Scope.all_empty.bind "print" Nat.zero_lt_one
    | succ id =>
      rw [scopeAt_of_size_le _ (Nat.le_add_left 1 id)]
      exact Scope.all_empty
  replies _ _ h := by cases h

end World

/-! ## Walks -/

variable {α β : Type} {w : World} {V : World → α → Prop} {U : World → β → Prop}

/-- The computation leads onward from this world to a settled one, however it ends, and a value that
it returns lies in `V` there. -/
def Settles (V : World → α → Prop) (m : Run α) (w : World) : Prop :=
  Ensures m w (fun a v => w.Onward v ∧ v.Settled ∧ V v a) fun _ v => w.Onward v ∧ v.Settled

namespace Settles

theorem pure (hw : w.Settled) {a : α} (ha : V w a) : Settles V (pure a) w := ⟨.refl w, hw, ha⟩

theorem throw (hw : w.Settled) (fault : Fault) : Settles V (throw fault : Run α) w := ⟨.refl w, hw⟩

/-- Whatever comes next starts in a world that has grown. -/
theorem bind {m : Run α} {k : α → Run β} (hm : Settles V m w)
    (hk : ∀ a v, w.Onward v → v.Settled → V v a → Settles U (k a) v) : Settles U (m >>= k) w := by
  unfold Settles
  rw [ensures_bind]
  refine Ensures.mono hm ?_ fun _ _ h => h
  rintro a v ⟨hwv, hv, ha⟩
  refine (hk a v hwv hv ha).mono ?_ ?_
  · rintro b u ⟨hvu, hu, hb⟩
    exact ⟨hwv.trans hvu, hu, hb⟩
  · rintro fault u ⟨hvu, hu⟩
    exact ⟨hwv.trans hvu, hu⟩

theorem stateAfter {m : Run α} (h : Settles V m w) :
    w.Onward (stateAfter m w) ∧ (stateAfter m w).Settled :=
  Ensures.stateAfter (P := fun v => w.Onward v ∧ v.Settled)
    (h.mono (fun _ _ hv => ⟨hv.1, hv.2.1⟩) fun _ _ hv => hv)

end Settles

/-- A step that hands out nothing. -/
theorem settles_modify (hw : w.Settled) {f : World → World} (hscopes : (f w).scopes = w.scopes)
    (hidentity : (f w).nextIdentity = w.nextIdentity) (hreplies : (f w).replies = w.replies)
    (hverbosity : (f w).verbosity = w.verbosity) (htracing : (f w).tracing = w.tracing) :
    Settles (fun _ _ => True) (modify f : Run PUnit) w := by
  refine ⟨⟨⟨?_, Nat.le_of_eq hidentity.symm⟩, hreplies, hverbosity, htracing⟩,
    hw.congr hscopes hidentity hreplies, trivial⟩
  rw [hscopes]

theorem settles_tell (hw : w.Settled) (level : Nat) (text : Unit → Text) :
    Settles (fun _ _ => True) (tell level text) w :=
  ensures_tell (fun _ => ⟨.refl w, hw, trivial⟩)
    (fun line _ _ => settles_modify (f := fun w => w.record level line) hw rfl rfl rfl rfl rfl)
    fun _ _ _ => ⟨.refl w, hw⟩

theorem settles_printLine (hw : w.Settled) (text : Text) :
    Settles (fun _ _ => True) (printLine text) w :=
  ensures_printLine
    (fun line _ => settles_modify (f := fun w => w.print line) hw rfl rfl rfl rfl rfl)
    fun _ _ => ⟨.refl w, hw⟩

theorem settles_bind (hw : w.Settled) (scope : ScopeId) (name : Text) {a : Value}
    (ha : w.Knows a) :
    Settles (fun _ _ => True) (modify fun w => w.bind scope name a : Run PUnit) w := by
  refine ⟨⟨⟨?_, Nat.le_refl _⟩, rfl, rfl, rfl⟩, hw.bind scope name ha, trivial⟩
  rw [World.size_bind]

/-- Values are known wherever they were known before. -/
theorem World.Onward.knows_all {v : World} (h : w.Onward v) {args : List Value}
    (hargs : ∀ a ∈ args, w.Knows a) : ∀ a ∈ args, v.Knows a :=
  fun a ha => h.knows a (hargs a ha)

theorem settles_evaluateEach {eval : Node → Run Value}
    (h : ∀ node w, w.Settled → Settles World.Knows (eval node) w) (nodes : List Node)
    (hw : w.Settled) :
    Settles (fun v args => ∀ a ∈ args, v.Knows a) (evaluateEach eval nodes) w := by
  induction nodes generalizing w with
  | nil => exact Settles.pure hw nofun
  | cons node nodes ih =>
    refine Settles.bind (h node w hw) fun a v _ hv ha => ?_
    refine Settles.bind (ih hv) fun args u hvu hu hargs => ?_
    exact Settles.pure hu (List.forall_mem_cons.mpr ⟨hvu.knows a ha, hargs⟩)

theorem settles_executeEach {scope : ScopeId} {exec : Node → Run Outcome}
    (h : ∀ node w, w.Settled → scope < w.scopes.size →
      Settles (fun v outcome => v.Knows outcome.toValue) (exec node) w)
    (nodes : List Node) (hw : w.Settled) (hscope : scope < w.scopes.size) :
    Settles (fun v outcome => v.Knows outcome.toValue) (executeEach exec nodes) w := by
  induction nodes generalizing w with
  | nil => exact Settles.pure hw trivial
  | cons node nodes ih =>
    refine Settles.bind (h node w hw hscope) fun outcome v hwv hv ho => ?_
    cases outcome with
    | returned a => exact Settles.pure hv ho
    | proceed => exact ih hv (Nat.lt_of_lt_of_le hscope hwv.size_le)

/-- An operator makes no function. -/
theorem settles_applyOperator (hw : w.Settled) (operator : Json) (a b : Value) :
    Settles World.Knows (applyOperator operator a b) w := by
  unfold applyOperator
  split
  · exact Settles.throw hw _
  · rename_i result hresult
    refine Settles.bind (settles_tell hw 3 _) fun _ v _ hv _ => ?_
    exact Settles.pure hv (v.knows_of_not_isFunction (Value.isFunction_of_operate_eq_ok hresult))

/-- Under this bound, walks that start in a settled world end in one. -/
structure Steady (bound : Nat) : Prop where
  evaluate : ∀ node scope w, w.Settled → Settles World.Knows (evaluate bound node scope) w
  execute : ∀ node scope w, w.Settled → scope < w.scopes.size →
    Settles (fun v outcome => v.Knows outcome.toValue) (execute bound node scope) w
  executeBlock : ∀ nodes scope w, w.Settled → scope < w.scopes.size →
    Settles (fun v outcome => v.Knows outcome.toValue) (executeBlock bound nodes scope) w
  call : ∀ f scope args w, w.Settled → w.Knows f → (∀ a ∈ args, w.Knows a) →
    Settles World.Knows (call bound f scope args) w

section Step

variable {bound : Nat} (ih : Steady bound)

include ih

theorem Steady.evaluate_succ (node : Node) (scope : ScopeId) (w : World) (hw : w.Settled) :
    Settles World.Knows (Scriptlet.evaluate (bound + 1) node scope) w := by
  cases node with
  | literal value =>
    rw [evaluate_literal]
    exact Settles.pure hw (w.knows_literal value)
  | identifier name =>
    rw [evaluate_identifier]
    exact ⟨.refl w, hw, hw.lookup scope name⟩
  | binary operator left right =>
    rw [evaluate_binary]
    refine Settles.bind (ih.evaluate left scope w hw) fun a v _ hv _ => ?_
    refine Settles.bind (ih.evaluate right scope v hv) fun b u _ hu _ => ?_
    exact settles_applyOperator hu operator a b
  | call callee arguments =>
    rw [evaluate_call]
    refine Settles.bind (ih.evaluate callee scope w hw) fun f v _ hv hf => ?_
    refine Settles.bind
      (settles_evaluateEach (fun node w hw => ih.evaluate node scope w hw) arguments hv)
      fun args u hvu hu hargs => ?_
    split
    · exact ih.call f scope args u hu (hvu.knows f hf) hargs
    · exact Settles.throw hu _
  | _ =>
    rw [evaluate_unsupported bound scope rfl]
    exact Settles.throw hw _

theorem Steady.execute_succ (node : Node) (scope : ScopeId) (w : World) (hw : w.Settled)
    (hscope : scope < w.scopes.size) :
    Settles (fun v outcome => v.Knows outcome.toValue)
      (Scriptlet.execute (bound + 1) node scope) w := by
  cases node with
  | absent =>
    rw [execute_absent]
    exact Settles.pure hw trivial
  | expression body =>
    rw [execute_expression]
    refine Settles.bind (ih.evaluate body scope w hw) fun value v _ hv _ => ?_
    refine Settles.bind (settles_modify hv rfl rfl rfl rfl rfl) fun _ u _ hu _ => ?_
    exact Settles.pure hu trivial
  | conditional test consequent alternate =>
    rw [execute_conditional]
    refine Settles.bind (ih.evaluate test scope w hw) fun value v hwv hv _ => ?_
    refine Settles.bind (settles_tell hv 3 _) fun _ u hvu hu _ => ?_
    have hplace : scope < u.scopes.size := Nat.lt_of_lt_of_le hscope (hwv.trans hvu).size_le
    split
    · exact ih.execute consequent scope u hu hplace
    · exact ih.execute alternate scope u hu hplace
  | returning argument =>
    by_cases hargument : argument = .absent
    · rw [hargument, execute_returning_absent]
      refine Settles.bind (settles_tell hw 3 _) fun _ v _ hv _ => ?_
      exact Settles.pure hv trivial
    · rw [execute_returning bound scope hargument]
      refine Settles.bind (ih.evaluate argument scope w hw) fun value v _ hv hvalue => ?_
      refine Settles.bind (settles_tell hv 3 _) fun _ u hvu hu _ => ?_
      exact Settles.pure hu (hvu.knows value hvalue)
  | block body =>
    rw [execute_block]
    exact ih.executeBlock body scope w hw hscope
  | function name params body =>
    -- the one place where an identity is handed out
    rw [execute_function]
    refine Settles.bind (V := fun v f => v.Knows (.closure f)) ?_ fun f v _ hv hf => ?_
    · exact ⟨⟨⟨Nat.le_refl _, Nat.le_succ _⟩, rfl, rfl, rfl⟩, hw.issueIdentity,
        Nat.lt_succ_self _, hscope⟩
    · refine Settles.bind (settles_bind hv scope name hf) fun _ u _ hu _ => ?_
      refine Settles.bind (settles_tell hu 2 _) fun _ t _ ht _ => ?_
      exact Settles.pure ht trivial
  | _ =>
    rw [execute_unsupported bound scope rfl]
    exact Settles.throw hw _

theorem Steady.executeBlock_succ (nodes : List Node) (scope : ScopeId) (w : World) (hw : w.Settled)
    (hscope : scope < w.scopes.size) :
    Settles (fun v outcome => v.Knows outcome.toValue)
      (Scriptlet.executeBlock (bound + 1) nodes scope) w := by
  rw [Scriptlet.executeBlock_succ]
  exact settles_executeEach (fun node w hw hscope => ih.execute node scope w hw hscope) nodes hw
    hscope

/-- The scope of a call is the next one that is handed out. -/
theorem Steady.call_closure_succ (f : Closure) (scope : ScopeId) {args : List Value} (w : World)
    (hw : w.Settled) (hargs : ∀ a ∈ args, w.Knows a) :
    Settles World.Knows (Scriptlet.call (bound + 1) (.closure f) scope args) w := by
  rw [call_closure]
  refine Settles.bind (settles_tell hw 2 _) fun _ v hwv hv _ => ?_
  refine Settles.bind (V := fun u inner => inner < u.scopes.size) ?_ fun inner u _ hu hinner => ?_
  · have hgrows : v.scopes.size <
        (v.addScope ((v.scopeAt f.scope).bindParams f.params args)).2.scopes.size := by
      rw [World.size_addScope]
      exact Nat.lt_succ_self _
    have hsettled := hv.addScope
      ((hv.scopes f.scope).bindParams trivial f.params (hwv.knows_all hargs))
    exact ⟨⟨⟨Nat.le_of_lt hgrows, Nat.le_refl _⟩, rfl, rfl, rfl⟩, hsettled, hgrows⟩
  · refine Settles.bind (ih.executeBlock f.body inner u hu hinner) fun outcome t _ ht ho => ?_
    exact Settles.pure ht ho

theorem Steady.call_succ (f : Value) (scope : ScopeId) (args : List Value) (w : World)
    (hw : w.Settled) (hf : w.Knows f) (hargs : ∀ a ∈ args, w.Knows a) :
    Settles World.Knows (Scriptlet.call (bound + 1) f scope args) w := by
  cases f with
  | closure f => exact ih.call_closure_succ f scope w hw hargs
  | builtin f =>
    rw [call_builtin]
    refine Settles.bind (settles_tell hw 2 _) fun _ v hwv hv _ => ?_
    have hknown := hwv.knows_all hargs
    cases f.action with
    | print =>
      refine Settles.bind (settles_printLine hv _) fun _ u _ hu _ => ?_
      exact Settles.pure hu trivial
    | note =>
      refine Settles.bind (settles_modify hv rfl rfl rfl rfl rfl) fun _ u _ hu _ => ?_
      exact ⟨.refl u, hu, hu.replyOf f.identity⟩
    | apply =>
      refine ih.call _ scope _ v hv ?_ fun a ha => hknown a (List.mem_of_mem_tail ha)
      cases args with
      | nil => trivial
      | cons a args => exact hknown a (List.mem_cons_self ..)
    | getName =>
      dsimp only
      split
      · exact ⟨.refl v, hv, hv.lookup scope _⟩
      · exact Settles.pure hv trivial
    | setName =>
      dsimp only
      split
      · rename_i name values
        refine Settles.bind (settles_bind hv scope name ?_) fun _ u _ hu _ =>
          Settles.pure hu trivial
        cases values with
        | nil => trivial
        | cons a values => exact hknown a (List.mem_cons_of_mem _ (List.mem_cons_self ..))
      · exact Settles.pure hv trivial
    | idle => exact Settles.pure hv trivial
  | _ =>
    rw [call_of_not_isFunction bound scope rfl]
    exact Settles.throw hw _

end Step

/-- **Walks lead from settled worlds to settled worlds**, however they end. -/
theorem steady (bound : Nat) : Steady bound := by
  induction bound with
  | zero =>
    refine ⟨fun node scope w hw => ?_, fun node scope w hw _ => ?_, fun nodes scope w hw _ => ?_,
      fun f scope args w hw _ _ => ?_⟩
    · rw [evaluate_zero]
      exact Settles.throw hw _
    · rw [execute_zero]
      exact Settles.throw hw _
    · rw [executeBlock_zero]
      exact Settles.throw hw _
    · rw [call_zero]
      exact Settles.throw hw _
  | succ bound ih =>
    exact ⟨ih.evaluate_succ, ih.execute_succ, ih.executeBlock_succ, ih.call_succ⟩

/-! ## Programs -/

theorem settles_executeProgram (bound : Nat) {scope : ScopeId} (result : Value) (body : List Node)
    (hw : w.Settled) (hscope : scope < w.scopes.size) :
    Settles (fun _ _ => True) (executeProgram bound scope result body) w := by
  induction body generalizing w result with
  | nil => exact Settles.pure hw trivial
  | cons node nodes ih =>
    refine Settles.bind ((steady bound).execute node scope w hw hscope) fun _ v hwv hv _ => ?_
    exact ih _ hv (Nat.lt_of_lt_of_le hscope hwv.size_le)

theorem settled_run (bound : Nat) (body : List Node) {scope : ScopeId} (hw : w.Settled)
    (hscope : scope < w.scopes.size) : (stateAfter (run bound body scope) w).Settled := by
  have hbody : Settles (fun _ _ => True) (runBody bound body scope) w.opened := by
    have hopened : w.opened.Settled := hw.congr rfl rfl rfl
    refine Settles.bind (settles_tell hopened 1 _) fun _ v hwv hv _ => ?_
    have hplace : scope < v.scopes.size := Nat.lt_of_lt_of_le hscope hwv.size_le
    refine Settles.bind (settles_executeProgram bound _ body hv hplace) fun result u _ hu _ => ?_
    refine Settles.bind (settles_tell hu 1 _) fun _ t _ ht _ => ?_
    exact Settles.pure ht trivial
  have hsettled := hbody.stateAfter.2
  unfold stateAfter at hsettled ⊢
  rw [run_eq, closingTrace]
  cases hrun : runBody bound body scope w.opened with
  | ok a v =>
    rw [hrun] at hsettled
    exact hsettled.congr rfl rfl rfl
  | error fault v =>
    rw [hrun] at hsettled
    exact hsettled.congr rfl rfl rfl

/-! ## The worlds that there can be -/

/-- The worlds that can be brought about, beginning with a new one.  Programs run in them; a host
evaluates, executes and calls one thing at a time, and makes scopes, functions, bindings and replies
out of what there is. -/
inductive World.Reachable : World → Prop
  | fresh (verbosity : Nat) : Reachable (.fresh verbosity)
  | run {w : World} (hw : Reachable w) (bound : Nat) (body : List Node) {scope : ScopeId}
      (hscope : scope < w.scopes.size) : Reachable (stateAfter (run bound body scope) w)
  /-- A run has begun. -/
  | opened {w : World} (hw : Reachable w) : Reachable w.opened
  | evaluate {w : World} (hw : Reachable w) (bound : Nat) (node : Node) (scope : ScopeId) :
      Reachable (stateAfter (evaluate bound node scope) w)
  | execute {w : World} (hw : Reachable w) (bound : Nat) (node : Node) {scope : ScopeId}
      (hscope : scope < w.scopes.size) : Reachable (stateAfter (execute bound node scope) w)
  | call {w : World} (hw : Reachable w) (bound : Nat) {f : Value} (scope : ScopeId)
      {args : List Value} (hf : w.Knows f) (hargs : ∀ a ∈ args, w.Knows a) :
      Reachable (stateAfter (call bound f scope args) w)
  | addScope {w : World} (hw : Reachable w) {s : Scope} (hs : s.All w.Knows) :
      Reachable (w.addScope s).2
  | mergeScope {w : World} (hw : Reachable w) (id other : ScopeId) :
      Reachable (w.mergeScope id other)
  | addClosure {w : World} (hw : Reachable w) (name : Text) (params : List Text)
      (body : List Node) (scope : ScopeId) : Reachable (w.addClosure name params body scope).2
  | addBuiltin {w : World} (hw : Reachable w) (name : Text) (action : Action) :
      Reachable (w.addBuiltin name action).2
  | bind {w : World} (hw : Reachable w) (id : ScopeId) (name : Text) {a : Value}
      (ha : w.Knows a) : Reachable (w.bind id name a)
  | reply {w : World} (hw : Reachable w) {identity : Nat} (hidentity : identity < w.nextIdentity)
      {a : Value} (ha : w.Knows a) : Reachable { w with replies := (identity, a) :: w.replies }

/-- **Every world that there can be is settled.** -/
theorem World.Reachable.settled (h : w.Reachable) : w.Settled := by
  induction h with
  | fresh verbosity => exact settled_fresh verbosity
  | run _ bound body hscope ih => exact settled_run bound body ih hscope
  | opened _ ih => exact ih.congr rfl rfl rfl
  | evaluate _ bound node scope ih => exact ((steady bound).evaluate node scope _ ih).stateAfter.2
  | execute _ bound node hscope ih =>
    exact ((steady bound).execute node _ _ ih hscope).stateAfter.2
  | call _ bound scope hf hargs ih =>
    exact ((steady bound).call _ scope _ _ ih hf hargs).stateAfter.2
  | addScope _ hs ih => exact ih.addScope hs
  | mergeScope _ id other ih => exact ih.modifyScope id fun _ hs => hs.merge (ih.scopes other)
  | addClosure _ name params body scope ih => exact ih.issueIdentity
  | addBuiltin _ name action ih => exact ih.issueIdentity
  | bind _ id name ha ih => exact ih.bind id name ha
  | reply _ hidentity ha ih => exact ih.reply hidentity ha

end Scriptlet
