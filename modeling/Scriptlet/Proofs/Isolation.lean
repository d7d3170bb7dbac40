import Scriptlet.Proofs.Bindings
import Scriptlet.Proofs.Computation
import Scriptlet.Proofs.Operators
import Scriptlet.Proofs.Walk

/-!
# Scopes are isolated from each other

What a walk over a tree does to the scopes of a world, as long as no builtin binds names on its
own account.

* Evaluating an expression or calling a function leaves every scope alone.  It only adds scopes:
  `World.Extends`.
* Executing a statement in a scope leaves every *other* scope alone, and declares functions in
  its own: `World.DeclaresIn`.

Both hold however the walk ends.  They are proved together, by induction on the bound: a call
executes its body in a scope that did not exist before, so what the body declares there is nothing
that the caller could see.
-/

namespace Scriptlet

/-! ## Worlds without builtins that bind names -/

/-- A value that is not a builtin that binds names. -/
def Value.Quiet (v : Value) : Prop := ∀ f, v = .builtin f → f.action ≠ .setName

theorem Value.quiet_undefined : Value.Quiet .undefined := by
  intro f h
  cases h

theorem Value.quiet_closure (f : Closure) : Value.Quiet (.closure f) := by
  intro g h
  cases h

theorem Literal.quiet_toValue (value : Literal) : value.toValue.Quiet := by
  intro f h
  cases value <;> cases h

/-- An outcome that returns no builtin that binds names. -/
def Outcome.Quiet (o : Outcome) : Prop := ∀ v, o = .returned v → v.Quiet

theorem Outcome.quiet_proceed : Outcome.Quiet .proceed := by
  intro v h
  cases h

theorem Outcome.quiet_returned {v : Value} (h : v.Quiet) : Outcome.Quiet (.returned v) := by
  intro u hu
  cases hu
  exact h

namespace World

/-- No builtin that binds names can be got at: none is bound, and none is what another builtin
answers with. -/
structure Quiet (w : World) : Prop where
  bound : ∀ id name v, (w.scopeAt id).get? name = some v → v.Quiet
  replies : ∀ identity v, w.replies.lookup identity = some v → v.Quiet

theorem quiet_iff_holds {w : World} : w.Quiet ↔ w.Holds Value.Quiet :=
  ⟨fun h => ⟨h.bound, h.replies⟩, fun h => ⟨h.bound, h.replies⟩⟩

theorem Quiet.lookup {w : World} (h : w.Quiet) (id : ScopeId) (name : Text) :
    ((w.scopeAt id).lookup name).Quiet :=
  (quiet_iff_holds.mp h).lookup Value.quiet_undefined id name

theorem Quiet.replyOf {w : World} (h : w.Quiet) (identity : Nat) : (w.replyOf identity).Quiet :=
  (quiet_iff_holds.mp h).replyOf Value.quiet_undefined identity

/-- Quietness is a matter of the scopes and the replies. -/
theorem Quiet.congr {w v : World} (h : w.Quiet) (hs : v.scopes = w.scopes)
    (hr : v.replies = w.replies) : v.Quiet :=
  quiet_iff_holds.mpr ((quiet_iff_holds.mp h).congr hs hr)

/-- Adding a scope that binds no builtin that binds names. -/
theorem Quiet.addScope {w : World} (h : w.Quiet) {s : Scope}
    (hs : ∀ name v, s.get? name = some v → v.Quiet) : (w.addScope s).2.Quiet :=
  quiet_iff_holds.mpr ((quiet_iff_holds.mp h).addScope hs)

theorem Quiet.bind {w : World} (h : w.Quiet) (id : ScopeId) (name : Text) {v : Value}
    (hv : v.Quiet) : (w.bind id name v).Quiet :=
  quiet_iff_holds.mpr ((quiet_iff_holds.mp h).bind id name hv)

/-! ## What a walk does to the scopes -/

/-- Every scope of the first world is in the second as it was. -/
structure Extends (w v : World) : Prop where
  size_le : w.scopes.size ≤ v.scopes.size
  scopeAt_eq : ∀ id < w.scopes.size, v.scopeAt id = w.scopeAt id

theorem Extends.refl (w : World) : w.Extends w := ⟨Nat.le_refl _, fun _ _ => rfl⟩

theorem Extends.trans (u v w : World) (h : u.Extends v) (h' : v.Extends w) : u.Extends w where
  size_le := Nat.le_trans h.size_le h'.size_le
  scopeAt_eq id hid := by
    rw [h'.scopeAt_eq id (Nat.lt_of_lt_of_le hid h.size_le), h.scopeAt_eq id hid]

theorem Extends.of_scopes_eq {w v : World} (h : v.scopes = w.scopes) : w.Extends v :=
  ⟨Nat.le_of_eq (congrArg Array.size h.symm), fun id _ => scopeAt_congr h id⟩

theorem extends_addScope (w : World) (s : Scope) : w.Extends (w.addScope s).2 where
  size_le := by
    rw [size_addScope]
    exact Nat.le_succ _
  scopeAt_eq _ hid := scopeAt_addScope_of_lt w s hid

/-- Every scope of the first world but one is in the second as it was, and in that one functions
that were declared there have been bound by their names. -/
structure DeclaresIn (scope : ScopeId) (w v : World) : Prop where
  size_le : w.scopes.size ≤ v.scopes.size
  scopeAt_eq : ∀ id < w.scopes.size, id ≠ scope → v.scopeAt id = w.scopeAt id
  declares : ∃ fs : List Closure, (∀ f ∈ fs, f.scope = scope) ∧
    v.scopeAt scope = (w.scopeAt scope).declare fs

theorem DeclaresIn.refl (scope : ScopeId) (w : World) : w.DeclaresIn scope w :=
  ⟨Nat.le_refl _, fun _ _ _ => rfl, [], by simp, rfl⟩

theorem DeclaresIn.trans (scope : ScopeId) (u v w : World) (h : u.DeclaresIn scope v)
    (h' : v.DeclaresIn scope w) : u.DeclaresIn scope w where
  size_le := Nat.le_trans h.size_le h'.size_le
  scopeAt_eq id hid hne := by
    rw [h'.scopeAt_eq id (Nat.lt_of_lt_of_le hid h.size_le) hne, h.scopeAt_eq id hid hne]
  declares := by
    obtain ⟨fs, hfs, hv⟩ := h.declares
    obtain ⟨gs, hgs, hw⟩ := h'.declares
    refine ⟨fs ++ gs, ?_, by rw [hw, hv, Scope.declare_append]⟩
    intro f hf
    exact (List.mem_append.mp hf).elim (hfs f) (hgs f)

theorem Extends.declaresIn {w v : World} (h : w.Extends v) {scope : ScopeId}
    (hs : scope < w.scopes.size) : w.DeclaresIn scope v :=
  ⟨h.size_le, fun id hid _ => h.scopeAt_eq id hid, [], by simp, h.scopeAt_eq scope hs⟩

/-- A declaration is the one step that changes a scope. -/
theorem declaresIn_bind (w : World) {scope : ScopeId} (hs : scope < w.scopes.size) (f : Closure)
    (hf : f.scope = scope) : w.DeclaresIn scope (w.bind scope f.name (.closure f)) where
  size_le := Nat.le_of_eq (size_bind w _ _ _).symm
  scopeAt_eq id _ hne := scopeAt_bind_of_ne w (Ne.symm hne) _ _
  declares := ⟨[f], by simpa using hf, scopeAt_bind_self w hs _ _⟩

/-- Functions that are declared take no name away. -/
theorem DeclaresIn.has {scope : ScopeId} {w v : World} (h : w.DeclaresIn scope v) {name : Text}
    (hn : (w.scopeAt scope).has name = true) : (v.scopeAt scope).has name = true := by
  obtain ⟨fs, -, hv⟩ := h.declares
  rw [hv, Scope.has]
  rcases Scope.get?_declare (w.scopeAt scope) fs name with h | ⟨f, -, -, h⟩
  · rw [h]
    exact hn
  · rw [h]
    rfl

/-- A quiet world in which there is a given scope. -/
def QuietWith (scope : ScopeId) (w : World) : Prop := w.Quiet ∧ scope < w.scopes.size

end World

/-! ## The walk

`Isolated bound` collects what is shown of the four functions at one bound.  Each of them is then
taken one step further on its own. -/

/-- Under this bound, expressions and calls only add scopes, and statements only declare in their
own scope. -/
structure Isolated (bound : Nat) : Prop where
  evaluate : ∀ node scope,
    Moves World.Extends World.Quiet Value.Quiet (evaluate bound node scope)
  execute : ∀ node scope,
    Moves (World.DeclaresIn scope) (World.QuietWith scope) Outcome.Quiet (execute bound node scope)
  executeBlock : ∀ nodes scope,
    Moves (World.DeclaresIn scope) (World.QuietWith scope) Outcome.Quiet
      (executeBlock bound nodes scope)
  call : ∀ f scope args, f.Quiet → (∀ a ∈ args, a.Quiet) →
    Moves World.Extends World.Quiet Value.Quiet (call bound f scope args)

/-- A step that changes neither scopes nor replies. -/
theorem moves_modify {f : World → World} (hs : ∀ w, (f w).scopes = w.scopes)
    (hr : ∀ w, (f w).replies = w.replies) :
    Moves World.Extends World.Quiet (fun _ => True) (modify f : Run PUnit) :=
  Moves.modify fun w hw => ⟨.of_scopes_eq (hs w), hw.congr (hs w) (hr w)⟩

theorem moves_tell (level : Nat) (text : Unit → Text) :
    Moves World.Extends World.Quiet (fun _ => True) (tell level text) := fun w hw =>
  ensures_tell (fun _ => ⟨trivial, .refl w, hw⟩)
    (fun _ _ _ => ⟨trivial, .of_scopes_eq rfl, hw.congr rfl rfl⟩) fun _ _ _ => ⟨.refl w, hw⟩

theorem moves_printLine (text : Text) :
    Moves World.Extends World.Quiet (fun _ => True) (printLine text) := fun w hw =>
  ensures_printLine (fun _ _ => ⟨trivial, .of_scopes_eq rfl, hw.congr rfl rfl⟩)
    fun _ _ => ⟨.refl w, hw⟩

/-- What only adds scopes declares nothing anywhere. -/
theorem Moves.declaresIn {α : Type} {V : α → Prop} {m : Run α}
    (h : Moves World.Extends World.Quiet V m) (scope : ScopeId) :
    Moves (World.DeclaresIn scope) (World.QuietWith scope) V m := by
  rintro w ⟨hw, hs⟩
  refine (h w hw).mono ?_ ?_
  · rintro a v ⟨ha, hv, hq⟩
    exact ⟨ha, hv.declaresIn hs, hq, Nat.lt_of_lt_of_le hs hv.size_le⟩
  · rintro e v ⟨hv, hq⟩
    exact ⟨hv.declaresIn hs, hq, Nat.lt_of_lt_of_le hs hv.size_le⟩

theorem moves_evaluateEach {eval : Node → Run Value}
    (h : ∀ node, Moves World.Extends World.Quiet Value.Quiet (eval node)) (nodes : List Node) :
    Moves World.Extends World.Quiet (fun vs => ∀ v ∈ vs, v.Quiet) (evaluateEach eval nodes) := by
  induction nodes with
  | nil => exact Moves.pure World.Extends.refl (by simp)
  | cons node nodes ih =>
    refine Moves.bind World.Extends.trans (h node) fun v hv => ?_
    refine Moves.bind World.Extends.trans ih fun vs hvs => ?_
    exact Moves.pure World.Extends.refl (List.forall_mem_cons.mpr ⟨hv, hvs⟩)

theorem moves_executeEach {scope : ScopeId} {exec : Node → Run Outcome}
    (h : ∀ node, Moves (World.DeclaresIn scope) (World.QuietWith scope) Outcome.Quiet (exec node))
    (nodes : List Node) :
    Moves (World.DeclaresIn scope) (World.QuietWith scope) Outcome.Quiet
      (executeEach exec nodes) := by
  induction nodes with
  | nil => exact Moves.pure (World.DeclaresIn.refl scope) Outcome.quiet_proceed
  | cons node nodes ih =>
    refine Moves.bind (World.DeclaresIn.trans scope) (h node) fun outcome ho => ?_
    cases outcome with
    | returned v => exact Moves.pure (World.DeclaresIn.refl scope) ho
    | proceed => exact ih

/-- An operator makes no builtin. -/
theorem quiet_of_operate_eq_ok {operator : Json} {a b v : Value}
    (h : Value.operate operator a b = .ok v) : v.Quiet := by
  rintro f rfl
  cases Value.isFunction_of_operate_eq_ok h

theorem moves_applyOperator (operator : Json) (a b : Value) :
    Moves World.Extends World.Quiet Value.Quiet (applyOperator operator a b) := by
  unfold applyOperator
  split
  · exact Moves.throw World.Extends.refl _
  · rename_i v hv
    refine Moves.bind World.Extends.trans (moves_tell 3 _) fun _ _ => ?_
    exact Moves.pure World.Extends.refl (quiet_of_operate_eq_ok hv)

section Step

variable {bound : Nat}

theorem Isolated.evaluate_succ (ih : Isolated bound) (node : Node) (scope : ScopeId) :
    Moves World.Extends World.Quiet Value.Quiet (Scriptlet.evaluate (bound + 1) node scope) := by
  have hrefl := World.Extends.refl
  have htrans := World.Extends.trans
  cases node with
  | literal value =>
    rw [evaluate_literal]
    exact Moves.pure hrefl value.quiet_toValue
  | identifier name =>
    rw [evaluate_identifier]
    intro w hw
    exact ⟨hw.lookup scope name, hrefl w, hw⟩
  | binary operator left right =>
    rw [evaluate_binary]
    refine Moves.bind htrans (ih.evaluate left scope) fun a _ => ?_
    refine Moves.bind htrans (ih.evaluate right scope) fun b _ => ?_
    exact moves_applyOperator operator a b
  | call callee arguments =>
    rw [evaluate_call]
    refine Moves.bind htrans (ih.evaluate callee scope) fun f hf => ?_
    refine Moves.bind htrans
      (moves_evaluateEach (fun node => ih.evaluate node scope) arguments) fun args hargs => ?_
    split
    · exact ih.call f scope args hf hargs
    · exact Moves.throw hrefl _
  | _ =>
    rw [evaluate_unsupported bound scope rfl]
    exact Moves.throw hrefl _

theorem Isolated.execute_succ (ih : Isolated bound) (node : Node) (scope : ScopeId) :
    Moves (World.DeclaresIn scope) (World.QuietWith scope) Outcome.Quiet
      (Scriptlet.execute (bound + 1) node scope) := by
  have hrefl := World.DeclaresIn.refl scope
  have htrans := World.DeclaresIn.trans scope
  cases node with
  | absent =>
    rw [execute_absent]
    exact Moves.pure hrefl Outcome.quiet_proceed
  | expression body =>
    rw [execute_expression]
    refine Moves.bind htrans ((ih.evaluate body scope).declaresIn scope) fun value _ => ?_
    refine Moves.bind htrans ((moves_modify (f := fun w => { w with latest := value })
      (fun _ => rfl) (fun _ => rfl)).declaresIn scope) fun _ _ => ?_
    exact Moves.pure hrefl Outcome.quiet_proceed
  | conditional test consequent alternate =>
    rw [execute_conditional]
    refine Moves.bind htrans ((ih.evaluate test scope).declaresIn scope) fun value _ => ?_
    refine Moves.bind htrans ((moves_tell 3 _).declaresIn scope) fun _ _ => ?_
    split
    · exact ih.execute consequent scope
    · exact ih.execute alternate scope
  | returning argument =>
    by_cases hargument : argument = .absent
    · rw [hargument, execute_returning_absent]
      refine Moves.bind htrans ((moves_tell 3 _).declaresIn scope) fun _ _ => ?_
      exact Moves.pure hrefl (Outcome.quiet_returned Value.quiet_undefined)
    · rw [execute_returning bound scope hargument]
      refine Moves.bind htrans ((ih.evaluate argument scope).declaresIn scope) fun value hv => ?_
      refine Moves.bind htrans ((moves_tell 3 _).declaresIn scope) fun _ _ => ?_
      exact Moves.pure hrefl (Outcome.quiet_returned hv)
  | block body =>
    rw [execute_block]
    exact ih.executeBlock body scope
  | function name params body =>
    -- the one place where a scope that exists is changed
    rw [execute_function]
    refine Moves.bind htrans (V := fun f => f.name = name ∧ f.scope = scope) ?_ ?_
    · rintro w ⟨hw, hs⟩
      have hext : w.Extends (w.addClosure name params body scope).2 := .of_scopes_eq rfl
      exact ⟨⟨rfl, rfl⟩, hext.declaresIn hs, hw.congr rfl rfl, hs⟩
    · rintro f ⟨rfl, hf⟩
      refine Moves.bind htrans (Moves.modify ?_) fun _ _ => ?_
      · rintro w ⟨hw, hs⟩
        exact ⟨World.declaresIn_bind w hs f hf, hw.bind scope f.name (Value.quiet_closure f),
          by rw [World.size_bind]; exact hs⟩
      · refine Moves.bind htrans ((moves_tell 2 _).declaresIn scope) fun _ _ => ?_
        exact Moves.pure hrefl Outcome.quiet_proceed
  | _ =>
    rw [execute_unsupported bound scope rfl]
    exact Moves.throw hrefl _

theorem Isolated.executeBlock_succ (ih : Isolated bound) (nodes : List Node) (scope : ScopeId) :
    Moves (World.DeclaresIn scope) (World.QuietWith scope) Outcome.Quiet
      (Scriptlet.executeBlock (bound + 1) nodes scope) := by
  rw [Scriptlet.executeBlock_succ]
  exact moves_executeEach (fun node => ih.execute node scope) nodes

/-- A call's body runs in a scope that the call adds, so what it declares there is no change to
any scope that the caller has. -/
theorem Isolated.moves_call_closure (ih : Isolated bound) (f : Closure) (scope : ScopeId)
    {args : List Value} (hargs : ∀ a ∈ args, a.Quiet) :
    Moves World.Extends World.Quiet Value.Quiet
      (Scriptlet.call (bound + 1) (.closure f) scope args) := by
  rw [call_closure]
  refine Moves.bind World.Extends.trans (moves_tell 2 _) fun _ _ => ?_
  intro w hw
  rw [ensures_bind, ensures_modifyGet, World.addScope_fst, ensures_bind]
  let s := (w.scopeAt f.scope).bindParams f.params args
  have hq : (w.addScope s).2.Quiet := hw.addScope
    ((World.quiet_iff_holds.mp hw).bindParams Value.quiet_undefined hargs f.scope f.params)
  have hsize : w.scopes.size < (w.addScope s).2.scopes.size := by
    rw [World.size_addScope]
    exact Nat.lt_succ_self _
  have hback : ∀ v : World, (w.addScope s).2.DeclaresIn w.scopes.size v → w.Extends v := by
    intro v h
    refine ⟨Nat.le_trans (Nat.le_of_lt hsize) h.size_le, fun id hid => ?_⟩
    rw [h.scopeAt_eq id (Nat.lt_trans hid hsize) (Nat.ne_of_lt hid),
      World.scopeAt_addScope_of_lt w s hid]
  refine (ih.executeBlock f.body w.scopes.size _ ⟨hq, hsize⟩).mono ?_ ?_
  · rintro outcome v ⟨ho, hv, hvq, -⟩
    refine ⟨?_, hback v hv, hvq⟩
    cases outcome with
    | proceed => exact Value.quiet_undefined
    | returned value => exact ho value rfl
  · rintro e v ⟨hv, hvq, -⟩
    exact ⟨hback v hv, hvq⟩

theorem Isolated.call_succ (ih : Isolated bound) (f : Value) (scope : ScopeId)
    (args : List Value) (hf : f.Quiet) (hargs : ∀ a ∈ args, a.Quiet) :
    Moves World.Extends World.Quiet Value.Quiet (Scriptlet.call (bound + 1) f scope args) := by
  have hrefl := World.Extends.refl
  have htrans := World.Extends.trans
  cases f with
  | closure f => exact ih.moves_call_closure f scope hargs
  | builtin f =>
    rw [call_builtin]
    refine Moves.bind htrans (moves_tell 2 _) fun _ _ => ?_
    cases haction : f.action with
    | print =>
      refine Moves.bind htrans (moves_printLine _) fun _ _ => ?_
      exact Moves.pure hrefl Value.quiet_undefined
    | note =>
      refine Moves.bind htrans (moves_modify (fun _ => rfl) (fun _ => rfl)) fun _ _ => ?_
      intro w hw
      exact ⟨hw.replyOf f.identity, hrefl w, hw⟩
    | apply =>
      refine ih.call _ scope _ ?_ fun a ha => hargs a (List.mem_of_mem_tail ha)
      cases args with
      | nil => exact Value.quiet_undefined
      | cons a args => exact hargs a (List.mem_cons_self ..)
    | getName =>
      dsimp only
      split
      · intro w hw
        exact ⟨hw.lookup scope _, hrefl w, hw⟩
      · exact Moves.pure hrefl Value.quiet_undefined
    | setName => exact absurd haction (hf f rfl)
    | idle => exact Moves.pure hrefl Value.quiet_undefined
  | _ =>
    rw [call_of_not_isFunction bound scope rfl]
    exact Moves.throw hrefl _

end Step

theorem isolated (bound : Nat) : Isolated bound := by
  induction bound with
  | zero =>
    refine ⟨fun node scope => ?_, fun node scope => ?_, fun nodes scope => ?_,
      fun f scope args _ _ => ?_⟩
    · rw [evaluate_zero]
      exact Moves.throw World.Extends.refl _
    · rw [execute_zero]
      exact Moves.throw (World.DeclaresIn.refl scope) _
    · rw [executeBlock_zero]
      exact Moves.throw (World.DeclaresIn.refl scope) _
    · rw [call_zero]
      exact Moves.throw World.Extends.refl _
  | succ bound ih =>
    exact ⟨ih.evaluate_succ, ih.execute_succ, ih.executeBlock_succ, ih.call_succ⟩

/-! ## Isolation -/

/-- A new world has no builtin but `print`. -/
theorem World.quiet_fresh (verbosity : Nat) : (World.fresh verbosity).Quiet := by
  refine World.quiet_iff_holds.mpr (World.holds_fresh ?_ verbosity)
  intro f hf
  cases hf
  exact Action.noConfusion

/-- What the trace is told of a call. -/
def Closure.event (f : Closure) (args : List Value) : Text :=
  "call " ++ f.name ++ "(" ++ displayAll ", " args ++ ")"

/-- Where a call begins: the event has been told, and the scope that the body will run in has been
added, a copy of the captured one with the parameters bound on top.  An event that the trace takes
and that cannot be written ends the call there. -/
theorem call_closure_entry (bound : Nat) (f : Closure) (scope : ScopeId) (args : List Value)
    (w : World) :
    (∃ reason, w.Takes 2 ∧ (f.event args).encode = .error reason ∧
        call (bound + 1) (.closure f) scope args w = .error (.unwritable .trace reason) w) ∨
      ∃ inner entry, w.scopes.size ≤ inner ∧ inner < entry.scopes.size ∧ w.Extends entry ∧
        entry.scopeAt inner = (w.scopeAt f.scope).bindParams f.params args ∧
        call (bound + 1) (.closure f) scope args w =
          (executeBlock bound f.body inner >>= fun outcome => pure outcome.toValue) entry := by
  rw [call_closure]
  -- Whether the event was taken or not, the scopes are those of the world before the call.
  have hentry : ∀ {told : World} {line : Unit → Text}, told.scopes = w.scopes →
      tell 2 line w = .ok () told →
      ∃ inner entry, w.scopes.size ≤ inner ∧ inner < entry.scopes.size ∧ w.Extends entry ∧
        entry.scopeAt inner = (w.scopeAt f.scope).bindParams f.params args ∧
        (tell 2 line >>= fun _ =>
            modifyGet (fun w => w.addScope ((w.scopeAt f.scope).bindParams f.params args)) >>=
              fun inner => executeBlock bound f.body inner >>= fun outcome => pure outcome.toValue)
            w =
          (executeBlock bound f.body inner >>= fun outcome => pure outcome.toValue) entry := by
    intro told line hscopes htell
    have hsize : told.scopes.size = w.scopes.size := congrArg Array.size hscopes
    let s := (told.scopeAt f.scope).bindParams f.params args
    refine ⟨told.scopes.size, (told.addScope s).2, Nat.le_of_eq hsize.symm, ?_, ?_, ?_, ?_⟩
    · rw [World.size_addScope]
      exact Nat.lt_succ_self _
    · exact World.Extends.trans w told _ (.of_scopes_eq hscopes) (World.extends_addScope told s)
    · rw [World.scopeAt_addScope_self told s, ← World.scopeAt_congr hscopes]
    · simp only [Bind.bind, EStateM.bind, htell]
      rfl
  rcases tell_cases w 2 fun _ => f.event args with
    ⟨-, htell⟩ | ⟨line, -, -, htell⟩ | ⟨reason, htakes, hreason, htell⟩
  · exact Or.inr (hentry rfl htell)
  · exact Or.inr (hentry (w.scopes_record 2 line) htell)
  · refine Or.inl ⟨reason, htakes, hreason, ?_⟩
    simp only [Closure.event] at htell
    simp only [Bind.bind, EStateM.bind, htell]

/-- **Scopes are isolated.**  Let no builtin bind names on its own account.  Whether a walk
succeeds or fails:

* evaluating an expression and calling a function leave every scope as it was;
* executing a statement leaves every scope but its own as it was, changes its own only by binding
  functions, under their names, that were declared there, and takes no name away;
* a call of a function that a program declared runs in a scope that no scope before the call is,
  unless the trace takes the event of the call and cannot write it, and then the call does nothing
  at all.

The world afterwards has no builtin that binds names either, so all of this goes on to hold. -/
theorem walks_isolate_scopes (bound : Nat) {w : World} (hw : w.Quiet) :
    (∀ node scope, w.Extends (stateAfter (evaluate bound node scope) w) ∧
      (stateAfter (evaluate bound node scope) w).Quiet) ∧
    (∀ f scope args, f.Quiet → (∀ a ∈ args, a.Quiet) →
      w.Extends (stateAfter (call bound f scope args) w) ∧
      (stateAfter (call bound f scope args) w).Quiet) ∧
    (∀ node scope, scope < w.scopes.size →
      w.DeclaresIn scope (stateAfter (execute bound node scope) w) ∧
      (∀ name, (w.scopeAt scope).has name = true →
        ((stateAfter (execute bound node scope) w).scopeAt scope).has name = true) ∧
      (stateAfter (execute bound node scope) w).Quiet) ∧
    (∀ (f : Closure) scope args,
      (∃ reason, w.Takes 2 ∧ (f.event args).encode = .error reason ∧
        call (bound + 1) (.closure f) scope args w = .error (.unwritable .trace reason) w) ∨
      ∃ inner entry, w.scopes.size ≤ inner ∧ inner < entry.scopes.size ∧ w.Extends entry ∧
        entry.scopeAt inner = (w.scopeAt f.scope).bindParams f.params args ∧
        call (bound + 1) (.closure f) scope args w =
          (executeBlock bound f.body inner >>= fun outcome => pure outcome.toValue) entry) := by
  refine ⟨fun node scope => ?_, fun f scope args hf hargs => ?_, fun node scope hs => ?_,
    fun f scope args => call_closure_entry bound f scope args w⟩
  · exact ((isolated bound).evaluate node scope).stateAfter hw
  · exact ((isolated bound).call f scope args hf hargs).stateAfter hw
  · obtain ⟨hdeclares, hquiet, -⟩ :=
      ((isolated bound).execute node scope).stateAfter ⟨hw, hs⟩
    exact ⟨hdeclares, fun _ hname => hdeclares.has hname, hquiet⟩

/-- The theorem at a new world, for a call of `print` and for a declaration. -/
theorem walks_isolate_scopes_fresh :
    (World.fresh 3).Quiet ∧
      (World.fresh 3).Extends (stateAfter
        (evaluate 9 (.call (.identifier "print") [.literal (.boolean true)]) 0)
        (World.fresh 3)) ∧
      (World.fresh 3).Extends (stateAfter
        (call 9 (.closure ⟨1, "f", ["x"], [.function "g" [] []], 0⟩) 0 [.boolean true])
        (World.fresh 3)) ∧
      (World.fresh 3).DeclaresIn 0 (stateAfter
        (execute 9 (.function "print" [] [.returning .absent]) 0) (World.fresh 3)) := by
  have hw := World.quiet_fresh 3
  refine ⟨hw, ((walks_isolate_scopes 9 hw).1 _ _).1, ?_, ?_⟩
  · refine ((walks_isolate_scopes 9 hw).2.1 _ _ _ (Value.quiet_closure _) ?_).1
    intro a ha f hf
    rw [List.mem_singleton.mp ha] at hf
    cases hf
  · exact ((walks_isolate_scopes 9 hw).2.2.1 _ 0 (by decide)).1

end Scriptlet
