import Scriptlet.Proofs.Computation
import Scriptlet.Proofs.Simulation.Refinement
import Scriptlet.Proofs.Walk
import Scriptlet.Proofs.Writing

/-!
# What a bound on nesting cuts off

A walk that needs more than its bound on nesting ends in `Fault.stackExhausted`, and that is all
that the bound ever does.  Under a greater bound a walk that has not ended so does the same, to the
last detail of the world that it leaves.  One that has ended so has been cut short: whatever it had
printed, traced and noted by then, the other has too, and in the same order, before it goes on.

* `World.Precedes`: what has been recorded in one world is the beginning of what has been recorded
  in another.
* `Appends m`: the computation takes nothing back that has been recorded.
* `Truncates m n`: the first computation is the second, or the beginning of it up to exhaustion.
  What the second does after that place must append, or the records that agreed there would be
  lost.  So there are rules for both at once.
* `walksTruncate`: a smaller bound truncates the four functions that walk a tree.  First this is
  shown of equal bounds, by induction, which says that walks append; then of any two.
* `walksRefine` is what remains of it if records are passed over.
* `run_truncated` is what it means for programs.
-/

namespace Scriptlet

variable {α β : Type}

/-! ## Records -/

/-- What has been printed, traced and noted in the first world is the beginning of what has been in
the second. -/
structure World.Precedes (w v : World) : Prop where
  output : w.output.toList <+: v.output.toList
  trace : w.trace.toList <+: v.trace.toList
  notes : w.notes.toList <+: v.notes.toList

namespace World.Precedes

variable {u v w : World}

theorem of_eq (houtput : w.output = v.output) (htrace : w.trace = v.trace)
    (hnotes : w.notes = v.notes) : w.Precedes v where
  output := houtput ▸ List.prefix_rfl
  trace := htrace ▸ List.prefix_rfl
  notes := hnotes ▸ List.prefix_rfl

theorem refl (w : World) : w.Precedes w := of_eq rfl rfl rfl

theorem trans (h : u.Precedes v) (h' : v.Precedes w) : u.Precedes w where
  output := h.output.trans h'.output
  trace := h.trace.trans h'.trace
  notes := h.notes.trans h'.notes

theorem print (w : World) (line : String) : w.Precedes (w.print line) where
  output := by
    rw [World.print, Array.toList_push]
    exact List.prefix_append _ _
  trace := List.prefix_rfl
  notes := List.prefix_rfl

theorem record (w : World) (level : Nat) (line : String) : w.Precedes (w.record level line) where
  output := List.prefix_rfl
  trace := by
    rw [World.record, Array.toList_push]
    exact List.prefix_append _ _
  notes := List.prefix_rfl

theorem note (w : World) (note : Note) :
    w.Precedes { w with notes := w.notes.push note } where
  output := List.prefix_rfl
  trace := List.prefix_rfl
  notes := by
    rw [Array.toList_push]
    exact List.prefix_append _ _

end World.Precedes

/-! ## Computations that append -/

/-- However the computation ends, nothing is taken back of what had been recorded. -/
def Appends (m : Run α) : Prop := ∀ w : World, w.Precedes (stateAfter m w)

namespace Appends

theorem pure (a : α) : Appends (pure a : Run α) := World.Precedes.refl

theorem throw (fault : Fault) : Appends (throw fault : Run α) := World.Precedes.refl

theorem get (f : World → α) : Appends (do return f (← get) : Run α) := World.Precedes.refl

theorem modify {f : World → World} (h : ∀ w : World, w.Precedes (f w)) :
    Appends (modify f : Run PUnit) := h

theorem modifyGet {f : World → α × World} (h : ∀ w : World, w.Precedes (f w).2) :
    Appends (modifyGet f : Run α) := h

theorem bind {m : Run α} {k : α → Run β} (h : Appends m) (hk : ∀ a, Appends (k a)) :
    Appends (m >>= k) := by
  intro w
  have hm := h w
  unfold stateAfter at hm ⊢
  simp only [Bind.bind, EStateM.bind]
  cases hmw : m w with
  | ok a v =>
    rw [hmw] at hm
    exact hm.trans (hk a v)
  | error fault v =>
    rw [hmw] at hm
    exact hm

end Appends

theorem appends_tell (level : Nat) (text : Unit → Text) : Appends (tell level text) := fun w =>
  Ensures.stateAfter (ensures_tell (fun _ => .refl w) (fun line _ _ => .record w level line)
    fun _ _ _ => .refl w)

theorem appends_printLine (text : Text) : Appends (printLine text) := fun w =>
  Ensures.stateAfter (ensures_printLine (fun line _ => .print w line) fun _ _ => .refl w)

theorem appends_applyOperator (operator : Json) (a b : Value) :
    Appends (applyOperator operator a b) := by
  unfold applyOperator
  split
  · exact .throw _
  · exact .bind (appends_tell _ _) fun _ => .pure _

/-! ## Truncation -/

/-- The two computations do the same, unless the first is exhausted.  Then what it has recorded by
that time is the beginning of what the second records. -/
structure Truncates (m n : Run α) : Prop where
  appends : Appends n
  cut : ∀ w, n w = m w ∨ Exhausted (m w) ∧ (stateAfter m w).Precedes (stateAfter n w)

namespace Truncates

variable {m n : Run α}

theorem refl (h : Appends m) : Truncates m m := ⟨h, fun _ => Or.inl rfl⟩

/-- A computation that is exhausted at once is the beginning of every other. -/
theorem of_appends (h : Appends n) : Truncates (throw .stackExhausted) n :=
  ⟨h, fun w => Or.inr ⟨rfl, h w⟩⟩

/-- The place where the first is cut short may be in either part.  If it is in the first part, the
second part of the other computation still appends. -/
theorem bind {k l : α → Run β} (h : Truncates m n) (hk : ∀ a, Truncates (k a) (l a)) :
    Truncates (m >>= k) (n >>= l) where
  appends := h.appends.bind fun a => (hk a).appends
  cut := by
    intro w
    have hcut := h.cut w
    unfold stateAfter at hcut ⊢
    simp only [Bind.bind, EStateM.bind]
    cases hm : m w with
    | ok a v =>
      rw [hm] at hcut
      rw [hcut.resolve_right fun hexhausted => hexhausted.1]
      exact (hk a).cut v
    | error fault v =>
      rw [hm] at hcut
      rcases hcut with hn | ⟨hexhausted, hprecedes⟩
      · rw [hn]
        exact Or.inl rfl
      · refine Or.inr ⟨hexhausted, ?_⟩
        cases hn : n w with
        | ok b u =>
          rw [hn] at hprecedes
          exact hprecedes.trans ((hk b).appends u)
        | error fault' u =>
          rw [hn] at hprecedes
          exact hprecedes

theorem refines (h : Truncates m n) : Refines (· = .stackExhausted) m n :=
  fun w => (h.cut w).symm.imp And.left id

end Truncates

/-! ## Lists -/

theorem truncates_evaluateEach {eval eval' : Node → Run Value}
    (h : ∀ node, Truncates (eval node) (eval' node)) (nodes : List Node) :
    Truncates (evaluateEach eval nodes) (evaluateEach eval' nodes) := by
  induction nodes with
  | nil => exact .refl (.pure _)
  | cons node nodes ih =>
    refine Truncates.bind (h node) fun value => ?_
    exact Truncates.bind ih fun values => .refl (.pure _)

theorem truncates_executeEach {exec exec' : Node → Run Outcome}
    (h : ∀ node, Truncates (exec node) (exec' node)) (nodes : List Node) :
    Truncates (executeEach exec nodes) (executeEach exec' nodes) := by
  induction nodes with
  | nil => exact .refl (.pure _)
  | cons node nodes ih =>
    refine Truncates.bind (h node) fun outcome => ?_
    cases outcome with
    | proceed => exact ih
    | returned value => exact .refl (.pure _)

/-! ## Walks -/

/-- The walks under the first bound truncate those under the second. -/
structure WalksTruncate (bound bound' : Nat) : Prop where
  evaluate : ∀ node scope, Truncates (evaluate bound node scope) (evaluate bound' node scope)
  execute : ∀ node scope, Truncates (execute bound node scope) (execute bound' node scope)
  executeBlock : ∀ nodes scope,
    Truncates (executeBlock bound nodes scope) (executeBlock bound' nodes scope)
  call : ∀ f scope args, Truncates (call bound f scope args) (call bound' f scope args)

section Step

variable {bound bound' : Nat} (ih : WalksTruncate bound bound')

include ih

theorem WalksTruncate.evaluate_succ (node : Node) (scope : ScopeId) :
    Truncates (Scriptlet.evaluate (bound + 1) node scope)
      (Scriptlet.evaluate (bound' + 1) node scope) := by
  cases node with
  | literal value =>
    rw [evaluate_literal, evaluate_literal]
    exact .refl (.pure _)
  | identifier name =>
    rw [evaluate_identifier, evaluate_identifier]
    exact .refl (.get _)
  | binary operator left right =>
    rw [evaluate_binary, evaluate_binary]
    refine Truncates.bind (ih.evaluate left scope) fun a => ?_
    exact Truncates.bind (ih.evaluate right scope) fun b => .refl (appends_applyOperator _ _ _)
  | call callee arguments =>
    rw [evaluate_call, evaluate_call]
    refine Truncates.bind (ih.evaluate callee scope) fun f => ?_
    refine Truncates.bind (truncates_evaluateEach (fun node => ih.evaluate node scope) arguments)
      fun args => ?_
    split
    · exact ih.call f scope args
    · exact .refl (.throw _)
  | _ =>
    rw [evaluate_unsupported bound scope rfl, evaluate_unsupported bound' scope rfl]
    exact .refl (.throw _)

theorem WalksTruncate.execute_succ (node : Node) (scope : ScopeId) :
    Truncates (Scriptlet.execute (bound + 1) node scope)
      (Scriptlet.execute (bound' + 1) node scope) := by
  cases node with
  | absent =>
    rw [execute_absent, execute_absent]
    exact .refl (.pure _)
  | expression body =>
    rw [execute_expression, execute_expression]
    refine Truncates.bind (ih.evaluate body scope) fun value => .refl ?_
    exact .bind (.modify fun w => .of_eq rfl rfl rfl) fun _ => .pure _
  | conditional test consequent alternate =>
    rw [execute_conditional, execute_conditional]
    refine Truncates.bind (ih.evaluate test scope) fun value => ?_
    refine Truncates.bind (.refl (appends_tell _ _)) fun _ => ?_
    split
    · exact ih.execute consequent scope
    · exact ih.execute alternate scope
  | returning argument =>
    by_cases hargument : argument = .absent
    · rw [hargument, execute_returning_absent, execute_returning_absent]
      exact .refl (.bind (appends_tell _ _) fun _ => .pure _)
    · rw [execute_returning bound scope hargument, execute_returning bound' scope hargument]
      refine Truncates.bind (ih.evaluate argument scope) fun value => .refl ?_
      exact .bind (appends_tell _ _) fun _ => .pure _
  | block body =>
    rw [execute_block, execute_block]
    exact ih.executeBlock body scope
  | function name params body =>
    rw [execute_function, execute_function]
    refine .refl (.bind (.modifyGet fun w => .of_eq rfl rfl rfl) fun f => ?_)
    refine .bind (.modify fun w => .of_eq rfl rfl rfl) fun _ => ?_
    exact .bind (appends_tell _ _) fun _ => .pure _
  | _ =>
    rw [execute_unsupported bound scope rfl, execute_unsupported bound' scope rfl]
    exact .refl (.throw _)

theorem WalksTruncate.executeBlock_succ (nodes : List Node) (scope : ScopeId) :
    Truncates (Scriptlet.executeBlock (bound + 1) nodes scope)
      (Scriptlet.executeBlock (bound' + 1) nodes scope) := by
  rw [Scriptlet.executeBlock_succ, Scriptlet.executeBlock_succ]
  exact truncates_executeEach (fun node => ih.execute node scope) nodes

theorem WalksTruncate.call_succ (f : Value) (scope : ScopeId) (args : List Value) :
    Truncates (Scriptlet.call (bound + 1) f scope args)
      (Scriptlet.call (bound' + 1) f scope args) := by
  cases f with
  | closure f =>
    rw [call_closure, call_closure]
    refine Truncates.bind (.refl (appends_tell _ _)) fun _ => ?_
    refine Truncates.bind (.refl (.modifyGet fun w => .of_eq rfl rfl rfl)) fun inner => ?_
    exact Truncates.bind (ih.executeBlock f.body inner) fun outcome => .refl (.pure _)
  | builtin f =>
    rw [call_builtin, call_builtin]
    refine Truncates.bind (.refl (appends_tell _ _)) fun _ => ?_
    cases f.action with
    | print => exact .refl (.bind (appends_printLine _) fun _ => .pure _)
    | note => exact .refl (.bind (.modify fun w => .note w _) fun _ => .get _)
    | apply => exact ih.call (args.headD .undefined) scope args.tail
    | getName =>
      dsimp only
      split
      · exact .refl (.get _)
      · exact .refl (.pure _)
    | setName =>
      dsimp only
      split
      · exact .refl (.bind (.modify fun w => .of_eq rfl rfl rfl) fun _ => .pure _)
      · exact .refl (.pure _)
    | idle => exact .refl (.pure _)
  | _ =>
    rw [call_of_not_isFunction bound scope rfl, call_of_not_isFunction bound' scope rfl]
    exact .refl (.throw _)

end Step

/-- Walks append. -/
theorem walksTruncate_self (bound : Nat) : WalksTruncate bound bound := by
  induction bound with
  | zero =>
    refine ⟨fun node scope => ?_, fun node scope => ?_, fun nodes scope => ?_,
      fun f scope args => ?_⟩
    · rw [evaluate_zero]
      exact .refl (.throw _)
    · rw [execute_zero]
      exact .refl (.throw _)
    · rw [executeBlock_zero]
      exact .refl (.throw _)
    · rw [call_zero]
      exact .refl (.throw _)
  | succ bound ih =>
    exact ⟨ih.evaluate_succ, ih.execute_succ, ih.executeBlock_succ, ih.call_succ⟩

/-- **A smaller bound cuts walks short, and changes nothing else.** -/
theorem walksTruncate {bound bound' : Nat} (h : bound ≤ bound') : WalksTruncate bound bound' := by
  induction bound generalizing bound' with
  | zero =>
    have hself := walksTruncate_self bound'
    refine ⟨fun node scope => ?_, fun node scope => ?_, fun nodes scope => ?_,
      fun f scope args => ?_⟩
    · rw [evaluate_zero]
      exact .of_appends (hself.evaluate node scope).appends
    · rw [execute_zero]
      exact .of_appends (hself.execute node scope).appends
    · rw [executeBlock_zero]
      exact .of_appends (hself.executeBlock nodes scope).appends
    · rw [call_zero]
      exact .of_appends (hself.call f scope args).appends
  | succ bound ih =>
    obtain ⟨k, rfl⟩ : ∃ k, bound' = k + 1 := ⟨bound' - 1, by omega⟩
    have hwalks := ih (Nat.le_of_succ_le_succ h)
    exact ⟨hwalks.evaluate_succ, hwalks.execute_succ, hwalks.executeBlock_succ, hwalks.call_succ⟩

/-- The walks under the first bound are refined by those under the second. -/
structure WalksRefine (bound bound' : Nat) : Prop where
  evaluate : ∀ node scope, Refines (· = .stackExhausted) (evaluate bound node scope)
    (evaluate bound' node scope)
  execute : ∀ node scope, Refines (· = .stackExhausted) (execute bound node scope)
    (execute bound' node scope)
  executeBlock : ∀ nodes scope, Refines (· = .stackExhausted) (executeBlock bound nodes scope)
    (executeBlock bound' nodes scope)
  call : ∀ f scope args, Refines (· = .stackExhausted) (call bound f scope args)
    (call bound' f scope args)

/-- **A greater bound changes nothing but exhaustion.** -/
theorem walksRefine {bound bound' : Nat} (h : bound ≤ bound') : WalksRefine bound bound' :=
  have hwalks := walksTruncate h
  ⟨fun node scope => (hwalks.evaluate node scope).refines,
    fun node scope => (hwalks.execute node scope).refines,
    fun nodes scope => (hwalks.executeBlock nodes scope).refines,
    fun f scope args => (hwalks.call f scope args).refines⟩

/-! ## Programs -/

section Programs

variable {bound bound' : Nat}

theorem truncates_executeProgram (h : bound ≤ bound') (scope : ScopeId) (result : Value)
    (body : List Node) :
    Truncates (executeProgram bound scope result body)
      (executeProgram bound' scope result body) := by
  induction body generalizing result with
  | nil => exact .refl (.pure _)
  | cons node nodes ih =>
    refine Truncates.bind ((walksTruncate h).execute node scope) fun _ => ?_
    exact Truncates.bind (.refl (.get id)) fun w => ih _

theorem truncates_runBody (h : bound ≤ bound') (body : List Node) (scope : ScopeId) :
    Truncates (runBody bound body scope) (runBody bound' body scope) := by
  refine Truncates.bind (.refl (appends_tell _ _)) fun _ => ?_
  refine Truncates.bind (truncates_executeProgram h scope _ body) fun result => .refl ?_
  exact .bind (appends_tell _ _) fun _ => .pure _

end Programs

/-! ## Runs -/

theorem stateAfter_closingTrace (m : Run Value) (w : World) :
    stateAfter (closingTrace m) w = { stateAfter m w with tracing := false } := by
  unfold stateAfter closingTrace
  cases m w <;> rfl

theorem exhausted_closingTrace {m : Run Value} {w : World} :
    Exhausted (closingTrace m w) ↔ Exhausted (m w) := by
  unfold closingTrace
  cases m w <;> exact Iff.rfl

/-- To close the trace takes nothing back. -/
theorem Truncates.closingTrace {m n : Run Value} (h : Truncates m n) :
    Truncates (closingTrace m) (closingTrace n) where
  appends := by
    intro w
    rw [stateAfter_closingTrace]
    exact (h.appends w).trans (.of_eq rfl rfl rfl)
  cut := by
    intro w
    rcases h.cut w with heq | ⟨hexhausted, hprecedes⟩
    · unfold Scriptlet.closingTrace
      rw [heq]
      exact Or.inl rfl
    · refine Or.inr ⟨exhausted_closingTrace.mpr hexhausted, ?_⟩
      rw [stateAfter_closingTrace, stateAfter_closingTrace]
      exact ⟨hprecedes.output, hprecedes.trace, hprecedes.notes⟩

theorem truncates_run {bound bound' : Nat} (h : bound ≤ bound') (body : List Node)
    (scope : ScopeId) : Truncates (run bound body scope) (run bound' body scope) := by
  refine Truncates.closingTrace ?_
  refine Truncates.bind (.refl (.modify fun w => .of_eq rfl rfl rfl)) fun _ => ?_
  exact truncates_runBody h body scope

/-- **The bound on nesting only cuts runs short.**  Let a program be run from one and the same world
under two bounds.  If it is not exhausted under the smaller one, it does exactly the same under the
greater: it ends with the same value or the same fault, in the same world.  If it is, then what it
has printed, traced and noted is the beginning of what it prints, traces and notes under the
greater. -/
theorem run_truncated {bound bound' : Nat} (h : bound ≤ bound') (body : List Node)
    (scope : ScopeId) (w : World) :
    (¬ Exhausted (run bound body scope w) →
      run bound' body scope w = run bound body scope w) ∧
    (Exhausted (run bound body scope w) →
      (stateAfter (run bound body scope) w).Precedes (stateAfter (run bound' body scope) w)) := by
  have htruncates := truncates_run h body scope
  constructor
  · intro hends
    exact (htruncates.refines w).resolve_left hends
  · intro _
    rcases htruncates.cut w with heq | ⟨-, hprecedes⟩
    · have hstate : stateAfter (run bound' body scope) w = stateAfter (run bound body scope) w := by
        unfold stateAfter
        rw [heq]
      rw [hstate]
      exact .refl _
    · exact hprecedes

/-- The theorem for a program that prints and then calls a function.  Four levels of nesting are
enough for printing but not for the call, and with ten the program ends. -/
theorem run_truncated_call :
    (4 ≤ 10 ∧ 10 ≤ 12) ∧
    (Exhausted (run 4 [.function "f" [] [.returning (.literal (.string "b"))],
        .expression (.call (.identifier "print") [.literal (.string "a")]),
        .expression (.call (.identifier "f") [])] World.globalScope (World.fresh 3)) ∧
      (stateAfter (run 4 [.function "f" [] [.returning (.literal (.string "b"))],
          .expression (.call (.identifier "print") [.literal (.string "a")]),
          .expression (.call (.identifier "f") [])] World.globalScope) (World.fresh 3)).Precedes
        (stateAfter (run 10 [.function "f" [] [.returning (.literal (.string "b"))],
          .expression (.call (.identifier "print") [.literal (.string "a")]),
          .expression (.call (.identifier "f") [])] World.globalScope) (World.fresh 3))) ∧
    (¬ Exhausted (run 10 [.function "f" [] [.returning (.literal (.string "b"))],
        .expression (.call (.identifier "print") [.literal (.string "a")]),
        .expression (.call (.identifier "f") [])] World.globalScope (World.fresh 3)) ∧
      run 12 [.function "f" [] [.returning (.literal (.string "b"))],
          .expression (.call (.identifier "print") [.literal (.string "a")]),
          .expression (.call (.identifier "f") [])] World.globalScope (World.fresh 3) =
        run 10 [.function "f" [] [.returning (.literal (.string "b"))],
          .expression (.call (.identifier "print") [.literal (.string "a")]),
          .expression (.call (.identifier "f") [])] World.globalScope (World.fresh 3)) := by
  refine ⟨⟨by decide, by decide⟩, ⟨?_, ?_⟩, ?_, ?_⟩
  · decide +kernel
  · exact (run_truncated (by decide) _ _ _).2 (by decide +kernel)
  · decide +kernel
  · exact (run_truncated (by decide) _ _ _).1 (by decide +kernel)

end Scriptlet
