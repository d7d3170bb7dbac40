import Mathlib.Logic.Relation
import Scriptlet.Proofs.Simulation.Follows

/-!
# What a walk changes

A walk touches a world in a few elementary ways only, and whatever it does is a series of these.
So a relation between worlds that is reflexive and transitive and holds across every elementary
change holds from the start of every walk to its end, however it ends.

* `World.Changes` lists the elementary changes.  The events among them have levels above 1, since
  those of level 1 are told by runs alone.
* `World.Leads` is any series of them.
* `Moderate bound`: under this bound, walks change worlds in no other way.  By induction on the
  bound (`moderate`), and from it for programs (`leads_executeProgram`).
-/

namespace Scriptlet

namespace World

/-- The elementary ways in which a walk changes a world. -/
inductive Changes : World → World → Prop
  | record (w : World) {level : Nat} {line : String} (hlevel : 1 < level)
      (htold : Tells level line) (htakes : w.Takes level) : Changes w (w.record level line)
  | latest (w : World) (a : Value) : Changes w { w with latest := a }
  | print (w : World) (line : String) : Changes w (w.print line)
  | note (w : World) (n : Note) : Changes w { w with notes := w.notes.push n }
  | bind (w : World) (id : ScopeId) (name : Text) (a : Value) : Changes w (w.bind id name a)
  | addScope (w : World) (s : Scope) : Changes w (w.addScope s).2
  | issueIdentity (w : World) : Changes w w.issueIdentity.2

/-- A world that elementary changes make of another. -/
def Leads : World → World → Prop := Relation.ReflTransGen Changes

theorem Leads.refl (w : World) : w.Leads w := Relation.ReflTransGen.refl

theorem Leads.trans (u v w : World) (h : u.Leads v) (h' : v.Leads w) : u.Leads w :=
  Relation.ReflTransGen.trans h h'

theorem Changes.leads {w v : World} (h : w.Changes v) : w.Leads v :=
  Relation.ReflTransGen.single h

/-- What is kept across elementary changes is kept across any series of them. -/
theorem Leads.lift {R : World → World → Prop} (hrefl : ∀ w, R w w)
    (htrans : ∀ u v w, R u v → R v w → R u w) (hchanges : ∀ w v, w.Changes v → R w v)
    {w v : World} (h : w.Leads v) : R w v := by
  have hseries : Relation.ReflTransGen Changes w v := h
  induction hseries with
  | refl => exact hrefl w
  | tail hbefore hchange ih => exact htrans _ _ _ (ih hbefore) (hchanges _ _ hchange)

end World

/-! ## Computations -/

/-- Computations that change worlds in elementary ways only. -/
def Elementary {α : Type} (m : Run α) : Prop :=
  Moves World.Leads (fun _ => True) (fun _ => True) m

namespace Elementary

variable {α β : Type}

theorem pure (a : α) : Elementary (pure a) := Moves.pure World.Leads.refl trivial

theorem throw (fault : Fault) : Elementary (throw fault : Run α) :=
  Moves.throw World.Leads.refl fault

theorem bind {m : Run α} {k : α → Run β} (hm : Elementary m) (hk : ∀ a, Elementary (k a)) :
    Elementary (m >>= k) :=
  Moves.bind World.Leads.trans hm fun a _ => hk a

/-- What is read off the world changes nothing. -/
theorem get (f : World → α) : Elementary (do return f (← get)) :=
  fun w _ => ⟨trivial, .refl w, trivial⟩

theorem modify {f : World → World} (h : ∀ w : World, w.Changes (f w)) :
    Elementary (modify f : Run PUnit) :=
  fun w _ => ⟨trivial, (h w).leads, trivial⟩

theorem modifyGet {f : World → α × World} (h : ∀ w : World, w.Changes (f w).2) :
    Elementary (modifyGet f : Run α) :=
  fun w _ => ⟨trivial, (h w).leads, trivial⟩

theorem tell {level : Nat} {text : Unit → Text} (hlevel : 1 < level)
    (htold : Tells level (text ())) : Elementary (Scriptlet.tell level text) := fun w _ =>
  ensures_tell (fun _ => ⟨trivial, .refl w, trivial⟩)
    (fun _ htakes hline =>
      ⟨trivial, (World.Changes.record w hlevel (hline ▸ htold) htakes).leads, trivial⟩)
    fun _ _ _ => ⟨.refl w, trivial⟩

theorem printLine (text : Text) : Elementary (Scriptlet.printLine text) := fun w _ =>
  ensures_printLine (fun line _ => ⟨trivial, (World.Changes.print w line).leads, trivial⟩)
    fun _ _ => ⟨.refl w, trivial⟩

theorem leads {m : Run α} (h : Elementary m) (w : World) : w.Leads (stateAfter m w) :=
  (Moves.stateAfter h trivial).1

end Elementary

theorem elementary_evaluateEach {eval : Node → Run Value} (h : ∀ node, Elementary (eval node))
    (nodes : List Node) : Elementary (evaluateEach eval nodes) := by
  induction nodes with
  | nil => exact .pure _
  | cons node nodes ih => exact .bind (h node) fun value => .bind ih fun values => .pure _

theorem elementary_executeEach {exec : Node → Run Outcome} (h : ∀ node, Elementary (exec node))
    (nodes : List Node) : Elementary (executeEach exec nodes) := by
  induction nodes with
  | nil => exact .pure _
  | cons node nodes ih =>
    refine .bind (h node) fun outcome => ?_
    cases outcome with
    | returned value => exact .pure _
    | proceed => exact ih

theorem elementary_applyOperator (operator : Json) (a b : Value) :
    Elementary (applyOperator operator a b) := by
  unfold applyOperator
  split
  · exact .throw _
  · rename_i result _
    exact .bind (.tell (by decide) (.operated operator a b result)) fun _ => .pure _

/-! ## The four walks -/

/-- Under this bound, walks change worlds in elementary ways only. -/
structure Moderate (bound : Nat) : Prop where
  evaluate : ∀ node scope, Elementary (evaluate bound node scope)
  execute : ∀ node scope, Elementary (execute bound node scope)
  executeBlock : ∀ nodes scope, Elementary (executeBlock bound nodes scope)
  call : ∀ f scope args, Elementary (call bound f scope args)

section Step

variable {bound : Nat} (ih : Moderate bound)

include ih

theorem Moderate.evaluate_succ (node : Node) (scope : ScopeId) :
    Elementary (Scriptlet.evaluate (bound + 1) node scope) := by
  cases node with
  | literal value =>
    rw [evaluate_literal]
    exact .pure _
  | identifier name =>
    rw [evaluate_identifier]
    exact .get _
  | binary operator left right =>
    rw [evaluate_binary]
    refine .bind (ih.evaluate left scope) fun a => .bind (ih.evaluate right scope) fun b => ?_
    exact elementary_applyOperator operator a b
  | call callee arguments =>
    rw [evaluate_call]
    refine .bind (ih.evaluate callee scope) fun f => ?_
    refine .bind (elementary_evaluateEach (fun node => ih.evaluate node scope) arguments)
      fun args => ?_
    split
    · exact ih.call f scope args
    · exact .throw _
  | _ =>
    rw [evaluate_unsupported bound scope rfl]
    exact .throw _

theorem Moderate.execute_succ (node : Node) (scope : ScopeId) :
    Elementary (Scriptlet.execute (bound + 1) node scope) := by
  cases node with
  | absent =>
    rw [execute_absent]
    exact .pure _
  | expression body =>
    rw [execute_expression]
    refine .bind (ih.evaluate body scope) fun value => ?_
    exact .bind (.modify fun w => .latest w value) fun _ => .pure _
  | conditional test consequent alternate =>
    rw [execute_conditional]
    refine .bind (ih.evaluate test scope) fun value => ?_
    refine .bind (.tell (by decide) (.tested value)) fun _ => ?_
    split
    · exact ih.execute consequent scope
    · exact ih.execute alternate scope
  | returning argument =>
    by_cases hargument : argument = .absent
    · rw [hargument, execute_returning_absent]
      exact .bind (.tell (by decide) (.returned .undefined)) fun _ => .pure _
    · rw [execute_returning bound scope hargument]
      refine .bind (ih.evaluate argument scope) fun value => ?_
      exact .bind (.tell (by decide) (.returned value)) fun _ => .pure _
  | block body =>
    rw [execute_block]
    exact ih.executeBlock body scope
  | function name params body =>
    rw [execute_function]
    refine .bind (.modifyGet fun w => .issueIdentity w) fun f => ?_
    refine .bind (.modify fun w => .bind w scope name (.closure f)) fun _ => ?_
    exact .bind (.tell (by decide) (.defined name params)) fun _ => .pure _
  | _ =>
    rw [execute_unsupported bound scope rfl]
    exact .throw _

theorem Moderate.executeBlock_succ (nodes : List Node) (scope : ScopeId) :
    Elementary (Scriptlet.executeBlock (bound + 1) nodes scope) := by
  rw [Scriptlet.executeBlock_succ]
  exact elementary_executeEach (fun node => ih.execute node scope) nodes

/-- What a builtin does, after the trace was told of the call. -/
theorem Moderate.call_builtin_succ (f : Builtin) (scope : ScopeId) (args : List Value) :
    Elementary (Scriptlet.call (bound + 1) (.builtin f) scope args) := by
  rw [call_builtin]
  refine .bind (.tell (by decide) (.calledBuiltin f.name args)) fun _ => ?_
  cases f.action with
  | print => exact .bind (.printLine _) fun _ => .pure _
  | note => exact .bind (.modify fun w => .note w _) fun _ => .get _
  | apply => exact ih.call _ scope _
  | getName =>
    dsimp only
    split
    · exact .get _
    · exact .pure _
  | setName =>
    dsimp only
    split
    · exact .bind (.modify fun w => .bind w scope _ _) fun _ => .pure _
    · exact .pure _
  | idle => exact .pure _

theorem Moderate.call_succ (f : Value) (scope : ScopeId) (args : List Value) :
    Elementary (Scriptlet.call (bound + 1) f scope args) := by
  cases f with
  | closure f =>
    rw [call_closure]
    refine .bind (.tell (by decide) (.called f.name args)) fun _ => ?_
    refine .bind (.modifyGet fun w => .addScope w _) fun inner => ?_
    exact .bind (ih.executeBlock f.body inner) fun _ => .pure _
  | builtin f => exact ih.call_builtin_succ f scope args
  | _ =>
    rw [call_of_not_isFunction bound scope rfl]
    exact .throw _

end Step

/-- **Walks change worlds in elementary ways only.** -/
theorem moderate (bound : Nat) : Moderate bound := by
  induction bound with
  | zero =>
    refine ⟨fun node scope => ?_, fun node scope => ?_, fun nodes scope => ?_,
      fun f scope args => ?_⟩
    · rw [evaluate_zero]
      exact .throw _
    · rw [execute_zero]
      exact .throw _
    · rw [executeBlock_zero]
      exact .throw _
    · rw [call_zero]
      exact .throw _
  | succ bound ih =>
    exact ⟨ih.evaluate_succ, ih.execute_succ, ih.executeBlock_succ, ih.call_succ⟩

/-- So do the statements of a program. -/
theorem elementary_executeProgram (bound : Nat) (scope : ScopeId) (result : Value)
    (body : List Node) : Elementary (executeProgram bound scope result body) := by
  induction body generalizing result with
  | nil => exact .pure _
  | cons node nodes ih =>
    rw [executeProgram]
    refine .bind ((moderate bound).execute node scope) fun _ => ?_
    exact .bind (.get id) fun _ => ih _

end Scriptlet
