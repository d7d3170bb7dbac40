import Scriptlet.Proofs.Simulation.Follows

/-!
# Walks that a likeness relates

Programs that a likeness relates do the same.  One step is taken for each kind of node and each
kind of function, and the induction on the bound puts them together.

* `Likeness.Walks` collects what is shown of the four functions at one bound, and
  `Likeness.walks` shows it of every bound.
* `Likeness.follows_run` is what comes of it for whole programs, and `Likeness.relates_run` for
  likenesses under which no fault escapes.
-/

namespace Scriptlet
namespace Likeness

variable {L : Likeness} {w₀ v₀ : World} {bound bound' : Nat} {i j : ScopeId}

/-! ## Bounds -/

variable (L) in
/-- The second walk may nest deeper than the first if a first walk that runs out of its bound is
not compared. -/
def Bounds (bound bound' : Nat) : Prop :=
  bound = bound' ∨ bound ≤ bound' ∧ L.escapes .stackExhausted

theorem bounds_refl (bound : Nat) : L.Bounds bound bound := Or.inl rfl

/-- At the end of the first bound, either the second is at its end too or nothing is compared. -/
theorem Bounds.zero (h : L.Bounds 0 bound') : bound' = 0 ∨ L.escapes .stackExhausted :=
  h.imp Eq.symm And.right

theorem Bounds.succ (h : L.Bounds (bound + 1) bound') :
    ∃ k, bound' = k + 1 ∧ L.Bounds bound k := by
  rcases h with rfl | ⟨hle, hescapes⟩
  · exact ⟨bound, rfl, Or.inl rfl⟩
  · obtain ⟨k, rfl⟩ : ∃ k, bound' = k + 1 := ⟨bound' - 1, by omega⟩
    exact ⟨k, rfl, Or.inr ⟨Nat.le_of_succ_le_succ hle, hescapes⟩⟩

/-! ## Outcomes -/

variable (L) in
/-- Outcomes that stand for each other. -/
inductive OutcomesAlike : Outcome → Outcome → Prop
  | proceed : OutcomesAlike .proceed .proceed
  | returned {a b : Value} (h : L.Alike a b) : OutcomesAlike (.returned a) (.returned b)

theorem OutcomesAlike.toValue {o p : Outcome} (h : L.OutcomesAlike o p) :
    L.Alike o.toValue p.toValue := by
  cases h with
  | proceed => exact .undefined
  | returned h => exact h

/-! ## Lists -/

theorem follows_evaluateEach {eval eval' : Node → Run Value}
    (h : ∀ m n, L.node m n → L.Follows w₀ v₀ L.Alike (eval m) (eval' n)) {nodes nodes' : List Node}
    (hnodes : List.Forall₂ L.node nodes nodes') :
    L.Follows w₀ v₀ (List.Forall₂ L.Alike) (evaluateEach eval nodes)
      (evaluateEach eval' nodes') := by
  induction hnodes with
  | nil => exact Follows.pure .nil
  | cons hnode _ ih =>
    refine Follows.bind (h _ _ hnode) fun a b hab => ?_
    refine Follows.bind ih fun as bs has => ?_
    exact Follows.pure (.cons hab has)

theorem follows_executeEach {exec exec' : Node → Run Outcome}
    (h : ∀ m n, L.node m n → L.Follows w₀ v₀ L.OutcomesAlike (exec m) (exec' n))
    {nodes nodes' : List Node} (hnodes : List.Forall₂ L.node nodes nodes') :
    L.Follows w₀ v₀ L.OutcomesAlike (executeEach exec nodes) (executeEach exec' nodes') := by
  induction hnodes with
  | nil => exact Follows.pure .proceed
  | cons hnode _ ih =>
    refine Follows.bind (h _ _ hnode) fun o p hop => ?_
    cases hop with
    | proceed => exact ih
    | returned hab => exact Follows.pure (.returned hab)

/-! ## One step -/

variable (L) in
/-- Under these bounds, walks over related nodes do the same. -/
structure Walks (w₀ v₀ : World) (bound bound' : Nat) : Prop where
  evaluate : ∀ {m n i j}, L.node m n → L.scope i j →
    L.Follows w₀ v₀ L.Alike (evaluate bound m i) (evaluate bound' n j)
  execute : ∀ {m n i j}, L.node m n → L.scope i j →
    L.Follows w₀ v₀ L.OutcomesAlike (execute bound m i) (execute bound' n j)
  executeBlock : ∀ {ms ns i j}, L.body ms ns → L.scope i j →
    L.Follows w₀ v₀ L.OutcomesAlike (executeBlock bound ms i) (executeBlock bound' ns j)
  call : ∀ {f g i j args args'}, L.Alike f g → L.scope i j → List.Forall₂ L.Alike args args' →
    L.Follows w₀ v₀ L.Alike (call bound f i args) (call bound' g j args')

section Step

variable {m n : Node}

/-- A refusal that escapes the comparison has nothing to come after it. -/
theorem follows_evaluate_of_escaping {P : Value → Value → Prop} (hbounds : L.Bounds bound bound')
    (hm : m.IsRefused) (hescapes : ∀ role kind, L.escapes (.unsupportedNode role kind)) :
    L.Follows w₀ v₀ P (evaluate bound m i) (evaluate bound' n j) := by
  cases bound with
  | zero =>
    rw [evaluate_zero]
    rcases hbounds.zero with rfl | hexhausted
    · rw [evaluate_zero]
      exact Follows.throw _
    · exact Follows.of_escapes hexhausted _
  | succ bound =>
    rw [evaluate_unsupported bound i hm.1]
    exact Follows.of_escapes (hescapes _ _) _

theorem follows_execute_of_escaping {P : Outcome → Outcome → Prop} (hbounds : L.Bounds bound bound')
    (hm : m.IsRefused) (hescapes : ∀ role kind, L.escapes (.unsupportedNode role kind)) :
    L.Follows w₀ v₀ P (execute bound m i) (execute bound' n j) := by
  cases bound with
  | zero =>
    rw [execute_zero]
    rcases hbounds.zero with rfl | hexhausted
    · rw [execute_zero]
      exact Follows.throw _
    · exact Follows.of_escapes hexhausted _
  | succ bound =>
    rw [execute_unsupported bound i hm.2]
    exact Follows.of_escapes (hescapes _ _) _

/-- Callees read alike in messages, unless evaluating the first escapes the comparison. -/
theorem calleeText_eq (h : L.node m n) : m.calleeText = n.calleeText ∨
    m.IsRefused ∧ ∀ role kind, L.escapes (.unsupportedNode role kind) := by
  cases L.parallel h with
  | refused hm hn hkind =>
    refine Or.inl ?_
    cases m with
    | literal | identifier | binary | call => cases hm.1
    | _ =>
      cases n with
      | literal | identifier | binary | call => cases hn.1
      | _ => exact hkind
  | escaping hm hescapes => exact Or.inr ⟨hm, hescapes⟩
  | _ => exact Or.inl rfl

theorem Walks.evaluate_succ (ih : L.Walks w₀ v₀ bound bound') (hbounds : L.Bounds bound bound')
    (h : L.node m n) (hij : L.scope i j) :
    L.Follows w₀ v₀ L.Alike (Scriptlet.evaluate (bound + 1) m i)
      (Scriptlet.evaluate (bound' + 1) n j) := by
  cases L.parallel h with
  | literal value =>
    rw [evaluate_literal, evaluate_literal]
    exact Follows.pure (alike_literal value)
  | identifier hname =>
    rw [evaluate_identifier, evaluate_identifier]
    exact follows_lookup hij hname
  | binary operator hleft hright =>
    rw [evaluate_binary, evaluate_binary]
    refine Follows.bind (ih.evaluate hleft hij) fun a a' ha => ?_
    refine Follows.bind (ih.evaluate hright hij) fun b b' hb => ?_
    exact follows_applyOperator ha hb operator
  | call hcallee harguments =>
    rw [evaluate_call, evaluate_call]
    rcases calleeText_eq hcallee with htext | ⟨hrefused, hescapes⟩
    · refine Follows.bind (ih.evaluate hcallee hij) fun f g hfg => ?_
      refine Follows.bind (follows_evaluateEach (fun _ _ hnode => ih.evaluate hnode hij) harguments)
        fun args args' hargs => ?_
      rw [← hfg.isFunction_eq, ← htext]
      split
      · exact ih.call hfg hij hargs
      · exact Follows.throw _
    · exact Follows.bind (P := fun _ _ => False)
        (follows_evaluate_of_escaping hbounds hrefused hescapes) fun _ _ hfalse => hfalse.elim
  | refused hm hn hkind =>
    rw [evaluate_unsupported bound i hm.1, evaluate_unsupported bound' j hn.1, hkind]
    exact Follows.throw _
  | escaping hm hescapes =>
    rw [evaluate_unsupported bound i hm.1]
    exact Follows.of_escapes (hescapes _ _) _
  | absent | expression | conditional | returning | block | function =>
    rw [evaluate_unsupported bound i rfl, evaluate_unsupported bound' j rfl]
    exact Follows.throw _

theorem Walks.execute_succ (ih : L.Walks w₀ v₀ bound bound') (h : L.node m n)
    (hij : L.scope i j) :
    L.Follows w₀ v₀ L.OutcomesAlike (Scriptlet.execute (bound + 1) m i)
      (Scriptlet.execute (bound' + 1) n j) := by
  cases L.parallel h with
  | absent =>
    rw [execute_absent, execute_absent]
    exact Follows.pure .proceed
  | expression hbody =>
    rw [execute_expression, execute_expression]
    refine Follows.bind (ih.evaluate hbody hij) fun a b _ => ?_
    exact Follows.bind (follows_setLatest a b) fun _ _ _ => Follows.pure .proceed
  | conditional htest hconsequent halternate =>
    rw [execute_conditional, execute_conditional]
    refine Follows.bind (ih.evaluate htest hij) fun a b hab => ?_
    rw [hab.display_eq, hab.isTruthy_eq]
    refine Follows.bind (follows_tell rfl (.tested b)) fun _ _ _ => ?_
    split
    · exact ih.execute hconsequent hij
    · exact ih.execute halternate hij
  | @returning argument argument' habsent hargument =>
    by_cases hm : argument = .absent
    · rw [hm, habsent.mp hm, execute_returning_absent, execute_returning_absent]
      refine Follows.bind (follows_tell rfl (.returned .undefined)) fun _ _ _ => ?_
      exact Follows.pure (.returned .undefined)
    · rw [execute_returning bound i hm,
        execute_returning bound' j fun hn => hm (habsent.mpr hn)]
      refine Follows.bind (ih.evaluate hargument hij) fun a b hab => ?_
      rw [hab.display_eq]
      refine Follows.bind (follows_tell rfl (.returned b)) fun _ _ _ => ?_
      exact Follows.pure (.returned hab)
  | block hbody =>
    rw [execute_block, execute_block]
    exact ih.executeBlock hbody hij
  | @function name params body body' hname hparams hbody =>
    rw [execute_function, execute_function]
    refine Follows.bind (follows_addClosure hij name hparams hbody) fun f g hfg => ?_
    refine Follows.bind (follows_bind hij name hfg) fun _ _ _ => ?_
    refine Follows.bind (follows_tell rfl (.defined name params)) fun _ _ _ => ?_
    exact Follows.pure .proceed
  | refused hm hn hkind =>
    rw [execute_unsupported bound i hm.2, execute_unsupported bound' j hn.2, hkind]
    exact Follows.throw _
  | escaping hm hescapes =>
    rw [execute_unsupported bound i hm.2]
    exact Follows.of_escapes (hescapes _ _) _
  | literal | identifier | binary | call =>
    rw [execute_unsupported bound i rfl, execute_unsupported bound' j rfl]
    exact Follows.throw _

theorem Walks.executeBlock_succ (ih : L.Walks w₀ v₀ bound bound') {ms ns : List Node}
    (h : L.body ms ns) (hij : L.scope i j) :
    L.Follows w₀ v₀ L.OutcomesAlike (Scriptlet.executeBlock (bound + 1) ms i)
      (Scriptlet.executeBlock (bound' + 1) ns j) := by
  obtain ⟨between, hbetween, hrefines⟩ := L.bodies h
  refine Follows.of_refines (hrefines (bound + 1) i) ?_
  rw [Scriptlet.executeBlock_succ, Scriptlet.executeBlock_succ]
  exact follows_executeEach (fun _ _ hnode => ih.execute hnode hij) hbetween

theorem Walks.call_closure_succ (ih : L.Walks w₀ v₀ bound bound') {f g : Closure}
    (h : L.Alike (.closure f) (.closure g)) {args args' : List Value}
    (hargs : List.Forall₂ L.Alike args args') :
    L.Follows w₀ v₀ L.Alike (Scriptlet.call (bound + 1) (.closure f) i args)
      (Scriptlet.call (bound' + 1) (.closure g) j args') := by
  cases h with
  | closure _ hname hparams _ hbody hscope =>
    rw [call_closure, call_closure, hname, hparams, displayAll_eq hargs]
    refine Follows.bind (follows_tell rfl (.called g.name args')) fun _ _ _ => ?_
    refine Follows.bind (follows_addScope hscope g.params hargs) fun inner inner' hinner => ?_
    refine Follows.bind (ih.executeBlock hbody hinner) fun o p hop => ?_
    exact Follows.pure hop.toValue

/-- What a builtin does, after the trace was told of the call. -/
theorem Walks.call_builtin_succ (ih : L.Walks w₀ v₀ bound bound') {f g : Builtin}
    (h : L.Alike (.builtin f) (.builtin g)) (hij : L.scope i j) {args args' : List Value}
    (hargs : List.Forall₂ L.Alike args args') :
    L.Follows w₀ v₀ L.Alike (Scriptlet.call (bound + 1) (.builtin f) i args)
      (Scriptlet.call (bound' + 1) (.builtin g) j args') := by
  cases h with
  | builtin hidentity hname haction hadmits =>
    have hlength : args.length = args'.length := hargs.length_eq
    rw [call_builtin, call_builtin, hname, ← haction, hlength]
    refine Follows.bind (follows_tell rfl (.calledBuiltin g.name args')) fun _ _ _ => ?_
    cases hcase : f.action with
    | print => exact Follows.bind (follows_print hargs) fun _ _ _ => Follows.pure .undefined
    | note =>
      rw [hcase] at hadmits
      refine Follows.bind (follows_takeNote hij g.name hargs (hadmits rfl)) fun _ _ _ => ?_
      exact Follows.get fun _ _ hworlds => hworlds.heaps.replyOf hidentity
    | apply =>
      cases hargs with
      | nil => exact ih.call .undefined hij .nil
      | cons hf hrest => exact ih.call hf hij hrest
    | getName =>
      rw [hcase] at hadmits
      cases hargs with
      | nil => exact Follows.pure .undefined
      | cons hf _ =>
        cases hf with
        | string s => exact follows_lookup hij (hadmits rfl s)
        | _ => exact Follows.pure .undefined
    | setName =>
      cases hargs with
      | nil => exact Follows.pure .undefined
      | cons hf hrest =>
        cases hf with
        | string s =>
          refine Follows.bind (follows_bind hij s ?_) fun _ _ _ => Follows.pure .undefined
          cases hrest with
          | nil => exact .undefined
          | cons hv _ => exact hv
        | _ => exact Follows.pure .undefined
    | idle => exact Follows.pure .undefined

theorem Walks.call_succ (ih : L.Walks w₀ v₀ bound bound') {f g : Value}
    {args args' : List Value} (h : L.Alike f g) (hij : L.scope i j)
    (hargs : List.Forall₂ L.Alike args args') :
    L.Follows w₀ v₀ L.Alike (Scriptlet.call (bound + 1) f i args)
      (Scriptlet.call (bound' + 1) g j args') := by
  cases hf : f.isFunction with
  | false =>
    obtain rfl := h.eq_of_not_isFunction hf
    rw [call_of_not_isFunction bound i hf, call_of_not_isFunction bound' j hf]
    exact Follows.throw _
  | true =>
    cases h with
    | undefined | boolean | number | string => cases hf
    | closure hidentity hname hparams hmentions hbody hscope =>
      exact ih.call_closure_succ (.closure hidentity hname hparams hmentions hbody hscope) hargs
    | builtin hidentity hname haction hadmits =>
      exact ih.call_builtin_succ (.builtin hidentity hname haction hadmits) hij hargs

end Step

/-- **Walks over related nodes do the same.** -/
theorem walks (hbounds : L.Bounds bound bound') : L.Walks w₀ v₀ bound bound' := by
  induction bound generalizing bound' with
  | zero =>
    rcases hbounds.zero with rfl | hexhausted
    · refine ⟨fun _ _ => ?_, fun _ _ => ?_, fun _ _ => ?_, fun _ _ _ => ?_⟩
      · rw [evaluate_zero, evaluate_zero]
        exact Follows.throw _
      · rw [execute_zero, execute_zero]
        exact Follows.throw _
      · rw [executeBlock_zero, executeBlock_zero]
        exact Follows.throw _
      · rw [call_zero, call_zero]
        exact Follows.throw _
    · refine ⟨fun _ _ => ?_, fun _ _ => ?_, fun _ _ => ?_, fun _ _ _ => ?_⟩
      · rw [evaluate_zero]
        exact Follows.of_escapes hexhausted _
      · rw [execute_zero]
        exact Follows.of_escapes hexhausted _
      · rw [executeBlock_zero]
        exact Follows.of_escapes hexhausted _
      · rw [call_zero]
        exact Follows.of_escapes hexhausted _
  | succ bound ih =>
    obtain ⟨k, rfl, hk⟩ := hbounds.succ
    have hwalks := ih hk
    exact ⟨hwalks.evaluate_succ hk, hwalks.execute_succ, hwalks.executeBlock_succ,
      hwalks.call_succ⟩

/-! ## Programs -/

/-- Expression statements stand for expression statements, unless nothing is compared. -/
theorem expressions_of_node {m n : Node} (h : L.node m n) :
    (∃ body body', m = .expression body ∧ n = .expression body' ∧ L.node body body') ∨
      (m.isExpression = false ∧ n.isExpression = false) ∨
      m.IsRefused ∧ ∀ role kind, L.escapes (.unsupportedNode role kind) := by
  have hrefused : ∀ {node : Node}, node.IsRefused → node.isExpression = false := by
    rintro node ⟨-, heffect⟩
    cases node with
    | expression body => cases heffect
    | _ => rfl
  cases L.parallel h with
  | expression hbody => exact Or.inl ⟨_, _, rfl, rfl, hbody⟩
  | refused hm hn _ => exact Or.inr (Or.inl ⟨hrefused hm, hrefused hn⟩)
  | escaping hm hescapes => exact Or.inr (Or.inr ⟨hm, hescapes⟩)
  | _ => exact Or.inr (Or.inl ⟨rfl, rfl⟩)

theorem follows_executeProgram (hbounds : L.Bounds bound bound') (hij : L.scope i j)
    {body body' : List Node} (hbody : List.Forall₂ L.node body body') {result result' : Value}
    (hresult : L.Alike result result') :
    L.Follows w₀ v₀ L.Alike (executeProgram bound i result body)
      (executeProgram bound' j result' body') := by
  have hwalks : L.Walks w₀ v₀ bound bound' := walks hbounds
  induction hbody generalizing result result' with
  | nil =>
    rw [executeProgram, executeProgram]
    exact Follows.pure hresult
  | @cons m n ms ns hnode _ ih =>
    rcases expressions_of_node hnode with ⟨e, e', rfl, rfl, he⟩ | ⟨hm, hn⟩ | ⟨hm, hescapes⟩
    · cases bound with
      | zero =>
        rw [executeProgram_zero]
        rcases hbounds.zero with rfl | hexhausted
        · rw [executeProgram_zero]
          exact Follows.throw _
        · exact Follows.of_escapes hexhausted _
      | succ bound =>
        obtain ⟨k, rfl, hk⟩ := hbounds.succ
        rw [executeProgram_expression, executeProgram_expression]
        refine Follows.bind ((walks hk).evaluate he hij) fun a b hab => ?_
        exact Follows.bind (follows_setLatest a b) fun _ _ _ => ih hab
    · rw [executeProgram_of_not_isExpression bound i hm,
        executeProgram_of_not_isExpression bound' j hn]
      exact Follows.bind (hwalks.execute hnode hij) fun _ _ _ => ih hresult
    · rw [executeProgram, executeProgram]
      exact Follows.bind (P := fun _ _ => False)
        (follows_execute_of_escaping hbounds hm hescapes) fun _ _ hfalse => hfalse.elim

theorem follows_runBody (hbounds : L.Bounds bound bound') (hij : L.scope i j)
    {body body' : List Node} (hbody : List.Forall₂ L.node body body') :
    L.Follows w₀ v₀ L.Alike (runBody bound body i) (runBody bound' body' j) := by
  unfold runBody
  rw [hbody.length_eq]
  refine Follows.bind (follows_tell rfl (.started body'.length)) fun _ _ _ => ?_
  refine Follows.bind (follows_executeProgram hbounds hij hbody .undefined) fun a b hab => ?_
  rw [hab.display_eq]
  refine Follows.bind (follows_tell rfl (.finished b)) fun _ _ _ => ?_
  exact Follows.pure hab

/-- The worlds in which two runs begin.  Any two traces agree at first, since nothing has been
told to them. -/
theorem worlds_opened {w v : World} (hheaps : L.Heaps w v) (htraces : L.Traces w v) :
    L.Worlds w v w.opened v.opened where
  heaps := hheaps.congr rfl rfl rfl rfl rfl rfl
  since :=
    have h := L.since_refl w v
    ⟨h.output, h.notes, h.replies, h.verbosity, h.trace⟩
  takes level hpos := by
    have hopened : ∀ u : World, u.opened.Takes level ↔ level ≤ u.verbosity := by
      intro u
      constructor
      · rintro ⟨-, hle⟩
        exact hle
      · intro hle
        exact ⟨decide_eq_true (Nat.lt_of_lt_of_le hpos hle), hle⟩
    rw [hopened, hopened]
    exact ⟨fun hle => ⟨Nat.le_trans hle htraces.verbosity_le, hle⟩, And.right⟩
  traces := htraces

/-- **Programs that a likeness relates do the same.**  They end with values that are alike or with
the same fault, after the same lines of output and the same notes, and the second trace was told
what the first was told of those levels that the second takes. -/
theorem follows_run (hbounds : L.Bounds bound bound') (hij : L.scope i j) {body body' : List Node}
    (hbody : List.Forall₂ L.node body body') {w v : World} (hheaps : L.Heaps w v)
    (htraces : L.Traces w v) :
    match run bound body i w with
    | .ok a w' => ∃ b v', run bound' body' j v = .ok b v' ∧ L.Alike a b ∧ L.Heaps w' v' ∧
      L.Since w v w' v'
    | .error fault w' => L.escapes fault ∨ ∃ v', run bound' body' j v = .error fault v' ∧
      L.Heaps w' v' ∧ L.Since w v w' v' := by
  have hfollows := follows_runBody hbounds hij hbody _ _ (worlds_opened hheaps htraces)
  have hclosed : ∀ {u t : World}, L.Worlds w v u t →
      L.Heaps { u with tracing := false } { t with tracing := false } ∧
        L.Since w v { u with tracing := false } { t with tracing := false } := fun h =>
    ⟨h.heaps.congr rfl rfl rfl rfl rfl rfl,
      h.since.output, h.since.notes, h.since.replies, h.since.verbosity, h.since.trace⟩
  rw [run_eq, run_eq]
  unfold closingTrace
  cases hm : runBody bound body i w.opened with
  | ok a u =>
    rw [hm] at hfollows
    obtain ⟨b, t, hn, hab, hworlds⟩ := hfollows
    rw [hn]
    exact ⟨b, _, rfl, hab, hclosed hworlds⟩
  | error fault u =>
    rw [hm] at hfollows
    rcases hfollows with hescapes | ⟨t, hn, hworlds⟩
    · exact Or.inl hescapes
    · rw [hn]
      exact Or.inr ⟨_, rfl, hclosed hworlds⟩

/-- Where no fault escapes, two runs always end in the same way. -/
theorem relates_run (hnone : ∀ fault, ¬ L.escapes fault) (bound : Nat) (hij : L.scope i j)
    {body body' : List Node} (hbody : List.Forall₂ L.node body body') {w v : World}
    (hheaps : L.Heaps w v) (hverbosity : v.verbosity = w.verbosity) :
    Relates (run bound body i) (run bound body' j) w v
      (fun a b w' v' => L.Alike a b ∧ L.Heaps w' v' ∧ L.Since w v w' v')
      fun e f w' v' => e = f ∧ L.Heaps w' v' ∧ L.Since w v w' v' := by
  have hfollows := follows_run (bounds_refl bound) hij hbody hheaps (Or.inl hverbosity)
  unfold Relates
  cases hm : run bound body i w with
  | ok a w' =>
    rw [hm] at hfollows
    obtain ⟨b, v', hn, hends⟩ := hfollows
    rw [hn]
    exact hends
  | error fault w' =>
    rw [hm] at hfollows
    rcases hfollows with hescapes | ⟨v', hn, hends⟩
    · exact (hnone fault hescapes).elim
    · rw [hn]
      exact ⟨rfl, hends⟩

end Likeness
end Scriptlet
