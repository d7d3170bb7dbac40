import Scriptlet.Proofs.Simulation.Declarations
import Scriptlet.Proofs.Simulation.Looks

/-!
# Walks that are tracked by a pairing

Two walks over related code are followed step by step, and the pairing grows with them.  The worlds
are tied before every step and after it, whether the step succeeds or fails.

* `Coding.Tracks`: started in tied worlds, two computations end in the same way, in worlds that are
  tied under a pairing that has grown, with results that are related under it.
* `Coding.Tracking bound`: under this bound, walks over related nodes track each other.  By
  induction on the bound (`Coding.tracking`); the bound is the same on both sides, so even its
  exhaustion is.
* `Coding.tracks_run` is the result for whole runs, and `Coding.Tied.look_eq` says what of the tied
  worlds can be seen from outside.
-/

namespace Scriptlet

namespace Coding

variable {C : Coding} {p q r : Pairing} {w v w' v' : World} {bound : Nat} {i j : ScopeId}

/-! ## Computations -/

section Computations

variable {α α' β β' : Type} {P : Pairing → α → β → Prop} {Q : Pairing → α' → β' → Prop}

/-- The two computations end in the same way, and the pairing grows on the way. -/
def Tracks (C : Coding) (P : Pairing → α → β → Prop) (m : Run α) (n : Run β) (p : Pairing)
    (w v : World) : Prop :=
  Relates m n w v (fun a b w' v' => ∃ q, C.Advances p q v w' v' ∧ P q a b)
    fun e f w' v' => e = f ∧ ∃ q, C.Advances p q v w' v'

theorem Tracks.pure {a : α} {b : β} (h : C.Tied p w v) (hab : P p a b) :
    C.Tracks P (pure a : Run α) (pure b : Run β) p w v :=
  Relates.pure ⟨p, h.advances_self, hab⟩

theorem Tracks.throw (h : C.Tied p w v) (fault : Fault) :
    C.Tracks P (throw fault : Run α) (throw fault : Run β) p w v :=
  Relates.throw ⟨rfl, p, h.advances_self⟩

theorem Tracks.bind {m : Run α} {n : Run β} {k : α → Run α'} {l : β → Run β'}
    (h : C.Tracks P m n p w v)
    (hk : ∀ q a b w' v', C.Advances p q v w' v' → P q a b → C.Tracks Q (k a) (l b) q w' v') :
    C.Tracks Q (m >>= k) (n >>= l) p w v := by
  refine Relates.bind h ?_
  rintro a b w' v' ⟨q, hadvances, hab⟩
  refine (hk q a b w' v' hadvances hab).mono ?_ ?_
  · rintro a' b' w'' v'' ⟨r, hadvances', hab'⟩
    exact ⟨r, hadvances.trans hadvances', hab'⟩
  · rintro e f w'' v'' ⟨hef, r, hadvances'⟩
    exact ⟨hef, r, hadvances.trans hadvances'⟩

/-- A result that is read off the worlds. -/
theorem Tracks.get {f : World → α} {g : World → β} (h : C.Tied p w v) (hfg : P p (f w) (g v)) :
    C.Tracks P (do return f (← get)) (do return g (← get)) p w v :=
  ⟨p, h.advances_self, hfg⟩

theorem Tracks.modify {f g : World → World} (h : C.Advances p q v (f w) (g v)) :
    C.Tracks (fun _ _ _ => True) (modify f : Run PUnit) (modify g : Run PUnit) p w v :=
  ⟨q, h, trivial⟩

theorem Tracks.modifyGet {f : World → α × World} {g : World → β × World}
    (h : C.Advances p q v (f w).2 (g v).2) (hfg : P q (f w).1 (g v).1) :
    C.Tracks P (modifyGet f : Run α) (modifyGet g : Run β) p w v :=
  ⟨q, h, hfg⟩

theorem tracks_tell (h : C.Tied p w v) (level : Nat) {text text' : Unit → Text}
    (htext : text () = text' ()) :
    C.Tracks (fun _ _ _ => True) (tell level text) (tell level text') p w v :=
  relates_tell (h.takes_iff level) htext ⟨p, h.advances_self, trivial⟩
    (fun line => ⟨p, h.record level line, trivial⟩) fun _ => ⟨rfl, p, h.advances_self⟩

theorem tracks_printLine (h : C.Tied p w v) (text : Text) :
    C.Tracks (fun _ _ _ => True) (printLine text) (printLine text) p w v :=
  relates_printLine text (fun line => ⟨p, h.print line, trivial⟩)
    fun _ => ⟨rfl, p, h.advances_self⟩

end Computations

/-! ## Parts of walks -/

theorem tracks_lookup (h : C.Tied p w v) (hij : p.scope i j) {name : Text}
    (hname : C.mentions name = true) :
    C.Tracks C.Alike (do return ((← get).scopeAt i).lookup name)
      (do return ((← get).scopeAt j).lookup name) p w v :=
  Tracks.get h ((h.scopes hij).lookup hname)

theorem tracks_applyOperator (h : C.Tied p w v) {a a' b b' : Value} (ha : C.Alike p a a')
    (hb : C.Alike p b b') (operator : Json) :
    C.Tracks C.Alike (applyOperator operator a b) (applyOperator operator a' b') p w v := by
  unfold applyOperator
  rw [← ha.operate_eq hb operator, ← operatorLine_eq_of_akin ha.akin hb.akin]
  cases hresult : Value.operate operator a b with
  | error fault => exact Tracks.throw h fault
  | ok result =>
    refine Tracks.bind (tracks_tell h 3 rfl) fun q _ _ _ _ hadvances _ => ?_
    exact Tracks.pure hadvances.tied
      (alike_of_not_isFunction q (Value.isFunction_of_operate_eq_ok hresult))

theorem displayAll_eq {args args' : List Value} (h : List.Forall₂ (C.Alike p) args args')
    (separator : Text) : displayAll separator args = displayAll separator args' :=
  displayAll_eq_of_akin (h.imp fun _ _ hv => hv.akin) separator

/-- Outcomes that stand for each other. -/
inductive OutcomesAlike (C : Coding) (p : Pairing) : Outcome → Outcome → Prop
  | proceed : OutcomesAlike C p .proceed .proceed
  | returned {a b : Value} (hab : C.Alike p a b) : OutcomesAlike C p (.returned a) (.returned b)

theorem OutcomesAlike.toValue {o o' : Outcome} (h : C.OutcomesAlike p o o') :
    C.Alike p o.toValue o'.toValue := by
  cases h with
  | proceed => exact .undefined
  | returned hab => exact hab

theorem tracks_evaluateEach {eval eval' : Node → Run Value}
    (h : ∀ {q m n w v}, C.node m n → p.Grows q → C.Tied q w v →
      C.Tracks C.Alike (eval m) (eval' n) q w v)
    {ms ns : List Node} (hnodes : List.Forall₂ C.node ms ns) (hgrows : p.Grows q)
    (htied : C.Tied q w v) :
    C.Tracks (fun q => List.Forall₂ (C.Alike q)) (evaluateEach eval ms) (evaluateEach eval' ns)
      q w v := by
  induction hnodes generalizing q w v with
  | nil => exact Tracks.pure htied .nil
  | cons hnode _ ih =>
    refine Tracks.bind (h hnode hgrows htied) fun q₁ a b _ _ hadvances hab => ?_
    have hgrows₁ := hgrows.trans hadvances.grows
    refine Tracks.bind (ih hgrows₁ hadvances.tied) fun q₂ as bs _ _ hadvances₂ habs => ?_
    exact Tracks.pure hadvances₂.tied (.cons (hab.mono hadvances₂.grows) habs)

/-- The same functions are declared in any order. -/
theorem tracks_executeDeclarations (hreorders : C.reorders) (htied : C.Tied p w v)
    (hij : p.scope i j) {ds es : List Declaration} (hdeclared : C.Interchangeable ds es) :
    C.Tracks (fun _ _ _ => True) (executeDeclarations bound i ds) (executeDeclarations bound j es)
      p w v := by
  cases bound with
  | zero =>
    by_cases hds : ds = []
    · rw [hds, hdeclared.eq_nil_iff.mp hds]
      exact Tracks.pure htied trivial
    · rw [executeDeclarations_zero i hds,
        executeDeclarations_zero j fun hes => hds (hdeclared.eq_nil_iff.mpr hes)]
      exact Tracks.throw htied _
  | succ bound =>
    obtain ⟨q, hadvances⟩ := htied.declare hij hdeclared
    have hsilent := htied.silent hreorders
    unfold Tracks Relates
    rw [executeDeclarations_succ bound i ds hsilent,
      executeDeclarations_succ bound j es (htied.verbosity ▸ hsilent)]
    exact ⟨q, hadvances, trivial⟩

theorem tracks_executeEach
    (h : ∀ {q m n w v}, C.node m n → p.Grows q → C.Tied q w v →
      C.Tracks C.OutcomesAlike (execute bound m i) (execute bound n j) q w v)
    {ms ns : List Node} (hnodes : C.body ms ns) (hij : p.scope i j) (hgrows : p.Grows q)
    (htied : C.Tied q w v) :
    C.Tracks C.OutcomesAlike (executeEach (fun node => execute bound node i) ms)
      (executeEach (fun node => execute bound node j) ns) q w v := by
  induction hnodes generalizing q w v with
  | nil => exact Tracks.pure htied .proceed
  | cons hnode _ ih =>
    refine Tracks.bind (h hnode hgrows htied) fun q₁ o o' _ _ hadvances ho => ?_
    cases ho with
    | proceed => exact ih (hgrows.trans hadvances.grows) hadvances.tied
    | returned hab => exact Tracks.pure hadvances.tied (.returned hab)
  | functions hreorders hds hes forth back _ ih =>
    rw [executeEach_declarations, executeEach_declarations]
    refine Tracks.bind (tracks_executeDeclarations hreorders htied (hgrows.scope hij)
      ⟨hds, hes, forth, back⟩) fun q₁ _ _ _ _ hadvances _ => ?_
    exact ih (hgrows.trans hadvances.grows) hadvances.tied

/-! ## One step -/

/-- Under this bound, walks over related nodes track each other. -/
structure Tracking (C : Coding) (bound : Nat) : Prop where
  evaluate : ∀ {p w v m n i j}, C.node m n → C.Tied p w v → p.scope i j →
    C.Tracks C.Alike (evaluate bound m i) (evaluate bound n j) p w v
  execute : ∀ {p w v m n i j}, C.node m n → C.Tied p w v → p.scope i j →
    C.Tracks C.OutcomesAlike (execute bound m i) (execute bound n j) p w v
  executeBlock : ∀ {p w v ms ns i j}, C.body ms ns → C.Tied p w v → p.scope i j →
    C.Tracks C.OutcomesAlike (executeBlock bound ms i) (executeBlock bound ns j) p w v
  call : ∀ {p w v f g i j args args'}, C.Alike p f g → C.Tied p w v → p.scope i j →
    List.Forall₂ (C.Alike p) args args' →
    C.Tracks C.Alike (call bound f i args) (call bound g j args') p w v

section Step

variable {m n : Node} (ih : C.Tracking bound)

/-- Callees read alike in messages. -/
theorem calleeText_eq (h : C.node m n) : m.calleeText = n.calleeText := by
  cases C.parallel h with
  | refused hm hn hkind =>
    cases m with
    | literal | identifier | binary | call => cases hm.1
    | _ =>
      cases n with
      | literal | identifier | binary | call => cases hn.1
      | _ => exact hkind
  | escaping _ hescapes => exact (hescapes .statement "").elim
  | _ => rfl

include ih

theorem Tracking.evaluate_succ (h : C.node m n) (htied : C.Tied p w v) (hij : p.scope i j) :
    C.Tracks C.Alike (Scriptlet.evaluate (bound + 1) m i) (Scriptlet.evaluate (bound + 1) n j)
      p w v := by
  cases C.parallel h with
  | literal value =>
    rw [evaluate_literal, evaluate_literal]
    exact Tracks.pure htied (alike_literal p value)
  | identifier hname =>
    rw [evaluate_identifier, evaluate_identifier]
    exact tracks_lookup htied hij hname
  | binary operator hleft hright =>
    rw [evaluate_binary, evaluate_binary]
    refine Tracks.bind (ih.evaluate hleft htied hij) fun q a a' _ _ hadvances ha => ?_
    refine Tracks.bind (ih.evaluate hright hadvances.tied (hadvances.grows.scope hij))
      fun q' b b' _ _ hadvances' hb => ?_
    exact tracks_applyOperator hadvances'.tied (ha.mono hadvances'.grows) hb operator
  | call hcallee harguments =>
    rw [evaluate_call, evaluate_call, calleeText_eq hcallee]
    refine Tracks.bind (ih.evaluate hcallee htied hij) fun q f g _ _ hadvances hfg => ?_
    have hij' := hadvances.grows.scope hij
    refine Tracks.bind (tracks_evaluateEach
      (fun hnode hgrows htied => ih.evaluate hnode htied (hgrows.scope hij')) harguments
      (.refl q) hadvances.tied) fun q' args args' _ _ hadvances' hargs => ?_
    rw [← hfg.akin.isFunction_eq]
    split
    · exact ih.call (hfg.mono hadvances'.grows) hadvances'.tied (hadvances'.grows.scope hij') hargs
    · exact Tracks.throw hadvances'.tied _
  | refused hm hn hkind =>
    rw [evaluate_unsupported bound i hm.1, evaluate_unsupported bound j hn.1, hkind]
    exact Tracks.throw htied _
  | escaping _ hescapes => exact (hescapes .statement "").elim
  | absent | expression | conditional | returning | block | function =>
    rw [evaluate_unsupported bound i rfl, evaluate_unsupported bound j rfl]
    exact Tracks.throw htied _

theorem Tracking.execute_succ (h : C.node m n) (htied : C.Tied p w v) (hij : p.scope i j) :
    C.Tracks C.OutcomesAlike (Scriptlet.execute (bound + 1) m i)
      (Scriptlet.execute (bound + 1) n j) p w v := by
  cases C.parallel h with
  | absent =>
    rw [execute_absent, execute_absent]
    exact Tracks.pure htied .proceed
  | expression hbody =>
    rw [execute_expression, execute_expression]
    refine Tracks.bind (ih.evaluate hbody htied hij) fun q a b _ _ hadvances _ => ?_
    refine Tracks.bind (Tracks.modify (hadvances.tied.setLatest a b))
      fun q' _ _ _ _ hadvances' _ => ?_
    exact Tracks.pure hadvances'.tied .proceed
  | conditional htest hconsequent halternate =>
    rw [execute_conditional, execute_conditional]
    refine Tracks.bind (ih.evaluate htest htied hij) fun q a b _ _ hadvances hab => ?_
    rw [hab.akin.display_eq, hab.akin.isTruthy_eq]
    refine Tracks.bind (tracks_tell hadvances.tied 3 rfl) fun q' _ _ _ _ hadvances' _ => ?_
    have hij' := hadvances'.grows.scope (hadvances.grows.scope hij)
    split
    · exact ih.execute hconsequent hadvances'.tied hij'
    · exact ih.execute halternate hadvances'.tied hij'
  | @returning argument argument' habsent hargument =>
    by_cases hm : argument = .absent
    · rw [hm, habsent.mp hm, execute_returning_absent, execute_returning_absent]
      refine Tracks.bind (tracks_tell htied 3 rfl) fun q _ _ _ _ hadvances _ => ?_
      exact Tracks.pure hadvances.tied (.returned .undefined)
    · rw [execute_returning bound i hm, execute_returning bound j fun hn => hm (habsent.mpr hn)]
      refine Tracks.bind (ih.evaluate hargument htied hij) fun q a b _ _ hadvances hab => ?_
      rw [hab.akin.display_eq]
      refine Tracks.bind (tracks_tell hadvances.tied 3 rfl) fun q' _ _ _ _ hadvances' _ => ?_
      exact Tracks.pure hadvances'.tied (.returned (hab.mono hadvances'.grows))
  | block hbody =>
    rw [execute_block, execute_block]
    exact ih.executeBlock hbody htied hij
  | @function name params body body' =>
    obtain ⟨q, hadvances⟩ := htied.declare hij (interchangeable_singleton
      (d := ⟨name, params, body⟩) (e := ⟨name, params, body'⟩) h)
    have hm := execute_declaration bound ⟨name, params, body⟩ i
    have hn := execute_declaration bound ⟨name, params, body'⟩ j
    rw [Declaration.node] at hm hn
    rw [hm, hn]
    refine Tracks.bind (Tracks.modify hadvances) fun q _ _ _ _ hadvances _ => ?_
    refine Tracks.bind (tracks_tell hadvances.tied 2 rfl) fun q' _ _ _ _ hadvances' _ => ?_
    exact Tracks.pure hadvances'.tied .proceed
  | refused hm hn hkind =>
    rw [execute_unsupported bound i hm.2, execute_unsupported bound j hn.2, hkind]
    exact Tracks.throw htied _
  | escaping _ hescapes => exact (hescapes .statement "").elim
  | literal | identifier | binary | call =>
    rw [execute_unsupported bound i rfl, execute_unsupported bound j rfl]
    exact Tracks.throw htied _

theorem Tracking.executeBlock_succ {ms ns : List Node} (h : C.body ms ns) (htied : C.Tied p w v)
    (hij : p.scope i j) :
    C.Tracks C.OutcomesAlike (Scriptlet.executeBlock (bound + 1) ms i)
      (Scriptlet.executeBlock (bound + 1) ns j) p w v := by
  rw [Scriptlet.executeBlock_succ, Scriptlet.executeBlock_succ]
  exact tracks_executeEach (fun hnode hgrows htied => ih.execute hnode htied (hgrows.scope hij)) h
    hij (.refl p) htied

theorem Tracking.call_closure_succ {f g : Closure} (h : C.Alike p (.closure f) (.closure g))
    (htied : C.Tied p w v) {args args' : List Value}
    (hargs : List.Forall₂ (C.Alike p) args args') :
    C.Tracks C.Alike (Scriptlet.call (bound + 1) (.closure f) i args)
      (Scriptlet.call (bound + 1) (.closure g) j args') p w v := by
  cases h with
  | closure _ hname hparams _ hbody hscope =>
    rw [call_closure, call_closure, hname, hparams, displayAll_eq hargs]
    refine Tracks.bind (tracks_tell htied 2 rfl) fun q _ _ _ _ hadvances _ => ?_
    have hgrows := hadvances.grows
    have hscopes := (hadvances.tied.scopes (hgrows.scope hscope)).bindParams g.params
      (Alike.all_mono hargs hgrows)
    obtain ⟨q', hadvances', hinner⟩ := hadvances.tied.addScope hscopes
    refine Tracks.bind (P := fun q inner inner' => q.scope inner inner')
      (Tracks.modifyGet hadvances' hinner) fun q'' inner inner' _ _ hadvances'' hinner => ?_
    refine Tracks.bind (ih.executeBlock hbody hadvances''.tied hinner)
      fun _ o o' _ _ hended ho => ?_
    exact Tracks.pure hended.tied ho.toValue

/-- What a builtin does, after the trace was told of the call. -/
theorem Tracking.call_builtin_succ {f g : Builtin} (h : C.Alike p (.builtin f) (.builtin g))
    (htied : C.Tied p w v) (hij : p.scope i j) {args args' : List Value}
    (hargs : List.Forall₂ (C.Alike p) args args') :
    C.Tracks C.Alike (Scriptlet.call (bound + 1) (.builtin f) i args)
      (Scriptlet.call (bound + 1) (.builtin g) j args') p w v := by
  cases h with
  | builtin hidentity hname haction hreads =>
    have hlength : args.length = args'.length := hargs.length_eq
    rw [call_builtin, call_builtin, hname, ← haction, hlength, displayAll_eq hargs]
    refine Tracks.bind (tracks_tell htied 2 rfl) fun q _ _ _ _ hadvances _ => ?_
    cases hcase : f.action with
    | print =>
      refine Tracks.bind (tracks_printLine hadvances.tied _) fun q' _ _ _ _ hadvances' _ => ?_
      exact Tracks.pure hadvances'.tied .undefined
    | apply =>
      have hij' := hadvances.grows.scope hij
      cases Alike.all_mono hargs hadvances.grows with
      | nil => exact ih.call .undefined hadvances.tied hij' .nil
      | cons hf hrest => exact ih.call hf hadvances.tied hij' hrest
    | idle => exact Tracks.pure hadvances.tied .undefined
    | note | getName | setName =>
      rw [hcase] at hreads
      cases hreads

theorem Tracking.call_succ {f g : Value} {args args' : List Value} (h : C.Alike p f g)
    (htied : C.Tied p w v) (hij : p.scope i j) (hargs : List.Forall₂ (C.Alike p) args args') :
    C.Tracks C.Alike (Scriptlet.call (bound + 1) f i args) (Scriptlet.call (bound + 1) g j args')
      p w v := by
  cases hf : f.isFunction with
  | false =>
    obtain rfl := h.akin.eq_of_not_isFunction hf
    rw [call_of_not_isFunction bound i hf, call_of_not_isFunction bound j hf]
    exact Tracks.throw htied _
  | true =>
    cases h with
    | undefined | boolean | number | string => cases hf
    | closure hidentity hname hparams hmentions hbody hscope =>
      exact ih.call_closure_succ (.closure hidentity hname hparams hmentions hbody hscope) htied
        hargs
    | builtin hidentity hname haction hreads =>
      exact ih.call_builtin_succ (.builtin hidentity hname haction hreads) htied hij hargs

end Step

/-- **Walks over related nodes track each other.** -/
theorem tracking (C : Coding) (bound : Nat) : C.Tracking bound := by
  induction bound with
  | zero =>
    refine ⟨fun _ htied _ => ?_, fun _ htied _ => ?_, fun _ htied _ => ?_, fun _ htied _ _ => ?_⟩
    · rw [evaluate_zero, evaluate_zero]
      exact Tracks.throw htied _
    · rw [execute_zero, execute_zero]
      exact Tracks.throw htied _
    · rw [executeBlock_zero, executeBlock_zero]
      exact Tracks.throw htied _
    · rw [call_zero, call_zero]
      exact Tracks.throw htied _
  | succ bound ih =>
    exact ⟨ih.evaluate_succ, ih.execute_succ, ih.executeBlock_succ, ih.call_succ⟩

/-! ## Programs -/

/-- Expression statements stand for expression statements. -/
theorem expressions_of_node {m n : Node} (h : C.node m n) :
    (∃ e e', m = .expression e ∧ n = .expression e' ∧ C.node e e') ∨
      m.isExpression = false ∧ n.isExpression = false := by
  have hrefused : ∀ {node : Node}, node.IsRefused → node.isExpression = false := by
    rintro node ⟨-, heffect⟩
    cases node with
    | expression body => cases heffect
    | _ => rfl
  cases C.parallel h with
  | expression hbody => exact Or.inl ⟨_, _, rfl, rfl, hbody⟩
  | refused hm hn _ => exact Or.inr ⟨hrefused hm, hrefused hn⟩
  | escaping _ hescapes => exact (hescapes .statement "").elim
  | _ => exact Or.inr ⟨rfl, rfl⟩

theorem tracks_executeProgram (bound : Nat) {body body' : List Node} (hbody : C.body body body')
    (htied : C.Tied p w v) (hij : p.scope i j) {result result' : Value}
    (hresult : C.Alike p result result') :
    C.Tracks C.Alike (executeProgram bound i result body) (executeProgram bound j result' body')
      p w v := by
  induction hbody generalizing p w v result result' with
  | nil => exact Tracks.pure htied hresult
  | cons hnode _ ih =>
    rcases expressions_of_node hnode with ⟨e, e', rfl, rfl, he⟩ | ⟨hm, hn⟩
    · cases bound with
      | zero =>
        rw [executeProgram_zero, executeProgram_zero]
        exact Tracks.throw htied _
      | succ bound =>
        rw [executeProgram_expression, executeProgram_expression]
        refine Tracks.bind ((tracking C bound).evaluate he htied hij)
          fun q a b _ _ hadvances hab => ?_
        refine Tracks.bind (Tracks.modify (hadvances.tied.setLatest a b))
          fun q' _ _ _ _ hadvances' _ => ?_
        exact ih hadvances'.tied (hadvances'.grows.scope (hadvances.grows.scope hij))
          (hab.mono hadvances'.grows)
    · rw [executeProgram_of_not_isExpression bound i hm,
        executeProgram_of_not_isExpression bound j hn]
      refine Tracks.bind ((tracking C bound).execute hnode htied hij)
        fun q _ _ _ _ hadvances _ => ?_
      exact ih hadvances.tied (hadvances.grows.scope hij) (hresult.mono hadvances.grows)
  | functions hreorders hds hes forth back _ ih =>
    rw [executeProgram_declarations, executeProgram_declarations]
    refine Tracks.bind (tracks_executeDeclarations hreorders htied hij ⟨hds, hes, forth, back⟩)
      fun q _ _ _ _ hadvances _ => ?_
    exact ih hadvances.tied (hadvances.grows.scope hij) (hresult.mono hadvances.grows)

theorem length_eq {ms ns : List Node} (h : C.body ms ns) : ms.length = ns.length := by
  induction h with
  | nil => rfl
  | cons _ _ ih => rw [List.length_cons, List.length_cons, ih]
  | functions _ hds hes forth back _ ih =>
    have hdeclared : C.Interchangeable _ _ := ⟨hds, hes, forth, back⟩
    rw [List.length_append, List.length_append, List.length_map, List.length_map,
      hdeclared.length_eq, ih]

theorem Tracks.closingTrace {m n : Run Value} (h : C.Tracks C.Alike m n p w v) :
    C.Tracks C.Alike (closingTrace m) (closingTrace n) p w v := by
  have hclose : ∀ {q w' v'}, C.Advances p q v w' v' →
      C.Advances p q v { w' with tracing := false } { v' with tracing := false } :=
    fun hadvances => ⟨hadvances.grows, hadvances.tied.setTracing false, hadvances.keeps.size_le,
      hadvances.keeps.get?_eq⟩
  unfold Tracks Relates at h ⊢
  unfold Scriptlet.closingTrace
  cases hm : m w with
  | ok a w' =>
    cases hn : n v with
    | ok b v' =>
      rw [hm, hn] at h
      obtain ⟨q, hadvances, hab⟩ := h
      exact ⟨q, hclose hadvances, hab⟩
    | error f v' =>
      rw [hm, hn] at h
      exact h.elim
  | error e w' =>
    cases hn : n v with
    | ok b v' =>
      rw [hm, hn] at h
      exact h.elim
    | error f v' =>
      rw [hm, hn] at h
      obtain ⟨hef, q, hadvances⟩ := h
      exact ⟨hef, q, hclose hadvances⟩

/-- Worlds in which runs begin are tied if they were before. -/
theorem Tied.opened (h : C.Tied p w v) : C.Tied p w.opened v.opened :=
  ⟨h.scope_lt, h.identity_lt, h.scopes, h.output, h.trace,
    congrArg (fun verbosity => decide (0 < verbosity)) h.verbosity, h.verbosity, h.silent⟩

/-- **Runs of related programs track each other.** -/
theorem tracks_run (bound : Nat) {body body' : List Node} (hbody : C.body body body')
    (htied : C.Tied p w v) (hij : p.scope i j) :
    C.Tracks C.Alike (run bound body i) (run bound body' j) p w v := by
  have hrun : C.Tracks C.Alike (runBody bound body i) (runBody bound body' j) p w.opened
      v.opened := by
    unfold runBody
    rw [length_eq hbody]
    refine Tracks.bind (tracks_tell htied.opened 1 rfl) fun q _ _ _ _ hadvances _ => ?_
    refine Tracks.bind (tracks_executeProgram bound hbody hadvances.tied
      (hadvances.grows.scope hij) .undefined) fun q' a b _ _ hadvances' hab => ?_
    rw [hab.akin.display_eq]
    refine Tracks.bind (tracks_tell hadvances'.tied 1 rfl) fun q'' _ _ _ _ hadvances'' _ => ?_
    exact Tracks.pure hadvances''.tied (hab.mono hadvances''.grows)
  refine Relates.mono hrun.closingTrace ?_ ?_
  · rintro a b w' v' ⟨q, hadvances, hab⟩
    exact ⟨q, ⟨hadvances.grows, hadvances.tied, hadvances.keeps.size_le, hadvances.keeps.get?_eq⟩,
      hab⟩
  · rintro e f w' v' ⟨hef, q, hadvances⟩
    exact ⟨hef, q, hadvances.grows, hadvances.tied, hadvances.keeps.size_le,
      hadvances.keeps.get?_eq⟩

/-! ## What can be seen from outside -/

theorem Alike.look_eq {a b : Value} (h : C.Alike p a b) : a.look = b.look := by
  cases h with
  | undefined | boolean | number | string => rfl
  | closure _ hname hparams => rw [Value.look, Value.look, hname, hparams]
  | builtin _ hname => rw [Value.look, Value.look, hname]

/-- In paired scopes mentioned names look the same. -/
theorem Tied.look_eq (h : C.Tied p w v) (hij : p.scope i j) {name : Text}
    (hname : C.mentions name = true) :
    ((w.scopeAt i).get? name).map Value.look = ((v.scopeAt j).get? name).map Value.look := by
  have hrel := h.scopes hij name hname
  generalize (w.scopeAt i).get? name = o at hrel ⊢
  generalize (v.scopeAt j).get? name = o' at hrel ⊢
  cases hrel with
  | some hv => exact congrArg some hv.look_eq
  | none => rfl

end Coding

end Scriptlet
