import Scriptlet.Proofs.Computation
import Scriptlet.Proofs.Lexical.Faithful
import Scriptlet.Proofs.Operators
import Scriptlet.Proofs.Walk
import Scriptlet.Proofs.Writing

/-!
# Copying scopes is lexical scoping

Programs that run one after another cannot tell the two kinds of walk apart.

* `Agrees n` says that two computations end alike, leave the first `n` scopes alone, and keep up
  what `Faithful` and `Matches` say.
* `Agreement bound` says it of the four walks under a bound: with all scopes that there are for an
  expression, with those before its own for a statement.  `agreement` shows it by induction on the
  bound.

Both sides hand out identities and scopes in step, so what they give can be compared as it is,
functions included.
-/

namespace Scriptlet

variable {α β : Type} {n : Nat} {w w' w'' : World} {l l' l'' : Lexical}

/-! ## Two computations in step -/

/-- What has become of two worlds when the first scopes were to be left alone. -/
structure Ends (n : Nat) (w w' : World) (l l' : Lexical) : Prop where
  worlds : Matches w' l'
  keeps : Keeps n w w' l l'
  faithful : ∀ id ≤ n, Faithful w l id → Faithful w' l' id

theorem Ends.refl (n : Nat) (h : Matches w l) : Ends n w w l l :=
  ⟨h, Keeps.refl n w l, fun _ _ h => h⟩

theorem Ends.trans (h : Ends n w w' l l') (h' : Ends n w' w'' l' l'') : Ends n w w'' l l'' where
  worlds := h'.worlds
  keeps := h.keeps.trans h'.keeps
  faithful id hid hf := h'.faithful id hid (h.faithful id hid hf)

theorem Ends.of_le {m : Nat} (h : Ends n w w' l l') (hmn : m ≤ n) : Ends m w w' l l' where
  worlds := h.worlds
  keeps := h.keeps.of_le hmn
  faithful id hid := h.faithful id (Nat.le_trans hid hmn)

/-- Where every scope is left alone, every faithful scope stays faithful. -/
theorem Ends.of_keeps (h : Matches w' l') (hk : Keeps w.scopes.size w w' l l') :
    Ends w.scopes.size w w' l l' :=
  ⟨h, hk, fun _ _ hf => hf.of_keeps hk hf.lt⟩

/-- The two computations end alike, with a result in `V`, and have left the first scopes alone. -/
def Agrees (n : Nat) (w : World) (l : Lexical) (V : α → World → Lexical → Prop) (m : Run α)
    (m' : Lexical.Run α) : Prop :=
  Relates m m' w l (fun a b w' l' => a = b ∧ V a w' l' ∧ Ends n w w' l l')
    fun e f w' l' => e = f ∧ Ends n w w' l l'

section Agrees

variable {V : α → World → Lexical → Prop} {m : Run α} {m' : Lexical.Run α}

theorem Agrees.pure {a : α} (hm : Matches w l) (ha : V a w l) : Agrees n w l V (pure a) (pure a) :=
  Relates.pure ⟨rfl, ha, Ends.refl n hm⟩

theorem Agrees.throw (hm : Matches w l) (fault : Fault) :
    Agrees n w l V (throw fault) (throw fault) :=
  Relates.throw ⟨rfl, Ends.refl n hm⟩

theorem Agrees.of_le {k : Nat} (h : Agrees n w l V m m') (hkn : k ≤ n) : Agrees k w l V m m' :=
  h.mono (fun _ _ _ _ h => ⟨h.1, h.2.1, h.2.2.of_le hkn⟩) fun _ _ _ _ h => ⟨h.1, h.2.of_le hkn⟩

theorem Agrees.imp {U : α → World → Lexical → Prop} (h : Agrees n w l V m m')
    (hVU : ∀ a w' l', V a w' l' → U a w' l') : Agrees n w l U m m' :=
  h.mono (fun a _ _ _ h => ⟨h.1, hVU a _ _ h.2.1, h.2.2⟩) fun _ _ _ _ h => h

theorem Agrees.bind {U : β → World → Lexical → Prop} {k : α → Run β} {k' : α → Lexical.Run β}
    (h : Agrees n w l V m m')
    (hk : ∀ a w' l', V a w' l' → Ends n w w' l l' → Agrees n w' l' U (k a) (k' a)) :
    Agrees n w l U (m >>= k) (m' >>= k') := by
  refine Relates.bind h ?_
  rintro a _ w' l' ⟨rfl, ha, hends⟩
  refine (hk a w' l' ha hends).mono ?_ ?_
  · exact fun _ _ _ _ h => ⟨h.1, h.2.1, hends.trans h.2.2⟩
  · exact fun _ _ _ _ h => ⟨h.1, hends.trans h.2⟩

end Agrees

/-! ## Computations that do not look at scopes -/

/-- The computation does the same whatever the scopes hold, and leaves them as they are. -/
def Blind (m : Run α) : Prop :=
  ∀ w scopes, m { w with scopes := scopes } =
    match m w with
    | .ok a w' => .ok a { w' with scopes := scopes }
    | .error e w' => .error e { w' with scopes := scopes }

theorem Blind.pure (a : α) : Blind (pure a) := fun _ _ => rfl

theorem Blind.throw (fault : Fault) : Blind (throw fault : Run α) := fun _ _ => rfl

theorem Blind.modify {f : World → World}
    (hf : ∀ w scopes, f { w with scopes := scopes } = { f w with scopes := scopes }) :
    Blind (modify f) := by
  intro w scopes
  show EStateM.Result.ok PUnit.unit (f _) = .ok PUnit.unit { f w with scopes := scopes }
  rw [hf]

theorem Blind.bind {m : Run α} {k : α → Run β} (hm : Blind m) (hk : ∀ a, Blind (k a)) :
    Blind (m >>= k) := by
  intro w scopes
  simp only [Bind.bind, EStateM.bind]
  rw [hm w scopes]
  cases m w with
  | ok a w' => exact hk a w' scopes
  | error e w' => rfl

theorem blind_tell (level : Nat) (text : Unit → Text) : Blind (tell level text) := by
  intro w scopes
  rcases tell_cases w level text with ⟨h, htell⟩ | ⟨line, h, hline, htell⟩ |
    ⟨reason, h, hreason, htell⟩
  · rw [htell]
    exact tell_of_not_takes (w := { w with scopes := scopes }) h text
  · rw [htell]
    exact tell_of_plain (w := { w with scopes := scopes }) h hline
  · rw [htell]
    exact tell_of_broken (w := { w with scopes := scopes }) h hreason

theorem blind_printLine (text : Text) : Blind (printLine text) := by
  intro w scopes
  cases text <;> rfl

theorem blind_applyOperator (operator : Json) (a b : Value) :
    Blind (applyOperator operator a b) := by
  unfold applyOperator
  split
  · exact Blind.throw _
  · exact Blind.bind (blind_tell 3 _) fun _ => Blind.pure _

/-- Where no scope is looked at, no scope is changed. -/
theorem Ends.of_scopes_eq (n : Nat) (h : Matches w' l') (hw : w'.scopes = w.scopes)
    (hl : l'.world.scopes = l.world.scopes) (hp : l'.parents = l.parents) :
    Ends n w w' l l' := by
  have hk : ∀ n, Keeps n w w' l l' := by
    refine fun n => ⟨Nat.le_of_eq (congrArg Array.size hw.symm), fun id _ => ?_, fun id _ => ?_,
      fun id _ => ?_⟩
    · exact World.scopeAt_congr hw id
    · exact World.scopeAt_congr hl id
    · rw [Lexical.parent?, Lexical.parent?, hp]
  exact ⟨h, hk n, fun id _ hf => hf.of_keeps (hk (id + 1)) (Nat.lt_succ_self id)⟩

/-- **What does not look at scopes does the same in both worlds.** -/
theorem Blind.agrees {m : Run α} (hb : Blind m) (n : Nat) (hm : Matches w l) {V : α → Prop}
    (hV : Ensures m w (fun a _ => V a) fun _ _ => True) :
    Agrees n w l (fun a _ _ => V a) m (Lexical.onWorld m) := by
  -- nothing is known of the scopes afterwards but that they are those from before
  have hkept := hb w w.scopes
  have hlifted := hb w l.world.scopes
  rw [← hm.world] at hlifted
  have hends : ∀ w' : World, w' = { w' with scopes := w.scopes } →
      Ends n w w' l { l with world := { w' with scopes := l.world.scopes } } := by
    intro w' hw'
    have hscopes : w'.scopes = w.scopes := by rw [hw']
    refine .of_scopes_eq n ⟨rfl, ?_, ?_⟩ hscopes rfl rfl
    · rw [hscopes]
      exact hm.size
    · rw [hscopes]
      exact hm.parents
  unfold Agrees Relates
  unfold Ensures at hV
  rw [Lexical.onWorld, hlifted]
  cases hmw : m w with
  | ok a w' =>
    rw [hmw] at hkept hV
    exact ⟨rfl, hV, hends w' (EStateM.Result.ok.inj hkept).2⟩
  | error e w' =>
    rw [hmw] at hkept
    exact ⟨rfl, hends w' (EStateM.Result.error.inj hkept).2⟩

theorem blind_modify_agrees {f : World → World} (n : Nat) (hm : Matches w l)
    (hf : ∀ w scopes, f { w with scopes := scopes } = { f w with scopes := scopes }) :
    Agrees n w l (fun _ _ _ => True) (modify f) (Lexical.onWorld (modify f)) :=
  (Blind.modify hf).agrees n hm trivial

theorem tell_agrees (n : Nat) (hm : Matches w l) (level : Nat) (text : Unit → Text) :
    Agrees n w l (fun _ _ _ => True) (tell level text) (Lexical.onWorld (tell level text)) :=
  (blind_tell level text).agrees n hm
    (ensures_tell (fun _ => trivial) (fun _ _ _ => trivial) fun _ _ _ => trivial)

theorem printLine_agrees (n : Nat) (hm : Matches w l) (text : Text) :
    Agrees n w l (fun _ _ _ => True) (printLine text) (Lexical.onWorld (printLine text)) :=
  (blind_printLine text).agrees n hm
    (ensures_printLine (fun _ _ => trivial) fun _ _ => trivial)

theorem applyOperator_agrees (n : Nat) (hm : Matches w l) (operator : Json) (a b : Value) :
    Agrees n w l (fun v w l => v.Sound w l) (applyOperator operator a b)
      (Lexical.onWorld (applyOperator operator a b)) := by
  refine ((blind_applyOperator operator a b).agrees n hm (V := fun v => v.isFunction = false)
    ?_).imp fun v _ _ hv => Value.sound_of_plain hv
  unfold applyOperator
  split
  · exact trivial
  · rename_i v hv
    have hplain := Value.isFunction_of_operate_eq_ok hv
    rw [ensures_bind]
    exact ensures_tell (fun _ => hplain) (fun _ _ _ => hplain) fun _ _ _ => trivial

/-! ## Nodes and values that a lexical walk refuses -/

namespace Lexical

theorem evaluate_unsupported (bound : Nat) (scope : ScopeId) {node : Node}
    (h : node.hasValue = false) :
    evaluate (bound + 1) node scope = throw (.unsupportedNode .expression node.kind) := by
  cases node with
  | literal | identifier | binary | call => cases h
  | _ => simp only [evaluate]

theorem execute_unsupported (bound : Nat) (scope : ScopeId) {node : Node}
    (h : node.hasEffect = false) :
    execute (bound + 1) node scope = throw (.unsupportedNode .statement node.kind) := by
  cases node with
  | absent | expression | conditional | returning | block | function => cases h
  | _ => simp only [execute]

theorem call_of_not_isFunction (bound : Nat) {f : Value} (h : f.isFunction = false)
    (args : List Value) : call (bound + 1) f args = throw (.notCallable f.display) := by
  cases f with
  | closure | builtin => cases h
  | _ => simp only [call]

theorem execute_returning_absent (bound : Nat) (scope : ScopeId) :
    execute (bound + 1) (.returning .absent) scope =
      (onWorld (tell 3 fun _ => "return " ++ Value.undefined.display) >>= fun _ =>
        pure (.returned .undefined)) := by
  rw [execute]
  rfl

theorem execute_returning (bound : Nat) (scope : ScopeId) {argument : Node}
    (h : argument ≠ .absent) :
    execute (bound + 1) (.returning argument) scope =
      (evaluate bound argument scope >>= fun value =>
        onWorld (tell 3 fun _ => "return " ++ value.display) >>= fun _ =>
          pure (.returned value)) := by
  rw [execute]
  exact h

end Lexical

/-! ## The walks -/

/-- Under this bound the walks agree.  An expression leaves all scopes alone, a statement those
before its own. -/
structure Agreement (bound : Nat) : Prop where
  evaluate : ∀ node {scope : ScopeId} {w : World} {l : Lexical}, Matches w l →
    Faithful w l scope →
    Agrees w.scopes.size w l (fun v w l => v.Sound w l) (evaluate bound node scope)
      (Lexical.evaluate bound node scope)
  execute : ∀ node {scope : ScopeId} {w : World} {l : Lexical}, Matches w l →
    Faithful w l scope →
    Agrees scope w l (fun o w l => o.Sound w l) (execute bound node scope)
      (Lexical.execute bound node scope)
  executeBlock : ∀ nodes {scope : ScopeId} {w : World} {l : Lexical}, Matches w l →
    Faithful w l scope →
    Agrees scope w l (fun o w l => o.Sound w l) (executeBlock bound nodes scope)
      (Lexical.executeBlock bound nodes scope)
  call : ∀ f scope args {w : World} {l : Lexical}, Matches w l → f.Sound w l →
    (∀ a ∈ args, a.Sound w l) →
    Agrees w.scopes.size w l (fun v w l => v.Sound w l) (call bound f scope args)
      (Lexical.call bound f args)

/-- Where every scope was left alone, a faithful scope is still there and faithful. -/
theorem Ends.faithful_of_all {id : ScopeId} (h : Ends w.scopes.size w w' l l')
    (hf : Faithful w l id) : Faithful w' l' id :=
  h.faithful id (Nat.le_of_lt hf.lt) hf

theorem Outcome.sound_proceed : Outcome.Sound w l .proceed := by
  intro v h
  cases h

theorem Outcome.sound_returned {v : Value} (h : v.Sound w l) : Outcome.Sound w l (.returned v) := by
  intro u hu
  cases hu
  exact h

theorem evaluateEach_agrees {scope : ScopeId} {eval : Node → Run Value}
    {eval' : Node → Lexical.Run Value}
    (h : ∀ node {w : World} {l : Lexical}, Matches w l → Faithful w l scope →
      Agrees w.scopes.size w l (fun v w l => v.Sound w l) (eval node) (eval' node))
    (nodes : List Node) (hm : Matches w l) (hf : Faithful w l scope) :
    Agrees w.scopes.size w l (fun vs w l => ∀ v ∈ vs, v.Sound w l) (evaluateEach eval nodes)
      (Lexical.evaluateEach eval' nodes) := by
  induction nodes generalizing w l with
  | nil => exact Agrees.pure hm (by simp)
  | cons node nodes ih =>
    refine Agrees.bind (h node hm hf) fun v w₁ l₁ hv h₁ => ?_
    refine Agrees.of_le (n := w₁.scopes.size) ?_ h₁.keeps.size_le
    refine Agrees.bind (ih h₁.worlds (h₁.faithful_of_all hf)) fun vs w₂ l₂ hvs h₂ => ?_
    exact Agrees.pure h₂.worlds (List.forall_mem_cons.mpr ⟨hv.of_keeps h₂.keeps, hvs⟩)

theorem executeEach_agrees {scope : ScopeId} {exec : Node → Run Outcome}
    {exec' : Node → Lexical.Run Outcome}
    (h : ∀ node {w : World} {l : Lexical}, Matches w l → Faithful w l scope →
      Agrees scope w l (fun o w l => o.Sound w l) (exec node) (exec' node))
    (nodes : List Node) (hm : Matches w l) (hf : Faithful w l scope) :
    Agrees scope w l (fun o w l => o.Sound w l) (executeEach exec nodes)
      (Lexical.executeEach exec' nodes) := by
  induction nodes generalizing w l with
  | nil => exact Agrees.pure hm Outcome.sound_proceed
  | cons node nodes ih =>
    refine Agrees.bind (h node hm hf) fun outcome w₁ l₁ ho h₁ => ?_
    cases outcome with
    | returned v => exact Agrees.pure h₁.worlds ho
    | proceed => exact ih h₁.worlds (h₁.faithful scope (Nat.le_refl _) hf)

/-- The scope of a call is added on both sides. -/
theorem addFrame_agrees {parent : ScopeId} (hm : Matches w l) (hf : Faithful w l parent)
    {args : List Value} (hargs : ∀ a ∈ args, a.Sound w l) (params : List Text) :
    Agrees w.scopes.size w l (fun id w' l' => id = w.scopes.size ∧ Faithful w' l' id)
      (modifyGet fun w => w.addScope ((w.scopeAt parent).bindParams params args))
      (modifyGet fun l => l.addFrame (Scope.empty.bindParams params args) parent) := by
  refine ⟨hm.size.symm, ⟨rfl, hf.addFrame hm hargs params⟩, ?_⟩
  exact Ends.of_keeps (hm.addFrame _ _ parent) (hm.keeps_addFrame _ _ parent)

/-- The one step that changes a scope. -/
theorem declare_agrees {scope : ScopeId} (hm : Matches w l) (f : Closure) (hf : f.scope = scope) :
    Agrees scope w l (fun _ _ _ => True)
      (modify fun w => w.bind scope f.name (.closure f))
      (Lexical.onWorld (modify fun w => w.bind scope f.name (.closure f))) := by
  refine ⟨rfl, trivial, hm.bind scope _ _, keeps_bind w l scope _ _, fun id hid hfaithful => ?_⟩
  rcases Nat.lt_or_eq_of_le hid with hlt | rfl
  · exact hfaithful.of_keeps (keeps_bind w l scope _ _) hlt
  · exact hfaithful.declare hm hf

section Step

variable {bound : Nat} {scope : ScopeId}

theorem Agreement.evaluate_succ (ih : Agreement bound) (node : Node) (hm : Matches w l)
    (hf : Faithful w l scope) :
    Agrees w.scopes.size w l (fun v w l => v.Sound w l) (Scriptlet.evaluate (bound + 1) node scope)
      (Lexical.evaluate (bound + 1) node scope) := by
  cases node with
  | literal value =>
    rw [evaluate_literal, Lexical.evaluate]
    exact Agrees.pure hm (Value.sound_of_plain (by cases value <;> rfl))
  | identifier name =>
    rw [evaluate_identifier, Lexical.evaluate]
    have hlookup : (w.scopeAt scope).lookup name = l.lookup scope name := by
      rw [Scope.lookup, Lexical.lookup, hf.get?_eq]
    refine ⟨hlookup, ?_, Ends.refl _ hm⟩
    show ((w.scopeAt scope).lookup name).Sound w l
    rw [Scope.lookup]
    cases hv : (w.scopeAt scope).get? name with
    | none => exact Value.sound_of_plain rfl
    | some v => exact hf.sound hv
  | binary operator left right =>
    rw [evaluate_binary, Lexical.evaluate]
    refine Agrees.bind (ih.evaluate left hm hf) fun a w₁ l₁ _ h₁ => ?_
    refine Agrees.of_le (n := w₁.scopes.size) ?_ h₁.keeps.size_le
    refine Agrees.bind (ih.evaluate right h₁.worlds (h₁.faithful_of_all hf)) fun b w₂ l₂ _ h₂ => ?_
    exact applyOperator_agrees _ h₂.worlds operator a b
  | call callee arguments =>
    rw [evaluate_call, Lexical.evaluate]
    refine Agrees.bind (ih.evaluate callee hm hf) fun f w₁ l₁ hfun h₁ => ?_
    refine Agrees.of_le (n := w₁.scopes.size) ?_ h₁.keeps.size_le
    refine Agrees.bind (evaluateEach_agrees (fun node => ih.evaluate node) arguments h₁.worlds
      (h₁.faithful_of_all hf)) fun args w₂ l₂ hargs h₂ => ?_
    split
    · exact (ih.call f scope args h₂.worlds (hfun.of_keeps h₂.keeps) hargs).of_le h₂.keeps.size_le
    · exact Agrees.throw h₂.worlds _
  | _ =>
    rw [evaluate_unsupported bound scope rfl, Lexical.evaluate_unsupported bound scope rfl]
    exact Agrees.throw hm _

theorem Agreement.execute_succ (ih : Agreement bound) (node : Node) (hm : Matches w l)
    (hf : Faithful w l scope) :
    Agrees scope w l (fun o w l => o.Sound w l) (Scriptlet.execute (bound + 1) node scope)
      (Lexical.execute (bound + 1) node scope) := by
  have hle : scope ≤ w.scopes.size := Nat.le_of_lt hf.lt
  cases node with
  | absent =>
    rw [execute_absent, Lexical.execute]
    exact Agrees.pure hm Outcome.sound_proceed
  | expression body =>
    rw [execute_expression, Lexical.execute]
    refine Agrees.bind ((ih.evaluate body hm hf).of_le hle) fun value w₁ l₁ _ h₁ => ?_
    refine Agrees.bind (blind_modify_agrees scope h₁.worlds fun _ _ => rfl) fun _ w₂ l₂ _ h₂ => ?_
    exact Agrees.pure h₂.worlds Outcome.sound_proceed
  | conditional test consequent alternate =>
    rw [execute_conditional, Lexical.execute]
    refine Agrees.bind ((ih.evaluate test hm hf).of_le hle) fun value w₁ l₁ _ h₁ => ?_
    refine Agrees.bind (tell_agrees scope h₁.worlds 3 _) fun _ w₂ l₂ _ h₂ => ?_
    have hf₂ := (h₁.trans h₂).faithful scope (Nat.le_refl _) hf
    split
    · exact ih.execute consequent h₂.worlds hf₂
    · exact ih.execute alternate h₂.worlds hf₂
  | returning argument =>
    by_cases hargument : argument = .absent
    · rw [hargument, execute_returning_absent, Lexical.execute_returning_absent]
      refine Agrees.bind (tell_agrees scope hm 3 _) fun _ w₁ l₁ _ h₁ => ?_
      exact Agrees.pure h₁.worlds (Outcome.sound_returned (Value.sound_of_plain rfl))
    · rw [execute_returning bound scope hargument, Lexical.execute_returning bound scope hargument]
      refine Agrees.of_le (n := w.scopes.size) ?_ hle
      refine Agrees.bind (ih.evaluate argument hm hf) fun value w₁ l₁ hv h₁ => ?_
      refine Agrees.of_le (n := w₁.scopes.size) ?_ h₁.keeps.size_le
      refine Agrees.bind (tell_agrees w₁.scopes.size h₁.worlds 3 _) fun _ w₂ l₂ _ h₂ => ?_
      exact Agrees.pure h₂.worlds (Outcome.sound_returned (hv.of_keeps h₂.keeps))
  | block body =>
    rw [execute_block, Lexical.execute]
    exact ih.executeBlock body hm hf
  | function name params body =>
    rw [execute_function, Lexical.execute]
    have hclosure : Blind (modifyGet fun w => w.addClosure name params body scope) :=
      fun _ _ => rfl
    refine Agrees.bind (hclosure.agrees scope hm (V := fun f => f.name = name ∧ f.scope = scope)
      ⟨rfl, rfl⟩) ?_
    rintro f w₁ l₁ ⟨rfl, hscope⟩ h₁
    refine Agrees.bind (declare_agrees h₁.worlds f hscope) fun _ w₂ l₂ _ h₂ => ?_
    refine Agrees.bind (tell_agrees scope h₂.worlds 2 _) fun _ w₃ l₃ _ h₃ => ?_
    exact Agrees.pure h₃.worlds Outcome.sound_proceed
  | _ =>
    rw [execute_unsupported bound scope rfl, Lexical.execute_unsupported bound scope rfl]
    exact Agrees.throw hm _

theorem Agreement.call_succ (ih : Agreement bound) (f : Value) (args : List Value)
    (hm : Matches w l) (hf : f.Sound w l) (hargs : ∀ a ∈ args, a.Sound w l) :
    Agrees w.scopes.size w l (fun v w l => v.Sound w l) (Scriptlet.call (bound + 1) f scope args)
      (Lexical.call (bound + 1) f args) := by
  cases f with
  | closure f =>
    rw [call_closure, Lexical.call]
    refine Agrees.bind (tell_agrees _ hm 2 _) fun _ w₁ l₁ _ h₁ => ?_
    refine Agrees.of_le (n := w₁.scopes.size) ?_ h₁.keeps.size_le
    have hfaithful := h₁.faithful_of_all (hf.scope f rfl)
    have hargs₁ : ∀ a ∈ args, a.Sound w₁ l₁ := fun a ha => (hargs a ha).of_keeps h₁.keeps
    refine Agrees.bind (addFrame_agrees h₁.worlds hfaithful hargs₁ f.params) ?_
    rintro inner w₂ l₂ ⟨rfl, hinner⟩ h₂
    -- the body leaves the scopes before its own alone, and these are all that there were
    refine Agrees.bind (ih.executeBlock f.body h₂.worlds hinner) fun outcome w₃ l₃ ho h₃ => ?_
    cases outcome with
    | proceed => exact Agrees.pure h₃.worlds (Value.sound_of_plain rfl)
    | returned v => exact Agrees.pure h₃.worlds (ho v rfl)
  | builtin f =>
    rw [call_builtin, Lexical.call, hf.print f rfl]
    refine Agrees.bind (tell_agrees _ hm 2 _) fun _ w₁ l₁ _ h₁ => ?_
    refine Agrees.bind (printLine_agrees _ h₁.worlds _) fun _ w₂ l₂ _ h₂ => ?_
    exact Agrees.pure h₂.worlds (Value.sound_of_plain rfl)
  | _ =>
    rw [call_of_not_isFunction bound scope rfl, Lexical.call_of_not_isFunction bound rfl]
    exact Agrees.throw hm _

end Step

theorem agreement (bound : Nat) : Agreement bound := by
  induction bound with
  | zero =>
    refine ⟨fun node scope w l hm _ => ?_, fun node scope w l hm _ => ?_,
      fun nodes scope w l hm _ => ?_, fun f scope args w l hm _ _ => ?_⟩
    · rw [evaluate_zero, Lexical.evaluate]
      exact Agrees.throw hm _
    · rw [execute_zero, Lexical.execute]
      exact Agrees.throw hm _
    · rw [executeBlock_zero, Lexical.executeBlock]
      exact Agrees.throw hm _
    · rw [call_zero, Lexical.call]
      exact Agrees.throw hm _
  | succ bound ih =>
    refine ⟨fun node _ _ _ => ih.evaluate_succ node, fun node _ _ _ => ih.execute_succ node,
      fun nodes scope w l hm hf => ?_, fun f _ args _ _ => ih.call_succ f args⟩
    rw [executeBlock_succ, Lexical.executeBlock]
    exact executeEach_agrees (fun node => ih.execute node) nodes hm hf

end Scriptlet
