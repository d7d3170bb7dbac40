import Scriptlet.Proofs.Tracing

/-!
# Programs after one another in one

Running two programs one after the other is running the program that has the statements of both, as
long as nothing is traced.  The two differ in the value that came last, which every run forgets, and
no walk looks at it.  A trace would tell them apart, since only a run tells of its result, and might
end there.

* `World.AgreeInSilence`: worlds that agree and whose traces take nothing.
* `Coincide`: two computations end with the same value or the same fault, in such worlds.
* `executeProgram_coincides`: statements are executed alike in such worlds.
* `run_coincides`: a run ends as the execution of its statements does.  So the laws of programs in
  `run_append` come from the equations of that.
-/

namespace Scriptlet

variable {α β : Type} {u v w : World}

namespace World.Agree

theorem refl (w : World) : w.Agree w := ⟨rfl, rfl, rfl, rfl, rfl⟩

theorem trans (h : u.Agree v) (h' : v.Agree w) : u.Agree w :=
  ⟨h.scopes.trans h'.scopes, h.nextIdentity.trans h'.nextIdentity, h.output.trans h'.output,
    h.notes.trans h'.notes, h.replies.trans h'.replies⟩

end World.Agree

/-- Worlds that agree and whose traces take nothing. -/
structure World.AgreeInSilence (w v : World) : Prop extends w.Agree v where
  silent : w.verbosity = 0
  silent' : v.verbosity = 0

namespace World.AgreeInSilence

theorem refl (h : w.verbosity = 0) : w.AgreeInSilence w := ⟨Agree.refl w, h, h⟩

theorem symm (h : w.AgreeInSilence v) : v.AgreeInSilence w := ⟨h.toAgree.symm, h.silent', h.silent⟩

theorem trans (h : u.AgreeInSilence v) (h' : v.AgreeInSilence w) : u.AgreeInSilence w :=
  ⟨h.toAgree.trans h'.toAgree, h.silent, h'.silent'⟩

end World.AgreeInSilence

/-! ## Computations that coincide -/

/-- Started in `w` and in `v`, the two computations end with the same value or with the same fault,
in worlds that agree and whose traces take nothing. -/
def Coincide (m n : Run α) (w v : World) : Prop := Concur (· = ·) World.AgreeInSilence m n w v

namespace Coincide

variable {m n k : Run α}

theorem symm (h : Coincide m n w v) : Coincide n m v w :=
  (Concur.symm h).mono (fun _ _ hab => hab.symm) fun _ _ hagree => hagree.symm

theorem trans (h : Coincide m n w v) (h' : Coincide n k v u) : Coincide m k w u :=
  (Concur.trans h h').mono (fun _ _ ⟨_, hab, hbc⟩ => hab.trans hbc)
    fun _ _ ⟨_, hxy, hyz⟩ => hxy.trans hyz

theorem bind {k l : α → Run β} (h : Coincide m n w v)
    (hk : ∀ a x y, x.AgreeInSilence y → Coincide (k a) (l a) x y) :
    Coincide (m >>= k) (n >>= l) w v := by
  refine Concur.bind h ?_
  rintro a _ x y rfl hxy
  exact hk a x y hxy

/-- What comes after a computation may give its value back and leave a world that agrees. -/
theorem bind_right {k : α → Run α} (h : Coincide m n w v)
    (hk : ∀ a x, x.verbosity = 0 → ∃ y, k a x = .ok a y ∧ x.AgreeInSilence y) :
    Coincide m (n >>= k) w v := by
  have hbind := bind (k := pure) (l := k) h fun a x y hxy => by
    obtain ⟨z, hkz, hyz⟩ := hk a y hxy.silent'
    unfold Coincide Concur Relates
    rw [hkz]
    exact ⟨rfl, hxy.trans hyz⟩
  rwa [bind_pure] at hbind

/-- Closing the trace changes nothing that worlds have to agree on. -/
theorem closingTrace {m n : Run Value} (h : Coincide m n w v) :
    Coincide m (closingTrace n) w v := by
  unfold Coincide Concur Relates at h ⊢
  unfold Scriptlet.closingTrace
  have hclosed : ∀ x y : World, x.AgreeInSilence y → x.AgreeInSilence { y with tracing := false } :=
    fun x y hxy =>
      ⟨⟨hxy.scopes, hxy.nextIdentity, hxy.output, hxy.notes, hxy.replies⟩, hxy.silent, hxy.silent'⟩
  cases hm : m w with
  | ok a x =>
    rw [hm] at h
    cases hn : n v with
    | ok b y =>
      rw [hn] at h
      exact ⟨h.1, hclosed x y h.2⟩
    | error e y =>
      rw [hn] at h
      exact h
  | error e x =>
    rw [hm] at h
    cases hn : n v with
    | ok b y =>
      rw [hn] at h
      exact h
    | error f y =>
      rw [hn] at h
      exact ⟨h.1, hclosed x y h.2⟩

end Coincide

/-! ## Programs as lists of statements -/

variable (bound : Nat) (scope : ScopeId)

/-- Worlds that agree and trace nothing are those of two walks over the same nodes. -/
theorem worlds_of_agreeInSilence (h : w.AgreeInSilence v) :
    (Likeness.equality fun _ => False).Worlds w v w v where
  heaps := Likeness.heaps_equality_iff.mpr ⟨h.scopes, h.nextIdentity, fun _ => by rw [h.replies]⟩
  since := Likeness.since_refl _ w v
  takes level hpos := by
    have hnot : ¬ level ≤ v.verbosity := by
      rw [h.silent']
      omega
    exact iff_of_false (fun htakes => hnot htakes.2) fun hboth => hnot hboth.2
  traces := Or.inl (h.silent'.trans h.silent.symm)

/-- Walks that follow each other in such worlds end in such worlds. -/
theorem Coincide.of_follows {m n : Run Value}
    (hfollows : (Likeness.equality fun _ => False).Follows w v
      (Likeness.equality fun _ => False).Alike m n)
    (h : w.AgreeInSilence v) : Coincide m n w v := by
  refine (hfollows.concur (fun _ => id) (worlds_of_agreeInSilence h)).mono
    (fun _ _ hab => Likeness.alike_equality_iff.mp hab) fun _ _ hends => ?_
  exact ⟨hends.since.agree hends.heaps h.toAgree, hends.since.verbosity.1.trans h.silent,
    hends.since.verbosity.2.trans h.silent'⟩

/-- Expressions are evaluated alike in worlds that agree and trace nothing. -/
theorem evaluate_coincides (node : Node) (h : w.AgreeInSilence v) :
    Coincide (evaluate bound node scope) (evaluate bound node scope) w v :=
  .of_follows ((Likeness.walks (Likeness.bounds_refl bound)).evaluate rfl rfl) h

/-- So are statements executed. -/
theorem executeProgram_coincides (result : Value) (body : List Node) (h : w.AgreeInSilence v) :
    Coincide (executeProgram bound scope result body) (executeProgram bound scope result body)
      w v :=
  .of_follows (Likeness.follows_executeProgram (Likeness.bounds_refl bound) rfl
    (List.forall₂_same.mpr fun _ _ => rfl) (Likeness.alike_equality_iff.mpr rfl)) h

/-- Statements leave a trace silent that was so before. -/
theorem silent_of_executeProgram {result value : Value} {body : List Node}
    (hsilent : w.verbosity = 0)
    (h : executeProgram bound scope result body w = .ok value u) : u.verbosity = 0 := by
  have hends := executeProgram_coincides bound scope result body (World.AgreeInSilence.refl hsilent)
  unfold Coincide Concur Relates at hends
  rw [h] at hends
  exact hends.2.silent

theorem executeProgram_append (result : Value) (p q : List Node) :
    executeProgram bound scope result (p ++ q) =
      (executeProgram bound scope result p >>= fun a => executeProgram bound scope a q) := by
  induction p generalizing result with
  | nil => rfl
  | cons node nodes ih =>
    simp only [List.cons_append, executeProgram, bind_assoc, ih]

/-- What came before is the result only of a program without an expression statement. -/
theorem executeProgram_eq (result : Value) (body : List Node) :
    executeProgram bound scope result body =
      (executeProgram bound scope .undefined body >>= fun a =>
        pure (if body.any Node.isExpression then a else result)) := by
  induction body generalizing result with
  | nil => rfl
  | cons node nodes ih =>
    simp only [executeProgram, bind_assoc]
    cases hnode : node.isExpression with
    | true => simp only [List.any_cons, hnode, Bool.true_or, if_true, bind_pure]
    | false =>
      simp only [List.any_cons, hnode, Bool.false_or, Bool.false_eq_true, if_false]
      rw [ih result]

/-- A run whose trace takes nothing does not tell how many statements there are. -/
theorem runBody_of_silent (body : List Node) (h : w.verbosity = 0) :
    runBody bound body scope w =
      (executeProgram bound scope .undefined body >>= fun result =>
        tell 1 (fun _ => "program finished -> " ++ result.display) >>= fun _ => pure result) w := by
  rw [runBody]
  simp only [Bind.bind, EStateM.bind, tell_of_silent h Nat.one_pos]

/-- A run ends as the execution of its statements does. -/
theorem run_coincides (body : List Node) (h : w.AgreeInSilence v) :
    Coincide (executeProgram bound scope .undefined body) (run bound body scope) w v := by
  have hopened : w.AgreeInSilence v.opened :=
    ⟨⟨h.scopes, h.nextIdentity, h.output, h.notes, h.replies⟩, h.silent, h.silent'⟩
  have hbody : Coincide (executeProgram bound scope .undefined body) (runBody bound body scope)
      w v.opened := by
    unfold Coincide Concur Relates
    rw [runBody_of_silent bound scope body hopened.silent']
    refine (executeProgram_coincides bound scope .undefined body hopened).bind_right
      fun result x hx => ⟨x, ?_, .refl hx⟩
    simp only [Bind.bind, EStateM.bind, tell_of_silent hx Nat.one_pos]
    rfl
  exact hbody.closingTrace

/-- Only statements that are no expression statements return. -/
theorem isExpression_of_returned {node : Node} {value : Value}
    (h : execute bound node scope w = .ok (.returned value) u) : node.isExpression = false := by
  cases node with
  | expression body =>
    cases bound with
    | zero =>
      rw [execute_zero] at h
      cases h
    | succ bound =>
      rw [execute_expression] at h
      simp only [Bind.bind, EStateM.bind] at h
      cases hbody : evaluate bound body scope w with
      | ok a x =>
        rw [hbody] at h
        cases h
      | error e x =>
        rw [hbody] at h
        cases h
  | _ => rfl

/-- Where the trace takes nothing, a run that fails is not told how many statements there were. -/
theorem run_append_of_error {p : List Node} (q : List Node) {fault : Fault}
    (hsilent : w.verbosity = 0) (h : run bound p scope w = .error fault u) :
    run bound (p ++ q) scope w = .error fault u := by
  have hopened : w.opened.verbosity = 0 := hsilent
  rw [run_eq, closingTrace, runBody_of_silent bound scope _ hopened] at h ⊢
  rw [executeProgram_append]
  simp only [Bind.bind, EStateM.bind] at h ⊢
  cases hp : executeProgram bound scope .undefined p w.opened with
  | ok a x =>
    rw [hp] at h
    dsimp only at h
    rw [tell_of_silent (silent_of_executeProgram bound scope hopened hp) Nat.one_pos] at h
    cases h
  | error e x =>
    rw [hp] at h
    exact h

/-- **Programs after one another are one program.**  In any world that traces nothing, under any
bound:

* running the statements of two programs ends as running the first and then, unless it failed, the
  second.  The result is that of the second if an expression statement is among its statements, and
  else that of the first;
* if the first fails, the second makes no difference at all;
* a program of one expression statement gives what the expression is evaluated to, whatever came
  last in the functions that were called;
* a statement that returns does not keep the statements after it from being executed. -/
theorem run_append (p q : List Node) {w : World} (hsilent : w.verbosity = 0) :
    Coincide (run bound (p ++ q) scope)
      (do
        let a ← run bound p scope
        let b ← run bound q scope
        return if q.any Node.isExpression then b else a) w w ∧
    (∀ fault u, run bound p scope w = .error fault u →
      run bound (p ++ q) scope w = .error fault u) ∧
    (∀ body, Coincide (run (bound + 1) [.expression body] scope) (evaluate bound body scope) w w) ∧
    (∀ node value u, execute bound node scope w = .ok (.returned value) u →
      Coincide (run bound (node :: q) scope) (run bound q scope) w u) := by
  have hagree := World.AgreeInSilence.refl hsilent
  refine ⟨?_, fun fault u h => run_append_of_error bound scope q hsilent h,
    fun body => ?_, fun node value u h => ?_⟩
  · refine (run_coincides bound scope (p ++ q) hagree).symm.trans ?_
    rw [executeProgram_append]
    refine Coincide.bind (run_coincides bound scope p hagree) fun a x y hxy => ?_
    rw [executeProgram_eq]
    exact Coincide.bind (run_coincides bound scope q hxy) fun b x y hxy => ⟨rfl, hxy⟩
  · refine (run_coincides (bound + 1) scope [.expression body] hagree).symm.trans ?_
    rw [executeProgram_expression]
    refine ((evaluate_coincides bound scope body hagree).bind_right fun value x hx => ?_).symm
    exact ⟨{ x with latest := value }, rfl, ⟨rfl, rfl, rfl, rfl, rfl⟩, hx, hx⟩
  · refine (run_coincides bound scope (node :: q) hagree).symm.trans ?_
    rw [executeProgram_of_not_isExpression bound scope (isExpression_of_returned bound scope h)]
    have hnode : (execute bound node scope >>= fun _ => executeProgram bound scope .undefined q) w =
        executeProgram bound scope .undefined q u := by
      simp only [Bind.bind, EStateM.bind, h]
    have halone : executeProgram bound scope .undefined [node] w = .ok .undefined u := by
      rw [executeProgram_of_not_isExpression bound scope (isExpression_of_returned bound scope h)]
      simp only [Bind.bind, EStateM.bind, h]
      rfl
    have hu := silent_of_executeProgram bound scope hsilent halone
    have hq := run_coincides bound scope q (World.AgreeInSilence.refl hu)
    unfold Coincide Concur Relates at hq ⊢
    rw [hnode]
    exact hq

/-- The laws at a new world: for a block that returns, and for a program that calls a string. -/
theorem run_append_fresh :
    (execute 9 (.block [.returning (.literal (.string "a"))]) World.globalScope (World.fresh 0) =
        .ok (.returned (.string "a")) (World.fresh 0) ∧
      Coincide
        (run 9 [.block [.returning (.literal (.string "a"))], .expression (.literal (.string "b"))]
          World.globalScope)
        (run 9 [.expression (.literal (.string "b"))] World.globalScope)
        (World.fresh 0) (World.fresh 0)) ∧
    ((World.fresh 0).verbosity = 0 ∧
      run 9 [.expression (.call (.literal (.string "g")) [])] World.globalScope (World.fresh 0) =
        .error (.notCallable "g") (World.fresh 0) ∧
      run 9 [.expression (.call (.literal (.string "g")) []), .expression (.literal (.string "b"))]
        World.globalScope (World.fresh 0) = .error (.notCallable "g") (World.fresh 0)) := by
  have hreturns : execute 9 (.block [.returning (.literal (.string "a"))]) World.globalScope
      (World.fresh 0) = .ok (.returned (.string "a")) (World.fresh 0) := by cbv
  have hfails : run 9 [.expression (.call (.literal (.string "g")) [])] World.globalScope
      (World.fresh 0) = .error (.notCallable "g") (World.fresh 0) := by cbv
  have hlaws := run_append 9 World.globalScope
    [.expression (.call (.literal (.string "g")) [])] [.expression (.literal (.string "b"))]
    (rfl : (World.fresh 0).verbosity = 0)
  exact ⟨⟨hreturns, hlaws.2.2.2 _ _ _ hreturns⟩, rfl, hfails, hlaws.2.1 _ _ hfails⟩

end Scriptlet
