import Scriptlet.Proofs.Isolation
import Scriptlet.Proofs.Settled
import Scriptlet.Proofs.Simulation.Walks

/-!
# Expressions can be evaluated again

Evaluating an expression leaves every scope as it was, so nothing that it reads can have changed
when it is evaluated once more.  But the world has grown: calls have added scopes and declared
functions, and what the second evaluation adds gets other numbers.

* `renumber` takes the numbers that the first evaluation handed out to those that the second does.
* `Likeness.renumbering`: the likeness of two walks of which the second starts later.  A settled
  world refers to no number that has changed, so it is alike to what it has grown into.
* `evaluate_repeats`: the second evaluation does what the first did.
-/

namespace Scriptlet

/-! ## Numbers that were handed out later -/

/-- The numbers from `n` on become the numbers from `m` on. -/
def renumber (n m i : Nat) : Nat := if i < n then i else m + (i - n)

theorem renumber_of_lt {n i : Nat} (h : i < n) (m : Nat) : renumber n m i = i := if_pos h

theorem renumber_add (n m k : Nat) : renumber n m (n + k) = m + k := by
  rw [renumber, if_neg (Nat.not_lt.mpr (Nat.le_add_right n k)), Nat.add_sub_cancel_left]

theorem renumber_inj {n m : Nat} (h : n ≤ m) {i i' : Nat} :
    renumber n m i = renumber n m i' ↔ i = i' := by
  unfold renumber
  split <;> split <;> omega

variable {u v w : World}

/-- The likeness of a walk in `w` and of one in a world that `w` has grown into. -/
def Likeness.renumbering (h : w.Onward v) : Likeness where
  node m n := m = n
  mentions _ := true
  scope i j := renumber w.scopes.size v.scopes.size i = j
  identity i j := renumber w.nextIdentity v.nextIdentity i = j
  escapes _ := False
  parallel := Node.parallel_of_eq (fun _ => rfl) _
  bodies := bodies_of_forall₂ _
  scope_iff := by
    rintro i i' _ _ rfl rfl
    exact (renumber_inj h.size_le).symm
  identity_iff := by
    rintro i i' _ _ rfl rfl
    exact (renumber_inj h.identity_le).symm

namespace Likeness

variable (h : w.Onward v)

/-- What is known is numbered as before. -/
theorem alike_of_knows (a : Value) (ha : w.Knows a) : (renumbering h).Alike a a := by
  refine alike_self (fun _ => rfl) (fun _ => List.forall₂_same.mpr fun _ _ => rfl) ?_ ?_
  · intro name i hfunction
    cases a with
    | undefined | boolean | number | string => cases hfunction
    | closure f =>
      cases hfunction
      exact renumber_of_lt ha.1 _
    | builtin f =>
      cases hfunction
      exact renumber_of_lt ha _
  · rintro f rfl
    exact renumber_of_lt ha.2 _

/-- **A settled world is alike to what it has grown into**, if its scopes are what they were. -/
theorem heaps_renumbering (hw : w.Settled) (hext : w.Extends v) : (renumbering h).Heaps w v where
  scopes := by
    rintro i _ rfl
    rcases Nat.lt_or_ge i w.scopes.size with hi | hi
    · rw [renumber_of_lt hi, hext.scopeAt_eq i hi]
      exact scopesAlike_self ((hw.scopes i).mono (alike_of_knows h))
    · obtain ⟨k, rfl⟩ := Nat.exists_eq_add_of_le hi
      rw [renumber_add, World.scopeAt_of_size_le _ hi,
        World.scopeAt_of_size_le _ (Nat.le_add_right _ k)]
      exact scopesAlike_empty
  nextScope := renumber_add _ _
  nextIdentity := renumber_add _ _
  replies := by
    rintro i _ rfl
    rw [h.replies]
    rcases Nat.lt_or_ge i w.nextIdentity with hi | hi
    · rw [renumber_of_lt hi]
      exact rel_alike_self fun a ha => alike_of_knows h a (hw.replies i a ha).2
    · have hnone : ∀ j, w.nextIdentity ≤ j → w.replies.lookup j = none := by
        intro j hj
        cases hreply : w.replies.lookup j with
        | none => rfl
        | some a => exact absurd (hw.replies j a hreply).1 (Nat.not_lt.mpr hj)
      obtain ⟨k, rfl⟩ := Nat.exists_eq_add_of_le hi
      rw [renumber_add, hnone _ hi, hnone _ (Nat.le_trans h.identity_le (Nat.le_add_right _ k))]
      exact .none

/-- Both evaluations begin with traces that take the same. -/
theorem worlds_renumbering (hw : w.Settled) (hext : w.Extends v) :
    (renumbering h).Worlds w v w v where
  heaps := heaps_renumbering h hw hext
  since := (renumbering h).since_refl w v
  takes level _ := by
    rw [World.Takes, World.Takes, h.tracing, h.verbosity]
    exact ⟨fun htakes => ⟨htakes, htakes.2⟩, And.left⟩
  traces := Or.inl h.verbosity

end Likeness

/-! ## Evaluating twice -/

/-- Values that are equal, or functions that differ in their numbers alone. -/
inductive Value.Resembles : Value → Value → Prop
  | same {a : Value} (h : a.isFunction = false) : Resembles a a
  | closure {f g : Closure} (hname : f.name = g.name) (hparams : f.params = g.params)
      (hbody : f.body = g.body) : Resembles (.closure f) (.closure g)
  | builtin {f g : Builtin} (hname : f.name = g.name) (haction : f.action = g.action) :
      Resembles (.builtin f) (.builtin g)

/-- From the second world to the third, the same was printed and traced as from the first to the
second. -/
structure World.Echoes (u v w : World) : Prop where
  output : ∃ lines, v.output.toList = u.output.toList ++ lines ∧
    w.output.toList = v.output.toList ++ lines
  trace : ∃ events, v.trace.toList = u.trace.toList ++ events ∧
    w.trace.toList = v.trace.toList ++ events

namespace Likeness

theorem Alike.resembles {h : w.Onward v} {a b : Value} (hab : (renumbering h).Alike a b) :
    a.Resembles b := by
  cases hab with
  | undefined | boolean | number | string => exact .same rfl
  | closure _ hname hparams _ hbody _ =>
    exact .closure hname hparams (List.forall₂_eq_eq_eq ▸ hbody)
  | builtin _ hname haction _ => exact .builtin hname haction

/-- What has happened since the second evaluation began had happened since the first began. -/
theorem Since.echoes {h : w.Onward v} (hsince : (renumbering h).Since w v v u) : w.Echoes v u :=
  ⟨hsince.output, hsince.traced h.verbosity.symm⟩

end Likeness

/-- In this world, the computation can be done a second time: it ends with the same fault or with a
value that resembles the first, and prints and traces the same once more. -/
def Repeats (m : Run Value) (w : World) : Prop :=
  Concur Value.Resembles w.Echoes m m w (stateAfter m w)

/-- **Expressions can be evaluated again.**  In every world that there can be, as long as no builtin
binds names on its own account, an expression that is evaluated twice in a scope gives the same
twice: the same fault, or values that are equal or are functions with one name, the same parameters
and one body.  And the second evaluation prints and traces what the first one did. -/
theorem evaluate_repeats (bound : Nat) (node : Node) {scope : ScopeId} (hw : w.Reachable)
    (hquiet : w.Quiet) (hscope : scope < w.scopes.size) :
    Repeats (evaluate bound node scope) w := by
  have hsettled := hw.settled
  have honward := ((steady bound).evaluate node scope w hsettled).stateAfter.1
  have hext := (((isolated bound).evaluate node scope).stateAfter hquiet).1
  have hplace : (Likeness.renumbering honward).scope scope scope := renumber_of_lt hscope _
  have hconcur := (((Likeness.walks (Likeness.bounds_refl bound)).evaluate
    (rfl : node = node) hplace).concur (fun _ => id)
      (Likeness.worlds_renumbering honward hsettled hext)).stateAfter
  refine hconcur.mono (fun a b hab => hab.resembles) ?_
  rintro v u ⟨rfl, hworlds⟩
  exact hworlds.since.echoes

/-- The theorem for a call that declares a function and gives it back, in the world that a program
leaves behind. -/
theorem evaluate_repeats_maker :
    Repeats (evaluate 9 (.call (.identifier "make") [.identifier "print"]) World.globalScope)
      (stateAfter (execute 9 (.function "make" ["f"] [
          .expression (.call (.identifier "f") [.literal (.string "a")]),
          .function "g" [] [.returning (.identifier "f")],
          .returning (.identifier "g")]) World.globalScope) (World.fresh 3)) := by
  have hplace : World.globalScope < (World.fresh 3).scopes.size := by decide
  obtain ⟨hdeclares, hquiet, -⟩ := ((isolated 9).execute (.function "make" ["f"] [
      .expression (.call (.identifier "f") [.literal (.string "a")]),
      .function "g" [] [.returning (.identifier "f")],
      .returning (.identifier "g")]) World.globalScope).stateAfter ⟨World.quiet_fresh 3, hplace⟩
  exact evaluate_repeats 9 _ (.execute (.fresh 3) 9 _ hplace) hquiet
    (Nat.lt_of_lt_of_le hplace hdeclares.size_le)

end Scriptlet
