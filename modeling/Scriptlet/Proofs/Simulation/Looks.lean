import Scriptlet.Proofs.Simulation.Walks

/-!
# How runs look from outside

Two runs of different programs cannot leave the same worlds, since the functions in them have
different code.  What can be the same is how the worlds look to somebody who knows a function by
its name and its parameters.

* `Value.look` is what such an observer makes of a value, and `World.LooksLike` compares worlds by
  the lines that were printed, by the trace, and by the look of every binding of every scope.
* `SameLook` compares two runs from one world: they end with the same fault, or with values that
  look the same, in worlds that look the same.
* `Likeness.InPlace`: the likenesses under which the same places and identities stand for each
  other.  Any world is alike to itself under them, so `Likeness.InPlace.run_looks` speaks of
  programs that are started in any world, not only in a new one.
-/

namespace Scriptlet

/-- How a value looks to somebody who knows functions by their names and parameters. -/
inductive Look where
  | plain (value : Literal)
  | closure (name : Text) (params : List Text)
  | builtin (name : Text)
  deriving DecidableEq

/-- How a value looks. -/
def Value.look : Value → Look
  | .undefined => .plain .undefined
  | .boolean b => .plain (.boolean b)
  | .number x => .plain (.number x)
  | .string s => .plain (.string s)
  | .closure f => .closure f.name f.params
  | .builtin f => .builtin f.name

/-- The names that a scope binds, in their order, and how the values look. -/
def Scope.look (s : Scope) : List (Text × Look) :=
  s.bindings.map fun binding => (binding.1, binding.2.look)

/-- Worlds that look the same. -/
structure World.LooksLike (w v : World) : Prop where
  output : w.output = v.output
  trace : w.trace = v.trace
  scopes : ∀ id, (w.scopeAt id).look = (v.scopeAt id).look

namespace World.LooksLike

variable {u v w : World}

theorem symm (h : w.LooksLike v) : v.LooksLike w :=
  ⟨h.output.symm, h.trace.symm, fun id => (h.scopes id).symm⟩

theorem trans (h : u.LooksLike v) (h' : v.LooksLike w) : u.LooksLike w :=
  ⟨h.output.trans h'.output, h.trace.trans h'.trace, fun id => (h.scopes id).trans (h'.scopes id)⟩

end World.LooksLike

/-- In a world, two runs end with the same fault or with values that look the same, and leave
worlds that look the same. -/
def SameLook (m n : Run Value) (w : World) : Prop :=
  Concur (fun a b => a.look = b.look) World.LooksLike m n w w

namespace SameLook

variable {m n k : Run Value} {w : World}

theorem symm (h : SameLook m n w) : SameLook n m w :=
  (Concur.symm h).mono (fun _ _ hlook => hlook.symm) fun _ _ hlooks => hlooks.symm

theorem trans (h : SameLook m n w) (h' : SameLook n k w) : SameLook m k w :=
  (Concur.trans h h').mono (fun _ _ ⟨_, hlook, hlook'⟩ => hlook.trans hlook')
    fun _ _ ⟨_, hlooks, hlooks'⟩ => hlooks.trans hlooks'

end SameLook

namespace Likeness

variable {L : Likeness}

theorem Alike.look_eq {a b : Value} (h : L.Alike a b) : a.look = b.look := by
  cases h with
  | undefined | boolean | number | string => rfl
  | closure _ hname hparams => rw [Value.look, Value.look, hname, hparams]
  | builtin _ hname => rw [Value.look, Value.look, hname]

theorem ScopesAlike.look_eq {s t : Scope} (h : L.ScopesAlike s t)
    (hall : ∀ name, L.mentions name = true) : s.look = t.look := by
  have hbindings : ∀ {bs cs : List (Text × Value)},
      List.Forall₂ (fun p q => p.1 = q.1 ∧ L.Alike p.2 q.2) bs cs →
        bs.map (fun binding => (binding.1, binding.2.look)) =
          cs.map fun binding => (binding.1, binding.2.look) := by
    intro bs cs hbs
    induction hbs with
    | nil => rfl
    | cons hpq _ ih => rw [List.map_cons, List.map_cons, hpq.1, hpq.2.look_eq, ih]
  exact hbindings (h.bindings hall)

/-- Walks that hand out the same places and identities, and may mention any name. -/
structure InPlace (L : Likeness) : Prop where
  body : ∀ nodes, L.body nodes nodes
  mentions : ∀ name, L.mentions name = true
  scope : ∀ i j, L.scope i j ↔ i = j
  identity : ∀ i j, L.identity i j ↔ i = j

namespace InPlace

variable (h : L.InPlace)

include h

theorem alike_self (v : Value) : L.Alike v v :=
  Likeness.alike_self h.mentions h.body (fun _ _ _ => (h.identity _ _).mpr rfl)
    fun _ _ => (h.scope _ _).mpr rfl

/-- Any world is alike to itself. -/
theorem heaps_self (w : World) : L.Heaps w w where
  scopes := by
    intro i j hij
    obtain rfl := (h.scope i j).mp hij
    exact scopesAlike_self fun _ _ => h.alike_self _
  nextScope k := (h.scope _ _).mpr rfl
  nextIdentity k := (h.identity _ _).mpr rfl
  replies := by
    intro i j hij
    obtain rfl := (h.identity i j).mp hij
    exact rel_alike_self fun v _ => h.alike_self v

/-- Where both walks began in the same world, the worlds look the same. -/
theorem looksLike {u w v : World} (hheaps : L.Heaps w v) (hsince : L.Since u u w v) :
    w.LooksLike v where
  output := hsince.eq_of_origin.1
  trace := hsince.eq_of_origin.2
  scopes id := (hheaps.scopes ((h.scope id id).mpr rfl)).look_eq h.mentions

/-- **Programs that are related in place look the same when they are run**, in any world and in any
scope of it, unless the first ends in a fault that escapes the comparison. -/
theorem run_looks {bound bound' : Nat} (hbounds : L.Bounds bound bound') {body body' : List Node}
    (hbody : List.Forall₂ L.node body body') (scope : ScopeId) (w : World) :
    EndsIn L.escapes (run bound body scope w) ∨
      SameLook (run bound body scope) (run bound' body' scope) w := by
  have hfollows := follows_run hbounds ((h.scope scope scope).mpr rfl) hbody (h.heaps_self w)
    (Or.inl rfl)
  unfold SameLook Concur Relates
  cases hrun : run bound body scope w with
  | ok a u =>
    rw [hrun] at hfollows
    obtain ⟨b, v, hrun', hab, hheaps, hsince⟩ := hfollows
    rw [hrun']
    exact Or.inr ⟨hab.look_eq, h.looksLike hheaps hsince⟩
  | error fault u =>
    rw [hrun] at hfollows
    rcases hfollows with hescapes | ⟨v, hrun', hheaps, hsince⟩
    · exact Or.inl hescapes
    · rw [hrun']
      exact Or.inr ⟨rfl, h.looksLike hheaps hsince⟩

end InPlace

end Likeness
end Scriptlet
