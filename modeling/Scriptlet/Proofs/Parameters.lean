import Mathlib.Data.List.TakeDrop
import Scriptlet.Proofs.Isolation

/-!
# What a body starts from

A call binds its parameters on top of a copy of the scope that the function was declared in.  A name
that is given to two parameters goes to the later one, a parameter without an argument is undefined,
and an argument without a parameter is dropped.

* `Scope.argument?_of_last`, `Scope.argument?_eq_none_iff`: what a call binds a name to, by the
  position of the last parameter of that name.
* `Scope.bindParams_takeD`: arguments may be cut off or filled up to the number of parameters.
* `call_closure_takeD`: so may those of a call, if nobody traces it.
* `call_binds_parameters` is the result.

The arguments of a call show in one place only besides the new scope, which is the event that tells
of the call.  That is why the trace has to be silent for the third of these and not for the others.
-/

namespace Scriptlet

namespace Scope

variable {name : Text} {params : List Text} {args : List Value}

/-- The first parameter takes the first argument, and the others take the others. -/
theorem bindParams_cons (s : Scope) (param : Text) (params : List Text) (args : List Value) :
    s.bindParams (param :: params) args =
      (s.bind param (args.headD .undefined)).bindParams params args.tail := by
  cases args <;> rfl

/-- A name is bound by a call just if a parameter has it. -/
theorem argument?_eq_none_iff : argument? name params args = none ↔ name ∉ params := by
  induction params generalizing args with
  | nil => exact iff_of_true rfl List.not_mem_nil
  | cons param params ih =>
    rw [argument?, Option.or_eq_none_iff, ih, List.mem_cons, not_or, and_comm]
    refine and_congr_left fun _ => ?_
    by_cases h : param = name
    · rw [if_pos h]
      exact iff_of_false (Option.some_ne_none _) fun hne => hne h.symm
    · rw [if_neg h]
      exact iff_of_true rfl (Ne.symm h)

/-- **The last parameter of a name decides** what a call binds the name to. -/
theorem argument?_of_last {i : Nat} (hi : params[i]? = some name)
    (hlast : ∀ j, i < j → params[j]? ≠ some name) :
    argument? name params args = some (args.getD i .undefined) := by
  induction params generalizing i args with
  | nil => cases hi
  | cons param params ih =>
    rw [argument?]
    cases i with
    | zero =>
      obtain rfl : param = name := Option.some.inj hi
      have hnone : argument? param params args.tail = none := by
        refine argument?_eq_none_iff.mpr fun hmem => ?_
        obtain ⟨j, hj⟩ := List.getElem?_of_mem hmem
        exact hlast (j + 1) (Nat.succ_pos j) hj
      rw [hnone, if_pos rfl, Option.none_or]
      cases args <;> rfl
    | succ i =>
      have hrest : argument? name params args.tail = some (args.tail.getD i .undefined) :=
        ih hi fun j hj => hlast (j + 1) (Nat.succ_lt_succ hj)
      rw [hrest, Option.some_or]
      cases args <;> rfl

/-- Arguments may be cut off or filled up to the number of parameters. -/
theorem bindParams_takeD (s : Scope) (params : List Text) (args : List Value) :
    s.bindParams params (args.takeD params.length .undefined) = s.bindParams params args := by
  induction params generalizing s args with
  | nil => rfl
  | cons param params ih =>
    rw [List.length_cons, List.takeD_succ, bindParams_cons, bindParams_cons, List.tail_cons, ih,
      List.headD_cons, List.headD_eq_head?_getD]

end Scope

/-- **Only as many arguments count as there are parameters**, and the scope that a call comes from
does not count at all. -/
theorem call_closure_takeD {w : World} (h : w.verbosity = 0) (bound : Nat) (f : Closure)
    (scope caller : ScopeId) (args : List Value) :
    call bound (.closure f) scope args w =
      call bound (.closure f) caller (args.takeD f.params.length .undefined) w := by
  cases bound with
  | zero => rw [call_zero, call_zero]
  | succ bound =>
    have hsilent : ∀ (text : Unit → Text) (k : Unit → Run Value),
        (tell 2 text >>= k) w = k () w := by
      intro text k
      simp only [Bind.bind, EStateM.bind, tell_of_silent h Nat.two_pos text]
    rw [call_closure, call_closure, hsilent, hsilent]
    simp only [Scope.bindParams_takeD]

/-- **What a body starts from.**  In every world, the body of a call starts in a scope that the call
has added, unless the trace takes the event of the call and cannot write it, and then no body
starts.  There a name that parameters have is bound to the argument at the position of the last of
them, or to undefined if there are fewer arguments, whatever the captured scope binds it to.  Every
other name is bound as it is in the captured scope when the call starts, or not bound if it is not
bound there.  So, as long as nothing is traced, the call does the same from any scope, and the same
with the arguments cut off or filled up to the number of parameters. -/
theorem call_binds_parameters (bound : Nat) (f : Closure) (scope : ScopeId) (args : List Value)
    (w : World) :
    ((∃ reason, w.Takes 2 ∧ (f.event args).encode = .error reason ∧
        call (bound + 1) (.closure f) scope args w = .error (.unwritable .trace reason) w) ∨
      ∃ inner entry, w.scopes.size ≤ inner ∧ w.Extends entry ∧
        call (bound + 1) (.closure f) scope args w =
          (executeBlock bound f.body inner >>= fun outcome => pure outcome.toValue) entry ∧
        (∀ name i, f.params[i]? = some name → (∀ j, i < j → f.params[j]? ≠ some name) →
          (entry.scopeAt inner).get? name = some (args.getD i .undefined)) ∧
        ∀ name, name ∉ f.params →
          (entry.scopeAt inner).get? name = (w.scopeAt f.scope).get? name) ∧
    (w.verbosity = 0 → ∀ caller, call bound (.closure f) scope args w =
      call bound (.closure f) caller (args.takeD f.params.length .undefined) w) := by
  constructor
  · refine (call_closure_entry bound f scope args w).imp id ?_
    rintro ⟨inner, entry, hnew, -, hext, hscope, hcall⟩
    refine ⟨inner, entry, hnew, hext, hcall, fun name i hi hlast => ?_, fun name hname => ?_⟩
    · rw [hscope, Scope.get?_bindParams, Scope.argument?_of_last hi hlast, Option.some_or]
    · rw [hscope, Scope.get?_bindParams, Scope.argument?_eq_none_iff.mpr hname, Option.none_or]
  · exact fun h caller => call_closure_takeD h bound f scope caller args

/-- The theorem for a function with two parameters that are called `print`, as a builtin of the
captured scope is, with too few arguments for them and then with too many. -/
theorem call_binds_parameters_print :
    (∃ inner entry,
      call 9 (.closure ⟨1, "f", ["print", "x", "print"], [.returning (.identifier "x")], 0⟩) 0
          [.boolean true, .string "a"] (World.fresh 0) =
        (executeBlock 8 [.returning (.identifier "x")] inner >>= fun outcome =>
          pure outcome.toValue) entry ∧
      (entry.scopeAt inner).get? "print" = some .undefined ∧
      (entry.scopeAt inner).get? "x" = some (.string "a") ∧
      (entry.scopeAt inner).get? "y" = none) ∧
    (World.fresh 0).verbosity = 0 ∧
    call 9 (.closure ⟨1, "f", ["print", "x"], [.returning (.identifier "x")], 0⟩) 0
        [.boolean true, .string "a", .string "b"] (World.fresh 0) =
      call 9 (.closure ⟨1, "f", ["print", "x"], [.returning (.identifier "x")], 0⟩) 5
        [.boolean true, .string "a"] (World.fresh 0) := by
  refine ⟨?_, rfl, (call_binds_parameters 9 _ 0 _ (World.fresh 0)).2 rfl 5⟩
  obtain ⟨inner, entry, -, -, hcall, hparams, hothers⟩ := (call_binds_parameters 8
    ⟨1, "f", ["print", "x", "print"], [.returning (.identifier "x")], 0⟩ 0
    [.boolean true, .string "a"] (World.fresh 0)).1.resolve_left (by
      rintro ⟨reason, htakes, -⟩
      cases htakes.1)
  refine ⟨inner, entry, hcall, hparams "print" 2 rfl ?_, hparams "x" 1 rfl ?_, ?_⟩
  · rintro (_ | _ | _ | j) hj <;> first | omega | nofun
  · rintro (_ | _ | _ | j) hj <;> first | omega | decide | nofun
  · exact (hothers "y" (by decide)).trans rfl

end Scriptlet
