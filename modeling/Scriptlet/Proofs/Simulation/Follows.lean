import Scriptlet.Proofs.Operators
import Scriptlet.Proofs.Simulation.Likeness
import Scriptlet.Proofs.Writing

/-!
# Computations that a likeness relates

Two computations are compared from two worlds on, the *origins*.  What has happened since then is
all that has to agree: what was printed, what was noted and what the traces were told of.

* `Tells` lists the lines that traces are told, with their levels.
* `Likeness.Since` says that the same has happened in two worlds since their origins.  The first
  trace may take more events than the second, and then the second has taken those of its levels.
* `Likeness.Follows` says of two computations that the second does what the first does: it ends in
  the same way, with a result that is alike, as long as the first has not ended in a fault that
  escapes the comparison.  There is one rule for each operation on worlds.
-/

namespace Scriptlet

/-! ## Events -/

/-- The lines that traces are told: those of level 1 tell of programs, of level 2 of declarations
and calls, of level 3 of conditions, returns and operators. -/
inductive Tells : Nat → Text → Prop
  | started (count : Nat) : Tells 1 ("run program with " ++ toString count ++ " statements")
  | finished (result : Value) : Tells 1 ("program finished -> " ++ result.display)
  | defined (name : Text) (params : List Text) :
      Tells 2 ("define function " ++ name ++ "(" ++ Text.intercalate ", " params ++ ")")
  | called (name : Text) (args : List Value) :
      Tells 2 ("call " ++ name ++ "(" ++ displayAll ", " args ++ ")")
  | calledBuiltin (name : Text) (args : List Value) :
      Tells 2 ("call builtin " ++ name ++ " with " ++ toString args.length ++ " arguments")
  | tested (value : Value) :
      Tells 3 ("if condition " ++ value.display ++ " -> " ++ truthName value.isTruthy)
  | returned (value : Value) : Tells 3 ("return " ++ value.display)
  | operated (operator : Json) (a b result : Value) : Tells 3 (operatorLine operator a b result)

/-- No line has level 0. -/
theorem Tells.level_pos {level : Nat} {text : Text} (h : Tells level text) : 0 < level := by
  cases h <;> exact Nat.succ_pos _

/-- The events that there are. -/
def Event.IsTold (event : Event) : Prop := Tells event.level event.text

namespace Likeness

variable (L : Likeness)

/-! ## What has happened -/

/-- Notes of calls that stand for each other. -/
structure NotesAlike (m n : Note) : Prop where
  name : m.name = n.name
  arguments : List.Forall₂ L.Alike m.arguments n.arguments
  scope : L.scope m.scope n.scope
  names : m.names = n.names

/-- The same has happened in two worlds since their origins, and what builtins answer with and the
levels of the traces have not changed at all. -/
structure Since (w₀ v₀ w v : World) : Prop where
  output : ∃ lines, w.output.toList = w₀.output.toList ++ lines ∧
    v.output.toList = v₀.output.toList ++ lines
  notes : ∃ ms ns, w.notes.toList = w₀.notes.toList ++ ms ∧
    v.notes.toList = v₀.notes.toList ++ ns ∧ List.Forall₂ L.NotesAlike ms ns
  replies : w.replies = w₀.replies ∧ v.replies = v₀.replies
  verbosity : w.verbosity = w₀.verbosity ∧ v.verbosity = v₀.verbosity
  trace : ∃ events, w.trace.toList = w₀.trace.toList ++ events ∧
    v.trace.toList =
      v₀.trace.toList ++ events.filter (fun event => event.level ≤ v₀.verbosity) ∧
    ∀ event ∈ events, event.IsTold ∧ event.level ≤ w₀.verbosity

/-- The first trace may take more than the second if a first walk that cannot write its trace is
not compared. -/
def Traces (w v : World) : Prop :=
  v.verbosity = w.verbosity ∨
    v.verbosity ≤ w.verbosity ∧ ∀ reason, L.escapes (.unwritable .trace reason)

/-- The worlds of two walks: their heaps are alike, the same has happened since the origins, and
the second trace takes what the first takes and its verbosity allows. -/
structure Worlds (w₀ v₀ w v : World) : Prop where
  heaps : L.Heaps w v
  since : L.Since w₀ v₀ w v
  takes : ∀ level, 0 < level → (v.Takes level ↔ w.Takes level ∧ level ≤ v.verbosity)
  traces : L.Traces w v

variable {L} {w₀ v₀ w v : World}

/-- A second trace takes at most the levels of the first. -/
theorem Traces.verbosity_le (h : L.Traces w v) : v.verbosity ≤ w.verbosity :=
  h.elim Nat.le_of_eq And.left

variable (L) in
/-- At first nothing has happened. -/
theorem since_refl (w v : World) : L.Since w v w v where
  output := ⟨[], (List.append_nil _).symm, (List.append_nil _).symm⟩
  notes := ⟨[], [], (List.append_nil _).symm, (List.append_nil _).symm, .nil⟩
  replies := ⟨rfl, rfl⟩
  verbosity := ⟨rfl, rfl⟩
  trace := ⟨[], (List.append_nil _).symm, (List.append_nil _).symm, nofun⟩

namespace Since

variable (h : L.Since w₀ v₀ w v)

include h

/-- Printing the same line is the same happening. -/
theorem print (line : String) : L.Since w₀ v₀ (w.print line) (v.print line) where
  output := by
    obtain ⟨lines, hw, hv⟩ := h.output
    refine ⟨lines ++ [line], ?_, ?_⟩
    · rw [World.print, Array.toList_push, hw, List.append_assoc]
    · rw [World.print, Array.toList_push, hv, List.append_assoc]
  notes := h.notes
  replies := h.replies
  verbosity := h.verbosity
  trace := h.trace

theorem note {m n : Note} (hmn : L.NotesAlike m n) :
    L.Since w₀ v₀ { w with notes := w.notes.push m } { v with notes := v.notes.push n } where
  output := h.output
  notes := by
    obtain ⟨ms, ns, hw, hv, hms⟩ := h.notes
    refine ⟨ms ++ [m], ns ++ [n], ?_, ?_, List.rel_append hms (.cons hmn .nil)⟩
    · rw [Array.toList_push, hw, List.append_assoc]
    · rw [Array.toList_push, hv, List.append_assoc]
  replies := h.replies
  verbosity := h.verbosity
  trace := h.trace

/-- One more event for the first trace, and for the second if it reaches to that level. -/
theorem trace_record {level : Nat} {line : String} (htold : Tells level line) (hw : w.Takes level)
    {trace : List Event} (htrace : trace = v.trace.toList ++
      [⟨level, line⟩].filter fun event => event.level ≤ v₀.verbosity) :
    ∃ events, (w.record level line).trace.toList = w₀.trace.toList ++ events ∧
      trace = v₀.trace.toList ++ events.filter (fun event => event.level ≤ v₀.verbosity) ∧
      ∀ event ∈ events, event.IsTold ∧ event.level ≤ w₀.verbosity := by
  obtain ⟨events, hwtrace, hvtrace, hevents⟩ := h.trace
  refine ⟨events ++ [⟨level, line⟩], ?_, ?_, ?_⟩
  · rw [World.record, Array.toList_push, hwtrace, List.append_assoc]
  · rw [htrace, hvtrace, List.filter_append, List.append_assoc]
  · intro event hevent
    rcases List.mem_append.mp hevent with hevent | hevent
    · exact hevents event hevent
    · rw [List.mem_singleton.mp hevent]
      exact ⟨htold, h.verbosity.1 ▸ hw.2⟩

end Since

/-- Traces that take the same levels have taken the same. -/
theorem Since.traced (h : L.Since w₀ v₀ w v) (hverbosity : w₀.verbosity = v₀.verbosity) :
    ∃ events, w.trace.toList = w₀.trace.toList ++ events ∧
      v.trace.toList = v₀.trace.toList ++ events := by
  obtain ⟨events, hw, hv, htold⟩ := h.trace
  have hall : events.filter (fun event => event.level ≤ v₀.verbosity) = events :=
    List.filter_eq_self.mpr fun event hevent =>
      decide_eq_true (hverbosity ▸ (htold event hevent).2)
  rw [hall] at hv
  exact ⟨events, hw, hv⟩

/-- Where both walks began in the same world, the same has been printed and traced. -/
theorem Since.eq_of_origin {u : World} (h : L.Since u u w v) :
    w.output = v.output ∧ w.trace = v.trace := by
  obtain ⟨lines, hw, hv⟩ := h.output
  obtain ⟨events, hw', hv'⟩ := h.traced rfl
  exact ⟨Array.toList_inj.mp (hw.trans hv.symm), Array.toList_inj.mp (hw'.trans hv'.symm)⟩

namespace Worlds

variable (h : L.Worlds w₀ v₀ w v)

include h

/-- What has happened is a matter of the output, the notes and the trace, so a change of the heaps
alone makes no difference to it. -/
theorem of_heaps {w' v' : World} (hheaps : L.Heaps w' v')
    (hw : w' =
      { w with scopes := w'.scopes, nextIdentity := w'.nextIdentity, latest := w'.latest })
    (hv : v' =
      { v with scopes := v'.scopes, nextIdentity := v'.nextIdentity, latest := v'.latest }) :
    L.Worlds w₀ v₀ w' v' := by
  refine ⟨hheaps, ?_, ?_, ?_⟩
  · rw [hw, hv]
    exact ⟨h.since.output, h.since.notes, h.since.replies, h.since.verbosity, h.since.trace⟩
  · rw [hw, hv]
    exact h.takes
  · rw [hw, hv]
    exact h.traces

/-- An event that both traces take. -/
theorem record {level : Nat} {line : String} (htold : Tells level line) (hw : w.Takes level)
    (hlevel : level ≤ v.verbosity) :
    L.Worlds w₀ v₀ (w.record level line) (v.record level line) where
  heaps := h.heaps.congr rfl rfl rfl rfl rfl rfl
  since :=
    ⟨h.since.output, h.since.notes, h.since.replies, h.since.verbosity,
      h.since.trace_record htold hw (by
        have hkept : decide (level ≤ v₀.verbosity) = true :=
          decide_eq_true (h.since.verbosity.2 ▸ hlevel)
        rw [World.record, Array.toList_push, List.filter_singleton, hkept]
        rfl)⟩
  takes := h.takes
  traces := h.traces

/-- An event beyond the levels that the second trace takes. -/
theorem record_first {level : Nat} {line : String} (htold : Tells level line)
    (hw : w.Takes level) (hlevel : ¬ level ≤ v.verbosity) :
    L.Worlds w₀ v₀ (w.record level line) v where
  heaps := h.heaps.congr rfl rfl rfl rfl rfl rfl
  since :=
    ⟨h.since.output, h.since.notes, h.since.replies, h.since.verbosity,
      h.since.trace_record htold hw (by
        have hdropped : decide (level ≤ v₀.verbosity) = false :=
          decide_eq_false (h.since.verbosity.2 ▸ hlevel)
        rw [List.filter_singleton, hdropped]
        exact (List.append_nil _).symm)⟩
  takes := h.takes
  traces := h.traces

end Worlds

/-! ## Computations -/

variable {α α' β β' : Type}

variable (L) in
/-- The second computation does what the first does, unless that ends in a fault that escapes the
comparison. -/
def Follows (w₀ v₀ : World) (P : α → β → Prop) (m : Run α) (n : Run β) : Prop :=
  ∀ w v, L.Worlds w₀ v₀ w v →
    match m w with
    | .ok a w' => ∃ b v', n v = .ok b v' ∧ P a b ∧ L.Worlds w₀ v₀ w' v'
    | .error fault w' =>
      L.escapes fault ∨ ∃ v', n v = .error fault v' ∧ L.Worlds w₀ v₀ w' v'

variable {P : α → β → Prop} {Q : α' → β' → Prop}

theorem Follows.pure {a : α} {b : β} (h : P a b) :
    L.Follows w₀ v₀ P (pure a : Run α) (pure b : Run β) :=
  fun _ v hworlds => ⟨b, v, rfl, h, hworlds⟩

theorem Follows.of_escapes {fault : Fault} (h : L.escapes fault) (n : Run β) :
    L.Follows w₀ v₀ P (throw fault : Run α) n :=
  fun _ _ _ => Or.inl h

theorem Follows.throw (fault : Fault) :
    L.Follows w₀ v₀ P (throw fault : Run α) (throw fault : Run β) :=
  fun _ v hworlds => Or.inr ⟨v, rfl, hworlds⟩

theorem Follows.bind {m : Run α} {n : Run β} {k : α → Run α'} {l : β → Run β'}
    (h : L.Follows w₀ v₀ P m n) (hk : ∀ a b, P a b → L.Follows w₀ v₀ Q (k a) (l b)) :
    L.Follows w₀ v₀ Q (m >>= k) (n >>= l) := by
  intro w v hworlds
  have hmn := h w v hworlds
  simp only [Bind.bind, EStateM.bind]
  cases hm : m w with
  | ok a w' =>
    rw [hm] at hmn
    obtain ⟨b, v', hn, hab, hworlds'⟩ := hmn
    rw [hn]
    exact hk a b hab w' v' hworlds'
  | error fault w' =>
    rw [hm] at hmn
    rcases hmn with hescapes | ⟨v', hn, hworlds'⟩
    · exact Or.inl hescapes
    · rw [hn]
      exact Or.inr ⟨v', rfl, hworlds'⟩

/-- What follows a computation that refines the first follows the first as well. -/
theorem Follows.of_refines {m m' : Run α} {n : Run β} (hm : Refines L.escapes m m')
    (h : L.Follows w₀ v₀ P m' n) : L.Follows w₀ v₀ P m n := by
  intro w v hworlds
  have hfollows := h w v hworlds
  rcases hm w with hescapes | heq
  · cases hmw : m w with
    | ok a w' =>
      rw [hmw] at hescapes
      exact hescapes.elim
    | error fault w' =>
      rw [hmw] at hescapes
      exact Or.inl hescapes
  · rw [heq] at hfollows
    exact hfollows

/-- Where no fault escapes, the two always end in the same way. -/
theorem Follows.concur {m : Run α} {n : Run β} (h : L.Follows w₀ v₀ P m n)
    (hnone : ∀ fault, ¬ L.escapes fault) (hworlds : L.Worlds w₀ v₀ w v) :
    Concur P (L.Worlds w₀ v₀) m n w v := by
  have hends := h w v hworlds
  unfold Concur Relates
  cases hm : m w with
  | ok a w' =>
    rw [hm] at hends
    obtain ⟨b, v', hn, hab, hworlds'⟩ := hends
    rw [hn]
    exact ⟨hab, hworlds'⟩
  | error fault w' =>
    rw [hm] at hends
    obtain ⟨v', hn, hworlds'⟩ := hends.resolve_left (hnone fault)
    rw [hn]
    exact ⟨rfl, hworlds'⟩

/-- A result that is read off the worlds. -/
theorem Follows.get {f : World → α} {g : World → β}
    (h : ∀ w v, L.Worlds w₀ v₀ w v → P (f w) (g v)) :
    L.Follows w₀ v₀ P (do return f (← get)) (do return g (← get)) :=
  fun w v hworlds => ⟨g v, v, rfl, h w v hworlds, hworlds⟩

theorem Follows.modifyGet {f : World → α × World} {g : World → β × World}
    (h : ∀ w v, L.Worlds w₀ v₀ w v → P (f w).1 (g v).1 ∧ L.Worlds w₀ v₀ (f w).2 (g v).2) :
    L.Follows w₀ v₀ P (modifyGet f : Run α) (modifyGet g : Run β) := by
  intro w v hworlds
  obtain ⟨hresult, hworlds'⟩ := h w v hworlds
  exact ⟨(g v).1, (g v).2, rfl, hresult, hworlds'⟩

theorem Follows.modify {f g : World → World}
    (h : ∀ w v, L.Worlds w₀ v₀ w v → L.Worlds w₀ v₀ (f w) (g v)) :
    L.Follows w₀ v₀ (fun _ _ => True) (modify f : Run PUnit) (modify g : Run PUnit) :=
  fun w v hworlds => ⟨⟨⟩, g v, rfl, trivial, h w v hworlds⟩

/-! ## The operations of a walk -/

/-- A line of which both traces are told.  Whichever of them take it, they go on to have taken the
same, except for the levels that are beyond the second; and if it cannot be written, either both
runs end or the first escapes. -/
theorem follows_tell {level : Nat} {text text' : Unit → Text} (htext : text () = text' ())
    (htold : Tells level (text' ())) :
    L.Follows w₀ v₀ (fun _ _ => True) (tell level text) (tell level text') := by
  intro w v hworlds
  have htakes := hworlds.takes level htold.level_pos
  rcases tell_cases w level text with ⟨hw, htell⟩ | ⟨line, hw, hline, htell⟩ |
    ⟨reason, hw, hreason, htell⟩
  · rw [htell, tell_of_not_takes fun hv => hw (htakes.mp hv).1]
    exact ⟨(), v, rfl, trivial, hworlds⟩
  · rw [htext] at hline
    rw [htell]
    have htold' : Tells level line := hline ▸ htold
    by_cases hlevel : level ≤ v.verbosity
    · rw [tell_of_plain (htakes.mpr ⟨hw, hlevel⟩) hline]
      exact ⟨(), _, rfl, trivial, hworlds.record htold' hw hlevel⟩
    · rw [tell_of_not_takes fun hv => hlevel (htakes.mp hv).2]
      exact ⟨(), v, rfl, trivial, hworlds.record_first htold' hw hlevel⟩
  · rw [htell]
    rcases hworlds.traces with hverbosity | ⟨-, hescapes⟩
    · rw [tell_of_broken (htakes.mpr ⟨hw, hverbosity ▸ hw.2⟩) (htext ▸ hreason)]
      exact Or.inr ⟨v, rfl, hworlds⟩
    · exact Or.inl (hescapes reason)

variable {a a' b b' : Value}

theorem follows_applyOperator (ha : L.Alike a a') (hb : L.Alike b b') (operator : Json) :
    L.Follows w₀ v₀ L.Alike (applyOperator operator a b) (applyOperator operator a' b') := by
  unfold applyOperator
  rw [← ha.operate_eq hb operator, ← operatorLine_eq_of_akin ha.akin hb.akin]
  cases h : Value.operate operator a b with
  | error fault => exact Follows.throw fault
  | ok result =>
    refine Follows.bind (follows_tell rfl (.operated operator a b result)) fun _ _ _ => ?_
    exact Follows.pure (alike_of_not_isFunction (Value.isFunction_of_operate_eq_ok h))

theorem follows_lookup {i j : ScopeId} (hij : L.scope i j) {name : Text}
    (hname : L.mentions name = true) :
    L.Follows w₀ v₀ L.Alike (do return ((← get).scopeAt i).lookup name)
      (do return ((← get).scopeAt j).lookup name) :=
  Follows.get fun _ _ hworlds => (hworlds.heaps.scopes hij).lookup hname

theorem follows_bind {i j : ScopeId} (hij : L.scope i j) (name : Text) (ha : L.Alike a a') :
    L.Follows w₀ v₀ (fun _ _ => True) (modify fun w => w.bind i name a)
      (modify fun v => v.bind j name a') :=
  Follows.modify fun _ _ hworlds => hworlds.of_heaps (hworlds.heaps.bind hij name ha) rfl rfl

/-- Which value came last is nothing that a walk could see. -/
theorem follows_setLatest (a b : Value) :
    L.Follows w₀ v₀ (fun _ _ => True) (modify fun w => { w with latest := a })
      (modify fun v => { v with latest := b }) :=
  Follows.modify fun _ _ hworlds =>
    hworlds.of_heaps (hworlds.heaps.congr rfl rfl rfl rfl rfl rfl) rfl rfl

theorem follows_addClosure {i j : ScopeId} (hij : L.scope i j) (name : Text)
    {params : List Text} (hparams : ∀ param ∈ params, L.mentions param = true)
    {body body' : List Node} (hbody : L.body body body') :
    L.Follows w₀ v₀ (fun f g => L.Alike (.closure f) (.closure g))
      (modifyGet fun w => w.addClosure name params body i)
      (modifyGet fun v => v.addClosure name params body' j) :=
  Follows.modifyGet fun _ _ hworlds =>
    have h := hworlds.heaps.addClosure hij name hparams hbody
    ⟨h.1, hworlds.of_heaps h.2 rfl rfl⟩

/-- The scope that a call starts in: what was captured, with the parameters on top. -/
theorem follows_addScope {i j : ScopeId} (hij : L.scope i j) (params : List Text)
    {args args' : List Value} (hargs : List.Forall₂ L.Alike args args') :
    L.Follows w₀ v₀ L.scope
      (modifyGet fun w => w.addScope ((w.scopeAt i).bindParams params args))
      (modifyGet fun v => v.addScope ((v.scopeAt j).bindParams params args')) :=
  Follows.modifyGet fun _ _ hworlds =>
    have hscopes := (hworlds.heaps.scopes hij).bindParams params hargs
    ⟨hworlds.heaps.scope_size, hworlds.of_heaps (hworlds.heaps.addScope hscopes) rfl rfl⟩

theorem follows_print {args args' : List Value} (hargs : List.Forall₂ L.Alike args args') :
    L.Follows w₀ v₀ (fun _ _ => True) (printLine (displayAll " " args))
      (printLine (displayAll " " args')) := by
  rw [← displayAll_eq hargs]
  cases displayAll " " args with
  | plain line =>
    exact fun _ v hworlds => ⟨(), v.print line, rfl, trivial,
      hworlds.heaps.congr rfl rfl rfl rfl rfl rfl, hworlds.since.print line, hworlds.takes,
      hworlds.traces⟩
  | broken front unit rest => exact fun _ v hworlds => Or.inr ⟨v, rfl, hworlds⟩

theorem follows_takeNote {i j : ScopeId} (hij : L.scope i j) (name : Text)
    {args args' : List Value} (hargs : List.Forall₂ L.Alike args args')
    (hall : ∀ name, L.mentions name = true) :
    L.Follows w₀ v₀ (fun _ _ => True) (takeNote name i args) (takeNote name j args') :=
  Follows.modify fun _ _ hworlds =>
    have hnames := (hworlds.heaps.scopes hij).names_eq hall
    ⟨hworlds.heaps.congr rfl rfl rfl rfl rfl rfl,
      hworlds.since.note ⟨rfl, hargs, hij, hnames⟩, hworlds.takes, hworlds.traces⟩

end Likeness
end Scriptlet
