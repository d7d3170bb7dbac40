import Scriptlet.Proofs.Changes

/-!
# The life of a trace

A trace is open from the start if it takes anything.  A run opens it again and closes it at its
end, however it ends, and nothing else opens or closes it.  So what a sequence of operations does to
the trace depends on whether there was a run among those before, even if it failed.

* `Operation` is what a host can ask for: runs, single evaluations, executions, calls and operators,
  and changes of its own that leave the trace alone.  `performAll` performs a sequence of them on
  a world, whether they fail or not.
* `World.Recounts` is what every walk does to a trace: it appends events of levels above 1, and none
  to a trace that is closed.  It holds across the elementary changes.
* `ensures_ran` says what a run appends, and `tracing_performAll` after which operations the trace
  is open.
* `trace_life` puts them together for one more operation after any others, and `trace_prefix` says
  of whole sequences that the trace only grows.
* `finished_text_iff` says how the end of a run reads where nothing but the text is left.
-/

namespace Scriptlet

/-- The event that a run begins with. -/
def Event.started (count : Nat) : Event :=
  ⟨1, "run program with " ++ toString count ++ " statements"⟩

/-- The event that a run ends with when it returns a value that reads so. -/
def Event.finished (line : String) : Event := ⟨1, "program finished -> " ++ line⟩

theorem Event.started_ne_finished (count : Nat) (line : String) :
    Event.started count ≠ .finished line := by
  intro h
  have htext := congrArg (fun event => event.text.toList.head?) h
  simp [started, finished] at htext

/-! ## What a walk tells -/

namespace World

/-- The trace has been told of more, but of no program, and nothing if it was closed.  It is open
or closed as before. -/
structure Recounts (w v : World) : Prop where
  verbosity : v.verbosity = w.verbosity
  tracing : v.tracing = w.tracing
  trace : ∃ events, v.trace.toList = w.trace.toList ++ events ∧
    ∀ event ∈ events, event.IsTold ∧ 1 < event.level ∧ w.Takes event.level

variable {u v w : World}

theorem Recounts.of_trace_eq (hverbosity : v.verbosity = w.verbosity)
    (htracing : v.tracing = w.tracing) (htrace : v.trace = w.trace) : w.Recounts v :=
  ⟨hverbosity, htracing, [], by rw [htrace, List.append_nil], nofun⟩

theorem Recounts.refl (w : World) : w.Recounts w := .of_trace_eq rfl rfl rfl

theorem Recounts.trans (u v w : World) (h : u.Recounts v) (h' : v.Recounts w) : u.Recounts w := by
  obtain ⟨hverbosity, htracing, events, htrace, hevents⟩ := h
  obtain ⟨hverbosity', htracing', events', htrace', hevents'⟩ := h'
  refine ⟨hverbosity'.trans hverbosity, htracing'.trans htracing, events ++ events', ?_, ?_⟩
  · rw [htrace', htrace, List.append_assoc]
  · refine List.forall_mem_append.mpr ⟨hevents, fun event hevent => ?_⟩
    obtain ⟨htold, hlevel, hopen, hle⟩ := hevents' event hevent
    exact ⟨htold, hlevel, htracing ▸ hopen, hverbosity ▸ hle⟩

theorem Changes.recounts (h : w.Changes v) : w.Recounts v := by
  cases h with
  | @record level line hlevel htold htakes =>
    refine ⟨rfl, rfl, [⟨level, line⟩], Array.toList_push, fun event hevent => ?_⟩
    rw [List.mem_singleton.mp hevent]
    exact ⟨htold, hlevel, htakes⟩
  | latest | print | note | bind | addScope | issueIdentity => exact .of_trace_eq rfl rfl rfl

/-- **A walk appends to the trace events of levels above 1, and none if the trace is closed.** -/
theorem Leads.recounts (h : w.Leads v) : w.Recounts v :=
  h.lift Recounts.refl Recounts.trans fun _ _ => Changes.recounts

end World

/-! ## What a run tells -/

/-- A world in which a run has come to its end: the trace is closed, and it was told of the
beginning of the run, of what the walks told it, and of the end. -/
structure World.Ran (w : World) (count : Nat) (ending : List Event) (v : World) : Prop where
  verbosity : v.verbosity = w.verbosity
  tracing : v.tracing = false
  trace : ∃ between, v.trace.toList = w.trace.toList ++ (.started count :: between ++ ending) ∧
    ∀ event ∈ between, event.IsTold ∧ 1 < event.level ∧ event.level ≤ w.verbosity

/-- The world in which a run has told of its beginning. -/
def World.begun (w : World) (count : Nat) : World :=
  { w.opened with trace := w.trace.push (.started count) }

/-- What is left to do for a run after its walks is to tell of the end and to close the trace. -/
theorem World.Recounts.ran {w u v : World} {count : Nat} {ending : List Event}
    (h : (w.begun count).Recounts u) (htrace : v.trace.toList = u.trace.toList ++ ending)
    (hverbosity : v.verbosity = u.verbosity) (hclosed : v.tracing = false) :
    w.Ran count ending v := by
  obtain ⟨hkept, -, between, hbetween, hevents⟩ := h
  refine ⟨hverbosity.trans hkept, hclosed, between, ?_, fun event hevent => ?_⟩
  · rw [htrace, hbetween, World.begun, Array.toList_push]
    simp only [List.append_assoc, List.cons_append, List.nil_append]
  · obtain ⟨htold, hlevel, -, hle⟩ := hevents event hevent
    exact ⟨htold, hlevel, hle⟩

theorem ensures_closingTrace {m : Run Value} {w : World} {Q : Value → World → Prop}
    {E : Fault → World → Prop} : Ensures (closingTrace m) w Q E ↔
      Ensures m w (fun a v => Q a { v with tracing := false })
        fun fault v => E fault { v with tracing := false } := by
  unfold Ensures closingTrace
  cases m w <;> exact Iff.rfl

/-- What a run appends to the trace last: its result as it reads, if it returns one. -/
inductive LastEvents : EStateM.Result Fault World Value → List Event → Prop
  | returned {result : Value} {line : String} (h : result.display = .plain line) (v : World) :
      LastEvents (.ok result v) [.finished line]
  | failed (fault : Fault) (v : World) : LastEvents (.error fault v) []

/-- **A run tells of its beginning first, of its result last if it has one, and closes the trace in
any case.**  A result that cannot be told is none. -/
theorem ensures_ran (bound : Nat) (body : List Node) (scope : ScopeId) {w : World}
    (hverbosity : 1 ≤ w.verbosity) :
    Ensures (run bound body scope) w
      (fun result v => ∃ line, result.display = .plain line ∧
        w.Ran body.length [.finished line] v)
      fun _ v => w.Ran body.length [] v := by
  have hopened : w.opened.Takes 1 := ⟨decide_eq_true hverbosity, hverbosity⟩
  have hprogram := elementary_executeProgram bound scope .undefined body
  show Ensures (closingTrace (runBody bound body scope)) w.opened _ _
  simp only [ensures_closingTrace, runBody, ensures_bind, ensures_pure]
  refine ensures_tell (fun hnot => absurd hopened hnot) (fun line _ hline => ?_) ?_
  · obtain rfl := Text.plain.inj hline
    refine (hprogram (w.begun body.length) trivial).mono ?_ ?_
    · rintro result u ⟨-, hu, -⟩
      have htakes : u.Takes 1 :=
        ⟨hu.recounts.tracing.trans hopened.1, hu.recounts.verbosity.symm ▸ hopened.2⟩
      refine ensures_tell (fun hnot => absurd htakes hnot) (fun line _ hline => ?_) fun _ _ _ => ?_
      · obtain ⟨shown, hshown, rfl⟩ := Text.plain_append_eq_plain_iff.mp hline
        exact ⟨shown, hshown, hu.recounts.ran Array.toList_push rfl rfl⟩
      · exact hu.recounts.ran (List.append_nil _).symm rfl rfl
    · rintro fault u ⟨hu, -⟩
      exact hu.recounts.ran (List.append_nil _).symm rfl rfl
  · intro reason _ hreason
    cases hreason

theorem ran_run (bound : Nat) (body : List Node) (scope : ScopeId) {w : World}
    (hverbosity : 1 ≤ w.verbosity) :
    ∃ last, LastEvents (run bound body scope w) last ∧
      w.Ran body.length last (stateAfter (run bound body scope) w) := by
  have hran := ensures_ran bound body scope hverbosity
  unfold Ensures at hran
  unfold stateAfter
  cases hrun : run bound body scope w with
  | ok result v =>
    rw [hrun] at hran
    obtain ⟨line, hline, hran⟩ := hran
    exact ⟨_, .returned hline v, hran⟩
  | error fault v =>
    rw [hrun] at hran
    exact ⟨_, .failed fault v, hran⟩

/-! ## Sequences of operations -/

/-- What a host can do with a world. -/
inductive Operation where
  | run (bound : Nat) (body : List Node) (scope : ScopeId)
  | evaluate (bound : Nat) (node : Node) (scope : ScopeId)
  | execute (bound : Nat) (node : Node) (scope : ScopeId)
  | call (bound : Nat) (f : Value) (scope : ScopeId) (args : List Value)
  | operate (operator : Json) (a b : Value)
  /-- The host makes of the world whatever it likes, but leaves the trace alone. -/
  | arrange (u : World)

namespace Operation

/-- The world after an operation, whether it fails or not. -/
def perform : Operation → World → World
  | run bound body scope, w => stateAfter (Scriptlet.run bound body scope) w
  | evaluate bound node scope, w => stateAfter (Scriptlet.evaluate bound node scope) w
  | execute bound node scope, w => stateAfter (Scriptlet.execute bound node scope) w
  | call bound f scope args, w => stateAfter (Scriptlet.call bound f scope args) w
  | operate operator a b, w => stateAfter (applyOperator operator a b) w
  | arrange u, w => { u with verbosity := w.verbosity, tracing := w.tracing, trace := w.trace }

/-- Whether the operation is a run. -/
def isRun : Operation → Bool
  | run .. => true
  | _ => false

/-- Operations that are no runs neither open nor close the trace, and tell it of no program. -/
theorem recounts_perform {o : Operation} (h : o.isRun = false) (w : World) :
    w.Recounts (o.perform w) := by
  cases o with
  | run => cases h
  | evaluate bound node scope => exact (((moderate bound).evaluate node scope).leads w).recounts
  | execute bound node scope => exact (((moderate bound).execute node scope).leads w).recounts
  | call bound f scope args => exact (((moderate bound).call f scope args).leads w).recounts
  | operate operator a b => exact ((elementary_applyOperator operator a b).leads w).recounts
  | arrange u => exact .of_trace_eq rfl rfl rfl

end Operation

/-- The world after a sequence of operations, some of which may have failed. -/
def performAll (operations : List Operation) (w : World) : World :=
  operations.foldl (fun w o => o.perform w) w

theorem performAll_append (operations : List Operation) (o : Operation) (w : World) :
    performAll (operations ++ [o]) w = o.perform (performAll operations w) :=
  List.foldl_append

theorem verbosity_perform (o : Operation) {w : World} (h : 1 ≤ w.verbosity) :
    (o.perform w).verbosity = w.verbosity := by
  cases ho : o.isRun with
  | false => exact (Operation.recounts_perform ho w).verbosity
  | true =>
    cases o with
    | run bound body scope =>
      obtain ⟨_, -, hran⟩ := ran_run bound body scope h
      exact hran.verbosity
    | _ => cases ho

/-- An operation only appends to the trace. -/
theorem prefix_perform (o : Operation) {w : World} (h : 1 ≤ w.verbosity) :
    w.trace.toList <+: (o.perform w).trace.toList := by
  cases ho : o.isRun with
  | false =>
    obtain ⟨events, htrace, -⟩ := (Operation.recounts_perform ho w).trace
    exact ⟨events, htrace.symm⟩
  | true =>
    cases o with
    | run bound body scope =>
      obtain ⟨_, -, hran⟩ := ran_run bound body scope h
      obtain ⟨between, htrace, -⟩ := hran.trace
      exact ⟨_, htrace.symm⟩
    | _ => cases ho

/-- **The trace is open until the first run has ended.** -/
theorem tracing_performAll (operations : List Operation) {w : World} (hverbosity : 1 ≤ w.verbosity)
    (hopen : w.tracing = true) :
    (performAll operations w).verbosity = w.verbosity ∧
      (performAll operations w).tracing = !operations.any Operation.isRun := by
  induction operations using List.reverseRecOn with
  | nil => exact ⟨rfl, hopen⟩
  | append_singleton operations o ih =>
    obtain ⟨hkept, htracing⟩ := ih
    have hlevel : 1 ≤ (performAll operations w).verbosity := hkept.symm ▸ hverbosity
    rw [performAll_append, verbosity_perform o hlevel, List.any_append, List.any_cons, List.any_nil,
      Bool.or_false]
    refine ⟨hkept, ?_⟩
    cases ho : o.isRun with
    | false => rw [(Operation.recounts_perform ho _).tracing, htracing, Bool.or_false]
    | true =>
      rw [Bool.or_true]
      cases o with
      | run bound body scope =>
        obtain ⟨_, -, hran⟩ := ran_run bound body scope hlevel
        exact hran.tracing
      | _ => cases ho

/-- The world of an interpreter that began with this verbosity, after a sequence of operations. -/
def session (verbosity : Nat) (operations : List Operation) : World :=
  performAll operations (.fresh verbosity)

theorem session_append (verbosity : Nat) (operations : List Operation) (o : Operation) :
    session verbosity (operations ++ [o]) = o.perform (session verbosity operations) :=
  performAll_append operations o _

theorem tracing_session {verbosity : Nat} (hverbosity : 1 ≤ verbosity)
    (operations : List Operation) : (session verbosity operations).verbosity = verbosity ∧
      (session verbosity operations).tracing = !operations.any Operation.isRun :=
  tracing_performAll operations hverbosity (decide_eq_true hverbosity)

/-- What a trace holds it holds for ever. -/
theorem trace_prefix {verbosity : Nat} (hverbosity : 1 ≤ verbosity)
    (before after : List Operation) :
    (session verbosity before).trace.toList <+:
      (session verbosity (before ++ after)).trace.toList := by
  induction after using List.reverseRecOn with
  | nil => rw [List.append_nil]
  | append_singleton after o ih =>
    rw [← List.append_assoc, session_append]
    refine ih.trans (prefix_perform o ?_)
    exact hverbosity.trans_eq (tracing_session hverbosity (before ++ after)).1.symm

/-- The last event of a run tells of its result just if there is one. -/
theorem getLast?_started {count : Nat} {between : List Event}
    (hbetween : ∀ event ∈ between, 1 < event.level) {ending : EStateM.Result Fault World Value}
    {last : List Event} (h : LastEvents ending last) :
    (∃ line, (Event.started count :: between ++ last).getLast? = some (.finished line)) ↔
      ∃ result v, ending = .ok result v := by
  cases h with
  | @returned result line hline v =>
    exact ⟨fun _ => ⟨result, v, rfl⟩, fun _ => ⟨line, List.getLast?_concat⟩⟩
  | failed fault v =>
    refine ⟨fun ⟨line, hlast⟩ => ?_, fun ⟨_, _, h⟩ => nomatch h⟩
    rw [List.append_nil] at hlast
    rcases List.mem_cons.mp (List.mem_of_getLast? hlast) with h | h
    · exact absurd h.symm (Event.started_ne_finished count line)
    · exact absurd (hbetween _ h) (Nat.lt_irrefl 1)

/-- **The life of a trace.**  Let any operations be performed on a new interpreter that traces, and
then one more; any of them may fail.

* The last one only appends to the trace.
* If it is no run, and there was a run before, it appends nothing.
* If it is a run, it appends the event with the number of its statements first, then events of
  levels above 1, and as the very last the event for its result, just if it returns one.  The trace
  is closed afterwards.

A line that shows an operator may read like the last line of a run; it is told from it by its
level. -/
theorem trace_life {verbosity : Nat} (hverbosity : 1 ≤ verbosity) (before : List Operation)
    (o : Operation) :
    ∃ events,
      (session verbosity (before ++ [o])).trace.toList =
        (session verbosity before).trace.toList ++ events ∧
      (o.isRun = false → before.any Operation.isRun = true → events = []) ∧
      ∀ bound body scope, o = .run bound body scope →
        (session verbosity (before ++ [o])).tracing = false ∧
        (∃ between last, (∀ event ∈ between, 1 < event.level ∧ event.level ≤ verbosity) ∧
          LastEvents (run bound body scope (session verbosity before)) last ∧
          events = .started body.length :: between ++ last) ∧
        ((∃ line, events.getLast? = some (.finished line)) ↔
          ∃ result v, run bound body scope (session verbosity before) = .ok result v) := by
  obtain ⟨hkept, htracing⟩ := tracing_session hverbosity before
  rw [session_append]
  cases ho : o.isRun with
  | false =>
    have hrecounts := Operation.recounts_perform ho (session verbosity before)
    obtain ⟨events, htrace, hevents⟩ := hrecounts.trace
    refine ⟨events, htrace, fun _ hran => ?_, ?_⟩
    · rw [hran] at htracing
      exact List.eq_nil_iff_forall_not_mem.mpr fun event hevent =>
        Bool.false_ne_true (htracing.symm.trans (hevents event hevent).2.2.1)
    · rintro bound body scope rfl
      cases ho
  | true =>
    cases o with
    | run bound body scope =>
      obtain ⟨last, hlast, hran⟩ := ran_run bound body scope (hverbosity.trans_eq hkept.symm)
      obtain ⟨between, htrace, hbetween⟩ := hran.trace
      refine ⟨_, htrace, fun h => (nomatch h), ?_⟩
      rintro _ _ _ ⟨⟩
      refine ⟨hran.tracing, ⟨between, last, fun event hevent => ?_, hlast, rfl⟩, ?_⟩
      · exact hkept ▸ (hbetween event hevent).2
      · exact getLast?_started (fun event hevent => (hbetween event hevent).2.1) hlast
    | _ => cases ho

/-- The theorem for an operator that is applied after a run that failed: however much the trace
takes, it stays as it was. -/
theorem trace_life_operate : 1 ≤ 3 ∧
    (session 3 ([.run 9 [.expression (.call (.identifier "f") [])] 0] ++
        [.operate (.string "+") (.string "a") (.string "b")])).trace.toList =
      (session 3 [.run 9 [.expression (.call (.identifier "f") [])] 0]).trace.toList := by
  have hverbosity : 1 ≤ 3 := by decide
  obtain ⟨events, htrace, hnone, -⟩ := trace_life hverbosity
    [.run 9 [.expression (.call (.identifier "f") [])] 0]
    (.operate (.string "+") (.string "a") (.string "b"))
  rw [hnone rfl rfl, List.append_nil] at htrace
  exact ⟨hverbosity, htrace⟩

/-! ## Reading the lines alone -/

/-- No line of level 2 reads like the last one of a run. -/
theorem not_tells_finished (line : String) :
    ¬ Tells 2 ("program finished -> " ++ line : String) := by
  intro h
  generalize htext : Text.plain ("program finished -> " ++ line) = text at h
  have hhead := congrArg (fun t : Text => t.symbols.head?) htext
  cases h with
  | defined | called | calledBuiltin => simp [Text.symbols] at hhead

/-- As long as no operators are traced, the text of the last line alone says whether a run has
returned. -/
theorem finished_text_iff {verbosity : Nat} (hverbosity : 1 ≤ verbosity) (hle : verbosity ≤ 2)
    (before : List Operation) (bound : Nat) (body : List Node) (scope : ScopeId) :
    (∃ event text, (session verbosity (before ++ [.run bound body scope])).trace.toList.getLast? =
        some event ∧ event.text = "program finished -> " ++ text) ↔
      ∃ result v, run bound body scope (session verbosity before) = .ok result v := by
  obtain ⟨hkept, -⟩ := tracing_session hverbosity before
  obtain ⟨last, hlast, hran⟩ := ran_run bound body scope (hverbosity.trans_eq hkept.symm)
  obtain ⟨between, htrace, hbetween⟩ := hran.trace
  rw [session_append]
  show (∃ event text,
    (stateAfter (run bound body scope) _).trace.toList.getLast? = some event ∧ _) ↔ _
  rw [htrace]
  generalize run bound body scope (session verbosity before) = ending at hlast ⊢
  cases hlast with
  | @returned result line hline v =>
    refine ⟨fun _ => ⟨result, v, rfl⟩, fun _ => ⟨.finished line, line, ?_, rfl⟩⟩
    rw [← List.append_assoc]
    exact List.getLast?_concat
  | failed fault v =>
    refine ⟨fun ⟨event, text, hlast, htext⟩ => ?_, fun ⟨_, _, h⟩ => nomatch h⟩
    rw [List.append_nil, List.getLast?_append_cons] at hlast
    rcases List.mem_cons.mp (List.mem_of_getLast? hlast) with h | h
    · rw [h] at htext
      have hhead := congrArg (fun s : String => s.toList.take 9) htext
      simp [Event.started] at hhead
    · obtain ⟨htold, hlevel, hlevels⟩ := hbetween event h
      have hsecond : event.level = 2 :=
        Nat.le_antisymm ((hlevels.trans_eq hkept).trans hle) hlevel
      rw [Event.IsTold, hsecond, htext] at htold
      exact absurd htold (not_tells_finished text)

end Scriptlet
