import Scriptlet.Proofs.Bindings
import Scriptlet.Proofs.Computation
import Scriptlet.Proofs.Grammar.Roles
import Scriptlet.Proofs.Operators
import Scriptlet.Proofs.Walk
import Scriptlet.Proofs.Writing

/-!
# Parsed programs are safe

A program that text spells asks for nothing that evaluation does not know, but for loops,
declarations and a few operators, and it asks for those only where they stand in the text.  What it
writes has a form in UTF-8 unless a string of the text denotes a surrogate.

* `Fault.Explained`: the faults that such a program may end with.
* `Value.Plays`: the values that it may meet.  The bodies of functions are parts of the text, so
  their statements play their roles, no builtin is there but `print`, and a surrogate in a string
  comes from the text.
* `Safe bound` collects what is shown of the four walks at one bound: nodes that play their roles
  are evaluated to such values, in worlds that hold no others, and end with such faults.
* `run_safe` is the result, and `run_unwritable` gives texts that need its last clause.
-/

namespace Scriptlet

/-! ## Signs of operators -/

/-- The operators that program text knows and the language does not. -/
def unsupportedOperators : List String :=
  ["!=", "===", "!==", "<", "<=", ">", ">=", "*", "/", "%"]

/-- Operators are written with signs. -/
theorem Token.mem_signs_of_mem_candidates {cs lexeme : List Char} {level : Level}
    (h : ⟨.operator level, lexeme⟩ ∈ candidates cs) : ⟨.operator level, lexeme⟩ ∈ signs := by
  rcases mem_candidates_cases h with
    ⟨_, _, -, h⟩ | ⟨_, _, -, h⟩ | ⟨_, _, -, -, h⟩ | ⟨_, h⟩ | h
  · cases h
  · cases h
  · cases h
  · cases h
  · exact h

/-- An operator that text knows is one of the language or one of those that are not. -/
theorem Token.unsupported_of_mem_signs {level : Level} {lexeme : List Char}
    (h : ⟨.operator level, lexeme⟩ ∈ signs)
    (hoperator : Json.string (String.ofList lexeme) ∉ Value.operators) :
    String.ofList lexeme ∈ unsupportedOperators := by
  have hsigns : ∀ level ∈ [Level.equality, .relational, .additive, .multiplicative],
      ∀ t ∈ signs, t.terminal = .operator level →
        String.ofList t.lexeme ∈ ["==", "+", "-"] ∨
          String.ofList t.lexeme ∈ unsupportedOperators := by decide
  have hlevel : level ∈ [Level.equality, .relational, .additive, .multiplicative] := by
    cases level <;> decide
  refine (hsigns level hlevel _ h rfl).resolve_left fun hmem => hoperator ?_
  exact List.mem_map_of_mem (f := fun s : String => Json.string s) hmem

theorem Lexes.mem_signs {before ts : List Token} {cs : List Char} (h : Lexes before cs ts)
    {level : Level} {lexeme : List Char} (hmem : ⟨.operator level, lexeme⟩ ∈ ts) :
    ⟨.operator level, lexeme⟩ ∈ Token.signs := by
  obtain ⟨rest, hrest⟩ := h.mem_candidates _ hmem
  exact Token.mem_signs_of_mem_candidates hrest

section Safety

variable [CharacterNames]

/-! ## Faults -/

/-- The faults that a program may end with, given the tokens that spell it. -/
inductive Fault.Explained (ts : List Token) : Fault → Prop
  | whileLoop (hword : Token.of (.keyword .whileWord) ∈ ts) :
      Explained ts (.unsupportedNode .statement "WhileStatement")
  | declaration {word : Keyword} (isDeclarator : word.isDeclarator = true)
      (hword : Token.of (.keyword word) ∈ ts) :
      Explained ts (.unsupportedNode .statement "VariableDeclaration")
  | operator {level : Level} {lexeme : List Char}
      (hunsupported : String.ofList lexeme ∈ unsupportedOperators)
      (hoperator : ⟨.operator level, lexeme⟩ ∈ ts) :
      Explained ts (.unsupportedOperator (.string (String.ofList lexeme)))
  | notCallable (description : Text) : Explained ts (.notCallable description)
  | integerTooLarge : Explained ts .integerTooLarge
  | stackExhausted : Explained ts .stackExhausted
  | unwritable (sink : Sink) (reason : Text.Unencodable) (hspelled : SpellSurrogate ts) :
      Explained ts (.unwritable sink reason)

/-! ## Values -/

/-- A value whose code plays its role, whose text is spelled, and which is no builtin but
`print`. -/
def Value.Plays (ts : List Token) : Value → Prop
  | .closure f => f.name.IsPlain ∧ ∀ n ∈ f.body, n.Plays ts .statement
  | .builtin f => f.name.IsPlain ∧ f.action = .print
  | .string s => s.IsSpelled ts
  | _ => True

/-- All values in the world are such values, the latest one included. -/
structure World.Plays (ts : List Token) (w : World) : Prop where
  held : w.Holds (Value.Plays ts)
  latest : w.latest.Plays ts

/-- An outcome that returns such a value, if it returns one. -/
def Outcome.Plays (ts : List Token) : Outcome → Prop
  | .proceed => True
  | .returned v => v.Plays ts

variable {ts : List Token}

theorem Outcome.plays_toValue {o : Outcome} (h : o.Plays ts) : o.toValue.Plays ts := by
  cases o with
  | proceed => exact trivial
  | returned v => exact h

theorem Literal.plays_toValue {value : Literal} (h : ∀ s, value = .string s → s.IsSpelled ts) :
    value.toValue.Plays ts := by
  cases value with
  | string s => exact h s rfl
  | _ => exact trivial

/-! ## Texts of values -/

theorem Text.IsSpelled.append {s t : Text} (hs : s.IsSpelled ts) (ht : t.IsSpelled ts) :
    (s ++ t).IsSpelled ts := by
  intro hbroken
  by_cases hplain : s.IsPlain
  · exact ht fun h => hbroken (Text.isPlain_append.mpr ⟨hplain, h⟩)
  · exact hs hplain

theorem Text.IsPlain.isSpelled {s : Text} (h : s.IsPlain) : s.IsSpelled ts :=
  fun hbroken => (hbroken h).elim

theorem Text.isSpelled_intercalate {separator : Text} (hseparator : separator.IsSpelled ts) :
    {texts : List Text} → (∀ s ∈ texts, s.IsSpelled ts) →
      (Text.intercalate separator texts).IsSpelled ts
  | [], _ => isSpelled_plain ts ""
  | [s], h => h s (List.mem_singleton_self s)
  | s :: _ :: _, h =>
    ((h s (List.mem_cons_self ..)).append hseparator).append
      (isSpelled_intercalate hseparator fun u hu => h u (List.mem_cons_of_mem s hu))

theorem Value.Plays.isSpelled_toText {v : Value} (h : v.Plays ts) : v.toText.IsSpelled ts := by
  cases v with
  | string s => exact h
  | closure f | builtin f =>
    exact ((Text.isSpelled_plain ts _).append h.1.isSpelled).append (Text.isSpelled_plain ts _)
  | _ => exact Text.isSpelled_plain ts _

theorem Value.Plays.isSpelled_display {v : Value} (h : v.Plays ts) :
    v.display.IsSpelled ts := by
  cases v with
  | closure f | builtin f =>
    exact ((Text.isSpelled_plain ts _).append h.1.isSpelled).append (Text.isSpelled_plain ts _)
  | _ => exact h.isSpelled_toText

theorem isSpelled_displayAll {separator : Text} (hseparator : separator.IsSpelled ts)
    {values : List Value} (h : ∀ v ∈ values, v.Plays ts) :
    (displayAll separator values).IsSpelled ts :=
  Text.isSpelled_intercalate hseparator
    (List.forall_mem_map.mpr fun v hv => (h v hv).isSpelled_display)

/-! ## Operators -/

theorem Value.Plays.addend {v : Value} (h : v.Plays ts) : v.addend.Plays ts := by
  unfold Value.addend
  split
  · exact h.isSpelled_toText
  · exact h

/-- The value of an operator holds no surrogates but those of the operands. -/
theorem Value.Plays.operate {operator : Json} {a b v : Value} (ha : a.Plays ts) (hb : b.Plays ts)
    (h : Value.operate operator a b = .ok v) : v.Plays ts := by
  unfold Value.operate at h
  split at h
  · obtain ⟨_, -, rfl⟩ := map_eq_ok_iff.mp h
    exact trivial
  · cases h
    have hleft := ha.addend
    have hright := hb.addend
    unfold Value.add
    split
    · rename_i s hs
      rw [hs] at hleft
      exact Text.IsSpelled.append hleft hright.isSpelled_toText
    · rename_i t ht _
      rw [ht] at hright
      exact Text.IsSpelled.append hleft.isSpelled_toText hright
    · exact trivial
  · obtain ⟨x, -, hx⟩ := bind_eq_ok_iff.mp h
    obtain ⟨y, -, hy⟩ := bind_eq_ok_iff.mp hx
    cases hy
    exact trivial
  · cases h

/-! ## The walk -/

/-- Among values that play their roles the computation keeps to such values, and fails only as
tokens explain. -/
abbrev Secure {α : Type} (ts : List Token) (V : α → Prop) (m : Run α) : Prop :=
  Upholds (World.Plays ts) V (Fault.Explained ts) m

/-- Under this bound, nodes that play their roles do so without harm. -/
structure Safe (ts : List Token) (bound : Nat) : Prop where
  evaluate : ∀ {node} (scope), node.Plays ts .expression →
    Secure ts (Value.Plays ts) (evaluate bound node scope)
  execute : ∀ {node} (scope), node.Plays ts .statement →
    Secure ts (Outcome.Plays ts) (execute bound node scope)
  executeBlock : ∀ {nodes : List Node} (scope), (∀ n ∈ nodes, n.Plays ts .statement) →
    Secure ts (Outcome.Plays ts) (executeBlock bound nodes scope)
  call : ∀ {f : Value} (scope) {args : List Value}, f.Plays ts → (∀ a ∈ args, a.Plays ts) →
    Secure ts (Value.Plays ts) (call bound f scope args)

/-- What has no form in UTF-8 is explained by a string that spells a surrogate. -/
theorem Text.IsSpelled.explained {s : Text} (h : s.IsSpelled ts) {reason : Text.Unencodable}
    (hreason : s.encode = .error reason) (sink : Sink) :
    Fault.Explained ts (.unwritable sink reason) := by
  refine .unwritable sink reason (h ?_)
  rintro ⟨line, rfl⟩
  cases hreason

theorem secure_tell (level : Nat) {text : Unit → Text} (h : (text ()).IsSpelled ts) :
    Secure ts (fun _ => True) (tell level text) := fun _ hw =>
  ensures_tell (fun _ => ⟨trivial, hw⟩) (fun _ _ _ => ⟨trivial, hw.held.congr rfl rfl, hw.latest⟩)
    fun _ _ hreason => ⟨h.explained hreason .trace, hw⟩

theorem secure_printLine {text : Text} (h : text.IsSpelled ts) :
    Secure ts (fun _ => True) (printLine text) := fun _ hw =>
  ensures_printLine (fun _ _ => ⟨trivial, hw.held.congr rfl rfl, hw.latest⟩)
    fun _ hreason => ⟨h.explained hreason .output, hw⟩

theorem secure_evaluateEach {eval : Node → Run Value}
    (h : ∀ n, n.Plays ts .expression → Secure ts (Value.Plays ts) (eval n)) {nodes : List Node}
    (hnodes : ∀ n ∈ nodes, n.Plays ts .expression) :
    Secure ts (fun vs => ∀ v ∈ vs, v.Plays ts) (evaluateEach eval nodes) := by
  induction nodes with
  | nil => exact Upholds.pure fun _ hv => nomatch hv
  | cons node nodes ih =>
    rw [List.forall_mem_cons] at hnodes
    refine Upholds.bind (h node hnodes.1) fun v hv => ?_
    refine Upholds.bind (ih hnodes.2) fun vs hvs => ?_
    exact Upholds.pure (List.forall_mem_cons.mpr ⟨hv, hvs⟩)

theorem secure_executeEach {exec : Node → Run Outcome}
    (h : ∀ n, n.Plays ts .statement → Secure ts (Outcome.Plays ts) (exec n)) {nodes : List Node}
    (hnodes : ∀ n ∈ nodes, n.Plays ts .statement) :
    Secure ts (Outcome.Plays ts) (executeEach exec nodes) := by
  induction nodes with
  | nil => exact Upholds.pure trivial
  | cons node nodes ih =>
    rw [List.forall_mem_cons] at hnodes
    refine Upholds.bind (h node hnodes.1) fun outcome ho => ?_
    cases outcome with
    | returned v => exact Upholds.pure ho
    | proceed => exact ih hnodes.2

/-- An operator in the text fails only if the language does not have it, a string has no number, or
the event of it has no form in UTF-8. -/
theorem secure_applyOperator {level : Level} {lexeme : List Char}
    (hoperator : ⟨.operator level, lexeme⟩ ∈ ts) (hsign : ⟨.operator level, lexeme⟩ ∈ Token.signs)
    {a b : Value} (ha : a.Plays ts) (hb : b.Plays ts) :
    Secure ts (Value.Plays ts) (applyOperator (.string (String.ofList lexeme)) a b) := by
  unfold applyOperator
  split
  · rename_i fault hfault
    refine Upholds.throw ?_
    rcases Value.operate_eq_error hfault with ⟨rfl, hunknown⟩ | rfl
    · exact .operator (Token.unsupported_of_mem_signs hsign hunknown) hoperator
    · exact .integerTooLarge
  · rename_i v hv
    have hresult := Value.Plays.operate ha hb hv
    refine Upholds.bind (secure_tell 3 ?_) fun _ _ => Upholds.pure hresult
    have hline := (ha.isSpelled_display.append (Text.isSpelled_plain ts " ")).append
      (Text.isSpelled_plain ts (String.ofList lexeme))
    exact (((hline.append (Text.isSpelled_plain ts " ")).append hb.isSpelled_display).append
      (Text.isSpelled_plain ts " -> ")).append hresult.isSpelled_display

section Step

variable {bound : Nat}

theorem Safe.evaluate_succ {before : List Token} {cs : List Char} (hlexes : Lexes before cs ts)
    (ih : Safe ts bound) {node : Node} (scope : ScopeId) (h : node.Plays ts .expression) :
    Secure ts (Value.Plays ts) (Scriptlet.evaluate (bound + 1) node scope) := by
  cases h with
  | literal _ htext =>
    rw [evaluate_literal]
    exact Upholds.pure (Literal.plays_toValue htext)
  | identifier name =>
    rw [evaluate_identifier]
    exact Upholds.get fun w hw => hw.held.lookup trivial scope name
  | binary hoperator first second =>
    rw [evaluate_binary]
    refine Upholds.bind (ih.evaluate scope first) fun a ha => ?_
    refine Upholds.bind (ih.evaluate scope second) fun b hb => ?_
    exact secure_applyOperator hoperator (hlexes.mem_signs hoperator) ha hb
  | call called each =>
    rw [evaluate_call]
    refine Upholds.bind (ih.evaluate scope called) fun f hf => ?_
    refine Upholds.bind (secure_evaluateEach (fun _ => ih.evaluate scope) each)
      fun args hargs => ?_
    split
    · exact ih.call scope hf hargs
    · exact Upholds.throw (.notCallable _)

theorem Safe.execute_succ (ih : Safe ts bound) {node : Node} (scope : ScopeId)
    (h : node.Plays ts .statement) :
    Secure ts (Outcome.Plays ts) (Scriptlet.execute (bound + 1) node scope) := by
  cases h with
  | absent =>
    rw [execute_absent]
    exact Upholds.pure trivial
  | expression inner =>
    rw [execute_expression]
    refine Upholds.bind (ih.evaluate scope inner) fun value hv => ?_
    refine Upholds.bind (Upholds.modify fun w hw => ⟨hw.held.congr rfl rfl, hv⟩) fun _ _ => ?_
    exact Upholds.pure trivial
  | conditional tested one other =>
    rw [execute_conditional]
    refine Upholds.bind (ih.evaluate scope tested) fun value hv => ?_
    refine Upholds.bind (secure_tell 3 ?_) fun _ _ => ?_
    · exact (((Text.isSpelled_plain ts _).append hv.isSpelled_display).append
        (Text.isSpelled_plain ts " -> ")).append (Text.isSpelled_plain ts _)
    split
    · exact ih.execute scope one
    · exact ih.execute scope other
  | returningNothing =>
    rw [execute_returning_absent]
    exact Upholds.bind (secure_tell 3 (Text.isSpelled_plain ts _)) fun _ _ => Upholds.pure trivial
  | returning inner =>
    rw [execute_returning bound scope inner.ne_absent]
    refine Upholds.bind (ih.evaluate scope inner) fun value hv => ?_
    refine Upholds.bind (secure_tell 3 ?_) fun _ _ => Upholds.pure hv
    exact (Text.isSpelled_plain ts _).append hv.isSpelled_display
  | block each =>
    rw [execute_block]
    exact ih.executeBlock scope each
  | function name hparams each =>
    -- the statements of the body go into the world, as those of a closure
    rw [execute_function]
    refine Upholds.bind (V := fun f => (Value.closure f).Plays ts) ?_ fun f hf => ?_
    · exact Upholds.modifyGet fun w hw =>
        ⟨⟨Text.isPlain_plain name, each⟩, hw.held.congr rfl rfl, hw.latest⟩
    · refine Upholds.bind (Upholds.modify fun w hw => ⟨hw.held.bind scope name hf, hw.latest⟩)
        fun _ _ => ?_
      refine Upholds.bind (secure_tell 2 ?_) fun _ _ => Upholds.pure trivial
      have hlisted := Text.isSpelled_intercalate (Text.isSpelled_plain ts ", ") fun x hx =>
        (hparams x hx).isSpelled
      exact ((Text.isSpelled_plain ts _).append hlisted).append (Text.isSpelled_plain ts ")")
  | whileLoop hword =>
    rw [execute_unsupported bound scope rfl]
    exact Upholds.throw (.whileLoop hword)
  | declaration isDeclarator hword =>
    rw [execute_unsupported bound scope rfl]
    exact Upholds.throw (.declaration isDeclarator hword)

theorem Safe.executeBlock_succ (ih : Safe ts bound) {nodes : List Node} (scope : ScopeId)
    (h : ∀ n ∈ nodes, n.Plays ts .statement) :
    Secure ts (Outcome.Plays ts) (Scriptlet.executeBlock (bound + 1) nodes scope) := by
  rw [Scriptlet.executeBlock_succ]
  exact secure_executeEach (fun _ => ih.execute scope) h

theorem Safe.call_succ (ih : Safe ts bound) {f : Value} (scope : ScopeId) {args : List Value}
    (hf : f.Plays ts) (hargs : ∀ a ∈ args, a.Plays ts) :
    Secure ts (Value.Plays ts) (Scriptlet.call (bound + 1) f scope args) := by
  cases f with
  | closure f =>
    obtain ⟨hname, hbody⟩ := hf
    rw [call_closure]
    refine Upholds.bind (secure_tell 2 ?_) fun _ _ => ?_
    · have hlisted := isSpelled_displayAll (Text.isSpelled_plain ts ", ") hargs
      exact ((((Text.isSpelled_plain ts _).append hname.isSpelled).append
        (Text.isSpelled_plain ts "(")).append hlisted).append (Text.isSpelled_plain ts ")")
    refine Upholds.bind (V := fun _ => True) ?_ fun inner _ => ?_
    · exact Upholds.modifyGet fun w hw =>
        ⟨trivial, hw.held.addScope (hw.held.bindParams trivial hargs f.scope f.params), hw.latest⟩
    · refine Upholds.bind (ih.executeBlock inner hbody) fun outcome ho => ?_
      exact Upholds.pure (Outcome.plays_toValue ho)
  | builtin f =>
    obtain ⟨hname, haction⟩ := hf
    rw [call_builtin]
    refine Upholds.bind (secure_tell 2 ?_) fun _ _ => ?_
    · exact ((((Text.isSpelled_plain ts _).append hname.isSpelled).append
        (Text.isSpelled_plain ts _)).append (Text.isSpelled_plain ts _)).append
        (Text.isSpelled_plain ts " arguments")
    rw [haction]
    refine Upholds.bind (secure_printLine ?_) fun _ _ => Upholds.pure trivial
    exact isSpelled_displayAll (Text.isSpelled_plain ts " ") hargs
  | _ =>
    rw [call_of_not_isFunction bound scope rfl]
    exact Upholds.throw (.notCallable _)

end Step

/-- The tokens of a text explain all that its nodes may fail with. -/
theorem safe {before : List Token} {cs : List Char} (hlexes : Lexes before cs ts) (bound : Nat) :
    Safe ts bound := by
  induction bound with
  | zero =>
    refine ⟨fun scope _ => ?_, fun scope _ => ?_, fun scope _ => ?_, fun scope _ _ _ => ?_⟩
    · rw [evaluate_zero]
      exact Upholds.throw .stackExhausted
    · rw [execute_zero]
      exact Upholds.throw .stackExhausted
    · rw [executeBlock_zero]
      exact Upholds.throw .stackExhausted
    · rw [call_zero]
      exact Upholds.throw .stackExhausted
  | succ bound ih =>
    exact ⟨ih.evaluate_succ hlexes, ih.execute_succ, ih.executeBlock_succ, ih.call_succ⟩

/-! ## Programs -/

theorem Safe.executeProgram {bound : Nat} (h : Safe ts bound) {nodes : List Node}
    (scope : ScopeId) (hnodes : ∀ n ∈ nodes, n.Plays ts .statement) {result : Value}
    (hresult : result.Plays ts) :
    Secure ts (Value.Plays ts) (executeProgram bound scope result nodes) := by
  induction nodes generalizing result with
  | nil => exact Upholds.pure hresult
  | cons node nodes ih =>
    rw [List.forall_mem_cons] at hnodes
    rw [Scriptlet.executeProgram]
    refine Upholds.bind (h.execute scope hnodes.1) fun _ _ => ?_
    refine Upholds.bind (V := World.Plays ts) (fun _ hw => ⟨hw, hw⟩) fun w hw => ?_
    refine ih hnodes.2 ?_
    split
    · exact hw.latest
    · exact hresult

theorem Safe.runBody {bound : Nat} (h : Safe ts bound) {body : List Node} (scope : ScopeId)
    (hbody : ∀ n ∈ body, n.Plays ts .statement) :
    Secure ts (fun _ => True) (runBody bound body scope) := by
  refine Upholds.bind (secure_tell 1 ?_) fun _ _ => ?_
  · exact ((Text.isSpelled_plain ts _).append (Text.isSpelled_plain ts _)).append
      (Text.isSpelled_plain ts " statements")
  refine Upholds.bind (h.executeProgram scope hbody trivial) fun result hresult => ?_
  refine Upholds.bind (secure_tell 1 ?_) fun _ _ => Upholds.pure trivial
  exact (Text.isSpelled_plain ts _).append hresult.isSpelled_display

/-- **Parsed programs are safe.**  If a text is parsed, running it in a new world can fail only in
these ways:

* a loop or a declaration is executed, and the word that begins one stands in the text;
* an operator is applied that the language does not have, and it stands in the text;
* something is called that is no function, a string has no number, or the stack is exhausted;
* a line with a surrogate is to be written, and a string of the text denotes a surrogate.

So no node is ever wanted for a value that has none. -/
theorem run_safe {source : String} {body : List Node} (h : parse source = .ok body)
    (bound verbosity : Nat) :
    ∃ ts, Lexes [] source.toList ts ∧
      Ensures (run bound body World.globalScope) (World.fresh verbosity) (fun _ _ => True)
        (fun fault _ => fault.Explained ts) := by
  obtain ⟨ts, hlexes, hbody⟩ := plays_of_parse h
  refine ⟨ts, hlexes, ?_⟩
  have hsafe := safe hlexes bound
  have hopened : (World.fresh verbosity).opened.Plays ts :=
    ⟨(World.holds_fresh (P := Value.Plays ts) ⟨Text.isPlain_plain "print", rfl⟩ verbosity).congr
      rfl rfl, trivial⟩
  have hrun := hsafe.runBody World.globalScope hbody _ hopened
  unfold Ensures at hrun ⊢
  rw [run_eq, closingTrace]
  cases hresult : runBody bound body World.globalScope (World.fresh verbosity).opened with
  | ok value w => exact trivial
  | error fault w =>
    rw [hresult] at hrun
    exact hrun.1

end Safety

/-- The theorem at a text that applies an operator that the language does not have. -/
theorem run_safe_comparison :
    ∃ body, @parse .empty "print(1 < 2);" = .ok body ∧
      ∃ ts, Lexes [] "print(1 < 2);".toList ts ∧
        Ensures (run 9 body World.globalScope) (World.fresh 3) (fun _ _ => True)
          (fun fault _ => @Fault.Explained .empty ts fault) := by
  have hparses : (@parse .empty "print(1 < 2);").toOption.isSome = true := by decide +kernel
  cases h : @parse .empty "print(1 < 2);" with
  | error e =>
    rw [h] at hparses
    cases hparses
  | ok body => exact ⟨body, rfl, @run_safe .empty _ _ h 9 3⟩

/-! ## Texts that spell what cannot be written -/

/-- What the program of a text fails to write, if it ends on that. -/
def unwritten? (source : String) (verbosity : Nat) : Option (Sink × Text.Unencodable) :=
  match @parse .empty source with
  | .error _ => none
  | .ok body =>
    match run 9 body World.globalScope (World.fresh verbosity) with
    | .error (.unwritable sink reason) _ => some (sink, reason)
    | _ => none

theorem run_of_unwritten? {source : String} {verbosity : Nat} {sink : Sink}
    {reason : Text.Unencodable} (h : unwritten? source verbosity = some (sink, reason)) :
    ∃ body, @parse .empty source = .ok body ∧
      ∃ w, run 9 body World.globalScope (World.fresh verbosity) =
        .error (.unwritable sink reason) w := by
  unfold unwritten? at h
  split at h
  · cases h
  · rename_i body hparse
    split at h
    · rename_i w hrun
      cases h
      exact ⟨body, hparse, w, hrun⟩
    · cases h

/-- Half a surrogate pair can be neither printed nor told: not by a program that prints it, and if
programs are traced not by one that has it as its value. -/
theorem run_unwritable :
    (∃ body, @parse .empty "print(\"\\ud800\");" = .ok body ∧
      ∃ w, run 9 body World.globalScope (World.fresh 0) =
        .error (.unwritable .output ⟨0, ⟨0⟩, 0⟩) w) ∧
    ∃ body, @parse .empty "\"\\ud800\";" = .ok body ∧
      ∃ w, run 9 body World.globalScope (World.fresh 1) =
        .error (.unwritable .trace ⟨20, ⟨0⟩, 0⟩) w :=
  ⟨run_of_unwritten? (by decide +kernel), run_of_unwritten? (by decide +kernel)⟩

end Scriptlet
