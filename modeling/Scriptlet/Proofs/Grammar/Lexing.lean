import Scriptlet.Proofs.Grammar.Spelling
import Scriptlet.Token.Scan

/-!
# How text is cut into tokens

Which token stands at the front of a text depends on what the grammar lets follow there, and that
can be said without the reader.

* `Expected before terminal` says that the terminal may follow the tokens before it.
* `Lexes` cuts a text into tokens: after layout, the first candidate that is expected.
* `Reader.accepts_iff_expected` says that the reader looks for what is expected.  That it looks for
  nothing else is because everything that it has begun can be completed (`completes`).
-/

namespace Scriptlet

/-! ## Tokens that are expected -/

/-- The tokens end with the end of a block. -/
def EndsBlock (ts : List Token) : Prop := ∃ before t, ts = before ++ [t] ∧ t.terminal = .closeBrace

/-- Some program goes on with the terminal after the tokens.  Besides, `else` is looked for after
every block: to which block it belongs is a question of the grammar, not of the letters. -/
def Expected (before : List Token) (terminal : Terminal) : Prop :=
  (∃ (d : Derivation .program) (lexeme : List Char) (after : List Token),
    d.yield = before ++ ⟨terminal, lexeme⟩ :: after) ∨
  (terminal = .keyword .elseWord ∧ EndsBlock before)

/-- The text is cut into tokens, after the tokens before it: at each place layout is skipped, and
then the first of the candidates is taken that is expected. -/
inductive Lexes : List Token → List Char → List Token → Prop
  | done {before : List Token} {cs : List Char} (h : (Token.splitLayout cs).2 = []) :
      Lexes before cs []
  | token {before skipped rest ts : List Token} {cs : List Char} {t : Token}
      (candidates : Token.candidates (Token.splitLayout cs).2 = skipped ++ t :: rest)
      (not_expected : ∀ u ∈ skipped, ¬ Expected before u.terminal)
      (expected : Expected before t.terminal)
      (more : Lexes (before ++ [t]) ((Token.splitLayout cs).2.drop t.lexeme.length) ts) :
      Lexes before cs (t :: ts)

/-! ## Everything can be completed -/

/-- A token with one spelling, or the name `x`. -/
inductive Token.IsPlain : Token → Prop
  | of (terminal : Terminal) (h : terminal.spelling?.isSome = true) : IsPlain (.of terminal)
  | name : IsPlain ⟨.name, ['x']⟩

theorem Token.IsPlain.isProper {t : Token} (h : t.IsPlain) : t.IsProper := by
  cases h with
  | of terminal => exact Token.isProper_of terminal
  | name => exact nofun

variable [CharacterNames]

/-- Some plain tokens take the reader to a state where it may end. -/
def Completes (r : Reader) : Prop :=
  ∃ ts s, (∀ t ∈ ts, t.IsPlain) ∧ Feeds r ts s ∧ s.finish?.isSome = true

section Completes

variable {r s : Reader} {statements : List Node} {frames : List Frame}

theorem Completes.of_feed (h : Completes s) {t : Token} (ht : t.IsPlain)
    (hfeed : r.feed t = some s) : Completes r := by
  obtain ⟨ts, u, hts, hfeeds, hfinish⟩ := h
  exact ⟨t :: ts, u, List.forall_mem_cons.mpr ⟨ht, hts⟩, Feeds.cons hfeed hfeeds, hfinish⟩

/-- After a statement, the open blocks are closed one after another. -/
theorem Settled.completes (h : Settled r statements frames) : Completes r := by
  induction frames generalizing r statements with
  | nil => exact ⟨[], r, nofun, Feeds.nil, by rw [h.finish?]; rfl⟩
  | cons frame frames ih =>
    obtain ⟨owner, before⟩ := frame
    have hclose := h.feed (t := .of .closeBrace) nofun
    have hplain : (Token.of .closeBrace).IsPlain := .of .closeBrace rfl
    cases owner with
    | consequent test branches => exact (ih (.branches _ before frames)).of_feed hplain hclose
    | _ => exact (ih (.statement true _ frames)).of_feed hplain hclose

theorem completes_openBlock (owner : Owner) :
    Completes ⟨.openBlock owner, statements, frames⟩ :=
  have hsettled := Settled.statement false [] (⟨owner, statements⟩ :: frames)
  hsettled.completes.of_feed (.of .openBrace rfl) rfl

/-- After an operand, the brackets are closed and the statement is ended. -/
theorem completes_operator (hole : Hole) (x : Node) (ws : List Waiting) :
    Completes ⟨.operator x ws hole, statements, frames⟩ := by
  induction hole generalizing x ws with
  | statement | returned | initial =>
    exact (Settled.statement false _ frames).completes.of_feed (.of .semicolon rfl) rfl
  | condition | loop => exact (completes_openBlock _).of_feed (.of .closeParen rfl) rfl
  | group ws' outer ih => exact (ih _ ws').of_feed (.of .closeParen rfl) rfl
  | argument ws' callee before outer ih => exact (ih _ ws').of_feed (.of .closeParen rfl) rfl

theorem completes_operand (ws : List Waiting) (hole : Hole) :
    Completes ⟨.operand ws hole, statements, frames⟩ :=
  (completes_operator hole _ ws).of_feed .name rfl

/-- **Whatever the reader has begun can be completed.** -/
theorem completes (r : Reader) : Completes r := by
  obtain ⟨focus, statements, frames⟩ := r
  have hparam : ∀ name params,
      Completes ⟨.afterParam name params, statements, frames⟩ :=
    fun name params => (completes_openBlock _).of_feed (.of .closeParen rfl) rfl
  have hfirst : ∀ name, Completes ⟨.firstParam name, statements, frames⟩ :=
    fun name => (completes_openBlock _).of_feed (.of .closeParen rfl) rfl
  have hopen : ∀ name, Completes ⟨.openParams name, statements, frames⟩ :=
    fun name => (hfirst name).of_feed (.of .openParen rfl) rfl
  have hdeclared : ∀ name, Completes ⟨.afterDeclaredName name, statements, frames⟩ :=
    fun name => (Settled.statement false _ frames).completes.of_feed (.of .semicolon rfl) rfl
  cases focus with
  | statement afterBlock => exact (Settled.statement afterBlock statements frames).completes
  | branches before => exact (Settled.branches before statements frames).completes
  | operand ws hole => exact completes_operand ws hole
  | operator x ws hole => exact completes_operator hole x ws
  | functionName => exact (hopen _).of_feed .name rfl
  | openParams name => exact hopen name
  | firstParam name => exact hfirst name
  | nextParam name params => exact (hparam name _).of_feed .name rfl
  | afterParam name params => exact hparam name params
  | openCondition hole => exact (completes_operand [] hole).of_feed (.of .openParen rfl) rfl
  | openBlock owner => exact completes_openBlock owner
  | alternative before =>
    have hsettled := Settled.statement false [] (⟨.alternative before, statements⟩ :: frames)
    exact hsettled.completes.of_feed (.of .openBrace rfl) rfl
  | declaredName => exact (hdeclared _).of_feed .name rfl
  | afterDeclaredName name => exact hdeclared name

/-- **What the reader has taken can be completed** with plain tokens. -/
theorem exists_plain_completion {ts : List Token} (hts : ∀ t ∈ ts, t.IsProper)
    (h : Reader.start.feedAll ts = some r) :
    ∃ (us : List Token) (d : Derivation .program), (∀ u ∈ us, u.IsPlain) ∧ d.yield = ts ++ us := by
  obtain ⟨us, s, hus, hfeeds, hfinish⟩ := completes r
  obtain ⟨body, hbody⟩ := Option.isSome_iff_exists.mp hfinish
  have hwhole : Reader.start.feedAll (ts ++ us) = some s := by
    rw [Reader.feedAll_append, h]
    exact hfeeds
  obtain ⟨d, hyield, -⟩ := derives_of_feedAll
    (List.forall_mem_append.mpr ⟨hts, fun u hu => (hus u hu).isProper⟩) hwhole hbody
  exact ⟨us, d, hus, hyield⟩

end Completes

/-! ## The reader looks for what is expected -/

section Accepts

variable {r s : Reader} {before : List Token} {t : Token}

theorem isSome_operandOf?_congr (terminal : Terminal) (lexeme lexeme' : List Char) :
    (Reader.operandOf? ⟨terminal, lexeme⟩).isSome =
      (Reader.operandOf? ⟨terminal, lexeme'⟩).isSome := by
  cases terminal with
  | number | string | name => exact Eq.trans (b := true) rfl rfl
  | keyword k => cases k <;> rfl
  | _ => rfl

theorem isSome_feedOperand_congr (r : Reader) (ws : List Waiting) (hole : Hole)
    (terminal : Terminal) (lexeme lexeme' : List Char) :
    (r.feedOperand ws hole ⟨terminal, lexeme⟩).isSome =
      (r.feedOperand ws hole ⟨terminal, lexeme'⟩).isSome := by
  have hoperand := isSome_operandOf?_congr terminal lexeme lexeme'
  unfold Reader.feedOperand
  cases h : Reader.operandOf? ⟨terminal, lexeme⟩ with
  | none =>
    rw [h] at hoperand
    rw [Option.isSome_eq_false_iff.mp hoperand.symm |> Option.isNone_iff_eq_none.mp]
  | some x =>
    rw [h] at hoperand
    obtain ⟨y, hy⟩ := Option.isSome_iff_exists.mp hoperand.symm
    rw [hy]
    rfl

theorem isSome_feedStatement_congr (r : Reader) (terminal : Terminal)
    (lexeme lexeme' : List Char) :
    (r.feedStatement ⟨terminal, lexeme⟩).isSome = (r.feedStatement ⟨terminal, lexeme'⟩).isSome := by
  have hoperand := isSome_feedOperand_congr r [] .statement terminal lexeme lexeme'
  cases terminal with
  | openBrace | closeBrace => rfl
  | keyword k =>
    cases k with
    | elseWord | trueWord | falseWord => exact hoperand
    | _ => rfl
  | _ => exact hoperand

/-- Whether a token fits is a matter of its terminal. -/
theorem isSome_feed_congr (r : Reader) (terminal : Terminal) (lexeme lexeme' : List Char) :
    (r.feed ⟨terminal, lexeme⟩).isSome = (r.feed ⟨terminal, lexeme'⟩).isSome := by
  obtain ⟨focus, statements, frames⟩ := r
  cases focus with
  | statement => exact isSome_feedStatement_congr _ terminal lexeme lexeme'
  | branches before =>
    unfold Reader.feed
    dsimp only
    split
    · rfl
    · exact isSome_feedStatement_congr _ terminal lexeme lexeme'
  | operand ws hole => exact isSome_feedOperand_congr _ ws hole terminal lexeme lexeme'
  | operator => cases terminal <;> rfl
  | _ => cases terminal <;> rfl

/-- Whether a block has just ended. -/
def Focus.isAfterBlock : Focus → Bool
  | .statement afterBlock => afterBlock
  | .branches _ => true
  | _ => false

theorem isAfterBlock_feedOperand {ws : List Waiting} {hole : Hole}
    (h : r.feedOperand ws hole t = some s) :
    t.terminal ≠ .closeBrace ∧ s.focus.isAfterBlock = false := by
  unfold Reader.feedOperand at h
  split at h
  · rename_i x hx
    cases h
    refine ⟨fun hbrace => ?_, rfl⟩
    rw [Reader.operandOf?, hbrace] at hx
    cases hx
  · split at h
    case h_4 => cases h
    all_goals
      rename_i hterminal
      cases h
      rw [hterminal]
      exact ⟨nofun, rfl⟩

omit [CharacterNames] in
theorem isAfterBlock_feedEnd {x : Node} {hole : Hole} (h : r.feedEnd x hole t = some s) :
    t.terminal ≠ .closeBrace ∧ s.focus.isAfterBlock = false := by
  unfold Reader.feedEnd at h
  split at h
  case h_9 => cases h
  all_goals
    rename_i hterminal
    cases h
    rw [hterminal]
    exact ⟨nofun, rfl⟩

omit [CharacterNames] in
theorem isAfterBlock_feedOperator {x : Node} {ws : List Waiting} {hole : Hole}
    (h : r.feedOperator x ws hole t = some s) :
    t.terminal ≠ .closeBrace ∧ s.focus.isAfterBlock = false := by
  unfold Reader.feedOperator at h
  split at h
  · rename_i hlevel
    cases h
    rw [hlevel]
    exact ⟨nofun, rfl⟩
  · rename_i hparen
    cases h
    rw [hparen]
    exact ⟨nofun, rfl⟩
  · exact isAfterBlock_feedEnd h

omit [CharacterNames] in
theorem isAfterBlock_leave (h : r.leave = some s) : s.focus.isAfterBlock = true := by
  unfold Reader.leave at h
  split at h
  · cases h
  · rename_i owner _ _ _
    cases owner <;> cases h <;> rfl

theorem isAfterBlock_feedStatement (h : r.feedStatement t = some s) :
    s.focus.isAfterBlock = true ↔ t.terminal = .closeBrace := by
  unfold Reader.feedStatement at h
  split at h
  case h_9 hbrace => exact iff_of_true (isAfterBlock_leave h) hbrace
  case h_10 =>
    obtain ⟨hne, hfalse⟩ := isAfterBlock_feedOperand h
    exact iff_of_false (by rw [hfalse]; nofun) hne
  all_goals
    rename_i hterminal
    cases h
    rw [hterminal]
    exact iff_of_false nofun nofun

/-- A block has just ended exactly if the last token was a closing brace. -/
theorem isAfterBlock_feed (h : r.feed t = some s) :
    s.focus.isAfterBlock = true ↔ t.terminal = .closeBrace := by
  obtain ⟨focus, statements, frames⟩ := r
  unfold Reader.feed at h
  cases focus with
  | statement => exact isAfterBlock_feedStatement h
  | branches =>
    dsimp only at h
    split at h
    · rename_i hword
      cases h
      rw [hword]
      exact iff_of_false nofun nofun
    · exact isAfterBlock_feedStatement h
  | operand =>
    obtain ⟨hne, hfalse⟩ := isAfterBlock_feedOperand h
    exact iff_of_false (by rw [hfalse]; nofun) hne
  | operator =>
    obtain ⟨hne, hfalse⟩ := isAfterBlock_feedOperator h
    exact iff_of_false (by rw [hfalse]; nofun) hne
  | _ =>
    dsimp only at h
    split at h
    all_goals first
      | cases h; done
      | rename_i hterminal
        cases h
        rw [hterminal]
        exact iff_of_false nofun nofun

theorem isAfterBlock_feedAll (h : Reader.start.feedAll before = some r) :
    r.focus.isAfterBlock = true ↔ EndsBlock before := by
  rcases List.eq_nil_or_concat before with rfl | ⟨front, last, rfl⟩
  · cases h
    refine iff_of_false nofun ?_
    rintro ⟨front, t, heq, -⟩
    exact List.concat_ne_nil t front heq.symm
  · rw [List.concat_eq_append, Reader.feedAll_append, Option.bind_eq_some_iff] at h
    obtain ⟨s, -, h⟩ := h
    rw [Reader.feedAll_cons, Option.bind_eq_some_iff] at h
    obtain ⟨u, hu, h⟩ := h
    cases h
    rw [isAfterBlock_feed hu, List.concat_eq_append]
    constructor
    · exact fun hlast => ⟨front, last, rfl, hlast⟩
    · rintro ⟨front', t, heq, ht⟩
      obtain ⟨-, hlast⟩ := List.append_inj' heq rfl
      cases hlast
      exact ht

/-- **The reader looks for exactly what is expected.** -/
theorem Reader.accepts_iff_expected (hbefore : ∀ t ∈ before, t.IsProper)
    (h : Reader.start.feedAll before = some r) (terminal : Terminal) :
    r.accepts terminal = true ↔ Expected before terminal := by
  have hblock := isAfterBlock_feedAll h
  unfold Reader.accepts
  rw [Bool.or_eq_true_iff]
  constructor
  · rintro (haccepts | helse)
    · -- the token fits, and what has been begun with it can be completed
      rw [isSome_feed_congr r terminal [] (terminal.spelling?.getD [])] at haccepts
      obtain ⟨s, hs⟩ := Option.isSome_iff_exists.mp haccepts
      have hnext : Reader.start.feedAll (before ++ [.of terminal]) = some s := by
        rw [Reader.feedAll_append, h]
        exact Feeds.one hs
      obtain ⟨after, d, -, hyield⟩ := exists_plain_completion (List.forall_mem_append.mpr
        ⟨hbefore, List.forall_mem_singleton.mpr (Token.isProper_of terminal)⟩) hnext
      rw [← List.append_cons] at hyield
      exact Or.inl ⟨d, _, after, hyield⟩
    · split at helse
      · rename_i afterBlock hfocus
        rw [Bool.and_eq_true_iff] at helse
        refine Or.inr ⟨eq_of_beq helse.2, hblock.mp ?_⟩
        rw [hfocus]
        exact helse.1
      · cases helse
  · rintro (⟨d, lexeme, after, hyield⟩ | ⟨rfl, hends⟩)
    · left
      obtain ⟨s, hs, -⟩ := feedAll_yield d
      rw [hyield, Reader.feedAll_append, h, Option.bind_some, Reader.feedAll_cons,
        Option.bind_eq_some_iff] at hs
      obtain ⟨u, hu, -⟩ := hs
      rw [isSome_feed_congr r terminal [] lexeme, hu]
      rfl
    · have hafter := hblock.mpr hends
      obtain ⟨focus, statements, frames⟩ := r
      cases focus with
      | statement afterBlock =>
        right
        obtain rfl : afterBlock = true := hafter
        rfl
      | branches => exact Or.inl rfl
      | _ => cases hafter

end Accepts

end Scriptlet
