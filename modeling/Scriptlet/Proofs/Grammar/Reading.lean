import Scriptlet.Proofs.Grammar.Unambiguous
import Scriptlet.Reader

/-!
# Every derivation is read

The reader takes the tokens of every derivation from `program`, and has the tree of the derivation
in hand when it has done so.

* `Feeds r ts s` says that the tokens take the reader from one state to another.
* `Settled r statements frames` says that a statement has just ended.  After an `if` the reader
  still waits for `else`, but with any other token it goes on as if the `if` had been closed.
* `Amounts rank` says that an operand with the operators that wait for it comes to the same as
  another one, for everything that binds no tighter than the rank.  The reader gathers operands
  late, and this is how what it holds compares with the tree of the derivation.
* `Reads` is what is shown of a derivation, for each nonterminal, and `reads` shows it by induction
  on the derivation.
-/

namespace Scriptlet

variable {r s u : Reader} {t : Token} {ts us : List Token} {statements : List Node}
  {frames : List Frame}

/-! ## Operators that wait -/

/-- The operator that waits last binds less tightly than a rank. -/
def Loose (waiting : List Waiting) (rank : Nat) : Prop :=
  ∀ w ∈ waiting.head?, w.level.rank < rank

theorem loose_nil (rank : Nat) : Loose [] rank := fun _ h => by cases h

theorem loose_cons {w : Waiting} {rank : Nat} (h : w.level.rank < rank) (ws : List Waiting) :
    Loose (w :: ws) rank := by
  intro v hv
  cases hv
  exact h

/-- Nothing is gathered from operators that bind less tightly. -/
theorem gather_of_loose {level : Level} {ws : List Waiting} (h : Loose ws level.rank) (x : Node) :
    gather level x ws = (x, ws) := by
  cases ws with
  | nil => rfl
  | cons w ws =>
    rw [gather]
    exact if_neg (Nat.not_le_of_lt (h w rfl))

theorem gather_equality (x : Node) (ws : List Waiting) :
    gather .equality x ws = (complete x ws, []) := by
  induction ws generalizing x with
  | nil => rfl
  | cons w ws ih =>
    have hrank : Level.equality.rank ≤ w.level.rank := Nat.zero_le _
    rw [gather, if_pos hrank, ih]
    rfl

theorem loose_four (ws : List Waiting) : Loose ws 4 := by
  intro w _
  cases w.level <;> decide

/-- An operand with the operators that wait for it comes to the same as another one, for everything
that binds no tighter than a rank. -/
structure Amounts (rank : Nat) (x : Node) (ws : List Waiting) (y : Node) (vs : List Waiting) :
    Prop where
  gather : ∀ level : Level, level.rank ≤ rank → gather level x ws = gather level y vs
  complete : complete x ws = complete y vs

theorem Amounts.refl (rank : Nat) (x : Node) (ws : List Waiting) : Amounts rank x ws x ws :=
  ⟨fun _ _ => rfl, rfl⟩

theorem Amounts.of_le {rank rank' : Nat} {x y : Node} {ws vs : List Waiting}
    (h : Amounts rank x ws y vs) (hle : rank' ≤ rank) : Amounts rank' x ws y vs :=
  ⟨fun level hlevel => h.gather level (Nat.le_trans hlevel hle), h.complete⟩

/-- An operator that binds at least as tightly as a rank gets its right operand first. -/
theorem Amounts.fill {level : Level} {x y : Node} {ws vs : List Waiting} {w : Waiting}
    (h : Amounts (level.rank + 1) x ws y (w :: vs)) (hw : w.level = level) :
    Amounts level.rank x ws (w.fill y) vs where
  gather k hk := by
    rw [h.gather k (Nat.le_succ_of_le hk), Scriptlet.gather, if_pos (by rw [hw]; exact hk)]
  complete := h.complete

/-! ## Runs of the reader -/

variable [CharacterNames]

/-- The tokens take the reader from one state to another. -/
def Feeds (r : Reader) (ts : List Token) (s : Reader) : Prop := r.feedAll ts = some s

theorem Feeds.nil : Feeds r [] r := rfl

theorem Feeds.cons (h : r.feed t = some s) (hs : Feeds s ts u) : Feeds r (t :: ts) u := by
  rw [Feeds, Reader.feedAll_cons, h]
  exact hs

theorem Feeds.one (h : r.feed t = some s) : Feeds r [t] s := Feeds.cons h Feeds.nil

theorem Feeds.append (h : Feeds r ts s) (hs : Feeds s us u) : Feeds r (ts ++ us) u := by
  rw [Feeds, Reader.feedAll_append, h]
  exact hs

/-- Only the first token is read in the first state. -/
theorem Feeds.congr (h : Feeds s (t :: ts) u) (hfeed : r.feed t = s.feed t) :
    Feeds r (t :: ts) u := by
  rw [Feeds, Reader.feedAll_cons, hfeed]
  exact h

/-! ## After a statement -/

/-- A statement has just ended, or nothing has been read of the list yet. -/
inductive Settled : Reader → List Node → List Frame → Prop
  | statement (afterBlock : Bool) (statements : List Node) (frames : List Frame) :
      Settled ⟨.statement afterBlock, statements, frames⟩ statements frames
  | branches (before : List Branch) (statements : List Node) (frames : List Frame) :
      Settled ⟨.branches before, statements, frames⟩ (Branch.close .absent before :: statements)
        frames

/-- Where a statement may come, the reader does not look at what it was waiting for. -/
theorem feedStatement_congr (focus focus' : Focus) (statements : List Node) (frames : List Frame)
    (t : Token) : Reader.feedStatement ⟨focus, statements, frames⟩ t =
      Reader.feedStatement ⟨focus', statements, frames⟩ t := by
  unfold Reader.feedStatement
  split <;> rfl

/-- Anything but `else` begins a new statement. -/
theorem Settled.feed (h : Settled r statements frames) (ht : t.terminal ≠ .keyword .elseWord) :
    r.feed t = Reader.feedStatement ⟨.statement true, statements, frames⟩ t := by
  cases h with
  | statement => exact feedStatement_congr _ _ _ _ t
  | branches before =>
    rw [Reader.feed]
    exact (if_neg ht).trans (feedStatement_congr _ _ _ _ t)

omit [CharacterNames] in
theorem Settled.finish? (h : Settled r statements []) : r.finish? = some statements.reverse := by
  cases h <;> rfl

/-- What starts an expression starts an expression statement. -/
theorem Settled.feed_of_startsExpression (h : Settled r statements frames)
    (ht : t.terminal.startsExpression = true) :
    r.feed t = Reader.feed ⟨.operand [] .statement, statements, frames⟩ t := by
  obtain ⟨terminal, lexeme⟩ := t
  cases terminal with
  | keyword k =>
    cases k <;> first | cases ht; done | exact h.feed (by simp)
  | _ => first | cases ht; done | exact h.feed (by simp)

/-! ## What is shown of a derivation -/

/-- After a statement, the tokens take the reader past one more. -/
def ReadsStatement (ts : List Token) (node : Node) : Prop :=
  ∀ r statements frames, Settled r statements frames →
    ∃ s, Feeds r ts s ∧ Settled s (node :: statements) frames

/-- What the reader does with the tokens of a derivation, where it is ready for them. -/
def Reads : (n : Nonterminal) → Derivation n → Prop
  | .statement, d => ReadsStatement d.yield d.meaning
  | .functionDeclaration, d => ReadsStatement d.yield d.meaning
  | .paramList, d => ∀ name statements frames,
    Feeds ⟨.firstParam name, statements, frames⟩ d.yield
      ⟨.afterParam name (List.reverse d.meaning), statements, frames⟩
  | .nextParam, d => ∀ name params statements frames,
    Feeds ⟨.afterParam name params, statements, frames⟩ d.yield
      ⟨.afterParam name (d.meaning :: params), statements, frames⟩
  | .ifStatement, d => ∀ (r : Reader) before statements frames,
    r.feed (.of (.keyword .ifWord)) =
      some ⟨.openCondition (.condition before), statements, frames⟩ →
    ∃ s, Feeds r d.yield s ∧ Settled s (Branch.close d.meaning before :: statements) frames
  | .elseClause, d => ∀ before statements frames,
    ∃ s, Feeds ⟨.branches before, statements, frames⟩ d.yield s ∧
      Settled s (Branch.close d.meaning before :: statements) frames
  | .elseBranch, d => ∀ before statements frames,
    ∃ s, Feeds ⟨.alternative before, statements, frames⟩ d.yield s ∧
      Settled s (Branch.close d.meaning before :: statements) frames
  | .whileStatement, d => ReadsStatement d.yield d.meaning
  | .variableDeclaration, d => ReadsStatement d.yield d.meaning
  | .initializer, d => ∀ name statements frames,
    ∃ x ws, Feeds ⟨.afterDeclaredName name, statements, frames⟩ d.yield
      ⟨.operator x ws (.initial name), statements, frames⟩ ∧ complete x ws = d.meaning
  | .returnStatement, d => ReadsStatement d.yield d.meaning
  | .expressionStatement, d => ReadsStatement d.yield d.meaning
  | .block, d => ∀ (r : Reader) owner statements frames,
    r.feed (.of .openBrace) = some ⟨.statement false, [], ⟨owner, statements⟩ :: frames⟩ →
    r.feedAll d.yield =
      Reader.leave ⟨.statement true, List.reverse d.meaning, ⟨owner, statements⟩ :: frames⟩
  | .operand level, d => ∀ ws hole statements frames, Loose ws (Level.rank? level) →
    ∃ x vs, Feeds ⟨.operand ws hole, statements, frames⟩ d.yield
        ⟨.operator x vs hole, statements, frames⟩ ∧
      Amounts (Level.rank? level) x vs d.meaning ws ∧ (level = none → x = d.meaning ∧ vs = ws)
  | .operation level, d => ∀ x vs y ws hole statements frames, Loose ws level.rank →
    Amounts level.rank x vs y ws →
    ∃ z us, Feeds ⟨.operator x vs hole, statements, frames⟩ d.yield
        ⟨.operator z us hole, statements, frames⟩ ∧
      Amounts level.rank z us (Node.operation y d.meaning) ws
  | .argumentList, d => ∀ ws callee outer statements frames,
    ∃ x vs before, Feeds ⟨.operand [] (.argument ws callee [] outer), statements, frames⟩ d.yield
        ⟨.operator x vs (.argument ws callee before outer), statements, frames⟩ ∧
      (complete x vs :: before).reverse = d.meaning
  | .nextArgument, d => ∀ x vs ws callee before outer statements frames,
    ∃ y us, Feeds ⟨.operator x vs (.argument ws callee before outer), statements, frames⟩ d.yield
        ⟨.operator y us (.argument ws callee (complete x vs :: before) outer), statements, frames⟩ ∧
      complete y us = d.meaning
  | .primary, d => ∀ ws hole statements frames,
    Feeds ⟨.operand ws hole, statements, frames⟩ d.yield
      ⟨.operator d.meaning ws hole, statements, frames⟩
  | .optional part, d =>
    match d with
    | .absent _ => True
    | .present _ e => Reads part e
  | .many part, d => ∀ e ∈ d.items, Reads part e

namespace Reads

/-! ### Repetitions -/

/-- Statements one after another. -/
theorem statements_of_items {items : List (Derivation .statement)}
    (h : ∀ e ∈ items, Reads .statement e) (hr : Settled r statements frames) :
    ∃ s, Feeds r (items.flatMap Derivation.yield) s ∧
      Settled s (List.reverseAux (items.map Derivation.meaning) statements) frames := by
  induction items generalizing r statements with
  | nil => exact ⟨r, Feeds.nil, hr⟩
  | cons e items ih =>
    obtain ⟨s, hs, hsettled⟩ := h e (List.mem_cons_self ..) r statements frames hr
    obtain ⟨u, hu, hlast⟩ := ih (fun e he => h e (List.mem_cons_of_mem _ he)) hsettled
    exact ⟨u, hs.append hu, hlast⟩

theorem program {d : Derivation .program} (h : Reads .program d)
    (hr : Settled r statements frames) :
    ∃ s, Feeds r d.yield s ∧ Settled s (List.reverse d.meaning ++ statements) frames := by
  rw [d.yield_eq_flatMap, d.meaning_eq_map, ← List.reverseAux_eq]
  exact statements_of_items h hr

/-- Parameters one after another. -/
theorem params_of_items {name : Text} {params : List Text}
    {items : List (Derivation .nextParam)} (h : ∀ e ∈ items, Reads .nextParam e) :
    Feeds ⟨.afterParam name params, statements, frames⟩ (items.flatMap Derivation.yield)
      ⟨.afterParam name (List.reverseAux (items.map Derivation.meaning) params), statements,
        frames⟩ := by
  induction items generalizing params with
  | nil => exact Feeds.nil
  | cons e items ih =>
    exact (h e (List.mem_cons_self ..) name params statements frames).append
      (ih fun e he => h e (List.mem_cons_of_mem _ he))

/-- Operations of one level one after another. -/
theorem operations_of_items {level : Level} {items : List (Derivation (.operation level))}
    (h : ∀ e ∈ items, Reads (.operation level) e) {x y : Node} {vs ws : List Waiting}
    (hws : Loose ws level.rank) (hx : Amounts level.rank x vs y ws) (hole : Hole)
    (statements : List Node) (frames : List Frame) :
    ∃ z us, Feeds ⟨.operator x vs hole, statements, frames⟩ (items.flatMap Derivation.yield)
        ⟨.operator z us hole, statements, frames⟩ ∧
      Amounts level.rank z us ((items.map Derivation.meaning).foldl Node.operation y) ws := by
  induction items generalizing x y vs with
  | nil => exact ⟨x, vs, Feeds.nil, hx⟩
  | cons e items ih =>
    obtain ⟨z, us, hfeeds, hz⟩ :=
      h e (List.mem_cons_self ..) x vs y ws hole statements frames hws hx
    obtain ⟨z', us', hfeeds', hz'⟩ := ih (fun e he => h e (List.mem_cons_of_mem _ he)) hz
    exact ⟨z', us', hfeeds.append hfeeds', hz'⟩

/-- Arguments one after another. -/
theorem arguments_of_items {items : List (Derivation .nextArgument)}
    (h : ∀ e ∈ items, Reads .nextArgument e) (x callee : Node) (vs ws : List Waiting)
    (before : List Node) (outer : Hole) (statements : List Node) (frames : List Frame) :
    ∃ y us before', Feeds ⟨.operator x vs (.argument ws callee before outer), statements, frames⟩
        (items.flatMap Derivation.yield)
        ⟨.operator y us (.argument ws callee before' outer), statements, frames⟩ ∧
      complete y us :: before' =
        List.reverseAux (items.map Derivation.meaning) (complete x vs :: before) := by
  induction items generalizing x vs before with
  | nil => exact ⟨x, vs, before, Feeds.nil, rfl⟩
  | cons e items ih =>
    obtain ⟨y, us, hfeeds, hy⟩ :=
      h e (List.mem_cons_self ..) x vs ws callee before outer statements frames
    obtain ⟨z, us', before', hfeeds', hz⟩ :=
      ih (fun e he => h e (List.mem_cons_of_mem _ he)) y us (complete x vs :: before)
    refine ⟨z, us', before', hfeeds.append hfeeds', ?_⟩
    rw [hz, hy]
    rfl

/-- An expression from its beginning. -/
theorem expression {d : Derivation .expression} (h : Reads .expression d) (hole : Hole)
    (statements : List Node) (frames : List Frame) :
    ∃ x vs, Feeds ⟨.operand [] hole, statements, frames⟩ d.yield
      ⟨.operator x vs hole, statements, frames⟩ ∧ complete x vs = d.meaning := by
  obtain ⟨x, vs, hfeeds, hx, -⟩ := h [] hole statements frames (loose_nil _)
  exact ⟨x, vs, hfeeds, hx.complete⟩

/-- Operations of a level, given their first operand. -/
theorem operations {level : Level} {first : Derivation (.operand level.tighter)}
    {more : Derivation (.many (.operation level))} (hfirst : Reads _ first)
    (hmore : Reads _ more) : Reads _ (.operations level first more) := by
  intro ws hole statements frames hws
  have hloose : Loose ws (Level.rank? level.tighter) := by
    rw [Level.rank?_tighter]
    exact fun w hw => Nat.lt_succ_of_lt (hws w hw)
  obtain ⟨x, vs, hfeeds, hx, -⟩ := hfirst ws hole statements frames hloose
  rw [Level.rank?_tighter] at hx
  obtain ⟨z, us, hfeeds', hz⟩ :=
    operations_of_items hmore hws (hx.of_le (Nat.le_succ _)) hole statements frames
  refine ⟨z, us, ?_, ?_, nofun⟩
  · rw [Derivation.yield, more.yield_eq_flatMap]
    exact hfeeds.append hfeeds'
  · rw [Derivation.meaning, more.meaning_eq_map]
    exact hz

/-- An operator gathers what binds as tightly on its left, and waits for its right operand. -/
theorem operation {level : Level} {operator : List Char}
    {right : Derivation (.operand level.tighter)} (hright : Reads _ right) :
    Reads _ (.operation level operator right) := by
  intro x vs y ws hole statements frames hws hx
  have hgather : gather level x vs = (y, ws) := by
    rw [hx.gather level (Nat.le_refl _), gather_of_loose hws]
  have hfeed : Reader.feed ⟨.operator x vs hole, statements, frames⟩ ⟨.operator level, operator⟩ =
      some ⟨.operand (⟨level, operator, y⟩ :: ws) hole, statements, frames⟩ := by
    unfold Reader.feed Reader.feedOperator
    simp only [hgather]
    rfl
  have hloose : Loose (⟨level, operator, y⟩ :: ws) (Level.rank? level.tighter) := by
    rw [Level.rank?_tighter]
    exact loose_cons (Nat.lt_succ_self level.rank) ws
  obtain ⟨z, us, hfeeds, hz, -⟩ := hright _ hole statements frames hloose
  rw [Level.rank?_tighter] at hz
  exact ⟨z, us, Feeds.cons hfeed hfeeds, hz.fill rfl⟩

/-- A call may go on with a list of arguments as it stands. -/
theorem call {callee : Derivation (.operand none)}
    {arguments : Derivation (.optional .argumentList)} (hcallee : Reads _ callee)
    (harguments : Reads _ arguments) : Reads _ (.call callee arguments) := by
  intro ws hole statements frames hws
  obtain ⟨x, vs, hfeeds, -, hsame⟩ := hcallee ws hole statements frames hws
  obtain ⟨rfl, rfl⟩ := hsame rfl
  have hopen : Reader.feed ⟨.operator callee.meaning vs hole, statements, frames⟩ (.of .openParen) =
      some ⟨.operand [] (.argument vs callee.meaning [] hole), statements, frames⟩ := rfl
  refine ⟨_, vs, ?_, Amounts.refl _ _ _, fun _ => ⟨rfl, rfl⟩⟩
  refine hfeeds.append (Feeds.cons hopen ?_)
  cases arguments with
  | absent => exact Feeds.one rfl
  | present _ arguments =>
    obtain ⟨y, us, before, hargs, hy⟩ :=
      harguments vs callee.meaning hole statements frames
    refine hargs.append (Feeds.one ?_)
    show some _ = _
    rw [Derivation.meaning, Derivation.meaning, Option.getD_some, ← hy]

theorem argumentList {first : Derivation .expression} {more : Derivation (.many .nextArgument)}
    (hfirst : Reads .expression first) (hmore : Reads _ more) :
    Reads _ (.argumentList first more) := by
  intro ws callee outer statements frames
  obtain ⟨x, vs, hfeeds, hx⟩ := hfirst.expression (.argument ws callee [] outer) statements frames
  obtain ⟨y, us, before, hfeeds', hy⟩ :=
    arguments_of_items hmore x callee vs ws [] outer statements frames
  refine ⟨y, us, before, ?_, ?_⟩
  · rw [Derivation.yield, more.yield_eq_flatMap]
    exact hfeeds.append hfeeds'
  · rw [hy, hx, Derivation.meaning, more.meaning_eq_map, List.reverseAux_eq, List.reverse_append,
      List.reverse_reverse]
    rfl

/-- An expression statement begins where a statement may come. -/
theorem expressionStatement {body : Derivation .expression} (h : Reads .expression body) :
    Reads _ (.expressionStatement body) := by
  intro r statements frames hr
  obtain ⟨x, vs, hfeeds, hx⟩ := h.expression .statement statements frames
  obtain ⟨t, ts, hyield, ht⟩ := body.exists_yield_eq_cons rfl
  rw [hyield] at hfeeds
  refine ⟨_, ?_, Settled.statement false _ frames⟩
  rw [Derivation.yield, hyield]
  refine (hfeeds.congr (hr.feed_of_startsExpression ht)).append (Feeds.one ?_)
  rw [Derivation.meaning, ← hx]
  rfl

/-- A block in a place where it can be entered. -/
theorem block {body : Derivation .program} (h : Reads _ body) : Reads _ (.block body) := by
  intro r owner statements frames hr
  obtain ⟨s, hfeeds, hs⟩ := h.program (Settled.statement false [] (⟨owner, statements⟩ :: frames))
  rw [List.append_nil] at hs
  rw [Derivation.yield, Reader.feedAll_cons, hr, Option.bind_some, Reader.feedAll_append, hfeeds,
    Option.bind_some, Reader.feedAll_cons, hs.feed (t := .of .closeBrace) nofun]
  exact Option.bind_fun_some _

/-- A block in a place where only a block may come. -/
theorem feeds_block {body : Derivation .block} (h : Reads _ body) (owner : Owner)
    (statements : List Node) (frames : List Frame) :
    Reader.feedAll ⟨.openBlock owner, statements, frames⟩ body.yield =
      Reader.leave ⟨.statement true, List.reverse body.meaning, ⟨owner, statements⟩ :: frames⟩ :=
  h _ owner statements frames rfl

theorem functionDeclaration {name : List Char} {params : Derivation (.optional .paramList)}
    {body : Derivation .block} (hparams : Reads _ params) (hbody : Reads _ body) :
    Reads _ (.functionDeclaration name params body) := by
  intro r statements frames hr
  -- the parameters leave the reader in front of the block
  have hopen : Feeds ⟨.firstParam (String.ofList name), statements, frames⟩
      (params.yield ++ [.of .closeParen])
      ⟨.openBlock (.function (String.ofList name) (List.reverse (Option.getD params.meaning []))),
        statements, frames⟩ := by
    cases params with
    | absent => exact Feeds.one rfl
    | present _ params =>
      exact (hparams (String.ofList name) statements frames).append (Feeds.one rfl)
  refine ⟨_, ?_, Settled.statement true _ frames⟩
  refine Feeds.cons (hr.feed nofun) (Feeds.cons rfl (Feeds.cons rfl ?_))
  rw [← List.singleton_append (l := body.yield), ← List.append_assoc]
  refine hopen.append ((hbody.feeds_block _ statements frames).trans ?_)
  rw [Derivation.meaning]
  simp [Reader.leave, Reader.push]

theorem paramList {name : List Char} {more : Derivation (.many .nextParam)} (h : Reads _ more) :
    Reads _ (.paramList name more) := by
  intro f statements frames
  rw [Derivation.yield, Derivation.meaning, more.yield_eq_flatMap, more.meaning_eq_map,
    List.reverse_cons, ← List.reverseAux_eq]
  exact Feeds.cons rfl (params_of_items h)

theorem ifStatement {test : Derivation .expression} {consequent : Derivation .block}
    {alternate : Derivation (.optional .elseClause)} (htest : Reads .expression test)
    (hconsequent : Reads _ consequent) (halternate : Reads _ alternate) :
    Reads _ (.ifStatement test consequent alternate) := by
  intro r before statements frames hr
  obtain ⟨x, vs, hfeeds, hx⟩ := htest.expression (.condition before) statements frames
  have hbranch : Feeds r (.of (.keyword .ifWord) :: .of .openParen ::
      (test.yield ++ .of .closeParen :: consequent.yield))
      ⟨.branches (⟨test.meaning, .block consequent.meaning⟩ :: before), statements, frames⟩ := by
    refine Feeds.cons hr (Feeds.cons rfl (hfeeds.append (Feeds.cons rfl ?_)))
    refine (hconsequent.feeds_block _ statements frames).trans ?_
    simp [Reader.leave, Reader.goto, hx]
  have hyield : (Derivation.ifStatement test consequent alternate).yield =
      (.of (.keyword .ifWord) :: .of .openParen ::
        (test.yield ++ .of .closeParen :: consequent.yield)) ++ alternate.yield := by
    simp only [Derivation.yield, List.cons_append, List.append_assoc]
  rw [hyield]
  cases alternate with
  | absent => exact ⟨_, hbranch.append Feeds.nil, Settled.branches _ statements frames⟩
  | present _ alternate =>
    obtain ⟨s, hs, hsettled⟩ := halternate _ statements frames
    exact ⟨s, hbranch.append hs, hsettled⟩

theorem whileStatement {test : Derivation .expression} {body : Derivation .block}
    (htest : Reads .expression test) (hbody : Reads _ body) :
    Reads _ (.whileStatement test body) := by
  intro r statements frames hr
  obtain ⟨x, vs, hfeeds, hx⟩ := htest.expression .loop statements frames
  refine ⟨_, ?_, Settled.statement true _ frames⟩
  refine Feeds.cons (hr.feed nofun) (Feeds.cons rfl (hfeeds.append (Feeds.cons rfl ?_)))
  refine (hbody.feeds_block _ statements frames).trans ?_
  simp [Derivation.meaning, Reader.leave, Reader.push, hx]

theorem variableDeclaration {word : Keyword} {isDeclarator : word.isDeclarator = true}
    {name : List Char} {initial : Derivation (.optional .initializer)} (h : Reads _ initial) :
    Reads _ (.variableDeclaration word isDeclarator name initial) := by
  intro r statements frames hr
  have hword : r.feed (.of (.keyword word)) = some ⟨.declaredName, statements, frames⟩ := by
    cases word <;> first | cases isDeclarator; done | exact hr.feed nofun
  refine ⟨_, Feeds.cons hword (Feeds.cons rfl ?_), Settled.statement false _ frames⟩
  cases initial with
  | absent => exact Feeds.one rfl
  | present _ initial =>
    obtain ⟨x, vs, hfeeds, hx⟩ := h (String.ofList name) statements frames
    refine hfeeds.append (Feeds.one ?_)
    rw [Derivation.meaning, Derivation.meaning, Option.getD_some, ← hx]
    rfl

theorem returnStatement {value : Derivation (.optional .expression)} (h : Reads _ value) :
    Reads _ (.returnStatement value) := by
  intro r statements frames hr
  refine ⟨_, Feeds.cons (hr.feed nofun) ?_, Settled.statement false _ frames⟩
  cases value with
  | absent => exact Feeds.one rfl
  | present _ value =>
    have hvalue : Reads .expression value := h
    obtain ⟨x, vs, hfeeds, hx⟩ := hvalue.expression .returned statements frames
    refine hfeeds.append (Feeds.one ?_)
    rw [Derivation.meaning, Derivation.meaning, Option.getD_some, ← hx]
    rfl

/-- Any of the alternatives for a statement. -/
theorem statement {kind : Nonterminal} {isStatement : kind.isStatement = true}
    {d : Derivation kind} (h : Reads _ d) : Reads _ (.statement kind isStatement d) := by
  intro r statements frames hr
  cases kind with
  | ifStatement => exact h r [] statements frames (hr.feed nofun)
  | block =>
    refine ⟨_, (h r .plain statements frames (hr.feed nofun)).trans ?_,
      Settled.statement true _ frames⟩
    simp [Reader.leave, Reader.push]
    rfl
  | functionDeclaration | whileStatement | variableDeclaration | returnStatement
  | expressionStatement => exact h r statements frames hr
  | _ => cases isStatement

end Reads

theorem reads {n : Nonterminal} (d : Derivation n) : Reads n d := by
  induction d with
  | statement _ _ _ ih => exact Reads.statement ih
  | functionDeclaration _ _ _ ihparams ihbody => exact Reads.functionDeclaration ihparams ihbody
  | paramList _ _ ih => exact Reads.paramList ih
  | nextParam name => exact fun _ _ _ _ => Feeds.cons rfl (Feeds.one rfl)
  | ifStatement _ _ _ ihtest ihconsequent ihalternate =>
    exact Reads.ifStatement ihtest ihconsequent ihalternate
  | elseClause branch ih =>
    intro before statements frames
    obtain ⟨s, hs, hsettled⟩ := ih before statements frames
    exact ⟨s, Feeds.cons rfl hs, hsettled⟩
  | elseBlock body ih =>
    intro before statements frames
    refine ⟨_, (ih _ (.alternative before) statements frames rfl).trans ?_,
      Settled.statement true _ frames⟩
    simp [Reader.leave, Reader.push, Derivation.meaning]
  | elseIf d ih => exact fun before statements frames => ih _ before statements frames rfl
  | whileStatement _ _ ihtest ihbody => exact Reads.whileStatement ihtest ihbody
  | variableDeclaration _ _ _ _ ih => exact Reads.variableDeclaration ih
  | initializer value ih =>
    intro name statements frames
    obtain ⟨x, vs, hfeeds, hx⟩ := Reads.expression ih (.initial name) statements frames
    exact ⟨x, vs, Feeds.cons rfl hfeeds, hx⟩
  | returnStatement _ ih => exact Reads.returnStatement ih
  | expressionStatement _ ih => exact Reads.expressionStatement ih
  | block _ ih => exact Reads.block ih
  | operations _ _ _ ihfirst ihmore => exact Reads.operations ihfirst ihmore
  | operation _ _ _ ih => exact Reads.operation ih
  | simple d ih =>
    exact fun ws hole statements frames _ =>
      ⟨_, ws, ih ws hole statements frames, Amounts.refl _ _ _, fun _ => ⟨rfl, rfl⟩⟩
  | call _ _ ihcallee iharguments => exact Reads.call ihcallee iharguments
  | argumentList _ _ ihfirst ihmore => exact Reads.argumentList ihfirst ihmore
  | nextArgument value ih =>
    intro x vs ws callee before outer statements frames
    obtain ⟨y, us, hfeeds, hy⟩ :=
      Reads.expression ih (.argument ws callee (complete x vs :: before) outer) statements frames
    exact ⟨y, us, Feeds.cons rfl hfeeds, hy⟩
  | number | string | trueWord | falseWord | identifier => exact fun _ _ _ _ => Feeds.one rfl
  | group d ih =>
    intro ws hole statements frames
    obtain ⟨x, vs, hfeeds, hx⟩ := Reads.expression ih (.group ws hole) statements frames
    refine Feeds.cons rfl (hfeeds.append (Feeds.one ?_))
    rw [Derivation.meaning, ← hx]
    rfl
  | absent => exact trivial
  | present _ _ ih => exact ih
  | nil =>
    intro e he
    rw [Derivation.items] at he
    cases he
  | cons _ _ _ ihfirst ihrest =>
    intro e he
    rw [Derivation.items] at he
    rcases List.mem_cons.mp he with rfl | he
    · exact ihfirst
    · exact ihrest e he

/-- **Every derivation of a program is read**, and the program read is the tree of the
derivation. -/
theorem feedAll_yield (d : Derivation .program) :
    ∃ r, Reader.start.feedAll d.yield = some r ∧ r.finish? = some d.meaning := by
  obtain ⟨r, hfeeds, hr⟩ := (reads d).program (Settled.statement false [] [])
  refine ⟨r, hfeeds, ?_⟩
  rw [hr.finish?, List.append_nil, List.reverse_reverse]

end Scriptlet
