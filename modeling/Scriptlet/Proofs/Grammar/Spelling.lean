import Scriptlet.Proofs.Grammar.Reading

/-!
# What the reader has read is derived

The other way round: whatever state the reader comes to, the tokens that it has taken can be cut
into pieces, and the grammar derives each piece with the tree that the state holds for it.

* `Derives n ts m` says that the tokens are derived with a given tree.
* `SpellsWaiting`, `SpellsBranches`, `SpellsHole`, `SpellsOwner`, `SpellsFrames` and `SpellsFocus`
  say it of the parts of a state, and `Represents` of a whole state.
* `Represents.feed` is the step: it stays so with each token that the reader takes.
* `derives_of_feedAll` is the result: where the reader may end, the tokens are a program.

The invariant that the operators need is in `SpellsWaiting`: of the operators that wait, each binds
more tightly than the one before it.
-/

namespace Scriptlet

/-! ## One token -/

/-- A token that is written as its terminal is, where there is only one way to write that. -/
def Token.IsProper (t : Token) : Prop :=
  ∀ spelling, t.terminal.spelling? = some spelling → t.lexeme = spelling

theorem Token.isProper_of (terminal : Terminal) : (Token.of terminal).IsProper := by
  intro spelling hspelling
  have hspelling : terminal.spelling? = some spelling := hspelling
  rw [Token.of, hspelling]
  rfl

theorem Token.IsProper.eq_of {t : Token} (ht : t.IsProper) {terminal : Terminal}
    (h : t.terminal = terminal) (hspelling : terminal.spelling?.isSome = true) :
    t = .of terminal := by
  obtain ⟨_, lexeme⟩ := t
  obtain rfl : _ = terminal := h
  rw [Token.of]
  congr 1
  obtain ⟨spelling, heq⟩ := Option.isSome_iff_exists.mp hspelling
  rw [heq]
  exact ht spelling heq

variable [CharacterNames]

/-! ## Pieces of text -/

/-- The tokens are derived from a nonterminal, with a given tree. -/
def Derives (n : Nonterminal) (ts : List Token) (m : n.Meaning) : Prop :=
  ∃ d : Derivation n, d.yield = ts ∧ d.meaning = m

namespace Derives

variable {ts us vs : List Token} {x y : Node}

theorem nil (part : Nonterminal) : Derives (.many part) [] [] := ⟨.nil part, rfl, rfl⟩

theorem absent (part : Nonterminal) : Derives (.optional part) [] none := ⟨.absent part, rfl, rfl⟩

theorem present {part : Nonterminal} {m : part.Meaning} (h : Derives part ts m) :
    Derives (.optional part) ts (some m) := by
  obtain ⟨d, rfl, rfl⟩ := h
  exact ⟨.present part d, rfl, rfl⟩

/-- One more at the end of a repetition. -/
theorem snoc {part : Nonterminal} {ms : List part.Meaning} {m : part.Meaning}
    (h : Derives (.many part) ts ms) (hm : Derives part us m) :
    Derives (.many part) (ts ++ us) (ms ++ [m]) := by
  obtain ⟨d, rfl, rfl⟩ := h
  obtain ⟨e, rfl, rfl⟩ := hm
  refine ⟨.ofItems (d.items ++ [e]), ?_, ?_⟩
  · rw [Derivation.yield_ofItems, d.yield_eq_flatMap, List.flatMap_append, List.flatMap_singleton]
  · rw [Derivation.meaning_ofItems, d.meaning_eq_map, List.map_append, List.map_singleton]

theorem statement {kind : Nonterminal} {m : kind.Meaning} (h : Derives kind ts m)
    (hkind : kind.isStatement = true) : Derives .statement ts (kind.toStatement m) := by
  obtain ⟨d, rfl, rfl⟩ := h
  exact ⟨.statement kind hkind d, rfl, rfl⟩

/-! ### Operands -/

/-- What is derived at the next tighter level is derived at a level. -/
theorem loosen {level : Level} (h : Derives (.operand level.tighter) ts x) :
    Derives (.operand (some level)) ts x := by
  obtain ⟨d, rfl, rfl⟩ := h
  exact ⟨.operations level d (.nil _), List.append_nil _, rfl⟩

/-- What is derived at a level is derived at every looser one. -/
theorem of_rank_le {level level' : Option Level} (h : Derives (.operand level') ts x)
    (hle : Level.rank? level ≤ Level.rank? level') : Derives (.operand level) ts x := by
  -- The induction is on the number of levels between the two.
  have hstep : ∀ (k : Nat) (level : Option Level), k + Level.rank? level = Level.rank? level' →
      Derives (.operand level) ts x := by
    intro k
    induction k with
    | zero =>
      intro level hk
      obtain rfl : level = level' := Level.rank?_inj ((Nat.zero_add _).symm.trans hk)
      exact h
    | succ k ih =>
      intro level hk
      cases level with
      | some level =>
        have hnext : k + Level.rank? level.tighter = Level.rank? level' := by
          rw [Level.rank?_tighter, ← hk, Level.rank?_some]
          omega
        exact loosen (ih level.tighter hnext)
      | none =>
        have hmax := Level.rank?_le level'
        rw [← hk, Level.rank?_none] at hmax
        omega
  exact hstep (Level.rank? level' - Level.rank? level) level (Nat.sub_add_cancel hle)

/-- One more operation of a level. -/
theorem operation {level : Level} {operator : List Char}
    (hx : Derives (.operand (some level)) ts x) (hy : Derives (.operand level.tighter) us y) :
    Derives (.operand (some level)) (ts ++ ⟨.operator level, operator⟩ :: us)
      (Node.operation x (operator, y)) := by
  obtain ⟨d, rfl, rfl⟩ := hx
  obtain ⟨e, rfl, rfl⟩ := hy
  cases d with
  | operations _ first more =>
    have hmore : Derives (.many (.operation level)) more.yield more.meaning := ⟨more, rfl, rfl⟩
    obtain ⟨more', hyield, hmeaning⟩ := hmore.snoc ⟨.operation level operator e, rfl, rfl⟩
    refine ⟨.operations level first more', ?_, ?_⟩
    · rw [Derivation.yield, hyield]
      simp only [Derivation.yield, List.append_assoc]
    · rw [Derivation.meaning, hmeaning, List.foldl_append]
      rfl

theorem call {args : Option (List Node)} (hx : Derives (.operand none) ts x)
    (hargs : Derives (.optional .argumentList) us args) :
    Derives (.operand none) (ts ++ .of .openParen :: (us ++ [.of .closeParen]))
      (.call x (Option.getD args [])) := by
  obtain ⟨d, rfl, rfl⟩ := hx
  obtain ⟨e, rfl, rfl⟩ := hargs
  exact ⟨.call d e, rfl, rfl⟩

theorem group (hx : Derives .expression ts x) :
    Derives (.operand none) (.of .openParen :: (ts ++ [.of .closeParen])) x := by
  obtain ⟨d, rfl, rfl⟩ := hx
  exact ⟨.simple (.group d), rfl, rfl⟩

theorem argument (hx : Derives .expression ts x) : Derives .argumentList ts [x] := by
  obtain ⟨d, rfl, rfl⟩ := hx
  exact ⟨.argumentList d (.nil _), List.append_nil _, rfl⟩

/-- One more argument. -/
theorem snocArgument {args : List Node} (h : Derives .argumentList ts args)
    (hx : Derives .expression us x) :
    Derives .argumentList (ts ++ .of .comma :: us) (args ++ [x]) := by
  obtain ⟨d, rfl, rfl⟩ := h
  obtain ⟨e, rfl, rfl⟩ := hx
  cases d with
  | argumentList first more =>
    have hmore : Derives (.many .nextArgument) more.yield more.meaning := ⟨more, rfl, rfl⟩
    obtain ⟨more', hyield, hmeaning⟩ := hmore.snoc ⟨.nextArgument e, rfl, rfl⟩
    refine ⟨.argumentList first more', ?_, ?_⟩
    · rw [Derivation.yield, hyield]
      simp only [Derivation.yield, List.append_assoc]
    · rw [Derivation.meaning, hmeaning]
      rfl

theorem param (name : List Char) : Derives .paramList [⟨.name, name⟩] [String.ofList name] :=
  ⟨.paramList name (.nil _), rfl, rfl⟩

/-- One more parameter. -/
theorem snocParam {params : List Text} (h : Derives .paramList ts params) (name : List Char) :
    Derives .paramList (ts ++ [.of .comma, ⟨.name, name⟩])
      (params ++ [.plain (String.ofList name)]) := by
  obtain ⟨d, rfl, rfl⟩ := h
  cases d with
  | paramList first more =>
    have hmore : Derives (.many .nextParam) more.yield more.meaning := ⟨more, rfl, rfl⟩
    obtain ⟨more', hyield, hmeaning⟩ := hmore.snoc ⟨.nextParam name, rfl, rfl⟩
    refine ⟨.paramList first more', ?_, ?_⟩
    · rw [Derivation.yield, hyield]
      rfl
    · rw [Derivation.meaning, hmeaning]
      rfl

theorem block {body : List Node} (h : Derives .program ts body) :
    Derives .block (.of .openBrace :: (ts ++ [.of .closeBrace])) body := by
  obtain ⟨d, rfl, rfl⟩ := h
  exact ⟨.block d, rfl, rfl⟩

end Derives

/-! ## The parts of a state -/

/-- The tokens of the operators that wait and of their left operands.  Each binds more tightly than
the one before it. -/
inductive SpellsWaiting : List Waiting → List Token → Prop
  | nil : SpellsWaiting [] []
  | cons {w : Waiting} {ws : List Waiting} {ts us : List Token} (rest : SpellsWaiting ws ts)
      (loose : Loose ws w.level.rank) (left : Derives (.operand (some w.level)) us w.left) :
      SpellsWaiting (w :: ws) (ts ++ us ++ [⟨.operator w.level, w.operator⟩])

/-- The tokens of an `if` with its branches so far. -/
inductive SpellsBranches : List Branch → List Token → Prop
  | first {test : Node} {body : List Node} {ts us : List Token}
      (htest : Derives .expression ts test) (hbody : Derives .block us body) :
      SpellsBranches [⟨test, .block body⟩]
        (.of (.keyword .ifWord) :: .of .openParen :: (ts ++ .of .closeParen :: us))
  | next {before : List Branch} {test : Node} {body : List Node} {ss ts us : List Token}
      (rest : SpellsBranches before ss) (htest : Derives .expression ts test)
      (hbody : Derives .block us body) :
      SpellsBranches (⟨test, .block body⟩ :: before)
        (ss ++ .of (.keyword .elseWord) :: .of (.keyword .ifWord) :: .of .openParen ::
          (ts ++ .of .closeParen :: us))

/-- The tokens up to the word `if` of a branch, after the branches of the same statement. -/
inductive SpellsIf : List Branch → List Token → Prop
  | first : SpellsIf [] [.of (.keyword .ifWord)]
  | next {before : List Branch} {ts : List Token} (rest : SpellsBranches before ts) :
      SpellsIf before (ts ++ [.of (.keyword .elseWord), .of (.keyword .ifWord)])

/-- The tokens of the arguments so far, with a comma after each. -/
inductive SpellsArguments : List Node → List Token → Prop
  | none : SpellsArguments [] []
  | some {before : List Node} {ts : List Token} (h : Derives .argumentList ts before.reverse) :
      SpellsArguments before (ts ++ [.of .comma])

/-- The tokens of the statement in hand up to the expression in hand. -/
inductive SpellsHole : Hole → List Token → Prop
  | statement : SpellsHole .statement []
  | returned : SpellsHole .returned [.of (.keyword .returnWord)]
  | initial (word : Keyword) (isDeclarator : word.isDeclarator = true) (name : List Char) :
      SpellsHole (.initial (String.ofList name))
        [.of (.keyword word), ⟨.name, name⟩, .of .assign]
  | condition {before : List Branch} {ts : List Token} (h : SpellsIf before ts) :
      SpellsHole (.condition before) (ts ++ [.of .openParen])
  | loop : SpellsHole .loop [.of (.keyword .whileWord), .of .openParen]
  | group {ws : List Waiting} {outer : Hole} {ts us : List Token} (outside : SpellsHole outer ts)
      (waiting : SpellsWaiting ws us) : SpellsHole (.group ws outer) (ts ++ us ++ [.of .openParen])
  | argument {ws : List Waiting} {callee : Node} {before : List Node} {outer : Hole}
      {ts us vs xs : List Token} (outside : SpellsHole outer ts) (waiting : SpellsWaiting ws us)
      (hcallee : Derives (.operand none) vs callee) (hbefore : SpellsArguments before xs) :
      SpellsHole (.argument ws callee before outer) (ts ++ us ++ vs ++ .of .openParen :: xs)

/-- The tokens in front of an open block that belong to the same statement. -/
inductive SpellsOwner : Owner → List Token → Prop
  | plain : SpellsOwner .plain []
  | function (name : List Char) {params : List Text} {m : Option (List Text)}
      {ts : List Token} (h : Derives (.optional .paramList) ts m)
      (hparams : params.reverse = m.getD []) :
      SpellsOwner (.function (String.ofList name) params)
        (.of (.keyword .functionWord) :: ⟨.name, name⟩ :: .of .openParen ::
          (ts ++ [.of .closeParen]))
  | loop {test : Node} {ts : List Token} (h : Derives .expression ts test) :
      SpellsOwner (.loop test)
        (.of (.keyword .whileWord) :: .of .openParen :: (ts ++ [.of .closeParen]))
  | consequent {test : Node} {before : List Branch} {ts us : List Token} (h : SpellsIf before ts)
      (htest : Derives .expression us test) :
      SpellsOwner (.consequent test before) (ts ++ .of .openParen :: (us ++ [.of .closeParen]))
  | alternative {before : List Branch} {ts : List Token} (h : SpellsBranches before ts) :
      SpellsOwner (.alternative before) (ts ++ [.of (.keyword .elseWord)])

/-- The tokens up to the innermost open block. -/
inductive SpellsFrames : List Frame → List Token → Prop
  | nil : SpellsFrames [] []
  | cons {owner : Owner} {before : List Node} {frames : List Frame} {ts us vs : List Token}
      (rest : SpellsFrames frames ts) (statements : Derives .program us before.reverse)
      (howner : SpellsOwner owner vs) :
      SpellsFrames (⟨owner, before⟩ :: frames) (ts ++ us ++ vs ++ [.of .openBrace])

/-- The tokens of the statement in hand. -/
inductive SpellsFocus : Focus → List Token → Prop
  | statement (afterBlock : Bool) : SpellsFocus (.statement afterBlock) []
  | branches {before : List Branch} {ts : List Token} (h : SpellsBranches before ts) :
      SpellsFocus (.branches before) ts
  | operand {ws : List Waiting} {hole : Hole} {ts us : List Token} (outside : SpellsHole hole ts)
      (waiting : SpellsWaiting ws us) : SpellsFocus (.operand ws hole) (ts ++ us)
  | operator {x : Node} {ws : List Waiting} {hole : Hole} {ts us vs : List Token}
      (outside : SpellsHole hole ts) (waiting : SpellsWaiting ws us)
      (operand : Derives (.operand none) vs x) : SpellsFocus (.operator x ws hole) (ts ++ us ++ vs)
  | functionName : SpellsFocus .functionName [.of (.keyword .functionWord)]
  | openParams (name : List Char) :
      SpellsFocus (.openParams (String.ofList name))
        [.of (.keyword .functionWord), ⟨.name, name⟩]
  | firstParam (name : List Char) :
      SpellsFocus (.firstParam (String.ofList name))
        [.of (.keyword .functionWord), ⟨.name, name⟩, .of .openParen]
  | nextParam (name : List Char) {params : List Text} {ts : List Token}
      (h : Derives .paramList ts params.reverse) :
      SpellsFocus (.nextParam (String.ofList name) params)
        (.of (.keyword .functionWord) :: ⟨.name, name⟩ :: .of .openParen :: (ts ++ [.of .comma]))
  | afterParam (name : List Char) {params : List Text} {ts : List Token}
      (h : Derives .paramList ts params.reverse) :
      SpellsFocus (.afterParam (String.ofList name) params)
        (.of (.keyword .functionWord) :: ⟨.name, name⟩ :: .of .openParen :: ts)
  | openCondition {hole : Hole} {ts : List Token} (h : SpellsHole hole (ts ++ [.of .openParen])) :
      SpellsFocus (.openCondition hole) ts
  | openBlock {owner : Owner} {ts : List Token} (h : SpellsOwner owner ts) :
      SpellsFocus (.openBlock owner) ts
  | alternative {before : List Branch} {ts : List Token} (h : SpellsBranches before ts) :
      SpellsFocus (.alternative before) (ts ++ [.of (.keyword .elseWord)])
  | declaredName (word : Keyword) (isDeclarator : word.isDeclarator = true) :
      SpellsFocus .declaredName [.of (.keyword word)]
  | afterDeclaredName (word : Keyword) (isDeclarator : word.isDeclarator = true)
      (name : List Char) :
      SpellsFocus (.afterDeclaredName (String.ofList name))
        [.of (.keyword word), ⟨.name, name⟩]

/-- The state is one that the reader is in after the tokens, as far as the grammar can tell: the
pieces that it holds are derived, with the trees that it holds. -/
inductive Represents : Reader → List Token → Prop
  | intro {focus : Focus} {statements : List Node} {frames : List Frame} {ts us vs : List Token}
      (hframes : SpellsFrames frames ts) (hstatements : Derives .program us statements.reverse)
      (hfocus : SpellsFocus focus vs) :
      Represents ⟨focus, statements, frames⟩ (ts ++ us ++ vs)

/-! ## Operands with the operators that wait for them -/

/-- Gathering for an operator leaves an operand of its level behind looser operators. -/
theorem SpellsWaiting.gather {ws : List Waiting} {ts us : List Token} (h : SpellsWaiting ws ts)
    (level : Level) {other : Option Level} {x : Node} (hx : Derives (.operand other) us x)
    (hws : Loose ws (Level.rank? other)) (hle : level.rank ≤ Level.rank? other) :
    ∃ ts' us', SpellsWaiting (gather level x ws).2 ts' ∧
      Derives (.operand (some level)) us' (gather level x ws).1 ∧
      Loose (gather level x ws).2 level.rank ∧ ts' ++ us' = ts ++ us := by
  induction h generalizing other us x with
  | nil => exact ⟨[], us, .nil, hx.of_rank_le hle, loose_nil _, rfl⟩
  | @cons w ws ts vs rest loose left ih =>
    rw [Scriptlet.gather]
    split
    · rename_i hw
      have hright : Derives (.operand w.level.tighter) us x := by
        refine hx.of_rank_le ?_
        rw [Level.rank?_tighter]
        exact hws w rfl
      obtain ⟨ts', us', hspells, hderives, hloose, heq⟩ := ih (left.operation hright) loose hw
      refine ⟨ts', us', hspells, hderives, hloose, heq.trans ?_⟩
      simp only [List.append_assoc, List.singleton_append]
    · rename_i hw
      refine ⟨_, us, .cons rest loose left, hx.of_rank_le hle, ?_, rfl⟩
      exact loose_cons (Nat.lt_of_not_le hw) ws

/-- At the end of an expression nothing waits. -/
theorem SpellsWaiting.complete {ws : List Waiting} {ts us : List Token} (h : SpellsWaiting ws ts)
    {x : Node} (hx : Derives (.operand none) us x) :
    Derives .expression (ts ++ us) (complete x ws) := by
  obtain ⟨ts', us', hspells, hderives, -, heq⟩ :=
    h.gather .equality hx (loose_four ws) (Nat.zero_le _)
  rw [gather_equality] at hspells hderives
  cases hspells
  rw [← heq]
  exact hderives

/-! ## Branches, arguments and blocks -/

/-- The branches with what follows the last of them are an `if`. -/
theorem SpellsBranches.close {before : List Branch} {ts us : List Token}
    (h : SpellsBranches before ts) {alternate : Option Node}
    (ha : Derives (.optional .elseClause) us alternate) :
    Derives .ifStatement (ts ++ us) (Branch.close (alternate.getD .absent) before) := by
  induction h generalizing us alternate with
  | first htest hbody =>
    obtain ⟨test, rfl, rfl⟩ := htest
    obtain ⟨body, rfl, rfl⟩ := hbody
    obtain ⟨alternate, rfl, rfl⟩ := ha
    refine ⟨.ifStatement test body alternate, ?_, rfl⟩
    simp only [Derivation.yield, List.cons_append, List.append_assoc]
  | next _ htest hbody ih =>
    obtain ⟨test, rfl, rfl⟩ := htest
    obtain ⟨body, rfl, rfl⟩ := hbody
    obtain ⟨alternate, rfl, rfl⟩ := ha
    -- the last branch is the alternative of those before it
    have hlast : Derives (.optional .elseClause) _ _ :=
      ⟨.present _ (.elseClause (.elseIf (.ifStatement test body alternate))), rfl, rfl⟩
    obtain ⟨d, hyield, hmeaning⟩ := ih hlast
    refine ⟨d, ?_, hmeaning⟩
    rw [hyield]
    simp only [Derivation.yield, List.cons_append, List.append_assoc]

/-- The branches are the last statement of a program, if no `else` follows. -/
theorem SpellsBranches.snoc {before : List Branch} {statements : List Node} {ts us : List Token}
    (h : SpellsBranches before us) (hstatements : Derives .program ts statements.reverse) :
    Derives .program (ts ++ us) (Branch.close .absent before :: statements).reverse := by
  have hif : Derives .ifStatement us (Branch.close .absent before) := by
    rw [← List.append_nil us]
    exact h.close (Derives.absent _)
  rw [List.reverse_cons]
  exact hstatements.snoc (hif.statement rfl)

/-- One more branch. -/
theorem SpellsIf.branch {before : List Branch} {ts us vs : List Token} (h : SpellsIf before ts)
    {test : Node} {body : List Node} (htest : Derives .expression us test)
    (hbody : Derives .block vs body) :
    SpellsBranches (⟨test, .block body⟩ :: before)
      (ts ++ .of .openParen :: (us ++ .of .closeParen :: vs)) := by
  cases h with
  | first => exact .first htest hbody
  | next rest =>
    rw [List.append_assoc]
    exact .next rest htest hbody

/-- The last argument. -/
theorem SpellsArguments.snoc {before : List Node} {ts us : List Token}
    (h : SpellsArguments before ts) {x : Node} (hx : Derives .expression us x) :
    Derives .argumentList (ts ++ us) (x :: before).reverse := by
  cases h with
  | none => exact hx.argument
  | some h =>
    rw [List.reverse_cons, List.append_assoc]
    exact h.snocArgument hx

theorem Represents.of_eq {r : Reader} {ts us : List Token} (h : Represents r ts) (heq : ts = us) :
    Represents r us := heq ▸ h

section Feed

variable {statements : List Node} {frames : List Frame} {ts us vs : List Token} {t : Token}
  {s : Reader}

/-- The statement in hand goes on. -/
theorem represents_extend (hframes : SpellsFrames frames ts)
    (hstatements : Derives .program us statements.reverse) {focus : Focus}
    (hfocus : SpellsFocus focus (vs ++ [t])) :
    Represents ⟨focus, statements, frames⟩ (ts ++ us ++ vs ++ [t]) := by
  rw [List.append_assoc (ts ++ us)]
  exact .intro hframes hstatements hfocus

/-- A whole statement has been read. -/
theorem represents_push (hframes : SpellsFrames frames ts)
    (hstatements : Derives .program us statements.reverse) {node : Node}
    (hnode : Derives .statement vs node) (focus : Focus) (afterBlock : Bool) :
    Represents (Reader.push ⟨focus, statements, frames⟩ node afterBlock) (ts ++ us ++ vs) := by
  have hpushed : Derives .program (us ++ vs) (node :: statements).reverse := by
    rw [List.reverse_cons]
    exact hstatements.snoc hnode
  refine (Represents.intro hframes hpushed (.statement afterBlock)).of_eq ?_
  simp only [List.append_assoc, List.append_nil]

/-- The innermost block has been closed. -/
theorem represents_leave (hframes : SpellsFrames frames ts)
    (hstatements : Derives .program us statements.reverse) (focus : Focus)
    (h : Reader.leave ⟨focus, statements, frames⟩ = some s) :
    Represents s (ts ++ us ++ [.of .closeBrace]) := by
  cases hframes with
  | nil => cases h
  | @cons owner before frames ts' us' vs' rest hbefore howner =>
    have hblock := hstatements.block
    have htokens : ts' ++ us' ++ (vs' ++ .of .openBrace :: (us ++ [.of .closeBrace])) =
        ts' ++ us' ++ vs' ++ [.of .openBrace] ++ us ++ [.of .closeBrace] := by
      simp only [List.append_assoc, List.cons_append, List.nil_append]
    refine Represents.of_eq ?_ htokens
    cases howner with
    | plain =>
      cases h
      exact represents_push rest hbefore (hblock.statement rfl) _ true
    | @function name params m ps hparams heq =>
      cases h
      obtain ⟨ps, rfl, rfl⟩ := hparams
      obtain ⟨body, hbody, hmeaning⟩ := hblock
      have hstatement : Derives .functionDeclaration _
          (.function (String.ofList name) params.reverse statements.reverse) :=
        ⟨.functionDeclaration name ps body, rfl, by rw [Derivation.meaning, hmeaning, heq]⟩
      refine (represents_push rest hbefore (hstatement.statement rfl) _ true).of_eq ?_
      simp only [Derivation.yield, hbody, List.append_assoc, List.cons_append, List.nil_append]
    | @loop test us'' htest =>
      cases h
      obtain ⟨test, rfl, rfl⟩ := htest
      obtain ⟨body, hbody, hmeaning⟩ := hblock
      have hstatement : Derives .whileStatement _
          (.whileLoop test.meaning (.block statements.reverse)) :=
        ⟨.whileStatement test body, rfl, by rw [Derivation.meaning, hmeaning]⟩
      refine (represents_push rest hbefore (hstatement.statement rfl) _ true).of_eq ?_
      simp only [Derivation.yield, hbody, List.append_assoc, List.cons_append, List.nil_append]
    | @consequent test branches ps qs hif htest =>
      cases h
      refine (Represents.intro rest hbefore (.branches (hif.branch htest hblock))).of_eq ?_
      simp only [List.append_assoc, List.cons_append, List.nil_append]
    | @alternative branches ps hbranches =>
      cases h
      obtain ⟨body, hbody, hmeaning⟩ := hblock
      have hclause : Derives (.optional .elseClause)
          (.of (.keyword .elseWord) :: .of .openBrace :: (us ++ [.of .closeBrace]))
          (some (.block statements.reverse)) := by
        refine ⟨.present _ (.elseClause (.elseBlock body)), ?_, ?_⟩
        · rw [← hbody]
          rfl
        · rw [← hmeaning]
          rfl
      refine (represents_push rest hbefore
        ((hbranches.close hclause).statement rfl) _ true).of_eq ?_
      simp only [List.append_assoc, List.cons_append, List.nil_append]

/-- A token that is an operand by itself is derived as one. -/
theorem derives_operandOf? (ht : t.IsProper) {x : Node} (h : Reader.operandOf? t = some x) :
    Derives (.operand none) [t] x := by
  obtain ⟨terminal, lexeme⟩ := t
  cases terminal with
  | number =>
    cases h
    exact ⟨.simple (.number lexeme), rfl, rfl⟩
  | string =>
    cases h
    exact ⟨.simple (.string lexeme), rfl, rfl⟩
  | name =>
    cases h
    exact ⟨.simple (.identifier lexeme), rfl, rfl⟩
  | keyword k =>
    obtain rfl : lexeme = _ := ht _ rfl
    cases k with
    | trueWord =>
      cases h
      exact ⟨.simple .trueWord, rfl, rfl⟩
    | falseWord =>
      cases h
      exact ⟨.simple .falseWord, rfl, rfl⟩
    | _ => cases h
  | _ => cases h

/-- Where an operand may come. -/
theorem represents_feedOperand (hframes : SpellsFrames frames ts)
    (hstatements : Derives .program us statements.reverse) {ws : List Waiting} {hole : Hole}
    {xs : List Token} (hhole : SpellsHole hole vs) (hwaiting : SpellsWaiting ws xs)
    (ht : t.IsProper) (focus : Focus)
    (h : Reader.feedOperand ⟨focus, statements, frames⟩ ws hole t = some s) :
    Represents s (ts ++ us ++ (vs ++ xs) ++ [t]) := by
  unfold Reader.feedOperand at h
  cases hoperand : Reader.operandOf? t with
  | some x =>
    rw [hoperand] at h
    cases h
    refine (Represents.intro hframes hstatements
      (.operator hhole hwaiting (derives_operandOf? ht hoperand))).of_eq ?_
    simp only [List.append_assoc]
  | none =>
    rw [hoperand] at h
    obtain ⟨terminal, lexeme⟩ := t
    dsimp only at h
    split at h
    · obtain rfl : lexeme = _ := ht _ rfl
      cases h
      refine (Represents.intro hframes hstatements
        (.operand (.group hhole hwaiting) .nil)).of_eq ?_
      simp only [List.append_assoc, List.append_nil]
      rfl
    · -- a call without arguments
      obtain rfl : lexeme = _ := ht _ rfl
      cases h
      cases hhole with
      | argument houtside hwaiting' hcallee hbefore =>
        cases hbefore with
        | none =>
          cases hwaiting
          refine (Represents.intro hframes hstatements (.operator houtside hwaiting'
            (hcallee.call (Derives.absent _)))).of_eq ?_
          simp only [List.append_assoc, List.append_nil, List.nil_append, List.cons_append]
          rfl
        | some h =>
          obtain ⟨d, -, hmeaning⟩ := h
          cases d
          cases hmeaning
    · -- a return without a value
      obtain rfl : lexeme = _ := ht _ rfl
      cases h
      cases hhole
      cases hwaiting
      have hreturn : Derives .returnStatement _ (.returning .absent) :=
        ⟨.returnStatement (.absent _), rfl, rfl⟩
      refine (represents_push hframes hstatements (hreturn.statement rfl) focus false).of_eq ?_
      simp only [Derivation.yield, List.append_assoc, List.nil_append, List.cons_append]
      rfl
    · cases h

/-- Where an expression ends. -/
theorem represents_feedEnd (hframes : SpellsFrames frames ts)
    (hstatements : Derives .program us statements.reverse) {hole : Hole} {xs : List Token}
    {x : Node} (hhole : SpellsHole hole vs) (hx : Derives .expression xs x) (ht : t.IsProper)
    (focus : Focus) (h : Reader.feedEnd ⟨focus, statements, frames⟩ x hole t = some s) :
    Represents s (ts ++ us ++ (vs ++ xs) ++ [t]) := by
  obtain ⟨terminal, lexeme⟩ := t
  unfold Reader.feedEnd at h
  dsimp only at h
  split at h
  · obtain rfl : lexeme = _ := ht _ rfl
    cases h
    cases hhole
    obtain ⟨d, rfl, rfl⟩ := hx
    have hstatement : Derives .expressionStatement _ (.expression d.meaning) :=
      ⟨.expressionStatement d, rfl, rfl⟩
    refine (represents_push hframes hstatements (hstatement.statement rfl) focus false).of_eq ?_
    simp only [Derivation.yield, List.append_assoc, List.nil_append]
    rfl
  · obtain rfl : lexeme = _ := ht _ rfl
    cases h
    cases hhole
    obtain ⟨d, rfl, rfl⟩ := hx
    have hstatement : Derives .returnStatement _ (.returning d.meaning) :=
      ⟨.returnStatement (.present _ d), rfl, rfl⟩
    refine (represents_push hframes hstatements (hstatement.statement rfl) focus false).of_eq ?_
    simp only [Derivation.yield, List.append_assoc, List.nil_append, List.cons_append]
    rfl
  · obtain rfl : lexeme = _ := ht _ rfl
    cases h
    cases hhole with
    | initial word isDeclarator name =>
      obtain ⟨d, rfl, rfl⟩ := hx
      have hstatement : Derives .variableDeclaration _
          (.declaration (String.ofList name) d.meaning) :=
        ⟨.variableDeclaration word isDeclarator name (.present _ (.initializer d)), rfl, rfl⟩
      refine (represents_push hframes hstatements (hstatement.statement rfl) focus false).of_eq ?_
      simp only [Derivation.yield, List.append_assoc, List.nil_append, List.cons_append]
      rfl
  · obtain rfl : lexeme = _ := ht _ rfl
    cases h
    cases hhole with
    | condition hif =>
      refine (Represents.intro hframes hstatements (.openBlock (.consequent hif hx))).of_eq ?_
      simp only [List.append_assoc, List.cons_append]
      rfl
  · obtain rfl : lexeme = _ := ht _ rfl
    cases h
    cases hhole
    refine (Represents.intro hframes hstatements (.openBlock (.loop hx))).of_eq ?_
    simp only [List.append_assoc, List.nil_append, List.cons_append]
    rfl
  · obtain rfl : lexeme = _ := ht _ rfl
    cases h
    cases hhole with
    | group houtside hwaiting =>
      refine (Represents.intro hframes hstatements
        (.operator houtside hwaiting hx.group)).of_eq ?_
      simp only [List.append_assoc, List.nil_append, List.cons_append]
      rfl
  · obtain rfl : lexeme = _ := ht _ rfl
    cases h
    cases hhole with
    | argument houtside hwaiting hcallee hbefore =>
      have hcall := hcallee.call (hbefore.snoc hx).present
      refine (Represents.intro hframes hstatements (.operator houtside hwaiting hcall)).of_eq ?_
      simp only [List.append_assoc, List.cons_append]
      rfl
  · obtain rfl : lexeme = _ := ht _ rfl
    cases h
    cases hhole with
    | argument houtside hwaiting hcallee hbefore =>
      refine (Represents.intro hframes hstatements (.operand
        (.argument houtside hwaiting hcallee (.some (hbefore.snoc hx))) .nil)).of_eq ?_
      simp only [List.append_assoc, List.append_nil, List.cons_append]
      rfl
  · cases h

/-- After an operand. -/
theorem represents_feedOperator (hframes : SpellsFrames frames ts)
    (hstatements : Derives .program us statements.reverse) {ws : List Waiting} {hole : Hole}
    {xs ys : List Token} {x : Node} (hhole : SpellsHole hole vs) (hwaiting : SpellsWaiting ws xs)
    (hx : Derives (.operand none) ys x) (ht : t.IsProper) (focus : Focus)
    (h : Reader.feedOperator ⟨focus, statements, frames⟩ x ws hole t = some s) :
    Represents s (ts ++ us ++ (vs ++ xs ++ ys) ++ [t]) := by
  unfold Reader.feedOperator at h
  split at h
  · rename_i level hlevel
    obtain ⟨xs', ys', hwaiting', hleft, hloose, heq⟩ :=
      hwaiting.gather level hx (loose_four ws) (by cases level <;> decide)
    cases h
    refine (Represents.intro hframes hstatements
      (.operand hhole (.cons hwaiting' hloose hleft))).of_eq ?_
    obtain ⟨terminal, lexeme⟩ := t
    obtain rfl : terminal = _ := hlevel
    simp only [List.append_assoc, ← heq]
  · rename_i hparen
    obtain ⟨terminal, lexeme⟩ := t
    obtain rfl : terminal = _ := hparen
    obtain rfl : lexeme = _ := ht _ rfl
    cases h
    refine (Represents.intro hframes hstatements
      (.operand (.argument hhole hwaiting hx .none) .nil)).of_eq ?_
    simp only [List.append_assoc, List.append_nil]
    rfl
  · rw [List.append_assoc vs]
    exact represents_feedEnd hframes hstatements hhole (hwaiting.complete hx) ht focus h

/-- Where a statement may come. -/
theorem represents_feedStatement (hframes : SpellsFrames frames ts)
    (hstatements : Derives .program us statements.reverse) (ht : t.IsProper) (focus : Focus)
    (h : Reader.feedStatement ⟨focus, statements, frames⟩ t = some s) :
    Represents s (ts ++ us ++ [t]) := by
  unfold Reader.feedStatement at h
  split at h
  · rename_i hword
    obtain rfl := ht.eq_of hword rfl
    cases h
    exact .intro hframes hstatements .functionName
  · rename_i hword
    obtain rfl := ht.eq_of hword rfl
    cases h
    exact .intro hframes hstatements (.openCondition (.condition .first))
  · rename_i hword
    obtain rfl := ht.eq_of hword rfl
    cases h
    exact .intro hframes hstatements (.openCondition .loop)
  · rename_i hword
    obtain rfl := ht.eq_of hword rfl
    cases h
    exact .intro hframes hstatements (.declaredName _ rfl)
  · rename_i hword
    obtain rfl := ht.eq_of hword rfl
    cases h
    exact .intro hframes hstatements (.declaredName _ rfl)
  · rename_i hword
    obtain rfl := ht.eq_of hword rfl
    cases h
    exact .intro hframes hstatements (.declaredName _ rfl)
  · rename_i hword
    obtain rfl := ht.eq_of hword rfl
    cases h
    exact .intro hframes hstatements (.operand .returned .nil)
  · rename_i hbrace
    obtain rfl := ht.eq_of hbrace rfl
    cases h
    refine (Represents.intro (.cons hframes hstatements .plain) (Derives.nil _)
      (.statement false)).of_eq ?_
    simp only [List.append_nil]
  · rename_i hbrace
    obtain rfl := ht.eq_of hbrace rfl
    exact represents_leave hframes hstatements focus h
  · have hfeed := represents_feedOperand hframes hstatements .statement .nil ht focus h
    rw [List.append_nil, List.append_nil] at hfeed
    exact hfeed

/-- Where an `else` may come. -/
theorem represents_feed_branches (hframes : SpellsFrames frames ts)
    (hstatements : Derives .program us statements.reverse) {before : List Branch}
    (hbranches : SpellsBranches before vs) (ht : t.IsProper)
    (h : Reader.feed ⟨.branches before, statements, frames⟩ t = some s) :
    Represents s (ts ++ us ++ vs ++ [t]) := by
  unfold Reader.feed at h
  dsimp only at h
  split at h
  · rename_i hword
    obtain rfl := ht.eq_of hword rfl
    cases h
    refine (Represents.intro hframes hstatements (.alternative hbranches)).of_eq ?_
    simp only [List.append_assoc]
  · -- no `else` follows, so the `if` ends here and another statement begins
    rw [List.append_assoc ts]
    exact represents_feedStatement hframes (hbranches.snoc hstatements) ht _ h

/-- Where the first parameter may come. -/
theorem represents_feed_firstParam (hframes : SpellsFrames frames ts)
    (hstatements : Derives .program us statements.reverse) (name : List Char) (ht : t.IsProper)
    (h : Reader.feed ⟨.firstParam (String.ofList name), statements, frames⟩ t = some s) :
    Represents s (ts ++ us ++
      [.of (.keyword .functionWord), ⟨.name, name⟩, .of .openParen] ++ [t]) := by
  unfold Reader.feed at h
  dsimp only at h
  split at h
  · rename_i hname
    obtain ⟨_, lexeme⟩ := t
    obtain rfl : _ = Terminal.name := hname
    cases h
    exact represents_extend hframes hstatements (.afterParam name (Derives.param lexeme))
  · rename_i hparen
    obtain rfl := ht.eq_of hparen rfl
    cases h
    exact represents_extend hframes hstatements
      (.openBlock (.function name (Derives.absent _) rfl))
  · cases h

/-- Where another parameter must come. -/
theorem represents_feed_nextParam (hframes : SpellsFrames frames ts)
    (hstatements : Derives .program us statements.reverse) (name : List Char)
    {params : List Text} (hparams : Derives .paramList vs params.reverse)
    (h : Reader.feed ⟨.nextParam (String.ofList name) params, statements, frames⟩ t = some s) :
    Represents s (ts ++ us ++ (.of (.keyword .functionWord) :: ⟨.name, name⟩ :: .of .openParen ::
      (vs ++ [.of .comma])) ++ [t]) := by
  unfold Reader.feed at h
  dsimp only at h
  split at h
  · rename_i hname
    obtain ⟨_, lexeme⟩ := t
    obtain rfl : _ = Terminal.name := hname
    cases h
    have hmore : Derives .paramList (vs ++ [.of .comma, ⟨.name, lexeme⟩])
        (.plain (String.ofList lexeme) :: params).reverse := by
      rw [List.reverse_cons]
      exact hparams.snocParam lexeme
    refine (Represents.intro hframes hstatements (.afterParam name hmore)).of_eq ?_
    simp only [List.append_assoc, List.cons_append, List.nil_append]
  · cases h

/-- After a parameter. -/
theorem represents_feed_afterParam (hframes : SpellsFrames frames ts)
    (hstatements : Derives .program us statements.reverse) (name : List Char)
    {params : List Text} (hparams : Derives .paramList vs params.reverse) (ht : t.IsProper)
    (h : Reader.feed ⟨.afterParam (String.ofList name) params, statements, frames⟩ t = some s) :
    Represents s (ts ++ us ++ (.of (.keyword .functionWord) :: ⟨.name, name⟩ :: .of .openParen ::
      vs) ++ [t]) := by
  unfold Reader.feed at h
  dsimp only at h
  split at h
  · rename_i hcomma
    obtain rfl := ht.eq_of hcomma rfl
    cases h
    exact represents_extend hframes hstatements (.nextParam name hparams)
  · rename_i hparen
    obtain rfl := ht.eq_of hparen rfl
    cases h
    exact represents_extend hframes hstatements (.openBlock (.function name hparams.present rfl))
  · cases h

/-- After the word `else`. -/
theorem represents_feed_alternative (hframes : SpellsFrames frames ts)
    (hstatements : Derives .program us statements.reverse) {before : List Branch}
    (hbranches : SpellsBranches before vs) (ht : t.IsProper)
    (h : Reader.feed ⟨.alternative before, statements, frames⟩ t = some s) :
    Represents s (ts ++ us ++ (vs ++ [.of (.keyword .elseWord)]) ++ [t]) := by
  unfold Reader.feed at h
  dsimp only at h
  split at h
  · rename_i hbrace
    obtain rfl := ht.eq_of hbrace rfl
    cases h
    refine (Represents.intro (.cons hframes hstatements (.alternative hbranches))
      (Derives.nil _) (.statement false)).of_eq ?_
    simp only [List.append_nil, List.append_assoc]
  · rename_i hword
    obtain rfl := ht.eq_of hword rfl
    cases h
    refine (Represents.intro hframes hstatements
      (.openCondition (.condition (.next hbranches)))).of_eq ?_
    simp only [List.append_assoc, List.cons_append, List.nil_append]
  · cases h

/-- After the name in a declaration of a variable. -/
theorem represents_feed_afterDeclaredName (hframes : SpellsFrames frames ts)
    (hstatements : Derives .program us statements.reverse) (word : Keyword)
    (isDeclarator : word.isDeclarator = true) (name : List Char) (ht : t.IsProper)
    (h : Reader.feed ⟨.afterDeclaredName (String.ofList name), statements, frames⟩ t = some s) :
    Represents s (ts ++ us ++ [.of (.keyword word), ⟨.name, name⟩] ++ [t]) := by
  unfold Reader.feed at h
  dsimp only at h
  split at h
  · rename_i hassign
    obtain rfl := ht.eq_of hassign rfl
    cases h
    refine (Represents.intro hframes hstatements
      (.operand (.initial word isDeclarator name) .nil)).of_eq ?_
    simp only [List.append_assoc, List.append_nil, List.cons_append, List.nil_append]
  · rename_i hsemicolon
    obtain rfl := ht.eq_of hsemicolon rfl
    cases h
    have hstatement : Derives .variableDeclaration _
        (.declaration (String.ofList name) .absent) :=
      ⟨.variableDeclaration word isDeclarator name (.absent _), rfl, rfl⟩
    refine (represents_push hframes hstatements (hstatement.statement rfl) _ false).of_eq ?_
    simp only [Derivation.yield, List.append_assoc, List.cons_append, List.nil_append]
  · cases h

end Feed

/-- **The step**: what the reader has read stays derived with each token that it takes. -/
theorem Represents.feed {r s : Reader} {ts : List Token} {t : Token} (h : Represents r ts)
    (ht : t.IsProper) (hfeed : r.feed t = some s) : Represents s (ts ++ [t]) := by
  cases h with
  | @intro focus statements frames ts us vs hframes hstatements hfocus =>
    cases hfocus with
    | statement afterBlock =>
      rw [List.append_nil]
      exact represents_feedStatement hframes hstatements ht _ hfeed
    | branches hbranches => exact represents_feed_branches hframes hstatements hbranches ht hfeed
    | operand hhole hwaiting =>
      exact represents_feedOperand hframes hstatements hhole hwaiting ht _ hfeed
    | operator hhole hwaiting hx =>
      exact represents_feedOperator hframes hstatements hhole hwaiting hx ht _ hfeed
    | firstParam name => exact represents_feed_firstParam hframes hstatements name ht hfeed
    | nextParam name hparams =>
      exact represents_feed_nextParam hframes hstatements name hparams hfeed
    | afterParam name hparams =>
      exact represents_feed_afterParam hframes hstatements name hparams ht hfeed
    | alternative hbranches =>
      exact represents_feed_alternative hframes hstatements hbranches ht hfeed
    | afterDeclaredName word isDeclarator name =>
      exact represents_feed_afterDeclaredName hframes hstatements word isDeclarator name ht hfeed
    | functionName =>
      unfold Reader.feed at hfeed
      dsimp only at hfeed
      split at hfeed
      · rename_i hname
        obtain ⟨_, lexeme⟩ := t
        obtain rfl : _ = Terminal.name := hname
        cases hfeed
        exact represents_extend hframes hstatements (.openParams lexeme)
      · cases hfeed
    | openParams name =>
      unfold Reader.feed at hfeed
      dsimp only at hfeed
      split at hfeed
      · rename_i hparen
        obtain rfl := ht.eq_of hparen rfl
        cases hfeed
        exact represents_extend hframes hstatements (.firstParam name)
      · cases hfeed
    | openCondition hhole =>
      unfold Reader.feed at hfeed
      dsimp only at hfeed
      split at hfeed
      · rename_i hparen
        obtain rfl := ht.eq_of hparen rfl
        cases hfeed
        refine (Represents.intro hframes hstatements (.operand hhole .nil)).of_eq ?_
        simp only [List.append_assoc, List.append_nil]
      · cases hfeed
    | openBlock howner =>
      unfold Reader.feed at hfeed
      dsimp only at hfeed
      split at hfeed
      · rename_i hbrace
        obtain rfl := ht.eq_of hbrace rfl
        cases hfeed
        refine (Represents.intro (.cons hframes hstatements howner) (Derives.nil _)
          (.statement false)).of_eq ?_
        simp only [List.append_nil]
      · cases hfeed
    | declaredName word isDeclarator =>
      unfold Reader.feed at hfeed
      dsimp only at hfeed
      split at hfeed
      · rename_i hname
        obtain ⟨_, lexeme⟩ := t
        obtain rfl : _ = Terminal.name := hname
        cases hfeed
        exact represents_extend hframes hstatements (.afterDeclaredName word isDeclarator lexeme)
      · cases hfeed

/-! ## Whole texts -/

theorem represents_start : Represents .start [] := by
  have hnone : Derives .program [] (List.reverse ([] : List Node)) := Derives.nil _
  exact .intro .nil hnone (.statement false)

/-- The run: what the reader has read is derived. -/
theorem Represents.feedAll {r s : Reader} {ts us : List Token} (h : Represents r ts)
    (hus : ∀ t ∈ us, t.IsProper) (hfeed : r.feedAll us = some s) : Represents s (ts ++ us) := by
  induction us generalizing r ts with
  | nil =>
    cases hfeed
    rw [List.append_nil]
    exact h
  | cons t us ih =>
    rw [Reader.feedAll_cons, Option.bind_eq_some_iff] at hfeed
    obtain ⟨r', hr', hfeed⟩ := hfeed
    have hnext := h.feed (hus t (List.mem_cons_self ..)) hr'
    have hlast := ih hnext (fun u hu => hus u (List.mem_cons_of_mem t hu)) hfeed
    rw [List.append_assoc] at hlast
    exact hlast

/-- Where the reader may end, it has read a program. -/
theorem Represents.finish {r : Reader} {ts : List Token} (h : Represents r ts) {body : List Node}
    (hfinish : r.finish? = some body) : Derives .program ts body := by
  cases h with
  | @intro focus statements frames ts us vs hframes hstatements hfocus =>
    cases hframes with
    | cons => cases focus <;> cases hfinish
    | nil =>
      cases hfocus with
      | statement =>
        cases hfinish
        rw [List.nil_append, List.append_nil]
        exact hstatements
      | @branches before _ hbranches =>
        cases hfinish
        rw [List.nil_append]
        exact hbranches.snoc hstatements
      | _ => cases hfinish

/-- **What the reader reads is derived**: if it has taken all tokens and may end, then they are
derived from `program`, and the tree that it gives is that of the derivation. -/
theorem derives_of_feedAll {ts : List Token} (hts : ∀ t ∈ ts, t.IsProper) {r : Reader}
    (hfeed : Reader.start.feedAll ts = some r) {body : List Node}
    (hfinish : r.finish? = some body) : Derives .program ts body :=
  (represents_start.feedAll hts hfeed).finish hfinish

end Scriptlet
