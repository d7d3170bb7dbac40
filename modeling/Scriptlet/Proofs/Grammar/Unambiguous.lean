import Scriptlet.Proofs.Grammar.Derivation

/-!
# The grammar is unambiguous

Which production a derivation begins with can be told from the first token, and where a derivation
ends from the one after it.

* `Nonterminal.starts` and `Nonterminal.continues` are the tokens that a derivation may begin with
  and those that could go on with one that might have ended.
* `Derivation.yield_injective` is the result: derivations of the same tokens are the same.  It is
  shown for derivations in front of any tokens that cannot go on with them
  (`Derivation.determined`), by induction on one of the two.

Calls are the exception, since their rule is recursive on the left: nothing tells at the first
token how many argument lists will follow.  So for them the induction shows that of two derivations
in front of *anything* one is a call chain on top of the other.
-/

namespace Scriptlet

/-- The place of a level among all, calls being the tightest. -/
def Level.rank? : Option Level → Nat
  | some level => level.rank
  | none => 4

@[simp] theorem Level.rank?_some (level : Level) : rank? (some level) = level.rank := rfl

@[simp] theorem Level.rank?_none : rank? none = 4 := rfl

@[simp] theorem Level.rank?_tighter (level : Level) : rank? level.tighter = level.rank + 1 := by
  cases level <;> rfl

theorem Level.rank?_le (level : Option Level) : rank? level ≤ 4 := by
  cases level with
  | none => exact Nat.le_refl 4
  | some level => cases level <;> decide

/-- Levels are told apart by their ranks. -/
theorem Level.rank?_inj {level level' : Option Level} (h : rank? level = rank? level') :
    level = level' := by
  cases level with
  | none =>
    cases level' with
    | none => rfl
    | some other => cases other <;> cases h
  | some level =>
    cases level' with
    | none => cases level <;> cases h
    | some other => cases level <;> cases other <;> first | rfl | cases h

/-! ## First tokens and next tokens -/

/-- The terminals that start an expression. -/
def Terminal.startsExpression : Terminal → Bool
  | number => true
  | string => true
  | name => true
  | keyword .trueWord => true
  | keyword .falseWord => true
  | openParen => true
  | _ => false

namespace Nonterminal

/-- Whether a derivation may begin with a terminal. -/
def starts : Nonterminal → Terminal → Bool
  | statement, t =>
    match t with
    | .keyword .elseWord => false
    | .keyword _ => true
    | .openBrace => true
    | t => t.startsExpression
  | functionDeclaration, t => t == .keyword .functionWord
  | paramList, t => t == .name
  | nextParam, t => t == .comma
  | ifStatement, t => t == .keyword .ifWord
  | elseClause, t => t == .keyword .elseWord
  | elseBranch, t => t == .openBrace || t == .keyword .ifWord
  | whileStatement, t => t == .keyword .whileWord
  | variableDeclaration, t =>
    match t with
    | .keyword k => k.isDeclarator
    | _ => false
  | initializer, t => t == .assign
  | returnStatement, t => t == .keyword .returnWord
  | expressionStatement, t => t.startsExpression
  | block, t => t == .openBrace
  | operand _, t => t.startsExpression
  | operation level, t => t == .operator level
  | argumentList, t => t.startsExpression
  | nextArgument, t => t == .comma
  | primary, t => t.startsExpression
  | optional part, t => part.starts t
  | many part, t => part.starts t

/-- Whether a terminal goes on with operations no looser than a rank, or with a call. -/
def continuesOperand (rank : Nat) : Terminal → Bool
  | .operator level => decide (rank ≤ level.rank)
  | .openParen => true
  | _ => false

/-- Whether a terminal could go on with a derivation that might have ended before it. -/
def continues : Nonterminal → Terminal → Bool
  | statement, t => t == .keyword .elseWord
  | functionDeclaration, _ => false
  | paramList, t => t == .comma
  | nextParam, _ => false
  | ifStatement, t => t == .keyword .elseWord
  | elseClause, t => t == .keyword .elseWord
  | elseBranch, t => t == .keyword .elseWord
  | whileStatement, _ => false
  | variableDeclaration, _ => false
  | initializer, t => continuesOperand 0 t
  | returnStatement, _ => false
  | expressionStatement, _ => false
  | block, _ => false
  | operand level, t => continuesOperand (Level.rank? level) t
  | operation level, t => continuesOperand (level.rank + 1) t
  | argumentList, t => t == .comma || continuesOperand 0 t
  | nextArgument, t => continuesOperand 0 t
  | primary, _ => false
  | optional part, t => part.starts t || part.continues t
  | many part, t => part.starts t || part.continues t

/-- The parts of rules that are optional somewhere. -/
def isOptional : Nonterminal → Bool
  | paramList => true
  | elseClause => true
  | initializer => true
  | operand level => level == some .equality
  | argumentList => true
  | _ => false

/-- The parts of rules that are repeated somewhere. -/
def isRepeated : Nonterminal → Bool
  | statement => true
  | nextParam => true
  | operation _ => true
  | nextArgument => true
  | _ => false

/-- Whether a symbol occurs in the grammar: only some parts of rules are optional or repeated. -/
def occurs : Nonterminal → Bool
  | optional part => part.isOptional
  | many part => part.isRepeated
  | _ => true

/-- Whether something can be derived from no tokens. -/
def isNullable : Nonterminal → Bool
  | optional _ => true
  | many _ => true
  | _ => false

theorem isNullable_of_isStatement {n : Nonterminal} (h : n.isStatement = true) :
    n.isNullable = false := by
  cases n <;> first | rfl | cases h

theorem isNullable_of_isOptional {n : Nonterminal} (h : n.isOptional = true) :
    n.isNullable = false := by
  cases n <;> first | rfl | cases h

theorem isNullable_of_isRepeated {n : Nonterminal} (h : n.isRepeated = true) :
    n.isNullable = false := by
  cases n <;> first | rfl | cases h

theorem occurs_of_isStatement {n : Nonterminal} (h : n.isStatement = true) : n.occurs = true := by
  cases n <;> first | rfl | cases h

theorem occurs_of_isOptional {n : Nonterminal} (h : n.isOptional = true) : n.occurs = true := by
  cases n <;> first | rfl | cases h

theorem occurs_of_isRepeated {n : Nonterminal} (h : n.isRepeated = true) : n.occurs = true := by
  cases n <;> first | rfl | cases h

/-- The alternative for a statement that a terminal begins. -/
def kindOf : Terminal → Nonterminal
  | .keyword .functionWord => functionDeclaration
  | .keyword .ifWord => ifStatement
  | .keyword .whileWord => whileStatement
  | .keyword .varWord => variableDeclaration
  | .keyword .letWord => variableDeclaration
  | .keyword .constWord => variableDeclaration
  | .keyword .returnWord => returnStatement
  | .openBrace => block
  | _ => expressionStatement

/-- The first token tells the alternatives for a statement apart. -/
theorem kindOf_of_starts {n : Nonterminal} (hn : n.isStatement = true) {t : Terminal}
    (h : n.starts t = true) : kindOf t = n := by
  cases n with
  | functionDeclaration | ifStatement | whileStatement | returnStatement | block =>
    rw [eq_of_beq h]
    rfl
  | variableDeclaration =>
    cases t with
    | keyword k => cases k <;> first | rfl | cases h
    | _ => cases h
  | expressionStatement =>
    cases t with
    | keyword k => cases k <;> first | rfl | cases h
    | _ => first | rfl | cases h
  | _ => cases hn

/-- A statement starts with what one of its alternatives starts with. -/
theorem starts_statement {n : Nonterminal} (hn : n.isStatement = true) {t : Terminal}
    (h : n.starts t = true) : statement.starts t = true := by
  rw [← kindOf_of_starts hn h] at h
  cases t with
  | keyword k => cases k <;> first | rfl | exact h
  | _ => first | rfl | exact h

/-- What does not go on with a statement does not go on with any of its alternatives. -/
theorem continues_of_isStatement {n : Nonterminal} (hn : n.isStatement = true) {t : Terminal}
    (h : statement.continues t = false) : n.continues t = false := by
  cases n with
  | ifStatement => exact h
  | functionDeclaration | whileStatement | variableDeclaration | returnStatement | block
  | expressionStatement => rfl
  | _ => cases hn

/-- A part that is repeated does not go on with what it starts with. -/
theorem continues_of_starts {n : Nonterminal} (hn : n.isRepeated = true) {t : Terminal}
    (h : n.starts t = true) : n.continues t = false := by
  cases n with
  | statement =>
    cases t with
    | keyword k => cases k <;> first | rfl | cases h
    | _ => rfl
  | nextParam => rfl
  | operation level =>
    rw [eq_of_beq h]
    exact decide_eq_false (Nat.not_succ_le_self level.rank)
  | nextArgument =>
    rw [eq_of_beq h]
    rfl
  | _ => cases hn

end Nonterminal

namespace Derivation

open Nonterminal

/-- A derivation from what is neither optional nor repeated begins with a token that starts it. -/
theorem exists_yield_eq_cons {n : Nonterminal} (d : Derivation n) (hn : n.isNullable = false) :
    ∃ t ts, d.yield = t :: ts ∧ n.starts t.terminal = true := by
  induction d with
  | statement kind isStatement d ih =>
    obtain ⟨t, ts, hyield, hstarts⟩ := ih (isNullable_of_isStatement isStatement)
    exact ⟨t, ts, hyield, starts_statement isStatement hstarts⟩
  | functionDeclaration | paramList | nextParam | ifStatement | elseClause | whileStatement
  | initializer | returnStatement | block | nextArgument => exact ⟨_, _, rfl, rfl⟩
  | elseBlock body ih =>
    obtain ⟨t, ts, hyield, hstarts⟩ := ih rfl
    exact ⟨t, ts, hyield, Bool.or_eq_true_iff.mpr (Or.inl hstarts)⟩
  | elseIf d ih =>
    obtain ⟨t, ts, hyield, hstarts⟩ := ih rfl
    exact ⟨t, ts, hyield, Bool.or_eq_true_iff.mpr (Or.inr hstarts)⟩
  | variableDeclaration word isDeclarator => exact ⟨_, _, rfl, isDeclarator⟩
  | expressionStatement body ih =>
    obtain ⟨t, ts, hyield, hstarts⟩ := ih rfl
    exact ⟨t, _, by rw [yield, hyield, List.cons_append], hstarts⟩
  | operations level first more ih =>
    obtain ⟨t, ts, hyield, hstarts⟩ := ih rfl
    exact ⟨t, _, by rw [yield, hyield, List.cons_append], hstarts⟩
  | operation level operator right => exact ⟨_, _, rfl, beq_self_eq_true _⟩
  | simple d ih => exact ih rfl
  | call callee arguments ih =>
    obtain ⟨t, ts, hyield, hstarts⟩ := ih rfl
    exact ⟨t, _, by rw [yield, hyield, List.cons_append], hstarts⟩
  | argumentList first more ih =>
    obtain ⟨t, ts, hyield, hstarts⟩ := ih rfl
    exact ⟨t, _, by rw [yield, hyield, List.cons_append], hstarts⟩
  | number | string | trueWord | falseWord | identifier | group => exact ⟨_, _, rfl, rfl⟩
  | absent | present | nil | cons => cases hn

/-- No token at the front of a text goes on with a derivation from the symbol. -/
def Stops (n : Nonterminal) (s : List Token) : Prop :=
  ∀ t ∈ s.head?, n.continues t.terminal = false

theorem stops_cons {n : Nonterminal} {t : Token} (h : n.continues t.terminal = false)
    (s : List Token) : Stops n (t :: s) := by
  intro u hu
  cases hu
  exact h

theorem Stops.mono {m n : Nonterminal} {s : List Token} (h : Stops n s)
    (hmn : ∀ t, n.continues t = false → m.continues t = false) : Stops m s :=
  fun t ht => hmn _ (h t ht)

/-- What begins with a derivation that does not go on with another one stops that one. -/
theorem Stops.append {m n : Nonterminal} {s : List Token} (h : Stops n s) (d : Derivation m)
    (hm : m.occurs = true) (hstarts : ∀ t, m.starts t = true → n.continues t = false) :
    Stops n (d.yield ++ s) := by
  have hfirst : ∀ {k : Nonterminal} (e : Derivation k) (rest : List Token),
      k.isNullable = false → (∀ t, k.starts t = true → n.continues t = false) →
      Stops n (e.yield ++ rest) := by
    intro k e rest hk hstarts
    obtain ⟨t, ts, hyield, ht⟩ := e.exists_yield_eq_cons hk
    rw [hyield]
    exact stops_cons (hstarts _ ht) _
  cases hnull : m.isNullable with
  | false => exact hfirst d s hnull hstarts
  | true =>
    cases d with
    | absent part => exact h
    | present part d => exact hfirst d s (isNullable_of_isOptional hm) hstarts
    | nil part => exact h
    | cons part first rest =>
      rw [yield, List.append_assoc]
      exact hfirst first _ (isNullable_of_isRepeated hm) hstarts
    | _ => cases hnull

/-! ## Chains of calls -/

/-- Calls one on top of the other. -/
def applied (d : Derivation (.operand none)) (as : List (Derivation (.optional .argumentList))) :
    Derivation (.operand none) := as.foldl .call d

/-- The tokens of lists of arguments with their brackets. -/
def bracketed : List (Derivation (.optional .argumentList)) → List Token
  | [] => []
  | a :: as => .of .openParen :: (a.yield ++ .of .closeParen :: bracketed as)

theorem yield_applied (d : Derivation (.operand none))
    (as : List (Derivation (.optional .argumentList))) :
    (d.applied as).yield = d.yield ++ bracketed as := by
  induction as generalizing d with
  | nil => exact (List.append_nil _).symm
  | cons a as ih =>
    refine (ih (d.call a)).trans ?_
    simp only [yield, bracketed, List.append_assoc, List.cons_append, List.nil_append]

theorem exists_eq_applied : (d : Derivation (.operand none)) →
    ∃ (p : Derivation .primary) (as : _), d = (simple p).applied as
  | .simple p => ⟨p, [], rfl⟩
  | .call callee arguments => by
    obtain ⟨p, as, h⟩ := exists_eq_applied callee
    refine ⟨p, as ++ [arguments], ?_⟩
    simp only [h, applied, List.foldl_append]
    rfl

/-! ## Derivations in front of other tokens -/

/-- The derivation and the tokens that follow it can be told from both together.  For calls, which
may be followed by further calls, this is so up to those. -/
def Determined : {n : Nonterminal} → Derivation n → Prop
  | .operand none, d => ∀ (e : Derivation (.operand none)) (s s' : List Token),
    d.yield ++ s = e.yield ++ s' →
      (∃ as, e = d.applied as ∧ s = bracketed as ++ s') ∨
      (∃ as, d = e.applied as ∧ s' = bracketed as ++ s)
  | n, d => ∀ (e : Derivation n) (s s' : List Token), d.yield ++ s = e.yield ++ s' →
    Stops n s → Stops n s' → d = e ∧ s = s'

/-- What follows a call that ends is not another list of arguments. -/
theorem eq_nil_of_stops {as : List (Derivation (.optional .argumentList))} {s : List Token}
    (h : Stops (.operand none) (bracketed as ++ s)) : as = [] := by
  cases as with
  | nil => rfl
  | cons a as => cases h (.of .openParen) rfl

theorem Determined.eq {n : Nonterminal} {d : Derivation n} (hd : Determined d) {e : Derivation n}
    {s s' : List Token} (h : d.yield ++ s = e.yield ++ s') (hs : Stops n s) (hs' : Stops n s') :
    d = e ∧ s = s' := by
  cases n with
  | operand level =>
    cases level with
    | some level => exact hd e s s' h hs hs'
    | none =>
      rcases hd e s s' h with ⟨as, rfl, rfl⟩ | ⟨as, rfl, rfl⟩
      · obtain rfl := eq_nil_of_stops hs
        exact ⟨rfl, rfl⟩
      · obtain rfl := eq_nil_of_stops hs'
        exact ⟨rfl, rfl⟩
  | _ => exact hd e s s' h hs hs'

/-- The same in front of a token that cannot go on with the derivation. -/
theorem Determined.eq_of_cons {n : Nonterminal} {d : Derivation n} (hd : Determined d)
    {e : Derivation n} {t : Token} {s s' : List Token}
    (h : d.yield ++ t :: s = e.yield ++ t :: s') (ht : n.continues t.terminal = false) :
    d = e ∧ s = s' := by
  obtain ⟨hde, hrest⟩ := hd.eq h (stops_cons ht s) (stops_cons ht s')
  exact ⟨hde, (List.cons.inj hrest).2⟩

theorem stops_block (s : List Token) : Stops .block s := fun _ _ => rfl

theorem bracketed_append (as bs : List (Derivation (.optional .argumentList))) :
    bracketed (as ++ bs) = bracketed as ++ bracketed bs := by
  induction as with
  | nil => rfl
  | cons a as ih => simp only [bracketed, List.cons_append, ih, List.append_assoc]

/-! ### Levels of operators -/

section Level

variable {level : Level} {s : List Token}

/-- What goes on with operations of a level is the level's own operators and what goes on with
tighter ones. -/
theorem continues_operand {t : Terminal} (h : continues (.operand (some level)) t = false) :
    t ≠ .operator level ∧ continues (.operand level.tighter) t = false := by
  cases t with
  | operator other =>
    have hlt := of_decide_eq_false h
    refine ⟨?_, decide_eq_false ?_⟩
    · rintro ⟨⟩
      exact hlt (Nat.le_refl _)
    · rw [Level.rank?_tighter]
      exact fun hle => hlt (Nat.le_of_succ_le hle)
  | openParen => cases h
  | _ => exact ⟨nofun, rfl⟩

/-- An operator of a level does not go on with tighter operations. -/
theorem continues_tighter (t : Terminal) (h : starts (.many (.operation level)) t = true) :
    continues (.operand level.tighter) t = false := by
  rw [eq_of_beq h]
  refine decide_eq_false ?_
  rw [Level.rank?_tighter]
  exact Nat.not_succ_le_self level.rank

theorem Stops.tighter (h : Stops (.operand (some level)) s) : Stops (.operand level.tighter) s :=
  h.mono fun _ ht => (continues_operand ht).2

theorem Stops.many_operation (h : Stops (.operand (some level)) s) :
    Stops (.many (.operation level)) s := by
  refine h.mono fun t ht => Bool.or_eq_false_iff.mpr ⟨?_, ?_⟩
  · exact beq_false_of_ne (continues_operand ht).1
  · have htighter := (continues_operand ht).2
    rw [continues, Level.rank?_tighter] at htighter
    exact htighter

theorem Stops.right (h : Stops (.operation level) s) : Stops (.operand level.tighter) s := by
  refine h.mono fun t ht => ?_
  rw [continues, Level.rank?_tighter]
  exact ht

end Level

theorem Stops.of_optional {part : Nonterminal} {s : List Token} (h : Stops (.optional part) s) :
    Stops part s := h.mono fun _ ht => (Bool.or_eq_false_iff.mp ht).2

theorem Stops.of_many {part : Nonterminal} {s : List Token} (h : Stops (.many part) s) :
    Stops part s := h.mono fun _ ht => (Bool.or_eq_false_iff.mp ht).2

/-- A part that was left out and one that was not are told apart by the first token. -/
theorem not_stops_of_yield_append_eq {n part : Nonterminal} {d : Derivation part}
    {s s' : List Token} (h : d.yield ++ s = s') (hpart : part.isNullable = false)
    (hn : ∀ t, part.starts t = true → n.continues t = true) : ¬ Stops n s' := by
  intro hs
  obtain ⟨t, ts, hyield, ht⟩ := d.exists_yield_eq_cons hpart
  rw [hyield] at h
  have hfalse := hs t (by rw [← h]; rfl)
  rw [hn _ ht] at hfalse
  cases hfalse

/-! ### One production after another -/

namespace Determined

/-- The first token tells which alternative for a statement it is. -/
theorem statement {kind : Nonterminal} {isStatement : kind.isStatement = true}
    {d : Derivation kind} (hd : Determined d) :
    Determined (.statement kind isStatement d) := by
  intro e s s' h hs hs'
  cases e with
  | statement kind' isStatement' e =>
    rw [yield, yield] at h
    obtain ⟨t, ts, hyield, ht⟩ := d.exists_yield_eq_cons (isNullable_of_isStatement isStatement)
    obtain ⟨t', ts', hyield', ht'⟩ :=
      e.exists_yield_eq_cons (isNullable_of_isStatement isStatement')
    have hhead : t = t' := by
      rw [hyield, hyield'] at h
      exact (List.cons.inj h).1
    obtain rfl : kind = kind' := by
      rw [← kindOf_of_starts isStatement ht, ← kindOf_of_starts isStatement' ht', hhead]
    obtain ⟨rfl, rfl⟩ := hd.eq h
      (hs.mono fun _ => continues_of_isStatement isStatement)
      (hs'.mono fun _ => continues_of_isStatement isStatement)
    exact ⟨rfl, rfl⟩

theorem functionDeclaration {name : List Char} {params : Derivation (.optional .paramList)}
    {body : Derivation .block} (hparams : Determined params) (hbody : Determined body) :
    Determined (.functionDeclaration name params body) := by
  intro e s s' h hs hs'
  cases e with
  | functionDeclaration name' params' body' =>
    simp only [yield, List.cons_append, List.append_assoc, List.cons.injEq, Token.mk.injEq,
      true_and] at h
    obtain ⟨rfl, h⟩ := h
    obtain ⟨rfl, hrest⟩ := hparams.eq_of_cons h rfl
    obtain ⟨rfl, rfl⟩ := hbody.eq hrest (stops_block _) (stops_block _)
    exact ⟨rfl, rfl⟩

theorem paramList {name : List Char} {more : Derivation (.many .nextParam)}
    (hmore : Determined more) : Determined (.paramList name more) := by
  intro e s s' h hs hs'
  cases e with
  | paramList name' more' =>
    simp only [yield, List.cons_append, List.cons.injEq, Token.mk.injEq, true_and] at h
    obtain ⟨rfl, h⟩ := h
    have hmono : ∀ t, continues .paramList t = false →
        continues (.many .nextParam) t = false := by
      intro t ht
      exact Bool.or_eq_false_iff.mpr ⟨ht, rfl⟩
    obtain ⟨rfl, rfl⟩ := hmore.eq h (hs.mono hmono) (hs'.mono hmono)
    exact ⟨rfl, rfl⟩

theorem nextParam (name : List Char) : Determined (.nextParam name) := by
  intro e s s' h hs hs'
  cases e with
  | nextParam name' =>
    simp only [yield, List.cons_append, List.cons.injEq, Token.mk.injEq, true_and,
      List.nil_append] at h
    obtain ⟨rfl, rfl⟩ := h
    exact ⟨rfl, rfl⟩

/-- An `if` ends where no `else` stands. -/
theorem ifStatement {test : Derivation .expression} {consequent : Derivation .block}
    {alternate : Derivation (.optional .elseClause)} (htest : Determined test)
    (hconsequent : Determined consequent) (halternate : Determined alternate) :
    Determined (.ifStatement test consequent alternate) := by
  intro e s s' h hs hs'
  cases e with
  | ifStatement test' consequent' alternate' =>
    simp only [yield, List.cons_append, List.append_assoc, List.cons.injEq, true_and] at h
    obtain ⟨rfl, hrest⟩ := htest.eq_of_cons h rfl
    obtain ⟨rfl, hlast⟩ := hconsequent.eq hrest (stops_block _) (stops_block _)
    have hmono : ∀ t, continues .ifStatement t = false →
        continues (.optional .elseClause) t = false := by
      intro t ht
      exact Bool.or_eq_false_iff.mpr ⟨ht, ht⟩
    obtain ⟨rfl, rfl⟩ := halternate.eq hlast (hs.mono hmono) (hs'.mono hmono)
    exact ⟨rfl, rfl⟩

theorem elseClause {branch : Derivation .elseBranch} (hbranch : Determined branch) :
    Determined (.elseClause branch) := by
  intro e s s' h hs hs'
  cases e with
  | elseClause branch' =>
    simp only [yield, List.cons_append, List.cons.injEq, true_and] at h
    obtain ⟨rfl, rfl⟩ := hbranch.eq h hs hs'
    exact ⟨rfl, rfl⟩

theorem elseBlock {body : Derivation .block} (hbody : Determined body) :
    Determined (.elseBlock body) := by
  intro e s s' h hs hs'
  cases e with
  | elseBlock body' =>
    obtain ⟨rfl, rfl⟩ := hbody.eq h (stops_block _) (stops_block _)
    exact ⟨rfl, rfl⟩
  | elseIf e =>
    cases body
    cases e
    cases (List.cons.inj h).1

theorem elseIf {d : Derivation .ifStatement} (hd : Determined d) : Determined (.elseIf d) := by
  intro e s s' h hs hs'
  cases e with
  | elseBlock body =>
    cases d
    cases body
    cases (List.cons.inj h).1
  | elseIf e =>
    obtain ⟨rfl, rfl⟩ := hd.eq h hs hs'
    exact ⟨rfl, rfl⟩

theorem whileStatement {test : Derivation .expression} {body : Derivation .block}
    (htest : Determined test) (hbody : Determined body) :
    Determined (.whileStatement test body) := by
  intro e s s' h hs hs'
  cases e with
  | whileStatement test' body' =>
    simp only [yield, List.cons_append, List.append_assoc, List.cons.injEq, true_and] at h
    obtain ⟨rfl, hrest⟩ := htest.eq_of_cons h rfl
    obtain ⟨rfl, rfl⟩ := hbody.eq hrest (stops_block _) (stops_block _)
    exact ⟨rfl, rfl⟩

theorem variableDeclaration {word : Keyword} {isDeclarator : word.isDeclarator = true}
    {name : List Char} {initial : Derivation (.optional .initializer)}
    (hinitial : Determined initial) :
    Determined (.variableDeclaration word isDeclarator name initial) := by
  intro e s s' h hs hs'
  cases e with
  | variableDeclaration word' isDeclarator' name' initial' =>
    simp only [yield, List.cons_append, List.append_assoc, List.nil_append, List.cons.injEq,
      Token.mk.injEq, true_and, Token.of] at h
    obtain ⟨⟨hword, -⟩, rfl, h⟩ := h
    obtain rfl := Terminal.keyword.inj hword
    obtain ⟨rfl, rfl⟩ := hinitial.eq_of_cons h rfl
    exact ⟨rfl, rfl⟩

theorem initializer {value : Derivation .expression} (hvalue : Determined value) :
    Determined (.initializer value) := by
  intro e s s' h hs hs'
  cases e with
  | initializer value' =>
    obtain ⟨rfl, rfl⟩ := hvalue.eq (List.cons.inj h).2 hs hs'
    exact ⟨rfl, rfl⟩

theorem returnStatement {value : Derivation (.optional .expression)} (hvalue : Determined value) :
    Determined (.returnStatement value) := by
  intro e s s' h hs hs'
  cases e with
  | returnStatement value' =>
    simp only [yield, List.cons_append, List.append_assoc, List.nil_append, List.cons.injEq,
      true_and] at h
    obtain ⟨rfl, rfl⟩ := hvalue.eq_of_cons h rfl
    exact ⟨rfl, rfl⟩

theorem expressionStatement {body : Derivation .expression} (hbody : Determined body) :
    Determined (.expressionStatement body) := by
  intro e s s' h hs hs'
  cases e with
  | expressionStatement body' =>
    simp only [yield, List.append_assoc, List.cons_append, List.nil_append] at h
    obtain ⟨rfl, rfl⟩ := hbody.eq_of_cons h rfl
    exact ⟨rfl, rfl⟩

theorem block {body : Derivation (.many .statement)} (hbody : Determined body) :
    Determined (.block body) := by
  intro e s s' h hs hs'
  cases e with
  | block body' =>
    simp only [yield, List.cons_append, List.append_assoc, List.nil_append, List.cons.injEq,
      true_and] at h
    obtain ⟨rfl, rfl⟩ := hbody.eq_of_cons h rfl
    exact ⟨rfl, rfl⟩

/-- Operands end where an operator of their level stands. -/
theorem operations {level : Level} {first : Derivation (.operand level.tighter)}
    {more : Derivation (.many (.operation level))} (hfirst : Determined first)
    (hmore : Determined more) : Determined (.operations level first more) := by
  intro e s s' h hs hs'
  cases e with
  | operations _ first' more' =>
    simp only [yield, List.append_assoc] at h
    obtain ⟨rfl, hrest⟩ := hfirst.eq h (hs.tighter.append more rfl continues_tighter)
      (hs'.tighter.append more' rfl continues_tighter)
    obtain ⟨rfl, rfl⟩ := hmore.eq hrest hs.many_operation hs'.many_operation
    exact ⟨rfl, rfl⟩

theorem operation {level : Level} {operator : List Char}
    {right : Derivation (.operand level.tighter)} (hright : Determined right) :
    Determined (.operation level operator right) := by
  intro e s s' h hs hs'
  cases e with
  | operation _ operator' right' =>
    simp only [yield, List.cons_append, List.cons.injEq, Token.mk.injEq, true_and] at h
    obtain ⟨rfl, h⟩ := h
    obtain ⟨rfl, rfl⟩ := hright.eq h hs.right hs'.right
    exact ⟨rfl, rfl⟩

/-- Whatever is called, it is a chain of calls on top of something simple. -/
theorem simple {p : Derivation .primary} (hp : Determined p) : Determined (.simple p) := by
  intro e s s' h
  obtain ⟨q, as, rfl⟩ := exists_eq_applied e
  rw [yield_applied, List.append_assoc] at h
  obtain ⟨rfl, rfl⟩ := hp.eq h (fun _ _ => rfl) fun _ _ => rfl
  exact Or.inl ⟨as, rfl, rfl⟩

/-- Of two calls in front of anything, one is a chain of calls on top of the other. -/
theorem call {callee : Derivation (.operand none)}
    {arguments : Derivation (.optional .argumentList)} (hcallee : Determined callee)
    (harguments : Determined arguments) : Determined (.call callee arguments) := by
  intro e s s' h
  simp only [yield, List.append_assoc, List.cons_append, List.nil_append] at h
  rcases hcallee e _ s' h with ⟨as, rfl, hrest⟩ | ⟨as, rfl, rfl⟩
  · cases as with
    | nil =>
      refine Or.inr ⟨[arguments], rfl, ?_⟩
      simpa only [bracketed, List.nil_append, List.cons_append, List.append_assoc]
        using hrest.symm
    | cons a as =>
      -- the other one goes on with a list of arguments too, and that is the same
      simp only [bracketed, List.cons_append, List.append_assoc, List.cons.injEq,
        true_and] at hrest
      obtain ⟨rfl, rfl⟩ := harguments.eq_of_cons hrest rfl
      exact Or.inl ⟨as, rfl, rfl⟩
  · refine Or.inr ⟨as ++ [arguments], ?_, ?_⟩
    · simp only [applied, List.foldl_append]
      rfl
    · simp [bracketed_append, bracketed]

theorem argumentList {first : Derivation .expression} {more : Derivation (.many .nextArgument)}
    (hfirst : Determined first) (hmore : Determined more) :
    Determined (.argumentList first more) := by
  intro e s s' h hs hs'
  cases e with
  | argumentList first' more' =>
    simp only [yield, List.append_assoc] at h
    have hstarts : ∀ t, starts (.many .nextArgument) t = true →
        continues .expression t = false := by
      intro t ht
      rw [eq_of_beq ht]
      rfl
    have hvalue : ∀ t, continues .argumentList t = false → continues .expression t = false :=
      fun t ht => (Bool.or_eq_false_iff.mp ht).2
    obtain ⟨rfl, hrest⟩ := hfirst.eq h ((hs.mono hvalue).append more rfl hstarts)
      ((hs'.mono hvalue).append more' rfl hstarts)
    obtain ⟨rfl, rfl⟩ := hmore.eq hrest hs hs'
    exact ⟨rfl, rfl⟩

theorem nextArgument {value : Derivation .expression} (hvalue : Determined value) :
    Determined (.nextArgument value) := by
  intro e s s' h hs hs'
  cases e with
  | nextArgument value' =>
    obtain ⟨rfl, rfl⟩ := hvalue.eq (List.cons.inj h).2 hs hs'
    exact ⟨rfl, rfl⟩

theorem group {d : Derivation .expression} (hd : Determined d) : Determined (.group d) := by
  intro e s s' h hs hs'
  cases e with
  | group e =>
    simp only [yield, List.cons_append, List.append_assoc, List.nil_append, List.cons.injEq,
      true_and] at h
    obtain ⟨rfl, rfl⟩ := hd.eq_of_cons h rfl
    exact ⟨rfl, rfl⟩
  | _ => cases (List.cons.inj h).1

/-- Where one derivation leaves a part out, so does the other, since what follows does not begin
with it. -/
theorem absent {part : Nonterminal} (hpart : part.isOptional = true) :
    Determined (.absent part) := by
  intro e s s' h hs hs'
  cases e with
  | absent => exact ⟨rfl, h⟩
  | present _ e =>
    have hnull := isNullable_of_isOptional hpart
    refine absurd hs (not_stops_of_yield_append_eq (d := e) h.symm hnull ?_)
    exact fun t ht => Bool.or_eq_true_iff.mpr (Or.inl ht)

theorem present {part : Nonterminal} (hpart : part.isOptional = true) {d : Derivation part}
    (hd : Determined d) : Determined (.present part d) := by
  intro e s s' h hs hs'
  cases e with
  | absent =>
    have hnull := isNullable_of_isOptional hpart
    refine absurd hs' (not_stops_of_yield_append_eq (d := d) h hnull ?_)
    exact fun t ht => Bool.or_eq_true_iff.mpr (Or.inl ht)
  | present _ e =>
    obtain ⟨rfl, rfl⟩ := hd.eq h hs.of_optional hs'.of_optional
    exact ⟨rfl, rfl⟩

/-- Where one repetition ends, so does the other, for the same reason. -/
theorem nil {part : Nonterminal} (hpart : part.isRepeated = true) : Determined (.nil part) := by
  intro e s s' h hs hs'
  cases e with
  | nil => exact ⟨rfl, h⟩
  | cons _ first rest =>
    rw [yield, yield, List.append_assoc] at h
    refine absurd hs (not_stops_of_yield_append_eq h.symm (isNullable_of_isRepeated hpart) ?_)
    exact fun t ht => Bool.or_eq_true_iff.mpr (Or.inl ht)

theorem cons {part : Nonterminal} (hpart : part.isRepeated = true) {first : Derivation part}
    {rest : Derivation (.many part)} (hfirst : Determined first) (hrest : Determined rest) :
    Determined (.cons part first rest) := by
  intro e s s' h hs hs'
  rw [yield, List.append_assoc] at h
  cases e with
  | nil =>
    refine absurd hs' (not_stops_of_yield_append_eq h (isNullable_of_isRepeated hpart) ?_)
    exact fun t ht => Bool.or_eq_true_iff.mpr (Or.inl ht)
  | cons _ first' rest' =>
    rw [yield, List.append_assoc] at h
    obtain ⟨rfl, hmore⟩ := hfirst.eq h
      (hs.of_many.append rest hpart fun t => continues_of_starts hpart)
      (hs'.of_many.append rest' hpart fun t => continues_of_starts hpart)
    obtain ⟨rfl, rfl⟩ := hrest.eq hmore hs hs'
    exact ⟨rfl, rfl⟩

end Determined

/-- Derivations of any part are determined, since those of their parts are. -/
theorem determined {n : Nonterminal} (d : Derivation n) (hn : n.occurs = true) :
    Determined d := by
  induction d with
  | statement kind isStatement d ih =>
    exact Determined.statement (ih (occurs_of_isStatement isStatement))
  | functionDeclaration _ _ _ ihparams ihbody =>
    exact Determined.functionDeclaration (ihparams rfl) (ihbody rfl)
  | paramList _ _ ih => exact Determined.paramList (ih rfl)
  | nextParam name => exact Determined.nextParam name
  | ifStatement _ _ _ ihtest ihconsequent ihalternate =>
    exact Determined.ifStatement (ihtest rfl) (ihconsequent rfl) (ihalternate rfl)
  | elseClause _ ih => exact Determined.elseClause (ih rfl)
  | elseBlock _ ih => exact Determined.elseBlock (ih rfl)
  | elseIf _ ih => exact Determined.elseIf (ih rfl)
  | whileStatement _ _ ihtest ihbody => exact Determined.whileStatement (ihtest rfl) (ihbody rfl)
  | variableDeclaration _ _ _ _ ih => exact Determined.variableDeclaration (ih rfl)
  | initializer _ ih => exact Determined.initializer (ih rfl)
  | returnStatement _ ih => exact Determined.returnStatement (ih rfl)
  | expressionStatement _ ih => exact Determined.expressionStatement (ih rfl)
  | block _ ih => exact Determined.block (ih rfl)
  | operations _ _ _ ihfirst ihmore => exact Determined.operations (ihfirst rfl) (ihmore rfl)
  | operation _ _ _ ih => exact Determined.operation (ih rfl)
  | simple _ ih => exact Determined.simple (ih rfl)
  | call _ _ ihcallee iharguments => exact Determined.call (ihcallee rfl) (iharguments rfl)
  | argumentList _ _ ihfirst ihmore => exact Determined.argumentList (ihfirst rfl) (ihmore rfl)
  | nextArgument _ ih => exact Determined.nextArgument (ih rfl)
  | number lexeme | string lexeme | identifier lexeme | trueWord | falseWord =>
    intro e s s' h hs hs'
    cases e <;> simp [yield, Token.of] at h
    all_goals first
      | exact ⟨congrArg _ h.1, h.2⟩
      | exact ⟨rfl, h⟩
  | group _ ih => exact Determined.group (ih rfl)
  | absent part => exact Determined.absent hn
  | present part d ih => exact Determined.present hn (ih (occurs_of_isOptional hn))
  | nil part => exact Determined.nil hn
  | cons part first rest ihfirst ihrest =>
    exact Determined.cons hn (ihfirst (occurs_of_isRepeated hn)) (ihrest hn)

/-- **The grammar is unambiguous**: derivations of the same tokens are the same. -/
theorem yield_injective {n : Nonterminal} (hn : n.occurs = true) {d e : Derivation n}
    (h : d.yield = e.yield) : d = e := by
  have hstops : Stops n [] := fun t ht => by cases ht
  have happend : d.yield ++ [] = e.yield ++ [] := by rw [h]
  exact ((d.determined hn).eq happend hstops hstops).1

end Derivation

end Scriptlet
