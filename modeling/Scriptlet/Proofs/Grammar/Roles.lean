import Scriptlet.Fault
import Scriptlet.Proofs.Binary64.Words
import Scriptlet.Proofs.Grammar.Parsing
import Scriptlet.Proofs.Writing

/-!
# Every part plays its role

The trees that text can spell are sorted: where an expression is wanted there is one, and the same
for statements.  What they hold beyond the language, they hold because it stands in the text.

* `SpellSurrogate ts`: a string among the tokens denotes a text with a surrogate.  All other texts
  in a tree hold none.
* `Node.Plays`: a tree that plays a role, and of which every part does.  Its operators, its loops
  and its declarations are among the tokens of the text, its numbers have no sign, and its
  surrogates are spelled by a string of the text.
* `Derivation.allPlay`: this is so in the meaning of every derivation.
* `plays_of_parse`: hence the statements of a text that is parsed are statements.
-/

namespace Scriptlet

/-! ## Signs -/

theorem Decimal.isNegative_toFloat (d : Decimal) : Binary64.isNegative d.toFloat = false := by
  have hnearest := Binary64.isNegative_nearest
  unfold Decimal.toFloat
  dsimp only
  split
  · exact hnearest 0 1
  · split
    · exact Binary64.isNegative_ofBits (Nat.le_refl _)
    · split
      · exact hnearest 0 1
      · split
        · exact hnearest _ 1
        · exact hnearest _ _

variable [CharacterNames]

/-! ## Surrogates -/

/-- A string among the tokens denotes a text with a surrogate. -/
def SpellSurrogate (ts : List Token) : Prop :=
  ∃ lexeme text, ⟨.string, lexeme⟩ ∈ ts ∧ StringLiteral.decode lexeme = some text ∧ ¬ text.IsPlain

/-- The text holds no surrogate that the tokens do not spell. -/
def Text.IsSpelled (ts : List Token) (t : Text) : Prop := ¬ t.IsPlain → SpellSurrogate ts

theorem Text.isSpelled_plain (ts : List Token) (s : String) : IsSpelled ts (.plain s) :=
  fun h => (h (isPlain_plain s)).elim

theorem Text.isSpelled_textOf {ts : List Token} {lexeme : List Char}
    (h : ⟨.string, lexeme⟩ ∈ ts) : (Token.textOf lexeme).IsSpelled ts := by
  intro hbroken
  unfold Token.textOf at hbroken
  cases hdecode : StringLiteral.decode lexeme with
  | some text =>
    rw [hdecode] at hbroken
    exact ⟨lexeme, text, h, hdecode, hbroken⟩
  | none =>
    rw [hdecode] at hbroken
    exact (hbroken (Text.isPlain_plain _)).elim

/-! ## Roles -/

/-- The node plays the role, and so do all its parts, as far as evaluation may reach them.  A part
that was left out plays the role of a statement that does nothing. -/
inductive Node.Plays (ts : List Token) : Node → Role → Prop
  | literal {value : Literal} (hsign : ∀ x, value = .number x → Binary64.isNegative x = false)
      (htext : ∀ s, value = .string s → s.IsSpelled ts) : Plays ts (.literal value) .expression
  | identifier (name : String) : Plays ts (.identifier name) .expression
  | binary {level : Level} {lexeme : List Char} {left right : Node}
      (hoperator : ⟨.operator level, lexeme⟩ ∈ ts) (first : Plays ts left .expression)
      (second : Plays ts right .expression) :
      Plays ts (.binary (.string (String.ofList lexeme)) left right) .expression
  | call {callee : Node} {arguments : List Node} (called : Plays ts callee .expression)
      (each : ∀ n ∈ arguments, Plays ts n .expression) :
      Plays ts (.call callee arguments) .expression
  | absent : Plays ts .absent .statement
  | expression {body : Node} (inner : Plays ts body .expression) :
      Plays ts (.expression body) .statement
  | conditional {test consequent alternate : Node} (tested : Plays ts test .expression)
      (one : Plays ts consequent .statement) (other : Plays ts alternate .statement) :
      Plays ts (.conditional test consequent alternate) .statement
  | returningNothing : Plays ts (.returning .absent) .statement
  | returning {argument : Node} (inner : Plays ts argument .expression) :
      Plays ts (.returning argument) .statement
  | block {body : List Node} (each : ∀ n ∈ body, Plays ts n .statement) :
      Plays ts (.block body) .statement
  | function (name : String) {params : List Text} (hparams : ∀ x ∈ params, x.IsPlain)
      {body : List Node} (each : ∀ n ∈ body, Plays ts n .statement) :
      Plays ts (.function name params body) .statement
  | whileLoop (hword : Token.of (.keyword .whileWord) ∈ ts) (test body : Node) :
      Plays ts (.whileLoop test body) .statement
  | declaration {word : Keyword} (isDeclarator : word.isDeclarator = true)
      (hword : Token.of (.keyword word) ∈ ts) (name : String) (initial : Node) :
      Plays ts (.declaration name initial) .statement

/-- Nothing is no expression. -/
theorem Node.Plays.ne_absent {ts : List Token} {n : Node} (h : n.Plays ts .expression) :
    n ≠ .absent := by
  rintro rfl
  cases h

/-! ## Derivations -/

/-- All trees in the meaning of a derivation play their roles. -/
def Nonterminal.AllPlay (ts : List Token) : (part : Nonterminal) → part.Meaning → Prop
  | paramList, params => ∀ x ∈ params, x.IsPlain
  | nextParam, name => name.IsPlain
  | block, body => ∀ n ∈ body, n.Plays ts .statement
  | operation _, right =>
    (∃ level, ⟨.operator level, right.1⟩ ∈ ts) ∧ right.2.Plays ts .expression
  | argumentList, arguments => ∀ n ∈ arguments, n.Plays ts .expression
  | optional part, found => ∀ x ∈ found, part.AllPlay ts x
  | many part, items => ∀ x ∈ items, part.AllPlay ts x
  | statement, n => n.Plays ts .statement
  | functionDeclaration, n => n.Plays ts .statement
  | ifStatement, n => n.Plays ts .statement
  | elseClause, n => n.Plays ts .statement
  | elseBranch, n => n.Plays ts .statement
  | whileStatement, n => n.Plays ts .statement
  | variableDeclaration, n => n.Plays ts .statement
  | initializer, n => n.Plays ts .expression
  | returnStatement, n => n.Plays ts .statement
  | expressionStatement, n => n.Plays ts .statement
  | operand _, n => n.Plays ts .expression
  | nextArgument, n => n.Plays ts .expression
  | primary, n => n.Plays ts .expression

section Parts

variable {ts : List Token}

theorem Nonterminal.plays_toStatement {kind : Nonterminal} {x : kind.Meaning}
    (h : kind.AllPlay ts x) : (kind.toStatement x).Plays ts .statement := by
  cases kind with
  | block => exact .block h
  | functionDeclaration => exact h
  | ifStatement => exact h
  | whileStatement => exact h
  | variableDeclaration => exact h
  | returnStatement => exact h
  | expressionStatement => exact h
  | _ => exact .absent

theorem Node.plays_getD {o : Option Node} (h : ∀ n ∈ o, n.Plays ts .statement) :
    (Option.getD o .absent).Plays ts .statement := by
  cases o with
  | none => exact .absent
  | some n => exact h n rfl

theorem Node.plays_returning {o : Option Node} (h : ∀ n ∈ o, n.Plays ts .expression) :
    (Node.returning (Option.getD o .absent)).Plays ts .statement := by
  cases o with
  | none => exact .returningNothing
  | some n => exact .returning (h n rfl)

theorem Node.plays_foldl {rights : List (List Char × Node)} {left : Node}
    (hleft : left.Plays ts .expression)
    (h : ∀ right ∈ rights, (∃ level, ⟨.operator level, right.1⟩ ∈ ts) ∧
      right.2.Plays ts .expression) :
    (List.foldl Node.operation left rights).Plays ts .expression := by
  induction rights generalizing left with
  | nil => exact hleft
  | cons right rights ih =>
    rw [List.forall_mem_cons] at h
    obtain ⟨⟨⟨level, hoperator⟩, hright⟩, hrights⟩ := h
    exact ih (.binary hoperator hleft hright) hrights

/-- **In the meaning of a derivation every part plays its role.** -/
theorem Derivation.allPlay {part : Nonterminal} (d : Derivation part) (h : d.yield ⊆ ts) :
    part.AllPlay ts d.meaning := by
  induction d with
  | statement kind _ d ih => exact Nonterminal.plays_toStatement (ih h)
  | functionDeclaration name params body hparams ih =>
    simp only [yield, List.cons_subset, List.append_subset] at h
    exact .function _ (forall_mem_getD (hparams h.2.2.2.1)) (ih h.2.2.2.2.2)
  | paramList name more ih =>
    simp only [yield, List.cons_subset] at h
    exact List.forall_mem_cons.mpr ⟨Text.isPlain_plain _, ih h.2⟩
  | nextParam name => exact Text.isPlain_plain _
  | ifStatement test consequent alternate htest hconsequent halternate =>
    simp only [yield, List.cons_subset, List.append_subset] at h
    exact .conditional (htest h.2.2.1) (.block (hconsequent h.2.2.2.2.1))
      (Node.plays_getD (halternate h.2.2.2.2.2))
  | elseClause branch ih =>
    simp only [yield, List.cons_subset] at h
    exact ih h.2
  | elseBlock body ih => exact .block (ih h)
  | elseIf d ih => exact ih h
  | whileStatement test body _ _ =>
    simp only [yield, List.cons_subset] at h
    exact .whileLoop h.1 _ _
  | variableDeclaration word isDeclarator name initial _ =>
    simp only [yield, List.cons_subset] at h
    exact .declaration isDeclarator h.1 _ _
  | initializer value ih =>
    simp only [yield, List.cons_subset] at h
    exact ih h.2
  | returnStatement value ih =>
    simp only [yield, List.cons_subset, List.append_subset] at h
    exact Node.plays_returning (ih h.2.1)
  | expressionStatement body ih =>
    simp only [yield, List.append_subset] at h
    exact .expression (ih h.1)
  | block body ih =>
    simp only [yield, List.cons_subset, List.append_subset] at h
    exact ih h.2.1
  | operations level first more hfirst hmore =>
    simp only [yield, List.append_subset] at h
    exact Node.plays_foldl (hfirst h.1) (hmore h.2)
  | operation level operator right ih =>
    simp only [yield, List.cons_subset] at h
    exact ⟨⟨level, h.1⟩, ih h.2⟩
  | simple d ih => exact ih h
  | call callee arguments hcallee harguments =>
    simp only [yield, List.cons_subset, List.append_subset] at h
    exact .call (hcallee h.1) (forall_mem_getD (harguments h.2.2.1))
  | argumentList first more hfirst hmore =>
    simp only [yield, List.append_subset] at h
    exact List.forall_mem_cons.mpr ⟨hfirst h.1, hmore h.2⟩
  | nextArgument value ih =>
    simp only [yield, List.cons_subset] at h
    exact ih h.2
  | number lexeme =>
    refine .literal (fun x hx => ?_) fun _ hs => nomatch hs
    cases hx
    exact Decimal.isNegative_toFloat _
  | string lexeme =>
    refine .literal (fun _ hx => nomatch hx) fun s hs => ?_
    cases hs
    exact Text.isSpelled_textOf (h (List.mem_singleton_self _))
  | trueWord | falseWord => exact .literal (fun _ hx => nomatch hx) fun _ hs => nomatch hs
  | identifier lexeme => exact .identifier _
  | group d ih =>
    simp only [yield, List.cons_subset, List.append_subset] at h
    exact ih h.2.1
  | absent => exact fun _ hx => nomatch hx
  | present part d ih => exact fun _ hx => Option.some.inj hx ▸ ih h
  | nil => exact fun _ hx => nomatch hx
  | cons part first rest hfirst hrest =>
    simp only [yield, List.append_subset] at h
    exact List.forall_mem_cons.mpr ⟨hfirst h.1, hrest h.2⟩

end Parts

/-! ## Texts -/

/-- **The statements of a text play their roles**, by what stands in it. -/
theorem plays_of_parse {source : String} {body : List Node} (h : parse source = .ok body) :
    ∃ ts, Lexes [] source.toList ts ∧ ∀ n ∈ body, n.Plays ts .statement := by
  obtain ⟨d, hwrites, rfl⟩ := parse_eq_ok_iff_writes.mp h
  exact ⟨d.yield, hwrites.1, d.allPlay fun _ ht => ht⟩

end Scriptlet
