import Scriptlet.Proofs.Grammar.Derivation

/-!
# Names in trees and in tokens

A tree mentions names: those of the variables that it reads and those that it introduces.  For the
tree of a derivation they are the names among the tokens.

* `Node.Mentions`: the tree mentions a name, by itself or in a part; with one lemma for each form
  of tree that text can spell.
* `Derivation.names`: a name that is mentioned stands among the tokens, and where it is a variable
  that is read, any other primary may stand.
* `Derivation.mentions_of_mem_yield`: a name among the tokens is mentioned.
-/

namespace Scriptlet

/-! ## Mentions -/

/-- A name, with what it is mentioned for. -/
inductive Mention where
  | identifier (name : Text)
  | function (name : Text)
  | param (name : Text)
  | declared (name : Text)

/-- The name that is mentioned. -/
def Mention.name : Mention → Text
  | identifier name => name
  | function name => name
  | param name => name
  | declared name => name

/-- The names that a tree mentions by itself. -/
def Node.own : Node → List Mention
  | .identifier name => [.identifier name]
  | .function name params _ => .function name :: params.map .param
  | .declaration name _ => [.declared name]
  | _ => []

/-- The trees that a tree is put together from. -/
def Node.parts : Node → List Node
  | .absent => []
  | .program body => body
  | .literal _ => []
  | .identifier _ => []
  | .binary _ left right => [left, right]
  | .call callee arguments => callee :: arguments
  | .expression body => [body]
  | .conditional test consequent alternate => [test, consequent, alternate]
  | .returning argument => [argument]
  | .block body => body
  | .function _ _ body => body
  | .whileLoop test body => [test, body]
  | .declaration _ initial => [initial]
  | .foreign _ _ => []

/-- The tree mentions a name, by itself or in a part. -/
inductive Node.Mentions (m : Mention) : Node → Prop
  | own {n : Node} (h : m ∈ n.own) : Mentions m n
  | part {n child : Node} (h : child ∈ n.parts) (inner : child.Mentions m) : Mentions m n

/-! ## Mentions in the meaning of a derivation -/

variable {m : Mention}

/-- The name is mentioned in what a derivation stands for. -/
def Nonterminal.Mentions (m : Mention) : (part : Nonterminal) → part.Meaning → Prop
  | paramList, names => ∃ name ∈ names, m = .param name
  | nextParam, name => m = .param name
  | block, body => ∃ n ∈ body, n.Mentions m
  | operation _, right => right.2.Mentions m
  | argumentList, arguments => ∃ n ∈ arguments, n.Mentions m
  | optional part, found => ∃ x ∈ found, part.Mentions m x
  | many part, items => ∃ x ∈ items, part.Mentions m x
  | statement, n => n.Mentions m
  | functionDeclaration, n => n.Mentions m
  | ifStatement, n => n.Mentions m
  | elseClause, n => n.Mentions m
  | elseBranch, n => n.Mentions m
  | whileStatement, n => n.Mentions m
  | variableDeclaration, n => n.Mentions m
  | initializer, n => n.Mentions m
  | returnStatement, n => n.Mentions m
  | expressionStatement, n => n.Mentions m
  | operand _, n => n.Mentions m
  | nextArgument, n => n.Mentions m
  | primary, n => n.Mentions m

namespace Node

/-- What a tree mentions, in terms of what it mentions by itself and of its parts. -/
theorem mentions_iff (n : Node) (own : List Mention) (parts : List Node) (hown : n.own = own)
    (hparts : n.parts = parts) :
    n.Mentions m ↔ m ∈ own ∨ ∃ child ∈ parts, child.Mentions m := by
  subst hown hparts
  constructor
  · intro h
    cases h with
    | own h => exact Or.inl h
    | part h inner => exact Or.inr ⟨_, h, inner⟩
  · rintro (h | ⟨child, h, inner⟩)
    · exact .own h
    · exact .part h inner

section Forms

variable {name : Text} {params : List Text} {body arguments : List Node}
  {test consequent alternate callee left right initial : Node}

theorem not_mentions_of_isEmpty {n : Node} (hown : n.own = []) (hparts : n.parts = []) :
    ¬ n.Mentions m := by
  rw [mentions_iff n [] [] hown hparts]
  simp

theorem mentions_identifier : (identifier name).Mentions m ↔ m = .identifier name := by
  rw [mentions_iff (identifier name) [.identifier name] [] rfl rfl]
  simp

theorem mentions_binary {operator : Json} :
    (binary operator left right).Mentions m ↔ left.Mentions m ∨ right.Mentions m := by
  rw [mentions_iff (binary operator left right) [] [left, right] rfl rfl]
  simp

theorem mentions_call :
    (call callee arguments).Mentions m ↔
      callee.Mentions m ∨ ∃ n ∈ arguments, n.Mentions m := by
  rw [mentions_iff (call callee arguments) [] (callee :: arguments) rfl rfl]
  simp

theorem mentions_expression : (expression test).Mentions m ↔ test.Mentions m := by
  rw [mentions_iff (expression test) [] [test] rfl rfl]
  simp

theorem mentions_conditional :
    (conditional test consequent alternate).Mentions m ↔
      test.Mentions m ∨ consequent.Mentions m ∨ alternate.Mentions m := by
  rw [mentions_iff (conditional test consequent alternate) [] [test, consequent, alternate] rfl rfl]
  simp

theorem mentions_returning : (returning test).Mentions m ↔ test.Mentions m := by
  rw [mentions_iff (returning test) [] [test] rfl rfl]
  simp

theorem mentions_block : (block body).Mentions m ↔ ∃ n ∈ body, n.Mentions m := by
  rw [mentions_iff (block body) [] body rfl rfl]
  simp

theorem mentions_function :
    (function name params body).Mentions m ↔
      m = .function name ∨ (∃ param ∈ params, m = .param param) ∨ ∃ n ∈ body, n.Mentions m := by
  rw [mentions_iff (function name params body) (.function name :: params.map .param) body rfl rfl]
  simp [or_assoc, eq_comm]

theorem mentions_whileLoop :
    (whileLoop left right).Mentions m ↔ left.Mentions m ∨ right.Mentions m := by
  rw [mentions_iff (whileLoop left right) [] [left, right] rfl rfl]
  simp

theorem mentions_declaration :
    (declaration name initial).Mentions m ↔ m = .declared name ∨ initial.Mentions m := by
  rw [mentions_iff (declaration name initial) [.declared name] [initial] rfl rfl]
  simp

/-- A part that was left out mentions nothing. -/
theorem mentions_getD {o : Option Node} :
    (Option.getD o .absent).Mentions m ↔ ∃ n ∈ o, n.Mentions m := by
  cases o with
  | none => simpa using not_mentions_of_isEmpty rfl rfl
  | some n => simp

/-- What a sequence of operations mentions, one of the operands does. -/
theorem mentions_foldl {rights : List (List Char × Node)} :
    (List.foldl Node.operation left rights).Mentions m ↔
      left.Mentions m ∨ ∃ right ∈ rights, right.2.Mentions m := by
  induction rights generalizing left with
  | nil => simp
  | cons right rights ih =>
    rw [List.foldl_cons, ih, operation, mentions_binary]
    simp [or_assoc]

end Forms

end Node

theorem Nonterminal.mentions_toStatement {kind : Nonterminal} (h : kind.isStatement = true)
    {x : kind.Meaning} : (kind.toStatement x).Mentions m ↔ kind.Mentions m x := by
  cases kind with
  | block => exact Node.mentions_block
  | functionDeclaration | ifStatement | whileStatement | variableDeclaration | returnStatement
  | expressionStatement => exact Iff.rfl
  | _ => cases h

theorem exists_mem_getD {α : Type} {o : Option (List α)} {p : α → Prop} :
    (∃ x ∈ Option.getD o [], p x) ↔ ∃ xs ∈ o, ∃ x ∈ xs, p x := by
  cases o with
  | none => simp
  | some xs => simp

/-! ## Places -/

/-- The name stands among the tokens of the derivation, and where it is mentioned to be read, any
other primary may stand. -/
def Derivation.Names {part : Nonterminal} (d : Derivation part) (m : Mention) : Prop :=
  ∃ lexeme before after, m.name = .plain (String.ofList lexeme) ∧
    d.yield = before ++ ⟨.name, lexeme⟩ :: after ∧
    ∀ name, m = .identifier name → ∀ p : Derivation .primary, ∃ e : Derivation part,
      e.yield = before ++ (p.yield ++ after)

namespace Derivation

/-- A name that stands in a part stands in the whole. -/
theorem Names.within {part whole : Nonterminal} {d : Derivation part} (h : d.Names m)
    (form : Derivation part → Derivation whole) (front back : List Token)
    (hform : ∀ e, (form e).yield = front ++ (e.yield ++ back)) : (form d).Names m := by
  obtain ⟨lexeme, before, after, hlexeme, hyield, hothers⟩ := h
  refine ⟨lexeme, front ++ before, after ++ back, hlexeme, ?_, fun name hname p => ?_⟩
  · rw [hform, hyield]
    simp only [List.append_assoc, List.cons_append]
  · obtain ⟨e, he⟩ := hothers name hname p
    refine ⟨form e, ?_⟩
    rw [hform, he]
    simp only [List.append_assoc]

variable [CharacterNames]

/-- **What the tree of a derivation mentions stands among its tokens.** -/
theorem names {part : Nonterminal} (d : Derivation part) (h : part.Mentions m d.meaning) :
    d.Names m := by
  -- one production at a time: what is mentioned in a part stands there, and so within the whole
  induction d with
  | statement kind isStatement d ih =>
    have inner := (Nonterminal.mentions_toStatement isStatement).mp h
    exact (ih inner).within (.statement kind isStatement) [] [] fun _ => by simp
  | functionDeclaration name params body hparams hbody =>
    rcases Node.mentions_function.mp h with rfl | inner | inner
    · exact ⟨name, [.of (.keyword .functionWord)],
        .of .openParen :: (params.yield ++ .of .closeParen :: body.yield), rfl, by simp, nofun⟩
    · exact (hparams (exists_mem_getD.mp inner)).within (fun e => .functionDeclaration name e body)
        [.of (.keyword .functionWord), ⟨.name, name⟩, .of .openParen]
        (.of .closeParen :: body.yield) fun _ => by simp
    · exact (hbody inner).within (.functionDeclaration name params)
        (.of (.keyword .functionWord) :: ⟨.name, name⟩ :: .of .openParen ::
          (params.yield ++ [.of .closeParen])) [] fun _ => by simp
  | paramList name more ih =>
    obtain ⟨param, hparam, rfl⟩ := h
    rcases List.mem_cons.mp hparam with rfl | hmore
    · exact ⟨name, [], more.yield, rfl, by simp, nofun⟩
    · exact (ih ⟨param, hmore, rfl⟩).within (.paramList name) [⟨.name, name⟩] [] fun _ => by simp
  | nextParam name =>
    obtain rfl := h
    exact ⟨name, [.of .comma], [], rfl, by simp, nofun⟩
  | ifStatement test consequent alternate htest hconsequent halternate =>
    rcases Node.mentions_conditional.mp h with inner | inner | inner
    · exact (htest inner).within (fun e => .ifStatement e consequent alternate)
        [.of (.keyword .ifWord), .of .openParen]
        (.of .closeParen :: (consequent.yield ++ alternate.yield)) fun _ => by simp
    · exact (hconsequent (Node.mentions_block.mp inner)).within
        (fun e => .ifStatement test e alternate)
        (.of (.keyword .ifWord) :: .of .openParen :: (test.yield ++ [.of .closeParen]))
        alternate.yield fun _ => by simp
    · exact (halternate (Node.mentions_getD.mp inner)).within (.ifStatement test consequent)
        (.of (.keyword .ifWord) :: .of .openParen ::
          (test.yield ++ .of .closeParen :: consequent.yield)) [] fun _ => by simp
  | elseClause branch ih =>
    exact (ih h).within .elseClause [.of (.keyword .elseWord)] [] fun _ => by simp
  | elseBlock body ih =>
    exact (ih (Node.mentions_block.mp h)).within .elseBlock [] [] fun _ => by simp
  | elseIf d ih => exact (ih h).within .elseIf [] [] fun _ => by simp
  | whileStatement test body htest hbody =>
    rcases Node.mentions_whileLoop.mp h with inner | inner
    · exact (htest inner).within (fun e => .whileStatement e body)
        [.of (.keyword .whileWord), .of .openParen] (.of .closeParen :: body.yield)
        fun _ => by simp
    · exact (hbody (Node.mentions_block.mp inner)).within (.whileStatement test)
        (.of (.keyword .whileWord) :: .of .openParen :: (test.yield ++ [.of .closeParen])) []
        fun _ => by simp
  | variableDeclaration word isDeclarator name initial ih =>
    rcases Node.mentions_declaration.mp h with rfl | inner
    · exact ⟨name, [.of (.keyword word)], initial.yield ++ [.of .semicolon], rfl, by simp, nofun⟩
    · exact (ih (Node.mentions_getD.mp inner)).within (.variableDeclaration word isDeclarator name)
        [.of (.keyword word), ⟨.name, name⟩] [.of .semicolon] fun _ => by simp
  | initializer value ih => exact (ih h).within .initializer [.of .assign] [] fun _ => by simp
  | returnStatement value ih =>
    have inner := Node.mentions_getD.mp (Node.mentions_returning.mp h)
    exact (ih inner).within .returnStatement [.of (.keyword .returnWord)] [.of .semicolon]
      fun _ => by simp
  | expressionStatement body ih =>
    exact (ih (Node.mentions_expression.mp h)).within .expressionStatement [] [.of .semicolon]
      fun _ => by simp
  | block body ih =>
    exact (ih h).within .block [.of .openBrace] [.of .closeBrace] fun _ => by simp
  | operations level first more hfirst hmore =>
    rcases Node.mentions_foldl.mp h with inner | inner
    · exact (hfirst inner).within (fun e => .operations level e more) [] more.yield
        fun _ => by simp
    · exact (hmore inner).within (.operations level first) first.yield [] fun _ => by simp
  | operation level operator right ih =>
    exact (ih h).within (.operation level operator) [⟨.operator level, operator⟩] []
      fun _ => by simp
  | simple d ih => exact (ih h).within .simple [] [] fun _ => by simp
  | call callee arguments hcallee harguments =>
    rcases Node.mentions_call.mp h with inner | inner
    · exact (hcallee inner).within (fun e => .call e arguments) []
        (.of .openParen :: (arguments.yield ++ [.of .closeParen])) fun _ => by simp
    · exact (harguments (exists_mem_getD.mp inner)).within (.call callee)
        (callee.yield ++ [.of .openParen]) [.of .closeParen] fun _ => by simp
  | argumentList first more hfirst hmore =>
    obtain ⟨n, hn, inner⟩ := h
    rcases List.mem_cons.mp hn with rfl | hrest
    · exact (hfirst inner).within (fun e => .argumentList e more) [] more.yield fun _ => by simp
    · exact (hmore ⟨n, hrest, inner⟩).within (.argumentList first) first.yield []
        fun _ => by simp
  | nextArgument value ih =>
    exact (ih h).within .nextArgument [.of .comma] [] fun _ => by simp
  | number | string | trueWord | falseWord =>
    exact absurd h (Node.not_mentions_of_isEmpty rfl rfl)
  | identifier lexeme =>
    -- the one name that is read, and its derivation is a primary itself
    obtain rfl := Node.mentions_identifier.mp h
    exact ⟨lexeme, [], [], rfl, by simp, fun _ _ p => ⟨p, by simp⟩⟩
  | group d ih =>
    exact (ih h).within .group [.of .openParen] [.of .closeParen] fun _ => by simp
  | absent => exact absurd h nofun
  | present part d ih =>
    obtain ⟨x, hx, inner⟩ := h
    cases hx
    exact (ih inner).within (.present part) [] [] fun _ => by simp
  | nil => exact absurd h nofun
  | cons part first rest hfirst hrest =>
    obtain ⟨x, hx, inner⟩ := h
    rcases List.mem_cons.mp hx with rfl | hmem
    · exact (hfirst inner).within (fun e => .cons part e rest) [] rest.yield fun _ => by simp
    · exact (hrest ⟨x, hmem, inner⟩).within (.cons part first) first.yield [] fun _ => by simp

omit [CharacterNames] in
/-- Only the terminal for names has names for its tokens. -/
theorem name_eq_of_iff {terminal : Terminal} {lexeme : List Char} :
    (⟨.name, lexeme⟩ : Token) = .of terminal ↔ terminal = .name ∧ lexeme = [] := by
  rw [Token.of, Token.mk.injEq]
  constructor
  · rintro ⟨rfl, h⟩
    exact ⟨rfl, h⟩
  · rintro ⟨rfl, h⟩
    exact ⟨rfl, h⟩

/-- **Every name among the tokens of a derivation is mentioned in its tree.** -/
theorem mentions_of_mem_yield {part : Nonterminal} (d : Derivation part) {lexeme : List Char}
    (h : ⟨.name, lexeme⟩ ∈ d.yield) :
    ∃ m : Mention, m.name = String.ofList lexeme ∧ part.Mentions m d.meaning := by
  induction d with
  | statement kind isStatement d ih =>
    exact (ih h).imp fun _ => And.imp_right (Nonterminal.mentions_toStatement isStatement).mpr
  | functionDeclaration name params body hparams hbody =>
    simp only [yield, List.mem_cons, List.mem_append, name_eq_of_iff, reduceCtorEq, false_and,
      false_or] at h
    rcases h with heq | h | h
    · cases heq
      exact ⟨_, rfl, Node.mentions_function.mpr (Or.inl rfl)⟩
    · exact (hparams h).imp fun _ => And.imp_right fun inner =>
        Node.mentions_function.mpr (Or.inr (Or.inl (exists_mem_getD.mpr inner)))
    · exact (hbody h).imp fun _ => And.imp_right fun inner =>
        Node.mentions_function.mpr (Or.inr (Or.inr inner))
  | paramList name more ih =>
    rcases List.mem_cons.mp h with heq | h
    · cases heq
      exact ⟨.param (String.ofList lexeme), rfl, _, List.mem_cons_self .., rfl⟩
    · obtain ⟨m, hm, param, hparam, heq⟩ := ih h
      exact ⟨m, hm, param, List.mem_cons_of_mem _ hparam, heq⟩
  | nextParam name =>
    simp only [yield, List.mem_cons, name_eq_of_iff, reduceCtorEq, false_and, false_or, or_false,
      List.not_mem_nil] at h
    cases h
    exact ⟨.param (String.ofList lexeme), rfl, rfl⟩
  | ifStatement test consequent alternate htest hconsequent halternate =>
    simp only [yield, List.mem_cons, List.mem_append, name_eq_of_iff, reduceCtorEq, false_and,
      false_or] at h
    rcases h with h | h | h
    · exact (htest h).imp fun _ => And.imp_right fun inner =>
        Node.mentions_conditional.mpr (Or.inl inner)
    · exact (hconsequent h).imp fun _ => And.imp_right fun inner =>
        Node.mentions_conditional.mpr (Or.inr (Or.inl (Node.mentions_block.mpr inner)))
    · exact (halternate h).imp fun _ => And.imp_right fun inner =>
        Node.mentions_conditional.mpr (Or.inr (Or.inr (Node.mentions_getD.mpr inner)))
  | elseClause branch ih =>
    simp only [yield, List.mem_cons, name_eq_of_iff, reduceCtorEq, false_and, false_or] at h
    exact ih h
  | elseBlock body ih => exact (ih h).imp fun _ => And.imp_right Node.mentions_block.mpr
  | elseIf d ih => exact ih h
  | whileStatement test body htest hbody =>
    simp only [yield, List.mem_cons, List.mem_append, name_eq_of_iff, reduceCtorEq, false_and,
      false_or] at h
    rcases h with h | h
    · exact (htest h).imp fun _ => And.imp_right fun inner =>
        Node.mentions_whileLoop.mpr (Or.inl inner)
    · exact (hbody h).imp fun _ => And.imp_right fun inner =>
        Node.mentions_whileLoop.mpr (Or.inr (Node.mentions_block.mpr inner))
  | variableDeclaration word isDeclarator name initial ih =>
    simp only [yield, List.mem_cons, List.mem_append, name_eq_of_iff, reduceCtorEq, false_and,
      false_or, or_false, List.not_mem_nil] at h
    rcases h with heq | h
    · cases heq
      exact ⟨_, rfl, Node.mentions_declaration.mpr (Or.inl rfl)⟩
    · exact (ih h).imp fun _ => And.imp_right fun inner =>
        Node.mentions_declaration.mpr (Or.inr (Node.mentions_getD.mpr inner))
  | initializer value ih =>
    simp only [yield, List.mem_cons, name_eq_of_iff, reduceCtorEq, false_and, false_or] at h
    exact ih h
  | returnStatement value ih =>
    simp only [yield, List.mem_cons, List.mem_append, name_eq_of_iff, reduceCtorEq, false_and,
      false_or, or_false, List.not_mem_nil] at h
    exact (ih h).imp fun _ => And.imp_right fun inner =>
      Node.mentions_returning.mpr (Node.mentions_getD.mpr inner)
  | expressionStatement body ih =>
    simp only [yield, List.mem_cons, List.mem_append, name_eq_of_iff, reduceCtorEq, false_and,
      or_false, List.not_mem_nil] at h
    exact (ih h).imp fun _ => And.imp_right Node.mentions_expression.mpr
  | block body ih =>
    simp only [yield, List.mem_cons, List.mem_append, name_eq_of_iff, reduceCtorEq, false_and,
      false_or, or_false, List.not_mem_nil] at h
    exact ih h
  | operations level first more hfirst hmore =>
    rcases List.mem_append.mp h with h | h
    · exact (hfirst h).imp fun _ => And.imp_right fun inner =>
        Node.mentions_foldl.mpr (Or.inl inner)
    · exact (hmore h).imp fun _ => And.imp_right fun inner =>
        Node.mentions_foldl.mpr (Or.inr inner)
  | operation level operator right ih =>
    rcases List.mem_cons.mp h with heq | h
    · cases heq
    · exact ih h
  | simple d ih => exact ih h
  | call callee arguments hcallee harguments =>
    simp only [yield, List.mem_cons, List.mem_append, name_eq_of_iff, reduceCtorEq, false_and,
      false_or, or_false, List.not_mem_nil] at h
    rcases h with h | h
    · exact (hcallee h).imp fun _ => And.imp_right fun inner =>
        Node.mentions_call.mpr (Or.inl inner)
    · exact (harguments h).imp fun _ => And.imp_right fun inner =>
        Node.mentions_call.mpr (Or.inr (exists_mem_getD.mpr inner))
  | argumentList first more hfirst hmore =>
    rcases List.mem_append.mp h with h | h
    · exact (hfirst h).imp fun _ => And.imp_right fun inner =>
        ⟨_, List.mem_cons_self .., inner⟩
    · obtain ⟨m, hm, n, hn, inner⟩ := hmore h
      exact ⟨m, hm, n, List.mem_cons_of_mem _ hn, inner⟩
  | nextArgument value ih =>
    simp only [yield, List.mem_cons, name_eq_of_iff, reduceCtorEq, false_and, false_or] at h
    exact ih h
  | number | string => cases List.mem_singleton.mp h
  | trueWord | falseWord =>
    simp only [yield, List.mem_cons, name_eq_of_iff, reduceCtorEq, false_and, or_false,
      List.not_mem_nil] at h
  | identifier lexeme =>
    cases List.mem_singleton.mp h
    exact ⟨_, rfl, Node.mentions_identifier.mpr rfl⟩
  | group d ih =>
    simp only [yield, List.mem_cons, List.mem_append, name_eq_of_iff, reduceCtorEq, false_and,
      false_or, or_false, List.not_mem_nil] at h
    exact ih h
  | absent | nil => cases h
  | present part d ih => exact (ih h).imp fun _ => And.imp_right fun inner => ⟨_, rfl, inner⟩
  | cons part first rest hfirst hrest =>
    rcases List.mem_append.mp h with h | h
    · exact (hfirst h).imp fun _ => And.imp_right fun inner =>
        ⟨_, List.mem_cons_self .., inner⟩
    · obtain ⟨m, hm, x, hx, inner⟩ := hrest h
      exact ⟨m, hm, x, List.mem_cons_of_mem _ hx, inner⟩

end Derivation

end Scriptlet
