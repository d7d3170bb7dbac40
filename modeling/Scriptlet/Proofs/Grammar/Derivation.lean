import Scriptlet.Decimal.Numeral
import Scriptlet.Node
import Scriptlet.Text.Digit
import Scriptlet.Token
import Scriptlet.Token.StringLiteral

/-!
# The grammar of programs

The grammar as it is written down, with optional parts and repetitions, and without a word about
how it is read.  A derivation is a tree with one production at each node, so there is one
constructor for each alternative of each rule.

* `Nonterminal` and `Derivation` are the grammar:

      program      : statement*
      statement    : function | if | while | variable | return | block | expression ";"
      function     : "function" NAME "(" [NAME ("," NAME)*] ")" block
      if           : "if" "(" expression ")" block ["else" (block | if)]
      while        : "while" "(" expression ")" block
      variable     : ("var" | "let" | "const") NAME ["=" expression] ";"
      return       : "return" [expression] ";"
      block        : "{" statement* "}"
      expression   : relational (EQUALITY relational)*
      relational   : additive (RELATIONAL additive)*
      additive     : multiplicative (ADDITIVE multiplicative)*
      multiplicative : call (MULTIPLICATIVE call)*
      call         : primary | call "(" [expression ("," expression)*] ")"
      primary      : NUMBER | STRING | "true" | "false" | NAME | "(" expression ")"

* `Derivation.yield` is the tokens that a derivation derives.
* `Derivation.meaning` is the tree that the grammar prescribes for it.
-/

namespace Scriptlet

/-! ## Terminals with one spelling -/

/-- How a terminal is written, if it can be written in one way only. -/
def Terminal.spelling? : Terminal → Option (List Char)
  | .number => none
  | .string => none
  | .name => none
  | .operator _ => none
  | .keyword k => some k.spelling.toList
  | .assign => some ['=']
  | .comma => some [',']
  | .semicolon => some [';']
  | .openParen => some ['(']
  | .closeParen => some [')']
  | .openBrace => some ['\x7b']
  | .closeBrace => some ['\x7d']

/-- The token that a terminal with one spelling is. -/
def Token.of (terminal : Terminal) : Token := ⟨terminal, terminal.spelling?.getD []⟩

@[simp] theorem Token.terminal_of (terminal : Terminal) : (Token.of terminal).terminal = terminal :=
  rfl

/-! ## Nonterminals -/

/-- The next tighter level of operators.  The tightest is followed by calls. -/
def Level.tighter : Level → Option Level
  | .equality => some .relational
  | .relational => some .additive
  | .additive => some .multiplicative
  | .multiplicative => none

/-- The symbols that the grammar has rules for, with the parts of rules that are optional or
repeated. -/
inductive Nonterminal where
  | statement
  | functionDeclaration
  | paramList
  /-- A comma and a parameter. -/
  | nextParam
  | ifStatement
  /-- The word `else` and what follows it. -/
  | elseClause
  | elseBranch
  | whileStatement
  | variableDeclaration
  /-- An equals sign and a value. -/
  | initializer
  | returnStatement
  | expressionStatement
  | block
  /-- The operations of a level, or calls if there is none. -/
  | operand (level : Option Level)
  /-- An operator of a level and its right operand. -/
  | operation (level : Level)
  | argumentList
  /-- A comma and an argument. -/
  | nextArgument
  | primary
  | optional (part : Nonterminal)
  | many (part : Nonterminal)
  deriving DecidableEq

namespace Nonterminal

/-- Any number of statements. -/
abbrev program : Nonterminal := .many .statement

/-- An expression is an operation of the loosest level. -/
abbrev expression : Nonterminal := .operand (some .equality)

/-- The alternatives for a statement. -/
def isStatement : Nonterminal → Bool
  | functionDeclaration => true
  | ifStatement => true
  | whileStatement => true
  | variableDeclaration => true
  | returnStatement => true
  | block => true
  | expressionStatement => true
  | _ => false

end Nonterminal

/-- The words that declare a variable. -/
def Keyword.isDeclarator : Keyword → Bool
  | varWord => true
  | letWord => true
  | constWord => true
  | _ => false

/-! ## Derivations -/

/-- The derivations from a nonterminal.  Tokens are part of a derivation where the grammar leaves
open how they are written. -/
inductive Derivation : Nonterminal → Type
  | statement (kind : Nonterminal) (isStatement : kind.isStatement = true) (d : Derivation kind) :
      Derivation .statement
  | functionDeclaration (name : List Char) (params : Derivation (.optional .paramList))
      (body : Derivation .block) : Derivation .functionDeclaration
  | paramList (name : List Char) (more : Derivation (.many .nextParam)) : Derivation .paramList
  | nextParam (name : List Char) : Derivation .nextParam
  | ifStatement (test : Derivation .expression) (consequent : Derivation .block)
      (alternate : Derivation (.optional .elseClause)) : Derivation .ifStatement
  | elseClause (branch : Derivation .elseBranch) : Derivation .elseClause
  | elseBlock (body : Derivation .block) : Derivation .elseBranch
  | elseIf (d : Derivation .ifStatement) : Derivation .elseBranch
  | whileStatement (test : Derivation .expression) (body : Derivation .block) :
      Derivation .whileStatement
  | variableDeclaration (word : Keyword) (isDeclarator : word.isDeclarator = true)
      (name : List Char) (initial : Derivation (.optional .initializer)) :
      Derivation .variableDeclaration
  | initializer (value : Derivation .expression) : Derivation .initializer
  | returnStatement (value : Derivation (.optional .expression)) : Derivation .returnStatement
  | expressionStatement (body : Derivation .expression) : Derivation .expressionStatement
  | block (body : Derivation (.many .statement)) : Derivation .block
  | operations (level : Level) (first : Derivation (.operand level.tighter))
      (more : Derivation (.many (.operation level))) : Derivation (.operand (some level))
  | operation (level : Level) (operator : List Char) (right : Derivation (.operand level.tighter)) :
      Derivation (.operation level)
  | simple (d : Derivation .primary) : Derivation (.operand none)
  | call (callee : Derivation (.operand none)) (arguments : Derivation (.optional .argumentList)) :
      Derivation (.operand none)
  | argumentList (first : Derivation .expression) (more : Derivation (.many .nextArgument)) :
      Derivation .argumentList
  | nextArgument (value : Derivation .expression) : Derivation .nextArgument
  | number (lexeme : List Char) : Derivation .primary
  | string (lexeme : List Char) : Derivation .primary
  | trueWord : Derivation .primary
  | falseWord : Derivation .primary
  | identifier (lexeme : List Char) : Derivation .primary
  | group (d : Derivation .expression) : Derivation .primary
  | absent (part : Nonterminal) : Derivation (.optional part)
  | present (part : Nonterminal) (d : Derivation part) : Derivation (.optional part)
  | nil (part : Nonterminal) : Derivation (.many part)
  | cons (part : Nonterminal) (first : Derivation part) (rest : Derivation (.many part)) :
      Derivation (.many part)

/-- The tokens that a derivation derives. -/
@[simp] def Derivation.yield : {n : Nonterminal} → Derivation n → List Token
  | _, .statement _ _ d => d.yield
  | _, .functionDeclaration name params body =>
    .of (.keyword .functionWord) :: ⟨.name, name⟩ :: .of .openParen ::
      (params.yield ++ .of .closeParen :: body.yield)
  | _, .paramList name more => ⟨.name, name⟩ :: more.yield
  | _, .nextParam name => [.of .comma, ⟨.name, name⟩]
  | _, .ifStatement test consequent alternate =>
    .of (.keyword .ifWord) :: .of .openParen ::
      (test.yield ++ .of .closeParen :: (consequent.yield ++ alternate.yield))
  | _, .elseClause branch => .of (.keyword .elseWord) :: branch.yield
  | _, .elseBlock body => body.yield
  | _, .elseIf d => d.yield
  | _, .whileStatement test body =>
    .of (.keyword .whileWord) :: .of .openParen :: (test.yield ++ .of .closeParen :: body.yield)
  | _, .variableDeclaration word _ name initial =>
    .of (.keyword word) :: ⟨.name, name⟩ :: (initial.yield ++ [.of .semicolon])
  | _, .initializer value => .of .assign :: value.yield
  | _, .returnStatement value => .of (.keyword .returnWord) :: (value.yield ++ [.of .semicolon])
  | _, .expressionStatement body => body.yield ++ [.of .semicolon]
  | _, .block body => .of .openBrace :: (body.yield ++ [.of .closeBrace])
  | _, .operations _ first more => first.yield ++ more.yield
  | _, .operation level operator right => ⟨.operator level, operator⟩ :: right.yield
  | _, .simple d => d.yield
  | _, .call callee arguments =>
    callee.yield ++ .of .openParen :: (arguments.yield ++ [.of .closeParen])
  | _, .argumentList first more => first.yield ++ more.yield
  | _, .nextArgument value => .of .comma :: value.yield
  | _, .number lexeme => [⟨.number, lexeme⟩]
  | _, .string lexeme => [⟨.string, lexeme⟩]
  | _, .trueWord => [.of (.keyword .trueWord)]
  | _, .falseWord => [.of (.keyword .falseWord)]
  | _, .identifier lexeme => [⟨.name, lexeme⟩]
  | _, .group d => .of .openParen :: (d.yield ++ [.of .closeParen])
  | _, .absent _ => []
  | _, .present _ d => d.yield
  | _, .nil _ => []
  | _, .cons _ first rest => first.yield ++ rest.yield

/-! ## Repetitions -/

/-- The derivations that a repetition repeats. -/
def Derivation.items : {part : Nonterminal} → Derivation (.many part) → List (Derivation part)
  | _, .nil _ => []
  | _, .cons _ first rest => first :: rest.items

/-- A repetition of derivations. -/
def Derivation.ofItems {part : Nonterminal} : List (Derivation part) → Derivation (.many part)
  | [] => .nil part
  | first :: rest => .cons part first (ofItems rest)

namespace Derivation

theorem yield_eq_flatMap {part : Nonterminal} :
    (d : Derivation (.many part)) → d.yield = d.items.flatMap yield
  | .nil _ => by rw [yield, items, List.flatMap_nil]
  | .cons _ first rest => by rw [yield, yield_eq_flatMap rest, items, List.flatMap_cons]

theorem yield_ofItems {part : Nonterminal} (items : List (Derivation part)) :
    (ofItems items).yield = items.flatMap yield := by
  induction items with
  | nil => rfl
  | cons first rest ih => rw [ofItems, yield, ih, List.flatMap_cons]

end Derivation

/-! ## The tree of a derivation -/

/-- What a derivation from a nonterminal stands for. -/
@[reducible] def Nonterminal.Meaning : Nonterminal → Type
  | paramList => List Text
  | nextParam => Text
  | block => List Node
  | operation _ => List Char × Node
  | argumentList => List Node
  | optional part => Option part.Meaning
  | many part => List part.Meaning
  | statement => Node
  | functionDeclaration => Node
  | ifStatement => Node
  | elseClause => Node
  | elseBranch => Node
  | whileStatement => Node
  | variableDeclaration => Node
  | initializer => Node
  | returnStatement => Node
  | expressionStatement => Node
  | operand _ => Node
  | nextArgument => Node
  | primary => Node

/-- The statement that one of the alternatives for a statement stands for. -/
def Nonterminal.toStatement : (kind : Nonterminal) → kind.Meaning → Node
  | block, body => .block body
  | functionDeclaration, node => node
  | ifStatement, node => node
  | whileStatement, node => node
  | variableDeclaration, node => node
  | returnStatement, node => node
  | expressionStatement, node => node
  | _, _ => .absent

/-- The operation of an operator with its operands. -/
def Node.operation (left : Node) (right : List Char × Node) : Node :=
  .binary (.string (String.ofList right.1)) left right.2

/-- The number that a number token denotes. -/
def Token.numberOf (lexeme : List Char) : Float :=
  let decimal := (Numeral.ofChars? Text.digitValue lexeme).map (·.toDecimal Text.digitValue)
  (decimal.getD ⟨0, 0⟩).toFloat

/-- What holds of the members of a list that is there holds if the list was left out as well. -/
theorem forall_mem_getD {α : Type} {o : Option (List α)} {P : α → Prop}
    (h : ∀ xs ∈ o, ∀ x ∈ xs, P x) : ∀ x ∈ Option.getD o [], P x := by
  cases o with
  | none => exact fun _ hx => nomatch hx
  | some xs => exact h xs rfl

variable [CharacterNames]

/-- The text that a string token denotes; one that denotes nothing is taken for an empty one. -/
def Token.textOf (lexeme : List Char) : Text := (StringLiteral.decode lexeme).getD ""

/-- The tree that the grammar prescribes for a derivation.  Operations of one level group to the
left, calls nest to the left, the branches of an `if` nest in its alternative, and a part that was
left out is absent. -/
@[simp] def Derivation.meaning : {n : Nonterminal} → Derivation n → n.Meaning
  | _, .statement kind _ d => kind.toStatement d.meaning
  | _, .functionDeclaration name params body =>
    Node.function (.plain (String.ofList name)) (Option.getD params.meaning []) body.meaning
  | _, .paramList name more => .plain (String.ofList name) :: more.meaning
  | _, .nextParam name => .plain (String.ofList name)
  | _, .ifStatement test consequent alternate =>
    Node.conditional test.meaning (.block consequent.meaning)
      (Option.getD alternate.meaning Node.absent)
  | _, .elseClause branch => branch.meaning
  | _, .elseBlock body => Node.block body.meaning
  | _, .elseIf d => d.meaning
  | _, .whileStatement test body => Node.whileLoop test.meaning (.block body.meaning)
  | _, .variableDeclaration _ _ name initial =>
    Node.declaration (String.ofList name) (Option.getD initial.meaning Node.absent)
  | _, .initializer value => value.meaning
  | _, .returnStatement value => Node.returning (Option.getD value.meaning Node.absent)
  | _, .expressionStatement body => Node.expression body.meaning
  | _, .block body => body.meaning
  | _, .operations _ first more => List.foldl Node.operation first.meaning more.meaning
  | _, .operation _ operator right => (operator, right.meaning)
  | _, .simple d => d.meaning
  | _, .call callee arguments => Node.call callee.meaning (Option.getD arguments.meaning [])
  | _, .argumentList first more => first.meaning :: more.meaning
  | _, .nextArgument value => value.meaning
  | _, .number lexeme => Node.literal (.number (Token.numberOf lexeme))
  | _, .string lexeme => Node.literal (.string (Token.textOf lexeme))
  | _, .trueWord => Node.literal (.boolean true)
  | _, .falseWord => Node.literal (.boolean false)
  | _, .identifier lexeme => Node.identifier (String.ofList lexeme)
  | _, .group d => d.meaning
  | _, .absent _ => none
  | _, .present _ d => some d.meaning
  | _, .nil _ => []
  | _, .cons _ first rest => first.meaning :: rest.meaning

namespace Derivation

theorem meaning_eq_map {part : Nonterminal} :
    (d : Derivation (.many part)) → d.meaning = d.items.map meaning
  | .nil _ => by rw [meaning, items, List.map_nil]
  | .cons _ first rest => by rw [meaning, meaning_eq_map rest, items, List.map_cons]

theorem meaning_ofItems {part : Nonterminal} (items : List (Derivation part)) :
    (ofItems items).meaning = items.map meaning := by
  induction items with
  | nil => rfl
  | cons first rest ih => rw [ofItems, meaning, ih, List.map_cons]

end Derivation

end Scriptlet
