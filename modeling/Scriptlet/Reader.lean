import Scriptlet.Node
import Scriptlet.Text.Digit
import Scriptlet.Decimal.Numeral
import Scriptlet.Token
import Scriptlet.Token.StringLiteral

/-!
# Reading tokens into a tree

The reader takes one token at a time.  Everything that it has begun and not finished is in its
state: the blocks that are open, the statement in hand, the brackets that are open in the
expression in hand, and the operators that wait for their right operand.  So whether a token fits
never depends on the tokens after it.

* `Waiting` and `complete` build binary operations.  An operator first gathers all that binds at
  least as tightly on its left, so operators of one level group to the left.
* `Hole` says where an expression stands, bracket by bracket.
* `Focus` says what may come next, and `Reader.feed` takes the next token.
* `Reader.finish?` is the program, if it may end here.
-/

namespace Scriptlet

/-! ## Expressions under way -/

/-- A binary operator with its left operand, waiting for the right one. -/
structure Waiting where
  level : Level
  operator : List Char
  left : Node

/-- The operation that a waiting operator makes with its right operand. -/
def Waiting.fill (w : Waiting) (right : Node) : Node :=
  .binary (.string (String.ofList w.operator)) w.left right

/-- Gives an operand to the waiting operators that bind at least as tightly as a level, the last
one first. -/
def gather (level : Level) (operand : Node) : List Waiting → Node × List Waiting
  | [] => (operand, [])
  | w :: ws =>
    if level.rank ≤ w.level.rank then gather level (w.fill operand) ws else (operand, w :: ws)

/-- Gives an operand to all waiting operators. -/
def complete (operand : Node) (waiting : List Waiting) : Node :=
  waiting.foldl (fun operand w => w.fill operand) operand

/-- A condition with the block that depends on it. -/
structure Branch where
  test : Node
  consequent : Node

/-- The statement of branches that were tried one after another, the last one first. -/
def Branch.close (alternate : Node) : List Branch → Node
  | [] => alternate
  | b :: bs => Branch.close (.conditional b.test b.consequent alternate) bs

/-- Where an expression stands.  Brackets remember the operators that wait outside of them. -/
inductive Hole where
  | statement
  | returned
  | initial (name : Text)
  /-- The condition of an `if`, after the branches of the same statement. -/
  | condition (before : List Branch)
  | loop
  | group (waiting : List Waiting) (outer : Hole)
  | argument (waiting : List Waiting) (callee : Node) (before : List Node) (outer : Hole)

/-! ## Statements under way -/

/-- What an open block belongs to. -/
inductive Owner where
  | plain
  | function (name : Text) (params : List Text)
  | loop (test : Node)
  | consequent (test : Node) (before : List Branch)
  | alternative (branches : List Branch)

/-- A block that is open, with the statements before it in the list around it, the last one
first. -/
structure Frame where
  owner : Owner
  before : List Node

/-- What may come next. -/
inductive Focus where
  /-- A statement or the end of the list, after a block or not. -/
  | statement (afterBlock : Bool)
  /-- The same, or `else` for the branches just read. -/
  | branches (before : List Branch)
  | operand (waiting : List Waiting) (hole : Hole)
  /-- An operator or the end of the expression. -/
  | operator (operand : Node) (waiting : List Waiting) (hole : Hole)
  | functionName
  | openParams (name : Text)
  | firstParam (name : Text)
  | nextParam (name : Text) (params : List Text)
  | afterParam (name : Text) (params : List Text)
  | openCondition (hole : Hole)
  | openBlock (owner : Owner)
  /-- A block or another `if`. -/
  | alternative (branches : List Branch)
  | declaredName
  | afterDeclaredName (name : Text)

/-- A state of the reader: what may come next, the statements read in the innermost open list,
the last one first, and the open blocks, the innermost one first. -/
structure Reader where
  focus : Focus
  statements : List Node
  frames : List Frame

namespace Reader

/-- The state before the first token. -/
def start : Reader := ⟨.statement false, [], []⟩

/-- The state with another focus. -/
def goto (r : Reader) (focus : Focus) : Option Reader := some { r with focus }

/-- The state after a whole statement. -/
def push (r : Reader) (statement : Node) (afterBlock : Bool) : Reader :=
  { r with focus := .statement afterBlock, statements := statement :: r.statements }

/-- The state inside a block that has just been opened. -/
def enter (r : Reader) (owner : Owner) : Option Reader :=
  some ⟨.statement false, [], ⟨owner, r.statements⟩ :: r.frames⟩

/-- The state after the innermost block has been closed. -/
def leave (r : Reader) : Option Reader :=
  match r.frames with
  | [] => none
  | ⟨owner, before⟩ :: frames =>
    let body := r.statements.reverse
    let outer : Reader := ⟨.statement true, before, frames⟩
    match owner with
    | .plain => some (outer.push (.block body) true)
    | .function name params => some (outer.push (.function name params.reverse body) true)
    | .loop test => some (outer.push (.whileLoop test (.block body)) true)
    | .consequent test branches => outer.goto (.branches (⟨test, .block body⟩ :: branches))
    | .alternative branches => some (outer.push (Branch.close (.block body) branches) true)

variable [CharacterNames]

/-- The operand that a token is by itself.  A literal that denotes nothing is taken for an empty
one, and is left to `Token.isMalformed`. -/
def operandOf? (t : Token) : Option Node :=
  match t.terminal with
  | .number =>
    let decimal := (Numeral.ofChars? Text.digitValue t.lexeme).map (·.toDecimal Text.digitValue)
    some (.literal (.number (decimal.getD ⟨0, 0⟩).toFloat))
  | .string =>
    some (.literal (.string ((StringLiteral.decode t.lexeme).getD "")))
  | .keyword .trueWord => some (.literal (.boolean true))
  | .keyword .falseWord => some (.literal (.boolean false))
  | .name => some (.identifier (String.ofList t.lexeme))
  | _ => none

/-- Takes a token where an operand may come.  A call may end before its first argument, and a
return before its value. -/
def feedOperand (r : Reader) (waiting : List Waiting) (hole : Hole) (t : Token) : Option Reader :=
  match operandOf? t with
  | some operand => r.goto (.operator operand waiting hole)
  | none =>
    match t.terminal, waiting, hole with
    | .openParen, waiting, hole => r.goto (.operand [] (.group waiting hole))
    | .closeParen, [], .argument waiting callee [] outer =>
      r.goto (.operator (.call callee []) waiting outer)
    | .semicolon, [], .returned => some (r.push (.returning .absent) false)
    | _, _, _ => none

/-- Takes the token that ends an expression, where it stands. -/
def feedEnd (r : Reader) (expression : Node) (hole : Hole) (t : Token) : Option Reader :=
  match t.terminal, hole with
  | .semicolon, .statement => some (r.push (.expression expression) false)
  | .semicolon, .returned => some (r.push (.returning expression) false)
  | .semicolon, .initial name => some (r.push (.declaration name expression) false)
  | .closeParen, .condition before => r.goto (.openBlock (.consequent expression before))
  | .closeParen, .loop => r.goto (.openBlock (.loop expression))
  | .closeParen, .group waiting outer => r.goto (.operator expression waiting outer)
  | .closeParen, .argument waiting callee before outer =>
    r.goto (.operator (.call callee (expression :: before).reverse) waiting outer)
  | .comma, .argument waiting callee before outer =>
    r.goto (.operand [] (.argument waiting callee (expression :: before) outer))
  | _, _ => none

/-- Takes a token after an operand. -/
def feedOperator (r : Reader) (operand : Node) (waiting : List Waiting) (hole : Hole)
    (t : Token) : Option Reader :=
  match t.terminal with
  | .operator level =>
    let (left, waiting) := gather level operand waiting
    r.goto (.operand (⟨level, t.lexeme, left⟩ :: waiting) hole)
  | .openParen => r.goto (.operand [] (.argument waiting operand [] hole))
  | _ => r.feedEnd (complete operand waiting) hole t

/-- Takes a token where a statement may come. -/
def feedStatement (r : Reader) (t : Token) : Option Reader :=
  match t.terminal with
  | .keyword .functionWord => r.goto .functionName
  | .keyword .ifWord => r.goto (.openCondition (.condition []))
  | .keyword .whileWord => r.goto (.openCondition .loop)
  | .keyword .varWord => r.goto .declaredName
  | .keyword .letWord => r.goto .declaredName
  | .keyword .constWord => r.goto .declaredName
  | .keyword .returnWord => r.goto (.operand [] .returned)
  | .openBrace => r.enter .plain
  | .closeBrace => r.leave
  | _ => r.feedOperand [] .statement t

/-- The state when no more branches follow. -/
def closeBranches (r : Reader) (before : List Branch) : Reader :=
  r.push (Branch.close .absent before) true

/-- Takes the next token, if it fits. -/
def feed (r : Reader) (t : Token) : Option Reader :=
  match r.focus with
  | .statement _ => r.feedStatement t
  | .branches before =>
    if t.terminal = .keyword .elseWord then r.goto (.alternative before)
    else (r.closeBranches before).feedStatement t
  | .operand waiting hole => r.feedOperand waiting hole t
  | .operator operand waiting hole => r.feedOperator operand waiting hole t
  | .functionName =>
    if t.terminal = .name then r.goto (.openParams (String.ofList t.lexeme)) else none
  | .openParams name => if t.terminal = .openParen then r.goto (.firstParam name) else none
  | .firstParam name =>
    match t.terminal with
    | .name => r.goto (.afterParam name [String.ofList t.lexeme])
    | .closeParen => r.goto (.openBlock (.function name []))
    | _ => none
  | .nextParam name params =>
    if t.terminal = .name then r.goto (.afterParam name (String.ofList t.lexeme :: params)) else none
  | .afterParam name params =>
    match t.terminal with
    | .comma => r.goto (.nextParam name params)
    | .closeParen => r.goto (.openBlock (.function name params))
    | _ => none
  | .openCondition hole => if t.terminal = .openParen then r.goto (.operand [] hole) else none
  | .openBlock owner => if t.terminal = .openBrace then r.enter owner else none
  | .alternative branches =>
    match t.terminal with
    | .openBrace => r.enter (.alternative branches)
    | .keyword .ifWord => r.goto (.openCondition (.condition branches))
    | _ => none
  | .declaredName =>
    if t.terminal = .name then r.goto (.afterDeclaredName (String.ofList t.lexeme)) else none
  | .afterDeclaredName name =>
    match t.terminal with
    | .assign => r.goto (.operand [] (.initial name))
    | .semicolon => some (r.push (.declaration name .absent) false)
    | _ => none

/-- Whether a terminal is looked for next.  That is where it fits, and `else` after every block:
which block an `else` belongs to is only found out when it has been read. -/
def accepts (r : Reader) (terminal : Terminal) : Bool :=
  (r.feed ⟨terminal, []⟩).isSome ||
    match r.focus with
    | .statement afterBlock => afterBlock && terminal == .keyword .elseWord
    | _ => false

/-- The program, if it may end here. -/
def finish? (r : Reader) : Option (List Node) :=
  match r.focus, r.frames with
  | .statement _, [] => some r.statements.reverse
  | .branches before, [] => some (r.closeBranches before).statements.reverse
  | _, _ => none

/-- Takes tokens one after another. -/
def feedAll : Reader → List Token → Option Reader
  | r, [] => some r
  | r, t :: ts => (r.feed t).bind fun r => r.feedAll ts

@[simp] theorem feedAll_nil (r : Reader) : r.feedAll [] = some r := rfl

@[simp] theorem feedAll_cons (r : Reader) (t : Token) (ts : List Token) :
    r.feedAll (t :: ts) = (r.feed t).bind fun r => r.feedAll ts := rfl

/-- Taking two runs of tokens is taking one and then the other. -/
theorem feedAll_append (r : Reader) (ts us : List Token) :
    r.feedAll (ts ++ us) = (r.feedAll ts).bind fun r => r.feedAll us := by
  induction ts generalizing r with
  | nil => rfl
  | cons t ts ih =>
    simp only [List.cons_append, feedAll_cons]
    cases r.feed t with
    | none => rfl
    | some r => exact ih r

end Reader
end Scriptlet
