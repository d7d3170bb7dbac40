import Scriptlet.Value.Conversion
import Scriptlet.World

/-!
# Evaluation

Expressions are evaluated to values and statements are executed to outcomes by walking the tree.

* A function runs in a copy of the scope that it was declared in, taken when the call starts, with
  its parameters bound on top.  So it sees what was bound in that scope up to the call, and binds
  nothing there itself.
* Blocks have no scope of their own.
* Operands, the callee and the arguments are evaluated from left to right, and only then is it
  found out whether the callee can be called.
* What is printed and what the trace is told of is encoded when it is written, so a text with a
  surrogate ends the run there and nothing of its line is written.
* The four functions that walk the tree take a bound on how deep they may nest.  They recurse on
  it, and a run that needs more ends in `Fault.stackExhausted`.
-/

namespace Scriptlet

/-- How a statement ends. -/
inductive Outcome where
  /-- The next statement follows. -/
  | proceed
  /-- The function returns. -/
  | returned (value : Value)
  deriving Inhabited

/-- A text as a sink takes it. -/
def encoded (sink : Sink) (text : Text) : Run String :=
  match text.encode with
  | .ok line => pure line
  | .error reason => throw (.unwritable sink reason)

/-- Writes a line to the output. -/
def printLine (text : Text) : Run Unit := do
  let line ← encoded .output text
  modify fun w => w.print line

/-- Tells the trace of an event.  The text is made only if the trace takes it. -/
def tell (level : Nat) (text : Unit → Text) : Run Unit := do
  if (← get).Takes level then
    let line ← encoded .trace (text ())
    modify fun w => w.record level line

/-- The values of expressions from left to right. -/
def evaluateEach (eval : Node → Run Value) : List Node → Run (List Value)
  | [] => pure []
  | node :: nodes => do
    let value ← eval node
    let values ← evaluateEach eval nodes
    return value :: values

/-- Executes statements up to the first that returns. -/
def executeEach (exec : Node → Run Outcome) : List Node → Run Outcome
  | [] => pure .proceed
  | node :: nodes => do
    match ← exec node with
    | .returned value => return .returned value
    | .proceed => executeEach exec nodes

/-- An operator as an event tells it.  Nothing but text is one, whatever stands in its place. -/
def operatorText : Json → Text
  | .string operator => operator
  | _ => ""

/-- What the trace is told of an operator. -/
def operatorLine (operator : Json) (a b result : Value) : Text :=
  a.display ++ " " ++ operatorText operator ++ " " ++ b.display ++ " -> " ++ result.display

/-- The value of an operator, with an event for it. -/
def applyOperator (operator : Json) (a b : Value) : Run Value :=
  match Value.operate operator a b with
  | .error fault => throw fault
  | .ok result => do
    tell 3 fun _ => operatorLine operator a b result
    return result

/-- How a callee reads when it turns out to be no function. -/
def Node.calleeText : Node → Text
  | .identifier name => name
  | .literal value => value.toValue.display
  | node => node.kind

/-- Values as they are listed in an event. -/
def displayAll (separator : Text) (values : List Value) : Text :=
  separator.intercalate (values.map Value.display)

/-- The truth of a condition as an event tells it. -/
def truthName (b : Bool) : String := if b then "True" else "False"

/-- Takes a note of a call. -/
def takeNote (name : Text) (scope : ScopeId) (args : List Value) : Run Unit :=
  modify fun w => { w with notes := w.notes.push ⟨name, args, scope, (w.scopeAt scope).names⟩ }

mutual
/-- The value of an expression in a scope. -/
def evaluate : Nat → Node → ScopeId → Run Value
  | 0, _, _ => throw .stackExhausted
  | bound + 1, node, scope =>
    match node with
    | .literal value => pure value.toValue
    | .identifier name => do return ((← get).scopeAt scope).lookup name
    | .binary operator left right => do
      let a ← evaluate bound left scope
      let b ← evaluate bound right scope
      applyOperator operator a b
    | .call callee arguments => do
      let f ← evaluate bound callee scope
      let args ← evaluateEach (fun argument => evaluate bound argument scope) arguments
      if f.isFunction then call bound f scope args else throw (.notCallable callee.calleeText)
    | node => throw (.unsupportedNode .expression node.kind)
/-- Executes a statement in a scope. -/
def execute : Nat → Node → ScopeId → Run Outcome
  | 0, _, _ => throw .stackExhausted
  | bound + 1, node, scope =>
    match node with
    | .absent => pure .proceed
    | .expression body => do
      let value ← evaluate bound body scope
      modify fun w => { w with latest := value }
      return .proceed
    | .conditional test consequent alternate => do
      let value ← evaluate bound test scope
      tell 3 fun _ => "if condition " ++ value.display ++ " -> " ++ truthName value.isTruthy
      if value.isTruthy then execute bound consequent scope else execute bound alternate scope
    | .returning argument => do
      let value ←
        match argument with
        | .absent => pure .undefined
        | argument => evaluate bound argument scope
      tell 3 fun _ => "return " ++ value.display
      return .returned value
    | .block body => executeBlock bound body scope
    | .function name params body => do
      let f ← modifyGet fun w => w.addClosure name params body scope
      modify fun w => w.bind scope name (.closure f)
      tell 2 fun _ => "define function " ++ name ++ "(" ++ Text.intercalate ", " params ++ ")"
      return .proceed
    | node => throw (.unsupportedNode .statement node.kind)
/-- Executes the statements of a block in a scope. -/
def executeBlock : Nat → List Node → ScopeId → Run Outcome
  | 0, _, _ => throw .stackExhausted
  | bound + 1, nodes, scope => executeEach (fun node => execute bound node scope) nodes
/-- Calls a function from a scope. -/
def call : Nat → Value → ScopeId → List Value → Run Value
  | 0, _, _, _ => throw .stackExhausted
  | bound + 1, f, scope, args =>
    match f with
    | .builtin f => do
      tell 2 fun _ => "call builtin " ++ f.name ++ " with " ++ toString args.length ++ " arguments"
      match f.action with
      | .print => do
        printLine (displayAll " " args)
        return .undefined
      | .note => do
        takeNote f.name scope args
        return (← get).replyOf f.identity
      | .apply => call bound (args.headD .undefined) scope args.tail
      | .getName =>
        match args with
        | .string name :: _ => return ((← get).scopeAt scope).lookup name
        | _ => return .undefined
      | .setName =>
        match args with
        | .string name :: values => do
          modify fun w => w.bind scope name (values.headD .undefined)
          return .undefined
        | _ => return .undefined
      | .idle => return .undefined
    | .closure f => do
      tell 2 fun _ => "call " ++ f.name ++ "(" ++ displayAll ", " args ++ ")"
      let inner ← modifyGet fun w => w.addScope ((w.scopeAt f.scope).bindParams f.params args)
      match ← executeBlock bound f.body inner with
      | .returned value => return value
      | .proceed => return .undefined
    | f => throw (.notCallable f.display)
end

/-- Whether a statement gives a program its value. -/
def Node.isExpression : Node → Bool
  | .expression _ => true
  | _ => false

/-- Executes the statements of a program, which a return does not stop.  The result is the value
of the last of them that is an expression statement. -/
def executeProgram (bound : Nat) (scope : ScopeId) (result : Value) : List Node → Run Value
  | [] => pure result
  | node :: nodes => do
    let _ ← execute bound node scope
    let latest := (← get).latest
    executeProgram bound scope (if node.isExpression then latest else result) nodes

/-- Closes the trace, whatever happened. -/
def closingTrace (action : Run Value) : Run Value := fun w =>
  match action w with
  | .ok value w => .ok value { w with tracing := false }
  | .error fault w => .error fault { w with tracing := false }

/-- Runs a program in a scope.  The trace is open during the run. -/
def run (bound : Nat) (body : List Node) (scope : ScopeId) : Run Value :=
  closingTrace do
    modify fun w => { w with latest := .undefined, tracing := decide (0 < w.verbosity) }
    tell 1 fun _ => "run program with " ++ toString body.length ++ " statements"
    let result ← executeProgram bound scope .undefined body
    tell 1 fun _ => "program finished -> " ++ result.display
    return result

/-- The bound on nesting that programs run under. -/
def defaultBound : Nat := 5000

end Scriptlet
