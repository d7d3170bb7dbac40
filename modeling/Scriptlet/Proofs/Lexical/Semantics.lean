import Scriptlet.Evaluation

/-!
# Lexical scoping, as it is defined

The textbook account of scopes, written down as a second set of walks over the tree, for the first
to be compared with.  It differs from `Scriptlet.evaluate` and its companions in two places only.

* A call does not copy anything.  It opens a frame that holds its parameters, with a link to the
  scope that the function was declared in, and declarations add to that frame.
* A name is looked up when it is read: in the frame itself, or else along the links, and if no
  frame binds it then it is undefined.  So a later binding further out is seen by every function
  that was declared inside.

There is no builtin but `print` here.
-/

namespace Scriptlet

/-- The world of lexical scoping.  A scope of it holds what was bound in that scope itself, and
beside each stands the one around it. -/
structure Lexical where
  world : World
  parents : Array (Option ScopeId)

/-- A computation on such a world. -/
abbrev Lexical.Run := EStateM Fault Lexical

namespace Lexical

/-- The world before any run: one scope, with `print` bound and nothing around it. -/
def fresh (verbosity : Nat) : Lexical := ⟨World.fresh verbosity, #[none]⟩

/-- The scope around a scope. -/
def parent? (l : Lexical) (id : ScopeId) : Option ScopeId := l.parents.getD id none

/-- The value of a name at a scope: what the scope itself binds it to, or else its value at the
scope around it.  Scopes are only ever opened inside of earlier ones, so the links lead back. -/
def get? (l : Lexical) (id : ScopeId) (name : Text) : Option Value :=
  match (l.world.scopeAt id).get? name with
  | some value => some value
  | none =>
    match l.parent? id with
    | some parent => if parent < id then l.get? parent name else none
    | none => none
termination_by id

/-- The value of a name; a name that no scope binds is undefined. -/
def lookup (l : Lexical) (id : ScopeId) (name : Text) : Value := (l.get? id name).getD .undefined

/-- Opens a scope inside of another. -/
def addFrame (l : Lexical) (own : Scope) (parent : ScopeId) : ScopeId × Lexical :=
  ((l.world.addScope own).1, ⟨(l.world.addScope own).2, l.parents.push (some parent)⟩)

/-- A computation that has no business with the links. -/
def onWorld {α : Type} (m : Scriptlet.Run α) : Run α := fun l =>
  match m l.world with
  | .ok a w => .ok a { l with world := w }
  | .error fault w => .error fault { l with world := w }

/-- The values of expressions from left to right. -/
def evaluateEach (eval : Node → Run Value) : List Node → Run (List Value)
  | [] => pure []
  | node :: nodes => do
    let value ← eval node
    let values ← evaluateEach eval nodes
    return value :: values

/-- Executes statements up to the first that returns. -/
def executeEach (exec : Node → Run Outcome) : List Node → Run Outcome
  | [] => pure .proceed
  | node :: nodes => do
    match ← exec node with
    | .returned value => return .returned value
    | .proceed => executeEach exec nodes

mutual
/-- The value of an expression in a scope. -/
def evaluate : Nat → Node → ScopeId → Run Value
  | 0, _, _ => throw .stackExhausted
  | bound + 1, node, scope =>
    match node with
    | .literal value => pure value.toValue
    | .identifier name => do return (← get).lookup scope name
    | .binary operator left right => do
      let a ← evaluate bound left scope
      let b ← evaluate bound right scope
      onWorld (applyOperator operator a b)
    | .call callee arguments => do
      let f ← evaluate bound callee scope
      let args ← evaluateEach (fun argument => evaluate bound argument scope) arguments
      if f.isFunction then call bound f args else throw (.notCallable callee.calleeText)
    | node => throw (.unsupportedNode .expression node.kind)
/-- Executes a statement in a scope. -/
def execute : Nat → Node → ScopeId → Run Outcome
  | 0, _, _ => throw .stackExhausted
  | bound + 1, node, scope =>
    match node with
    | .absent => pure .proceed
    | .expression body => do
      let value ← evaluate bound body scope
      onWorld (modify fun w => { w with latest := value })
      return .proceed
    | .conditional test consequent alternate => do
      let value ← evaluate bound test scope
      onWorld (tell 3 fun _ =>
        "if condition " ++ value.display ++ " -> " ++ truthName value.isTruthy)
      if value.isTruthy then execute bound consequent scope else execute bound alternate scope
    | .returning argument => do
      let value ←
        match argument with
        | .absent => pure .undefined
        | argument => evaluate bound argument scope
      onWorld (tell 3 fun _ => "return " ++ value.display)
      return .returned value
    | .block body => executeBlock bound body scope
    | .function name params body => do
      let f ← onWorld (modifyGet fun w => w.addClosure name params body scope)
      onWorld (modify fun w => w.bind scope name (.closure f))
      onWorld (tell 2 fun _ =>
        "define function " ++ name ++ "(" ++ Text.intercalate ", " params ++ ")")
      return .proceed
    | node => throw (.unsupportedNode .statement node.kind)
/-- Executes the statements of a block in a scope. -/
def executeBlock : Nat → List Node → ScopeId → Run Outcome
  | 0, _, _ => throw .stackExhausted
  | bound + 1, nodes, scope => executeEach (fun node => execute bound node scope) nodes
/-- Calls a function. -/
def call : Nat → Value → List Value → Run Value
  | 0, _, _ => throw .stackExhausted
  | bound + 1, f, args =>
    match f with
    | .builtin f => do
      onWorld (tell 2 fun _ =>
        "call builtin " ++ f.name ++ " with " ++ toString args.length ++ " arguments")
      onWorld (printLine (displayAll " " args))
      return .undefined
    | .closure f => do
      onWorld (tell 2 fun _ => "call " ++ f.name ++ "(" ++ displayAll ", " args ++ ")")
      let inner ← modifyGet fun l => l.addFrame (Scope.empty.bindParams f.params args) f.scope
      match ← executeBlock bound f.body inner with
      | .returned value => return value
      | .proceed => return .undefined
    | f => throw (.notCallable f.display)
end

/-- Executes the statements of a program.  The result is the value of the last of them that is an
expression statement. -/
def executeProgram (bound : Nat) (scope : ScopeId) (result : Value) : List Node → Run Value
  | [] => pure result
  | node :: nodes => do
    let _ ← execute bound node scope
    let latest := (← get).world.latest
    executeProgram bound scope (if node.isExpression then latest else result) nodes

/-- Closes the trace, whatever happened. -/
def closingTrace (action : Run Value) : Run Value := fun l =>
  match action l with
  | .ok value l => .ok value { l with world := { l.world with tracing := false } }
  | .error fault l => .error fault { l with world := { l.world with tracing := false } }

/-- Runs a program in a scope. -/
def run (bound : Nat) (body : List Node) (scope : ScopeId) : Run Value :=
  closingTrace do
    onWorld (modify fun w => { w with latest := .undefined, tracing := decide (0 < w.verbosity) })
    onWorld (tell 1 fun _ => "run program with " ++ toString body.length ++ " statements")
    let result ← executeProgram bound scope .undefined body
    onWorld (tell 1 fun _ => "program finished -> " ++ result.display)
    return result

end Lexical

end Scriptlet
