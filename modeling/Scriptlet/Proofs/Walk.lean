import Scriptlet.Evaluation

/-!
# One step of a walk

What the four functions that walk a tree do with one node, as an equation for each kind of node.
Everything that is shown of them by induction on the bound starts from these, and nothing else
unfolds them.
-/

namespace Scriptlet

variable (bound : Nat) (scope : ScopeId)

/-! ## Expressions -/

theorem evaluate_literal (value : Literal) :
    evaluate (bound + 1) (.literal value) scope = pure value.toValue := by rw [evaluate]

theorem evaluate_identifier (name : Text) :
    evaluate (bound + 1) (.identifier name) scope =
      (get >>= fun w => pure ((w.scopeAt scope).lookup name)) := by rw [evaluate]

theorem evaluate_binary (operator : Json) (left right : Node) :
    evaluate (bound + 1) (.binary operator left right) scope =
      (evaluate bound left scope >>= fun a =>
        evaluate bound right scope >>= fun b => applyOperator operator a b) := by rw [evaluate]

theorem evaluate_call (callee : Node) (arguments : List Node) :
    evaluate (bound + 1) (.call callee arguments) scope =
      (evaluate bound callee scope >>= fun f =>
        evaluateEach (fun argument => evaluate bound argument scope) arguments >>= fun args =>
          if f.isFunction then call bound f scope args
          else throw (.notCallable callee.calleeText)) := by rw [evaluate]

/-- The kinds of node that have a value. -/
def Node.hasValue : Node → Bool
  | .literal _ => true
  | .identifier _ => true
  | .binary .. => true
  | .call .. => true
  | _ => false

theorem evaluate_unsupported {node : Node} (h : node.hasValue = false) :
    evaluate (bound + 1) node scope = throw (.unsupportedNode .expression node.kind) := by
  cases node with
  | literal | identifier | binary | call => cases h
  | _ => simp only [evaluate]

/-! ## Statements -/

theorem execute_absent : execute (bound + 1) .absent scope = pure .proceed := by rw [execute]

theorem execute_expression (body : Node) :
    execute (bound + 1) (.expression body) scope =
      (evaluate bound body scope >>= fun value =>
        modify (fun w => { w with latest := value }) >>= fun _ => pure .proceed) := by rw [execute]

theorem execute_conditional (test consequent alternate : Node) :
    execute (bound + 1) (.conditional test consequent alternate) scope =
      (evaluate bound test scope >>= fun value =>
        tell 3 (fun _ => "if condition " ++ value.display ++ " -> " ++ truthName value.isTruthy)
          >>= fun _ =>
          if value.isTruthy then execute bound consequent scope
          else execute bound alternate scope) := by rw [execute]

theorem execute_returning_absent :
    execute (bound + 1) (.returning .absent) scope =
      (tell 3 (fun _ => "return " ++ Value.undefined.display) >>= fun _ =>
        pure (.returned .undefined)) := by
  rw [execute]
  rfl

theorem execute_returning {argument : Node} (h : argument ≠ .absent) :
    execute (bound + 1) (.returning argument) scope =
      (evaluate bound argument scope >>= fun value =>
        tell 3 (fun _ => "return " ++ value.display) >>= fun _ => pure (.returned value)) := by
  rw [execute]
  exact h

theorem execute_block (body : List Node) :
    execute (bound + 1) (.block body) scope = executeBlock bound body scope := by rw [execute]

theorem execute_function (name : Text) (params : List Text) (body : List Node) :
    execute (bound + 1) (.function name params body) scope =
      (modifyGet (fun w => w.addClosure name params body scope) >>= fun f =>
        modify (fun w => w.bind scope name (.closure f)) >>= fun _ =>
          tell 2 (fun _ => "define function " ++ name ++ "(" ++ Text.intercalate ", " params ++ ")")
            >>= fun _ => pure .proceed) := by rw [execute]

/-- The kinds of node that can be executed. -/
def Node.hasEffect : Node → Bool
  | .absent => true
  | .expression _ => true
  | .conditional .. => true
  | .returning _ => true
  | .block _ => true
  | .function .. => true
  | _ => false

theorem execute_unsupported {node : Node} (h : node.hasEffect = false) :
    execute (bound + 1) node scope = throw (.unsupportedNode .statement node.kind) := by
  cases node with
  | absent | expression | conditional | returning | block | function => cases h
  | _ => simp only [execute]

theorem executeBlock_succ (nodes : List Node) :
    executeBlock (bound + 1) nodes scope =
      executeEach (fun node => execute bound node scope) nodes := by rw [executeBlock]

/-! ## Calls -/

theorem call_builtin (f : Builtin) (args : List Value) :
    call (bound + 1) (.builtin f) scope args =
      (tell 2 (fun _ =>
        "call builtin " ++ f.name ++ " with " ++ toString args.length ++ " arguments") >>= fun _ =>
        match f.action with
        | .print =>
          printLine (displayAll " " args) >>= fun _ => pure .undefined
        | .note =>
          takeNote f.name scope args >>= fun _ => get >>= fun w => pure (w.replyOf f.identity)
        | .apply => call bound (args.headD .undefined) scope args.tail
        | .getName =>
          match args with
          | .string name :: _ => get >>= fun w => pure ((w.scopeAt scope).lookup name)
          | _ => pure .undefined
        | .setName =>
          match args with
          | .string name :: values =>
            modify (fun w => w.bind scope name (values.headD .undefined)) >>= fun _ =>
              pure .undefined
          | _ => pure .undefined
        | .idle => pure .undefined) := by
  refine (call.eq_def ..).trans ?_
  rfl

/-- What a call gives for the way its body ended. -/
def Outcome.toValue : Outcome → Value
  | .proceed => .undefined
  | .returned value => value

theorem call_closure (f : Closure) (args : List Value) :
    call (bound + 1) (.closure f) scope args =
      (tell 2 (fun _ => "call " ++ f.name ++ "(" ++ displayAll ", " args ++ ")") >>= fun _ =>
        modifyGet (fun w => w.addScope ((w.scopeAt f.scope).bindParams f.params args))
          >>= fun inner =>
          executeBlock bound f.body inner >>= fun outcome => pure outcome.toValue) := by
  rw [call]
  congr 1
  funext _
  congr 1
  funext inner
  congr 1
  funext outcome
  cases outcome <;> rfl

theorem call_of_not_isFunction {f : Value} (h : f.isFunction = false) (args : List Value) :
    call (bound + 1) f scope args = throw (.notCallable f.display) := by
  cases f with
  | closure | builtin => cases h
  | _ => simp only [call]

/-! ## Programs -/

/-- An expression statement of a program gives it its value, whatever expression statements are
executed on the way to it. -/
theorem executeProgram_expression (result : Value) (body : Node) (nodes : List Node) :
    executeProgram (bound + 1) scope result (.expression body :: nodes) =
      (evaluate bound body scope >>= fun value =>
        modify (fun w => { w with latest := value }) >>= fun _ =>
          executeProgram (bound + 1) scope value nodes) := by
  rw [executeProgram, execute_expression]
  funext w
  simp only [Bind.bind, EStateM.bind]
  cases evaluate bound body scope w <;> rfl

theorem executeProgram_of_not_isExpression {node : Node} (h : node.isExpression = false)
    (result : Value) (nodes : List Node) :
    executeProgram bound scope result (node :: nodes) =
      (execute bound node scope >>= fun _ => executeProgram bound scope result nodes) := by
  rw [executeProgram, h]
  rfl

/-- What a run does between opening the trace and closing it. -/
def runBody (bound : Nat) (body : List Node) (scope : ScopeId) : Run Value := do
  tell 1 fun _ => "run program with " ++ toString body.length ++ " statements"
  let result ← executeProgram bound scope .undefined body
  tell 1 fun _ => "program finished -> " ++ result.display
  return result

/-- The world in which a run begins. -/
def World.opened (w : World) : World :=
  { w with latest := .undefined, tracing := decide (0 < w.verbosity) }

theorem run_eq (body : List Node) (w : World) :
    run bound body scope w = closingTrace (runBody bound body scope) w.opened := rfl

/-! ## The empty bound -/

theorem evaluate_zero (node : Node) : evaluate 0 node scope = throw .stackExhausted := by
  rw [evaluate]

theorem execute_zero (node : Node) : execute 0 node scope = throw .stackExhausted := by
  rw [execute]

theorem executeBlock_zero (nodes : List Node) :
    executeBlock 0 nodes scope = throw .stackExhausted := by rw [executeBlock]

theorem executeProgram_zero (result : Value) (node : Node) (nodes : List Node) :
    executeProgram 0 scope result (node :: nodes) = throw .stackExhausted := by
  rw [executeProgram, execute_zero]
  rfl

theorem call_zero (f : Value) (args : List Value) :
    call 0 f scope args = throw .stackExhausted := by rw [call]

end Scriptlet
