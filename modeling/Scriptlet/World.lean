import Scriptlet.Fault
import Scriptlet.Scope

/-!
# What a run works on

Programs that run one after another share a world: the scopes, which closures refer to by their
place, the output, and the trace.  Scopes are only ever added, so a place stays good for ever.

The output and the trace are written in UTF-8, so their lines are strings: a text with a surrogate
is written to neither, and to try it is a fault.

A run that stops with a fault leaves the world as it was at that moment, which is why the monad
`Run` keeps its state beside the fault.
-/

namespace Scriptlet

/-- A line of the trace.  Lines of level 1 tell of programs, of level 2 of declarations and
calls, of level 3 of conditions, returns and operators. -/
structure Event where
  level : Nat
  text : String
  deriving DecidableEq, Repr

/-- A note that a builtin took of a call of it. -/
structure Note where
  name : Text
  arguments : List Value
  /-- The scope of the call, and the names that were bound there. -/
  scope : ScopeId
  names : List Text

/-- Everything that outlasts a run. -/
structure World where
  scopes : Array Scope
  /-- The identity that the next function gets. -/
  nextIdentity : Nat
  /-- The value of the expression statement that was executed last. -/
  latest : Value
  /-- The lines that were printed. -/
  output : Array String
  /-- The highest level of events that the trace takes. -/
  verbosity : Nat
  /-- Whether the trace takes any events at the moment. -/
  tracing : Bool
  trace : Array Event
  notes : Array Note
  /-- What builtins that take notes answer with, by their identity. -/
  replies : List (Nat × Value)

/-- A computation on a world. -/
abbrev Run := EStateM Fault World

namespace World

/-- The place of the scope that programs run in unless another is given. -/
def globalScope : ScopeId := 0

/-- The world before any run: one scope, with `print` bound.  The trace is open from the start if
it takes anything. -/
def fresh (verbosity : Nat) : World where
  scopes := #[Scope.empty.bind "print" (.builtin ⟨0, "print", .print⟩)]
  nextIdentity := 1
  latest := .undefined
  output := #[]
  verbosity := verbosity
  tracing := decide (0 < verbosity)
  trace := #[]
  notes := #[]
  replies := []

/-- The scope at a place; where there is none it is empty. -/
def scopeAt (w : World) (id : ScopeId) : Scope := w.scopes.getD id Scope.empty

/-- Adds a scope, and gives its place. -/
def addScope (w : World) (s : Scope) : ScopeId × World :=
  (w.scopes.size, { w with scopes := w.scopes.push s })

/-- Changes the scope at a place. -/
def modifyScope (w : World) (id : ScopeId) (f : Scope → Scope) : World :=
  { w with scopes := w.scopes.modify id f }

/-- Binds a name in a scope. -/
def bind (w : World) (id : ScopeId) (name : Text) (value : Value) : World :=
  w.modifyScope id fun s => s.bind name value

/-- Adds a copy of a scope. -/
def copyScope (w : World) (id : ScopeId) : ScopeId × World := w.addScope (w.scopeAt id)

/-- Binds every name of one scope in another. -/
def mergeScope (w : World) (id other : ScopeId) : World :=
  w.modifyScope id fun s => s.merge (w.scopeAt other)

/-- Hands out an identity. -/
def issueIdentity (w : World) : Nat × World :=
  (w.nextIdentity, { w with nextIdentity := w.nextIdentity + 1 })

/-- Adds a builtin with an identity of its own. -/
def addBuiltin (w : World) (name : Text) (action : Action) : Builtin × World :=
  let (identity, w) := w.issueIdentity
  (⟨identity, name, action⟩, w)

/-- Adds a closure with an identity of its own. -/
def addClosure (w : World) (name : Text) (params : List Text) (body : List Node)
    (scope : ScopeId) : Closure × World :=
  let (identity, w) := w.issueIdentity
  (⟨identity, name, params, body, scope⟩, w)

/-- Adds a line to the output. -/
def print (w : World) (line : String) : World := { w with output := w.output.push line }

/-- Whether the trace takes events of a level. -/
def Takes (w : World) (level : Nat) : Prop := w.tracing = true ∧ level ≤ w.verbosity

instance (w : World) (level : Nat) : Decidable (w.Takes level) :=
  inferInstanceAs (Decidable (_ ∧ _))

/-- Adds an event to the trace. -/
def record (w : World) (level : Nat) (line : String) : World :=
  { w with trace := w.trace.push ⟨level, line⟩ }

/-- Adds a scope with nothing but a `print` of its own. -/
def addConsole (w : World) : ScopeId × World :=
  let (print, w) := w.addBuiltin "print" .print
  w.addScope (Scope.empty.bind "print" (.builtin print))

/-- Binds a builtin that takes notes, and gives it a reply. -/
def addNoteTaker (w : World) (id : ScopeId) (name : Text) (reply : Value) : World :=
  let (f, w) := w.addBuiltin name .note
  { w with replies := (f.identity, reply) :: w.replies }.bind id name (.builtin f)

/-- What a builtin that takes notes answers with. -/
def replyOf (w : World) (identity : Nat) : Value :=
  (w.replies.lookup identity).getD .undefined

end World
end Scriptlet
