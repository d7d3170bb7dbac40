import Scriptlet.Node

/-!
# Values

There are five kinds of values, and functions are of two sorts.  A closure is a function that the
program declared, with the scope that it was declared in; a builtin is one that the host supplied.
Functions have an identity: two of them are equal only if they are one and the same.
-/

namespace Scriptlet

/-- The place of a scope in the world. -/
abbrev ScopeId := Nat

/-- A function that a program declared. -/
structure Closure where
  identity : Nat
  name : Text
  params : List Text
  body : List Node
  scope : ScopeId

/-- What a builtin does with its arguments and with the scope that it is called from. -/
inductive Action where
  /-- Writes a line to the output. -/
  | print
  /-- Takes a note of the call and answers with the reply that the world holds for it. -/
  | note
  /-- Calls its first argument with the others. -/
  | apply
  /-- Reads the name that its first argument is. -/
  | getName
  /-- Binds the name that its first argument is to its second. -/
  | setName
  | idle
  deriving DecidableEq, Repr

/-- A function that the host supplied. -/
structure Builtin where
  identity : Nat
  name : Text
  action : Action
  deriving DecidableEq, Repr

/-- A value. -/
inductive Value where
  | undefined
  | boolean (b : Bool)
  | number (x : Float)
  | string (s : Text)
  | closure (f : Closure)
  | builtin (f : Builtin)
  deriving Inhabited

/-- The value that a literal denotes. -/
def Literal.toValue : Literal → Value
  | .undefined => .undefined
  | .boolean b => .boolean b
  | .number x => .number x
  | .string s => .string s

namespace Value

/-- A function's name and identity. -/
def asFunction? : Value → Option (Text × Nat)
  | .closure f => some (f.name, f.identity)
  | .builtin f => some (f.name, f.identity)
  | _ => none

/-- Whether a value can be called. -/
def isFunction (v : Value) : Bool := v.asFunction?.isSome

end Value
end Scriptlet
