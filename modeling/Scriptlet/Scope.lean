import Scriptlet.Text.Quoted
import Scriptlet.Value

/-!
# Scopes

A scope binds names to values.  A name that is bound again keeps its place, so a scope never
holds a name twice and its names come in the order in which they were first bound.
-/

namespace Scriptlet

/-- Bindings of names to values. -/
structure Scope where
  bindings : List (Text × Value)
  deriving Inhabited

namespace Scope

/-- The scope without bindings. -/
def empty : Scope := ⟨[]⟩

/-- The value of a name among bindings. -/
def find? (name : Text) : List (Text × Value) → Option Value
  | [] => none
  | (n, v) :: bindings => if n = name then some v else find? name bindings

/-- The bindings with a name bound anew. -/
def insert (name : Text) (value : Value) : List (Text × Value) → List (Text × Value)
  | [] => [(name, value)]
  | (n, v) :: bindings =>
    if n = name then (n, value) :: bindings else (n, v) :: insert name value bindings

/-- The value that a name is bound to, if it is bound. -/
def get? (s : Scope) (name : Text) : Option Value := find? name s.bindings

/-- The value of a name; a name that is not bound is undefined. -/
def lookup (s : Scope) (name : Text) : Value := (s.get? name).getD .undefined

/-- Binds a name. -/
def bind (s : Scope) (name : Text) (value : Value) : Scope := ⟨insert name value s.bindings⟩

/-- Whether a name is bound. -/
def has (s : Scope) (name : Text) : Bool := (s.get? name).isSome

/-- Binds every name of another scope as it is bound there. -/
def merge (s other : Scope) : Scope :=
  other.bindings.foldl (fun s (name, value) => s.bind name value) s

/-- Binds parameters to arguments in order.  Parameters without an argument are undefined, and
arguments without a parameter are dropped. -/
def bindParams (s : Scope) : List Text → List Value → Scope
  | [], _ => s
  | param :: params, [] => (s.bind param .undefined).bindParams params []
  | param :: params, arg :: args => (s.bind param arg).bindParams params args

/-- The names that are bound, ordered by code points. -/
def names (s : Scope) : List Text :=
  (s.bindings.map Prod.fst).mergeSort fun m n => !n.codes.lex m.codes Nat.blt

/-- How a scope is shown to a programmer of the host: by its names. -/
def inspect (s : Scope) : String :=
  let shown := s.names.map fun name => String.ofList name.quoted
  "<Environment [" ++ ", ".intercalate shown ++ "]>"

theorem find?_insert_self (name : Text) (value : Value) (bindings : List (Text × Value)) :
    find? name (insert name value bindings) = some value := by
  induction bindings with
  | nil => simp [insert, find?]
  | cons b bindings ih =>
    obtain ⟨n, v⟩ := b
    by_cases h : n = name <;> simp [insert, find?, h, ih]

theorem find?_insert_of_ne {name other : Text} (h : name ≠ other) (value : Value)
    (bindings : List (Text × Value)) :
    find? other (insert name value bindings) = find? other bindings := by
  induction bindings with
  | nil => simp [insert, find?, h]
  | cons b bindings ih =>
    obtain ⟨n, v⟩ := b
    by_cases hn : n = name
    · subst hn
      simp [insert, find?, h]
    · simp only [insert, if_neg hn, find?, ih]

/-- A name just bound has its new value. -/
@[simp] theorem get?_bind_self (s : Scope) (name : Text) (value : Value) :
    (s.bind name value).get? name = some value :=
  find?_insert_self name value s.bindings

/-- Binding one name leaves the others as they are. -/
theorem get?_bind_of_ne (s : Scope) {name other : Text} (h : name ≠ other) (value : Value) :
    (s.bind name value).get? other = s.get? other :=
  find?_insert_of_ne h value s.bindings

end Scope
end Scriptlet
