import Scriptlet.Json.Diagnostic

/-!
# Why a run stops

A fault ends the whole run.  Nothing in the language catches one.
-/

namespace Scriptlet

/-- What a node was wanted for where it was found. -/
inductive Role where
  | statement
  | expression
  deriving DecidableEq, Repr

/-- The name of a role in messages. -/
def Role.text : Role → String
  | .statement => "statement"
  | .expression => "expression"

/-- Where a run writes to. -/
inductive Sink where
  | output
  | trace
  deriving DecidableEq, Repr

/-- Why a run stops. -/
inductive Fault where
  /-- A node of this kind cannot play the role. -/
  | unsupportedNode (role : Role) (kind : Text)
  | unsupportedOperator (operator : Json.Shown)
  /-- An operator that is none holds an integer with too many digits for the message about it. -/
  | tooManyDigits
  /-- What was called, as the program or its value reads, is no function. -/
  | notCallable (description : Text)
  /-- A string denotes an integer beyond the largest double. -/
  | integerTooLarge
  /-- A line holds a surrogate, and what is written is written in UTF-8. -/
  | unwritable (sink : Sink) (reason : Text.Unencodable)
  /-- Nodes and calls are nested beyond the bound. -/
  | stackExhausted

/-- The fault of an operator that the language does not have. -/
def Fault.ofOperator (operator : Json) : Fault :=
  if h : operator.isShowable = true then .unsupportedOperator ⟨operator, h⟩ else .tooManyDigits

/-- The wording of a fault. -/
def Fault.message : Fault → Text
  | .unsupportedNode role kind => "Unknown " ++ role.text ++ " type " ++ kind
  | .unsupportedOperator operator => "Unknown binary operator " ++ operator.spoken
  | .tooManyDigits => Json.tooManyDigits
  | .notCallable description => description ++ " is not a function"
  | .integerTooLarge => "int too large to convert to float"
  | .unwritable _ reason => reason.message
  | .stackExhausted => "maximum call stack size exceeded"

end Scriptlet
