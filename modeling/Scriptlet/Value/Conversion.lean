import Scriptlet.Number.OfText
import Scriptlet.Number.Text
import Scriptlet.Value

/-!
# Conversions and operators

Values convert to text, to numbers and to truth, and the three operators are defined by these
conversions for every pair of values.  Only the conversion of a text to a number can fail.
-/

namespace Scriptlet
namespace Value

/-- The name of a value's kind. -/
def typeName : Value → String
  | .undefined => "undefined"
  | .boolean _ => "boolean"
  | .number _ => "number"
  | .string _ => "string"
  | .closure _ => "function"
  | .builtin _ => "function"

/-- A truth value's text. -/
def truthText (b : Bool) : String := if b then "true" else "false"

/-- The text that a value converts to. -/
def toText : Value → Text
  | .undefined => "undefined"
  | .boolean b => truthText b
  | .number x => String.ofList (Number.text x)
  | .string s => s
  | .closure f => "function " ++ f.name ++ "() \x7b [code] \x7d"
  | .builtin f => "function " ++ f.name ++ "() \x7b [code] \x7d"

/-- The text that a value is printed as: functions show less of themselves. -/
def display : Value → Text
  | .closure f => "[Function: " ++ f.name ++ "]"
  | .builtin f => "[Function: " ++ f.name ++ "]"
  | v => v.toText

/-- How a value is shown to a programmer of the host. -/
def inspect : Value → Text
  | .closure f => "<function " ++ f.name ++ ">"
  | .builtin f => "<builtin " ++ f.name ++ ">"
  | v => v.toText

/-- Whether a value counts as true. -/
def isTruthy : Value → Bool
  | .undefined => false
  | .boolean b => b
  | .number x => !(x == Binary64.nearest 0 1 || x.isNaN)
  | .string s => !s.isEmpty
  | .closure _ => true
  | .builtin _ => true

/-- The number that a value other than a string converts to. -/
def plainNumber : Value → Float
  | .boolean b => if b then Binary64.nearest 1 1 else Binary64.nearest 0 1
  | .number x => x
  | _ => Binary64.nan

/-- The number that a value converts to. -/
def toNumber : Value → Except Fault Float
  | .string s => Number.ofText s
  | v => .ok v.plainNumber

/-- Equality of two values of one kind: functions are the same if they are one and the same. -/
def sameKindEquals : Value → Value → Bool
  | .undefined, .undefined => true
  | .boolean a, .boolean b => a == b
  | .number x, .number y => x == y
  | .string s, .string t => s == t
  | a, b => a.asFunction?.map Prod.snd == b.asFunction?.map Prod.snd

/-- How often a value is converted before it is compared with any other. -/
def conversions : Value → Nat
  | .boolean _ | .closure _ | .builtin _ => 1
  | _ => 0

/-- The operator `==`.  Values of one kind are compared as they are.  Of two kinds, truth values
are compared by their number, undefined equals nothing, a string is compared with a number by its
number, and functions are compared by their text. -/
def looseEquals (a b : Value) : Except Fault Bool :=
  if a.typeName = b.typeName then .ok (a.sameKindEquals b)
  else
    match a, b with
    | .boolean p, b => looseEquals (.number (plainNumber (.boolean p))) b
    | a, .boolean q => looseEquals a (.number (plainNumber (.boolean q)))
    | .undefined, _ => .ok false
    | _, .undefined => .ok false
    | .number x, .string t => (Number.ofText t).map fun y => x == y
    | .string s, .number y => (Number.ofText s).map fun x => x == y
    | .closure f, b => looseEquals (.string (toText (.closure f))) b
    | .builtin f, b => looseEquals (.string (toText (.builtin f))) b
    | a, .closure f => looseEquals a (.string (toText (.closure f)))
    | a, .builtin f => looseEquals a (.string (toText (.builtin f)))
    | _, _ => .ok false
termination_by a.conversions + b.conversions
decreasing_by all_goals simp only [conversions]; omega

/-- What `+` takes for a value: a function is its text. -/
def addend (v : Value) : Value := if v.isFunction then .string v.toText else v

/-- The operator `+`: texts are joined if either side is one, and numbers are added otherwise. -/
def add (a b : Value) : Value :=
  match a.addend, b.addend with
  | .string s, b => .string (s ++ b.toText)
  | a, .string t => .string (a.toText ++ t)
  | a, b => .number (a.plainNumber + b.plainNumber)

/-- The operator `-`. -/
def subtract (a b : Value) : Except Fault Value := do
  let x ← a.toNumber
  let y ← b.toNumber
  return .number (x - y)

/-- The value of an operator, if the language has it. -/
def operate (operator : Json) (a b : Value) : Except Fault Value :=
  match operator with
  | .string (.plain "==") => (looseEquals a b).map .boolean
  | .string (.plain "+") => .ok (add a b)
  | .string (.plain "-") => subtract a b
  | operator => .error (.ofOperator operator)

end Value
end Scriptlet
