import Scriptlet.Binary64
import Scriptlet.Json.Diagnostic
import Scriptlet.Node

/-!
# Documents as trees

A document is a tree if its objects have the members that their kinds ask for.  Members that no
kind asks for are passed over.  An object of an unknown kind is kept as it is, and nothing inside
it is looked at.

* `LoadError` names what is wrong with a document.
* `Node.ofJson` loads a tree.  It recurses into members, and `Member` carries the proof that a
  member is smaller than its object.
-/

namespace Scriptlet

/-- What is wrong with a document that is no tree. -/
inductive LoadError where
  | missingField (kind key : String)
  | notIdentifier (found : Json.Shown)
  | notNodeList (found : Json.Shown)
  | notObject
  | unsupportedLiteral (found : Json.Shown)
  | bodyNotBlock
  /-- The parameters are something that has no items. -/
  | notIterable (found : Json)
  /-- A literal is an integer beyond the largest double. -/
  | integerTooLarge
  /-- What should be shown holds an integer with too many digits. -/
  | tooManyDigits

/-- The error that shows a document, or the one that takes its place if that cannot be shown. -/
def LoadError.showing (error : Json.Shown → LoadError) (found : Json) : LoadError :=
  if h : found.isShowable = true then error ⟨found, h⟩ else .tooManyDigits

/-- The name of a document's type in messages. -/
def Json.typeName : Json → String
  | .null => "NoneType"
  | .bool _ => "bool"
  | .integer _ => "int"
  | .real _ => "float"
  | .string _ => "str"
  | .array _ => "list"
  | .object _ => "dict"

/-- The wording of an error. -/
def LoadError.message : LoadError → String
  | .missingField kind key => kind ++ " node is missing '" ++ key ++ "'"
  | .notIdentifier found => "Expected an Identifier, got " ++ found.diagnostic
  | .notNodeList found => "Expected a list of nodes, got " ++ found.diagnostic
  | .notObject => "Invalid AST object"
  | .unsupportedLiteral found => "Unsupported literal value: " ++ found.diagnostic
  | .bodyNotBlock => "FunctionDeclaration body must be a BlockStatement"
  | .notIterable found => "'" ++ found.typeName ++ "' object is not iterable"
  | .integerTooLarge => "int too large to convert to float"
  | .tooManyDigits => Json.tooManyDigits

/-- The literal that a document denotes. -/
def Literal.ofJson : Json → Except LoadError Literal
  | .null => .ok .undefined
  | .bool b => .ok (.boolean b)
  | .integer n =>
    match Binary64.ofInt? n with
    | some x => .ok (.number x)
    | none => .error .integerTooLarge
  | .real x => .ok (.number x)
  | .string s => .ok (.string s)
  | found => .error (.showing .unsupportedLiteral found)

namespace Node

/-- The name that an identifier's object holds. -/
def identifierName (found : Json) : Except LoadError Text :=
  match found with
  | .object members =>
    match Json.field? "type" members, Json.field? "name" members with
    | some (.string (.plain "Identifier")), some (.string name) => .ok name
    | _, _ => .error (.showing .notIdentifier found)
  | found => .error (.showing .notIdentifier found)

/-- The names of parameters.  Text has its code points as items and an object its keys, none of
which is an identifier's object. -/
def parameterNames : Json → Except LoadError (List Text)
  | .array items => items.mapM identifierName
  | .string s => s.symbols.mapM fun u => identifierName (.string (.ofSymbols [u]))
  | .object members => members.mapM fun (key, _) => identifierName (.string key)
  | found => .error (.notIterable found)

/-- A document that is smaller than the object with the given members. -/
abbrev Member (members : List (Text × Json)) := { j : Json // sizeOf j < sizeOf members }

/-- The member with a key, if there is one. -/
def member? (key : Text) (members : List (Text × Json)) : Option (Member members) :=
  match h : Json.field? key members with
  | some j => some ⟨j, Json.sizeOf_lt_of_field? h⟩
  | none => none

/-- A member that the kind asks for. -/
def required (kind key : String) (members : List (Text × Json)) :
    Except LoadError (Member members) :=
  match member? key members with
  | some m => .ok m
  | none => .error (.missingField kind key)

mutual
/-- The tree that a document denotes. -/
def ofJson (found : Json) : Except LoadError Node :=
  match found with
  | .null => .ok .absent
  | .object members =>
    match Json.field? "type" members with
    | some (.string kind) =>
      match kind with
      | .plain "Program" => do
        let ⟨body, _⟩ ← required "Program" "body" members
        return .program (← ofJsonArray body)
      | .plain "Literal" =>
        (Literal.ofJson ((Json.field? "value" members).getD .null)).map .literal
      | .plain "Identifier" => (identifierName found).map .identifier
      | .plain "BinaryExpression" => do
        let ⟨operator, _⟩ ← required "BinaryExpression" "operator" members
        let ⟨left, _⟩ ← required "BinaryExpression" "left" members
        let left ← ofJson left
        let ⟨right, _⟩ ← required "BinaryExpression" "right" members
        return .binary operator left (← ofJson right)
      | .plain "CallExpression" => do
        let ⟨callee, _⟩ ← required "CallExpression" "callee" members
        let callee ← ofJson callee
        let ⟨arguments, _⟩ ← required "CallExpression" "arguments" members
        return .call callee (← ofJsonArray arguments)
      | .plain "ExpressionStatement" => do
        let ⟨body, _⟩ ← required "ExpressionStatement" "expression" members
        return .expression (← ofJson body)
      | .plain "IfStatement" => do
        let ⟨test, _⟩ ← required "IfStatement" "test" members
        let test ← ofJson test
        let ⟨consequent, _⟩ ← required "IfStatement" "consequent" members
        let consequent ← ofJson consequent
        match member? "alternate" members with
        | some ⟨alternate, _⟩ => return .conditional test consequent (← ofJson alternate)
        | none => return .conditional test consequent .absent
      | .plain "ReturnStatement" =>
        match member? "argument" members with
        | some ⟨argument, _⟩ => (ofJson argument).map .returning
        | none => .ok (.returning .absent)
      | .plain "BlockStatement" => do
        let ⟨body, _⟩ ← required "BlockStatement" "body" members
        return .block (← ofJsonArray body)
      | .plain "FunctionDeclaration" => do
        let ⟨params, _⟩ ← required "FunctionDeclaration" "params" members
        let params ← parameterNames params
        let ⟨body, _⟩ ← required "FunctionDeclaration" "body" members
        match ← ofJson body with
        | .block body =>
          let ⟨name, _⟩ ← required "FunctionDeclaration" "id" members
          return .function (← identifierName name) params body
        | _ => .error .bodyNotBlock
      | kind => .ok (.foreign kind (members.filter fun (key, _) => key != "type"))
    | _ => .error .notObject
  | _ => .error .notObject
termination_by sizeOf found
decreasing_by all_goals simp only [Json.object.sizeOf_spec]; omega
/-- The trees that an array's items denote. -/
def ofJsonArray (found : Json) : Except LoadError (List Node) :=
  match found with
  | .array items => ofJsonList items
  | found => .error (.showing .notNodeList found)
termination_by sizeOf found
decreasing_by simp only [Json.array.sizeOf_spec]; omega
/-- The trees that documents denote, one by one. -/
def ofJsonList (items : List Json) : Except LoadError (List Node) :=
  match items with
  | [] => .ok []
  | item :: items => do
    let node ← ofJson item
    return node :: (← ofJsonList items)
termination_by sizeOf items
decreasing_by all_goals simp only [List.cons.sizeOf_spec]; omega
end

end Node
end Scriptlet
