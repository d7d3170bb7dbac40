import Scriptlet.Binary64
import Scriptlet.Node

/-!
# Trees as documents

Every node becomes an object whose first member is the kind of the node.  A number that is an
integer is written as one, in full; so negative zero loses its sign.
-/

namespace Scriptlet

/-- A literal's value as a document. -/
def Literal.toJson : Literal → Json
  | .undefined => .null
  | .boolean b => .bool b
  | .number x =>
    match Binary64.toInt? x with
    | some n => .integer n
    | none => .real x
  | .string s => .string s

namespace Node

/-- An identifier's object, which names functions and parameters too. -/
def identifierObject (name : Text) : Json :=
  .object [("type", .string "Identifier"), ("name", .string name)]

mutual
/-- A tree as a document. -/
def toJson : Node → Json
  | .absent => .null
  | .program body =>
    .object [("type", .string "Program"), ("sourceType", .string "script"),
      ("body", .array (toJsonList body))]
  | .literal value => .object [("type", .string "Literal"), ("value", value.toJson)]
  | .identifier name => identifierObject name
  | .binary operator left right =>
    .object [("type", .string "BinaryExpression"), ("operator", operator),
      ("left", toJson left), ("right", toJson right)]
  | .call callee arguments =>
    .object [("type", .string "CallExpression"), ("callee", toJson callee),
      ("arguments", .array (toJsonList arguments))]
  | .expression body =>
    .object [("type", .string "ExpressionStatement"), ("expression", toJson body)]
  | .conditional test consequent alternate =>
    .object [("type", .string "IfStatement"), ("test", toJson test),
      ("consequent", toJson consequent), ("alternate", toJson alternate)]
  | .returning argument =>
    .object [("type", .string "ReturnStatement"), ("argument", toJson argument)]
  | .block body => .object [("type", .string "BlockStatement"), ("body", .array (toJsonList body))]
  | .function name params body =>
    .object [("type", .string "FunctionDeclaration"), ("id", identifierObject name),
      ("params", .array (params.map identifierObject)),
      ("body", .object [("type", .string "BlockStatement"), ("body", .array (toJsonList body))])]
  | .whileLoop test body =>
    .object [("type", .string "WhileStatement"), ("test", toJson test), ("body", toJson body)]
  | .declaration name initial =>
    .object [("type", .string "VariableDeclaration"), ("name", .string name),
      ("init", toJson initial)]
  | .foreign kind fields => .object (("type", .string kind) :: fields)
/-- Trees as documents, one by one. -/
def toJsonList : List Node → List Json
  | [] => []
  | node :: nodes => toJson node :: toJsonList nodes
end

theorem toJsonList_eq_map (nodes : List Node) : toJsonList nodes = nodes.map toJson := by
  induction nodes with
  | nil => rfl
  | cons node nodes ih => simp only [toJsonList, ih, List.map_cons]

end Node
end Scriptlet
