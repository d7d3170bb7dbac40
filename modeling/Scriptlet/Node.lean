import Scriptlet.Json

/-!
# Program trees

A program is a tree of nodes.  Some nodes are expressions and some are statements, but a tree that
was loaded from a document may hold any node at any place, or none at all, so there is one type
for all of them and it is evaluation that tells the sorts apart.

Nodes outside the language are kept: loops and variables, which program text may contain, and
`foreign` nodes, which documents may contain.  They are refused when evaluation reaches them.
-/

namespace Scriptlet

/-- A value that is written down in a program. -/
inductive Literal where
  | undefined
  | boolean (b : Bool)
  | number (x : Float)
  | string (s : Text)
  deriving DecidableEq, Inhabited

/-- A program tree.  `absent` stands where a document has no node. -/
inductive Node where
  | absent
  | program (body : List Node)
  | literal (value : Literal)
  | identifier (name : Text)
  /-- The operator is text in every program that text spells, but a document may hold any data
  there. -/
  | binary (operator : Json) (left right : Node)
  | call (callee : Node) (arguments : List Node)
  | expression (body : Node)
  | conditional (test consequent alternate : Node)
  | returning (argument : Node)
  | block (body : List Node)
  | function (name : Text) (params : List Text) (body : List Node)
  | whileLoop (test body : Node)
  | declaration (name : Text) (initial : Node)
  | foreign (kind : Text) (fields : List (Text × Json))
  deriving Inhabited

/-- The name of a node's kind in documents and messages. -/
def Node.kind : Node → Text
  | .absent => "NoneType"
  | .program _ => "Program"
  | .literal _ => "Literal"
  | .identifier _ => "Identifier"
  | .binary .. => "BinaryExpression"
  | .call .. => "CallExpression"
  | .expression _ => "ExpressionStatement"
  | .conditional .. => "IfStatement"
  | .returning _ => "ReturnStatement"
  | .block _ => "BlockStatement"
  | .function .. => "FunctionDeclaration"
  | .whileLoop .. => "WhileStatement"
  | .declaration .. => "VariableDeclaration"
  | .foreign kind _ => kind

end Scriptlet
