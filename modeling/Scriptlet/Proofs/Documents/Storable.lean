import Scriptlet.Proofs.Documents.Denotation
import Scriptlet.Proofs.Grammar.Parsing

/-!
# Trees that documents can hold

Not every tree can be written into a document and found again.  A foreign node whose kind is one
of the language's would be looked into, and one with a field `type` would have two kinds.  No tree
that a program meets is of that sort.

* `Node.Storable`: the trees that documents can hold.
* `Json.Denotes.storable`: what a document denotes is storable.
* `storable_of_parse`: what a text spells is storable, because it has no foreign nodes at all.
-/

namespace Scriptlet

open Json (field?)

/-- A tree that a document can hold.  Loops and declarations become foreign nodes in a document,
and nothing inside these is looked at. -/
inductive Node.Storable : Node → Prop
  | absent : Storable .absent
  | program {body : List Node} (each : ∀ n ∈ body, Storable n) : Storable (.program body)
  | literal (value : Literal) : Storable (.literal value)
  | identifier (name : Text) : Storable (.identifier name)
  | binary (operator : Json) {left right : Node} (first : Storable left) (second : Storable right) :
      Storable (.binary operator left right)
  | call {callee : Node} {arguments : List Node} (called : Storable callee)
      (each : ∀ n ∈ arguments, Storable n) : Storable (.call callee arguments)
  | expression {body : Node} (inner : Storable body) : Storable (.expression body)
  | conditional {test consequent alternate : Node} (tested : Storable test)
      (one : Storable consequent) (other : Storable alternate) :
      Storable (.conditional test consequent alternate)
  | returning {argument : Node} (inner : Storable argument) : Storable (.returning argument)
  | block {body : List Node} (each : ∀ n ∈ body, Storable n) : Storable (.block body)
  | function (name : Text) (params : List Text) {body : List Node}
      (each : ∀ n ∈ body, Storable n) : Storable (.function name params body)
  | whileLoop (test body : Node) : Storable (.whileLoop test body)
  | declaration (name : Text) (initial : Node) : Storable (.declaration name initial)
  | foreign {kind : Text} {fields : List (Text × Json)} (hforeign : kind ∉ Node.kinds)
      (huntyped : ∀ field ∈ fields, field.1 ≠ "type") : Storable (.foreign kind fields)

theorem Node.Storable.of_block {body : List Node} (h : Node.Storable (.block body)) :
    ∀ n ∈ body, n.Storable := by
  cases h with
  | block each => exact each

/-! ## Loaded trees -/

mutual
/-- **What a document denotes can be held by a document**. -/
theorem Json.Denotes.storable {j : Json} {n : Node} : j.Denotes n → n.Storable
  | .absent => .absent
  | .program _ _ each => .program each.storable
  | .literal _ _ => .literal _
  | .identifier _ _ => .identifier _
  | .binary _ _ _ _ first second => .binary _ first.storable second.storable
  | .call _ _ _ called each => .call called.storable each.storable
  | .expression _ _ inner => .expression inner.storable
  | .conditional _ _ _ tested one other =>
    .conditional tested.storable one.storable other.storable
  | .returning _ inner => .returning inner.storable
  | .block _ _ each => .block each.storable
  | .function _ _ _ _ _ _ inner => .function _ _ inner.storable.of_block
  | .foreign _ hforeign => by
    refine .foreign hforeign fun field hfield => ?_
    have htype := (List.mem_filter.mp hfield).2
    exact bne_iff_ne.mp htype
theorem Json.DenoteEach.storable {items : List Json} {nodes : List Node} :
    Json.DenoteEach items nodes → ∀ n ∈ nodes, n.Storable
  | .nil => fun _ hn => nomatch hn
  | .cons head tail => List.forall_mem_cons.mpr ⟨head.storable, tail.storable⟩
end

/-! ## Parsed trees -/

/-- All trees in the meaning of a derivation can be held by documents. -/
def Nonterminal.AllStorable : (part : Nonterminal) → part.Meaning → Prop
  | paramList, _ => True
  | nextParam, _ => True
  | block, body => ∀ n ∈ body, n.Storable
  | operation _, right => right.2.Storable
  | argumentList, arguments => ∀ n ∈ arguments, n.Storable
  | optional part, found => ∀ x ∈ found, part.AllStorable x
  | many part, items => ∀ x ∈ items, part.AllStorable x
  | statement, n => n.Storable
  | functionDeclaration, n => n.Storable
  | ifStatement, n => n.Storable
  | elseClause, n => n.Storable
  | elseBranch, n => n.Storable
  | whileStatement, n => n.Storable
  | variableDeclaration, n => n.Storable
  | initializer, n => n.Storable
  | returnStatement, n => n.Storable
  | expressionStatement, n => n.Storable
  | operand _, n => n.Storable
  | nextArgument, n => n.Storable
  | primary, n => n.Storable

/-- A block becomes a statement, and the other statements are trees already. -/
theorem Nonterminal.storable_toStatement {kind : Nonterminal} {x : kind.Meaning}
    (h : kind.AllStorable x) : (kind.toStatement x).Storable := by
  cases kind with
  | block => exact .block h
  | functionDeclaration => exact h
  | ifStatement => exact h
  | whileStatement => exact h
  | variableDeclaration => exact h
  | returnStatement => exact h
  | expressionStatement => exact h
  | _ => exact .absent

theorem Node.storable_getD {o : Option Node} (h : ∀ n ∈ o, n.Storable) :
    (Option.getD o .absent).Storable := by
  cases o with
  | none => exact .absent
  | some n => exact h n rfl

theorem Node.storable_foldl {rights : List (List Char × Node)} {left : Node}
    (hleft : left.Storable) (h : ∀ right ∈ rights, right.2.Storable) :
    (List.foldl Node.operation left rights).Storable := by
  induction rights generalizing left with
  | nil => exact hleft
  | cons right rights ih =>
    rw [List.forall_mem_cons] at h
    exact ih (.binary _ hleft h.1) h.2

variable [CharacterNames]

/-- Derivations have no foreign nodes in their meanings. -/
theorem Derivation.allStorable : {part : Nonterminal} → (d : Derivation part) →
    part.AllStorable d.meaning
  | _, .statement _ _ d => Nonterminal.storable_toStatement d.allStorable
  | _, .functionDeclaration _ _ body => .function _ _ body.allStorable
  | _, .paramList _ _ => trivial
  | _, .nextParam _ => trivial
  | _, .ifStatement test consequent alternate =>
    .conditional test.allStorable (.block consequent.allStorable)
      (Node.storable_getD alternate.allStorable)
  | _, .elseClause branch => branch.allStorable
  | _, .elseBlock body => .block body.allStorable
  | _, .elseIf d => d.allStorable
  | _, .whileStatement _ _ => .whileLoop _ _
  | _, .variableDeclaration _ _ _ _ => .declaration _ _
  | _, .initializer value => value.allStorable
  | _, .returnStatement value => .returning (Node.storable_getD value.allStorable)
  | _, .expressionStatement body => .expression body.allStorable
  | _, .block body => body.allStorable
  | _, .operations _ first more => Node.storable_foldl first.allStorable more.allStorable
  | _, .operation _ _ right => right.allStorable
  | _, .simple d => d.allStorable
  | _, .call callee arguments =>
    .call callee.allStorable (forall_mem_getD arguments.allStorable)
  | _, .argumentList first more => List.forall_mem_cons.mpr ⟨first.allStorable, more.allStorable⟩
  | _, .nextArgument value => value.allStorable
  | _, .number _ => .literal _
  | _, .string _ => .literal _
  | _, .trueWord => .literal _
  | _, .falseWord => .literal _
  | _, .identifier _ => .identifier _
  | _, .group d => d.allStorable
  | _, .absent _ => fun _ h => nomatch h
  | _, .present _ d => fun _ h => Option.some.inj h ▸ d.allStorable
  | _, .nil _ => fun _ h => nomatch h
  | _, .cons _ first rest => List.forall_mem_cons.mpr ⟨first.allStorable, rest.allStorable⟩

/-- **What a text spells can be held by a document**. -/
theorem storable_of_parse {source : String} {body : List Node} (h : parse source = .ok body) :
    (Node.program body).Storable := by
  obtain ⟨d, -, rfl⟩ := parse_eq_ok_iff_writes.mp h
  exact .program d.allStorable

end Scriptlet
