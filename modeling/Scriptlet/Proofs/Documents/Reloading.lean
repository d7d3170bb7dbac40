import Scriptlet.Node.Encode
import Scriptlet.Proofs.Binary64.Integers
import Scriptlet.Proofs.Documents.Storable

/-!
# Writing a tree and loading it again

A tree that a text spells or a document denotes can be written into a document, the document is
accepted, and the tree that comes back is the same, except that a loop and a declaration come
back as foreign nodes with the documents of their parts as fields, and that a zero may lose its
sign.  What is lost is lost the first time: the tree that comes back is written as the very same
document.

* `Literal.Same`, `Node.Restored`, `Node.RestoredEach`: when a tree is another one, come back.
* `Literal.reloads`: literals come back.
* `Node.Storable.reloads`: so do all storable trees, one case for each sort of node.
* `Node.Obtained`, `Node.ofJson_toJson`: so do all trees that there are.
-/

namespace Scriptlet

open Json (field?)

/-! ## Trees that came back -/

/-- Equality of literals, numbers being compared as numbers. -/
def Literal.Same : Literal → Literal → Prop
  | .number x, .number y => Binary64.Same x y
  | value, value' => value = value'

mutual
/-- The second tree is the first one, come back from a document. -/
inductive Node.Restored : Node → Node → Prop
  | absent : Restored .absent .absent
  | program {body body' : List Node} (each : RestoredEach body body') :
      Restored (.program body) (.program body')
  | literal {value value' : Literal} (same : value.Same value') :
      Restored (.literal value) (.literal value')
  | identifier (name : Text) : Restored (.identifier name) (.identifier name)
  | binary (operator : Json) {left left' right right' : Node} (first : Restored left left')
      (second : Restored right right') :
      Restored (.binary operator left right) (.binary operator left' right')
  | call {callee callee' : Node} {arguments arguments' : List Node}
      (called : Restored callee callee') (each : RestoredEach arguments arguments') :
      Restored (.call callee arguments) (.call callee' arguments')
  | expression {body body' : Node} (inner : Restored body body') :
      Restored (.expression body) (.expression body')
  | conditional {test test' consequent consequent' alternate alternate' : Node}
      (tested : Restored test test') (one : Restored consequent consequent')
      (other : Restored alternate alternate') :
      Restored (.conditional test consequent alternate) (.conditional test' consequent' alternate')
  | returning {argument argument' : Node} (inner : Restored argument argument') :
      Restored (.returning argument) (.returning argument')
  | block {body body' : List Node} (each : RestoredEach body body') :
      Restored (.block body) (.block body')
  | function (name : Text) (params : List Text) {body body' : List Node}
      (each : RestoredEach body body') :
      Restored (.function name params body) (.function name params body')
  /-- The parts come back as documents. -/
  | whileLoop (test body : Node) :
      Restored (.whileLoop test body)
        (.foreign "WhileStatement" [("test", test.toJson), ("body", body.toJson)])
  /-- The parts come back as documents. -/
  | declaration (name : Text) (initial : Node) :
      Restored (.declaration name initial)
        (.foreign "VariableDeclaration" [("name", .string name), ("init", initial.toJson)])
  | foreign (kind : Text) (fields : List (Text × Json)) :
      Restored (.foreign kind fields) (.foreign kind fields)
/-- The trees of the second list are those of the first, come back one by one. -/
inductive Node.RestoredEach : List Node → List Node → Prop
  | nil : RestoredEach [] []
  | cons {n n' : Node} {nodes nodes' : List Node} (head : Node.Restored n n')
      (tail : RestoredEach nodes nodes') : RestoredEach (n :: nodes) (n' :: nodes')
end

/-! ## Literals and names -/

theorem Literal.toJson_of_toInt? {x : Float} {n : Int} (h : Binary64.toInt? x = some n) :
    (Literal.number x).toJson = .integer n := by
  rw [Literal.toJson, h]

theorem Literal.toJson_of_toInt?_eq_none {x : Float} (h : Binary64.toInt? x = none) :
    (Literal.number x).toJson = .real x := by
  rw [Literal.toJson, h]

theorem Literal.ofJson_of_ofInt? {n : Int} {x : Float} (h : Binary64.ofInt? n = some x) :
    Literal.ofJson (.integer n) = .ok (.number x) := by
  unfold Literal.ofJson
  dsimp only
  rw [h]

/-- **Literals come back**. -/
theorem Literal.reloads (value : Literal) :
    ∃ value', Literal.ofJson value.toJson = .ok value' ∧ value.Same value' ∧
      value'.toJson = value.toJson := by
  cases value with
  | undefined => exact ⟨.undefined, rfl, rfl, rfl⟩
  | boolean b => exact ⟨.boolean b, rfl, rfl, rfl⟩
  | string s => exact ⟨.string s, rfl, rfl, rfl⟩
  | number x =>
    cases hx : Binary64.toInt? x with
    | none =>
      rw [Literal.toJson_of_toInt?_eq_none hx]
      exact ⟨.number x, rfl, Binary64.Same.refl x, Literal.toJson_of_toInt?_eq_none hx⟩
    | some n =>
      obtain ⟨y, hy, hsame, hn⟩ := Binary64.ofInt?_of_toInt? hx
      rw [Literal.toJson_of_toInt? hx]
      exact ⟨.number y, Literal.ofJson_of_ofInt? hy, hsame, Literal.toJson_of_toInt? hn⟩

theorem Node.identifierName_identifierObject (name : Text) :
    Node.identifierName (Node.identifierObject name) = .ok name := by
  refine Node.identifierName_eq_ok_iff.mpr ⟨_, rfl, ?_, ?_⟩
  · simp only [Json.field?_cons, reduceIte]
  · simp [Json.field?_cons]

/-- Parameters come back. -/
theorem Node.parameterNames_identifierObject (params : List Text) :
    Node.parameterNames (.array (params.map Node.identifierObject)) = .ok params := by
  unfold Node.parameterNames
  induction params with
  | nil => rfl
  | cons name params ih =>
    dsimp only at ih ⊢
    rw [List.map_cons, List.mapM_cons, Node.identifierName_identifierObject, ok_bind, ih]
    rfl

/-! ## Trees -/

/-- The tree comes back. -/
def Node.Reloads (n : Node) : Prop :=
  ∃ m, n.toJson.Denotes m ∧ n.Restored m ∧ m.toJson = n.toJson

theorem Node.reloads_each {nodes : List Node} (h : ∀ n ∈ nodes, n.Reloads) :
    ∃ nodes', Json.DenoteEach (Node.toJsonList nodes) nodes' ∧ Node.RestoredEach nodes nodes' ∧
      Node.toJsonList nodes' = Node.toJsonList nodes := by
  induction nodes with
  | nil => exact ⟨[], .nil, .nil, rfl⟩
  | cons n nodes ih =>
    rw [List.forall_mem_cons] at h
    obtain ⟨m, hdenotes, hrestored, hjson⟩ := h.1
    obtain ⟨nodes', heach, hrestoredEach, hjsons⟩ := ih h.2
    refine ⟨m :: nodes', .cons hdenotes heach, .cons hrestored hrestoredEach, ?_⟩
    rw [Node.toJsonList, Node.toJsonList, hjson, hjsons]

/-- The fields of a foreign node are kept when its kind is split off. -/
theorem Node.filter_fields {kind : Text} {fields : List (Text × Json)}
    (h : ∀ field ∈ fields, field.1 ≠ "type") :
    ((Text.plain "type", Json.string kind) :: fields).filter (fun (key, _) => key != "type") =
      fields := by
  rw [List.filter_cons_of_neg (by simp)]
  exact List.filter_eq_self.mpr fun field hfield => bne_iff_ne.mpr (h field hfield)

/-- **Storable trees come back**. -/
theorem Node.Storable.reloads {n : Node} (h : n.Storable) : n.Reloads := by
  induction h with
  | absent => exact ⟨.absent, .absent, .absent, rfl⟩
  | program each ih =>
    obtain ⟨body', heach, hrestored, hjson⟩ := Node.reloads_each ih
    refine ⟨.program body', .program rfl rfl heach, .program hrestored, ?_⟩
    rw [Node.toJson, Node.toJson, hjson]
  | literal value =>
    obtain ⟨value', hvalue, hsame, hjson⟩ := value.reloads
    refine ⟨.literal value', .literal rfl hvalue, .literal hsame, ?_⟩
    rw [Node.toJson, Node.toJson, hjson]
  | identifier name => exact ⟨.identifier name, .identifier rfl rfl, .identifier name, rfl⟩
  | binary operator first second ihleft ihright =>
    obtain ⟨left', hleft, hfirst, hjson⟩ := ihleft
    obtain ⟨right', hright, hsecond, hjson'⟩ := ihright
    refine ⟨.binary operator left' right', .binary rfl rfl rfl rfl hleft hright,
      .binary operator hfirst hsecond, ?_⟩
    rw [Node.toJson, Node.toJson, hjson, hjson']
  | call called each ihcalled iheach =>
    obtain ⟨callee', hcallee, hcalled, hjson⟩ := ihcalled
    obtain ⟨arguments', heach, hrestored, hjson'⟩ := Node.reloads_each iheach
    refine ⟨.call callee' arguments', .call rfl rfl rfl hcallee heach, .call hcalled hrestored, ?_⟩
    rw [Node.toJson, Node.toJson, hjson, hjson']
  | expression inner ih =>
    obtain ⟨body', hdenotes, hrestored, hjson⟩ := ih
    refine ⟨.expression body', .expression rfl rfl hdenotes, .expression hrestored, ?_⟩
    rw [Node.toJson, Node.toJson, hjson]
  | conditional tested one other ihtest ihone ihother =>
    obtain ⟨test', htest, htested, hjson⟩ := ihtest
    obtain ⟨consequent', hconsequent, hone, hjson'⟩ := ihone
    obtain ⟨alternate', halternate, hother, hjson''⟩ := ihother
    refine ⟨.conditional test' consequent' alternate',
      .conditional rfl rfl rfl htest hconsequent halternate, .conditional htested hone hother, ?_⟩
    rw [Node.toJson, Node.toJson, hjson, hjson', hjson'']
  | returning inner ih =>
    obtain ⟨argument', hdenotes, hrestored, hjson⟩ := ih
    refine ⟨.returning argument', .returning rfl hdenotes, .returning hrestored, ?_⟩
    rw [Node.toJson, Node.toJson, hjson]
  | block each ih =>
    obtain ⟨body', heach, hrestored, hjson⟩ := Node.reloads_each ih
    refine ⟨.block body', .block rfl rfl heach, .block hrestored, ?_⟩
    rw [Node.toJson, Node.toJson, hjson]
  | function name params each ih =>
    obtain ⟨body', heach, hrestored, hjson⟩ := Node.reloads_each ih
    have hname := Node.identifierName_identifierObject name
    have hparams := Node.parameterNames_identifierObject params
    refine ⟨.function name params body',
      .function rfl rfl rfl rfl hname hparams (.block rfl rfl heach),
      .function name params hrestored, ?_⟩
    rw [Node.toJson, Node.toJson, hjson]
  | whileLoop test body =>
    exact ⟨_, .foreign rfl (by decide), .whileLoop test body, rfl⟩
  | declaration name initial =>
    exact ⟨_, .foreign rfl (by decide), .declaration name initial, rfl⟩
  | @foreign kind fields hforeign huntyped =>
    have hdenotes : (Node.foreign kind fields).toJson.Denotes _ := .foreign rfl hforeign
    rw [Node.filter_fields huntyped] at hdenotes
    exact ⟨_, hdenotes, .foreign kind fields, rfl⟩

/-! ## All trees -/

section Obtained

variable [CharacterNames]

/-- A tree that a text spells or a document denotes. -/
inductive Node.Obtained : Node → Prop
  | parsed {source : String} {body : List Node} (h : parse source = .ok body) :
      Obtained (.program body)
  | loaded {document : Json} {n : Node} (h : Node.ofJson document = .ok n) : Obtained n

theorem Node.Obtained.storable {n : Node} : n.Obtained → n.Storable
  | .parsed h => storable_of_parse h
  | .loaded h => (Node.ofJson_eq_ok_iff.mp h).storable

/-- **Every tree comes back from its document**, and it is written as the same document again. -/
theorem Node.ofJson_toJson {n : Node} (h : n.Obtained) :
    ∃ m, Node.ofJson n.toJson = .ok m ∧ n.Restored m ∧ m.toJson = n.toJson := by
  obtain ⟨m, hdenotes, hrestored, hjson⟩ := h.storable.reloads
  exact ⟨m, Node.ofJson_eq_ok_iff.mpr hdenotes, hrestored, hjson⟩

end Obtained

theorem Node.ofJson_toJson_negativeZero :
    @Node.Obtained .empty (.returning (.literal (.number (-0.0)))) ∧
      ∃ m, Node.ofJson (Node.returning (.literal (.number (-0.0)))).toJson = .ok m ∧
        (Node.returning (.literal (.number (-0.0)))).Restored m ∧
          m.toJson = (Node.returning (.literal (.number (-0.0)))).toJson := by
  have hliteral : (Json.object [("value", .real (-0.0)), ("type", .string "Literal")]).Denotes
      (.literal (.number (-0.0))) := .literal rfl rfl
  have hreturn : (Json.object [("type", .string "ReturnStatement"), ("argument",
      .object [("value", .real (-0.0)), ("type", .string "Literal")])]).Denotes
        (.returning (.literal (.number (-0.0)))) := .returning rfl hliteral
  have hobtained := @Node.Obtained.loaded .empty _ _ (Node.ofJson_eq_ok_iff.mpr hreturn)
  exact ⟨hobtained, @Node.ofJson_toJson .empty _ hobtained⟩

end Scriptlet
