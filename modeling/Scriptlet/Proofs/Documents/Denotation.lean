import Scriptlet.Node.Decode
import Scriptlet.Proofs.Computation

/-!
# The trees that documents denote

The loader asks an object for one member after another and stops at the first thing that is
wrong.  What it accepts does not depend on that order: a document denotes a tree if the members
that the kind of its object asks for denote the parts of the tree, and the loader gives exactly
the trees that documents denote.

* `Node.kinds`: the kinds that the loader looks into.
* `Json.Denotes`, `Json.DenoteEach`: what a document denotes, one case for each kind.
* `Node.ofJson_eq_ok_iff`: **the loader gives a tree exactly if the document denotes it**.
-/

namespace Scriptlet

open Json (field?)

/-- The kinds whose objects the loader looks into. -/
def Node.kinds : List Text :=
  ["Program", "Literal", "Identifier", "BinaryExpression", "CallExpression",
    "ExpressionStatement", "IfStatement", "ReturnStatement", "BlockStatement",
    "FunctionDeclaration"]

/-! ## Denotation -/

mutual
/-- A document denotes a tree. -/
inductive Json.Denotes : Json → Node → Prop
  | absent : Denotes .null .absent
  | program {members : List (Text × Json)} {items : List Json} {body : List Node}
      (hkind : field? "type" members = some (.string "Program"))
      (hbody : field? "body" members = some (.array items))
      (each : DenoteEach items body) :
      Denotes (.object members) (.program body)
  | literal {members : List (Text × Json)} {value : Literal}
      (hkind : field? "type" members = some (.string "Literal"))
      (hvalue : Literal.ofJson ((field? "value" members).getD .null) = .ok value) :
      Denotes (.object members) (.literal value)
  | identifier {members : List (Text × Json)} {name : Text}
      (hkind : field? "type" members = some (.string "Identifier"))
      (hname : field? "name" members = some (.string name)) :
      Denotes (.object members) (.identifier name)
  | binary {members : List (Text × Json)} {operator l r : Json} {left right : Node}
      (hkind : field? "type" members = some (.string "BinaryExpression"))
      (hoperator : field? "operator" members = some operator)
      (hleft : field? "left" members = some l) (hright : field? "right" members = some r)
      (first : Denotes l left) (second : Denotes r right) :
      Denotes (.object members) (.binary operator left right)
  | call {members : List (Text × Json)} {c : Json} {items : List Json} {callee : Node}
      {arguments : List Node}
      (hkind : field? "type" members = some (.string "CallExpression"))
      (hcallee : field? "callee" members = some c)
      (harguments : field? "arguments" members = some (.array items))
      (called : Denotes c callee) (each : DenoteEach items arguments) :
      Denotes (.object members) (.call callee arguments)
  | expression {members : List (Text × Json)} {e : Json} {body : Node}
      (hkind : field? "type" members = some (.string "ExpressionStatement"))
      (hbody : field? "expression" members = some e) (inner : Denotes e body) :
      Denotes (.object members) (.expression body)
  /-- The other branch may be missing. -/
  | conditional {members : List (Text × Json)} {t c : Json} {test consequent alternate : Node}
      (hkind : field? "type" members = some (.string "IfStatement"))
      (htest : field? "test" members = some t)
      (hconsequent : field? "consequent" members = some c)
      (tested : Denotes t test) (one : Denotes c consequent)
      (other : Denotes ((field? "alternate" members).getD .null) alternate) :
      Denotes (.object members) (.conditional test consequent alternate)
  | returning {members : List (Text × Json)} {argument : Node}
      (hkind : field? "type" members = some (.string "ReturnStatement"))
      (inner : Denotes ((field? "argument" members).getD .null) argument) :
      Denotes (.object members) (.returning argument)
  | block {members : List (Text × Json)} {items : List Json} {body : List Node}
      (hkind : field? "type" members = some (.string "BlockStatement"))
      (hbody : field? "body" members = some (.array items)) (each : DenoteEach items body) :
      Denotes (.object members) (.block body)
  | function {members : List (Text × Json)} {i p b : Json} {name : Text}
      {params : List Text} {body : List Node}
      (hkind : field? "type" members = some (.string "FunctionDeclaration"))
      (hid : field? "id" members = some i) (hparams : field? "params" members = some p)
      (hbody : field? "body" members = some b)
      (hname : Node.identifierName i = .ok name) (hnames : Node.parameterNames p = .ok params)
      (inner : Denotes b (.block body)) :
      Denotes (.object members) (.function name params body)
  /-- Nothing is asked of the members of an unknown kind. -/
  | foreign {members : List (Text × Json)} {kind : Text}
      (hkind : field? "type" members = some (.string kind)) (hforeign : kind ∉ Node.kinds) :
      Denotes (.object members) (.foreign kind (members.filter fun (key, _) => key != "type"))
/-- Documents denote trees, one by one. -/
inductive Json.DenoteEach : List Json → List Node → Prop
  | nil : DenoteEach [] []
  | cons {j : Json} {n : Node} {items : List Json} {nodes : List Node}
      (head : Json.Denotes j n) (tail : DenoteEach items nodes) :
      DenoteEach (j :: items) (n :: nodes)
end

/-! ## Steps of the loader -/

namespace Node

variable {kind key : String} {members : List (Text × Json)}

theorem member?_eq_some_iff {m : Member members} :
    member? key members = some m ↔ field? key members = some m.1 := by
  unfold member?
  split
  · rename_i j hfield
    constructor
    · intro h
      rw [← Option.some.inj h]
      exact hfield
    · intro h
      exact congrArg some (Subtype.ext (Option.some.inj (hfield.symm.trans h)))
  · rename_i hfield
    exact ⟨fun h => (nomatch h), fun h => nomatch hfield.symm.trans h⟩

theorem member?_eq_none_iff : member? key members = none ↔ field? key members = none := by
  unfold member?
  split
  · rename_i j hfield
    exact ⟨fun h => (nomatch h), fun h => nomatch hfield.symm.trans h⟩
  · rename_i hfield
    exact ⟨fun _ => hfield, fun _ => rfl⟩

theorem required_eq_ok_iff {m : Member members} :
    required kind key members = .ok m ↔ field? key members = some m.1 := by
  rw [← member?_eq_some_iff]
  unfold required
  split
  · rename_i m' hmember
    rw [hmember]
    constructor
    · intro h
      exact congrArg some (Except.ok.inj h)
    · intro h
      exact congrArg Except.ok (Option.some.inj h)
  · rename_i hmember
    rw [hmember]
    exact ⟨fun h => (nomatch h), fun h => nomatch h⟩

theorem member?_eq_some (key : String) {members : List (Text × Json)} {j : Json}
    (h : field? key members = some j) :
    member? key members = some ⟨j, Json.sizeOf_lt_of_field? h⟩ :=
  member?_eq_some_iff.2 h

theorem required_eq_ok (kind key : String) {members : List (Text × Json)} {j : Json}
    (h : field? key members = some j) :
    required kind key members = .ok ⟨j, Json.sizeOf_lt_of_field? h⟩ :=
  required_eq_ok_iff.2 h

theorem identifierName_eq_ok_iff {j : Json} {name : Text} :
    identifierName j = .ok name ↔ ∃ members, j = .object members ∧
      field? "type" members = some (.string "Identifier") ∧
        field? "name" members = some (.string name) := by
  constructor
  · intro h
    unfold identifierName at h
    split at h
    · rename_i members
      split at h
      · rename_i hkind hname
        cases h
        exact ⟨members, rfl, hkind, hname⟩
      · exact nomatch h
    · exact nomatch h
  · rintro ⟨members, rfl, hkind, hname⟩
    simp only [identifierName, hkind, hname]

end Node

/-! ## Denoted trees are loaded -/

theorem Node.ofJson_null : Node.ofJson .null = .ok .absent := by
  unfold Node.ofJson
  rfl

theorem Node.ofJsonArray_array (items : List Json) :
    Node.ofJsonArray (.array items) = Node.ofJsonList items := by
  unfold Node.ofJsonArray
  rfl

/-- An unknown kind is kept as it is. -/
theorem Node.ofJson_foreign {members : List (Text × Json)} {kind : Text}
    (hkind : field? "type" members = some (.string kind)) (hforeign : kind ∉ Node.kinds) :
    Node.ofJson (.object members) =
      .ok (.foreign kind (members.filter fun (key, _) => key != "type")) := by
  unfold Node.ofJson
  simp only [hkind]
  split
  case h_11 => rfl
  all_goals exact absurd (by decide) hforeign

mutual
theorem Json.Denotes.ofJson_eq {j : Json} {n : Node} : j.Denotes n → Node.ofJson j = .ok n
  | .absent => Node.ofJson_null
  | .program hkind hbody each => by
    have hitems := each.ofJsonList_eq
    unfold Node.ofJson
    simp only [hkind, Node.required_eq_ok _ _ hbody, ok_bind, Node.ofJsonArray_array, hitems]
    rfl
  | .literal hkind hvalue => by
    unfold Node.ofJson
    simp only [hkind, hvalue, ok_map]
  | .identifier hkind hname => by
    have hidentifier := Node.identifierName_eq_ok_iff.2 ⟨_, rfl, hkind, hname⟩
    unfold Node.ofJson
    simp only [hkind, hidentifier, ok_map]
  | .binary hkind hoperator hleft hright first second => by
    have hfirst := first.ofJson_eq
    have hsecond := second.ofJson_eq
    unfold Node.ofJson
    simp only [hkind, Node.required_eq_ok _ _ hoperator, Node.required_eq_ok _ _ hleft,
      Node.required_eq_ok _ _ hright, ok_bind, hfirst, hsecond]
    rfl
  | .call hkind hcallee harguments called each => by
    have hcalled := called.ofJson_eq
    have hitems := each.ofJsonList_eq
    unfold Node.ofJson
    simp only [hkind, Node.required_eq_ok _ _ hcallee, Node.required_eq_ok _ _ harguments,
      ok_bind, Node.ofJsonArray_array, hcalled, hitems]
    rfl
  | .expression hkind hbody inner => by
    have hinner := inner.ofJson_eq
    unfold Node.ofJson
    simp only [hkind, Node.required_eq_ok _ _ hbody, ok_bind, hinner]
    rfl
  | .conditional hkind htest hconsequent tested one other => by
    rename_i members _ _ _ _ _
    have htested := tested.ofJson_eq
    have hone := one.ofJson_eq
    have hother := other.ofJson_eq
    unfold Node.ofJson
    simp only [hkind, Node.required_eq_ok _ _ htest, Node.required_eq_ok _ _ hconsequent,
      ok_bind, htested, hone]
    cases halternate : field? "alternate" members with
    | none =>
      rw [halternate, Option.getD_none, Node.ofJson_null] at hother
      rw [Node.member?_eq_none_iff.2 halternate, ← Except.ok.inj hother]
      rfl
    | some a =>
      rw [halternate, Option.getD_some] at hother
      rw [Node.member?_eq_some _ halternate]
      dsimp only
      rw [hother]
      rfl
  | .returning hkind inner => by
    rename_i members _
    have hinner := inner.ofJson_eq
    unfold Node.ofJson
    simp only [hkind]
    cases hargument : field? "argument" members with
    | none =>
      rw [hargument, Option.getD_none, Node.ofJson_null] at hinner
      rw [Node.member?_eq_none_iff.2 hargument, ← Except.ok.inj hinner]
    | some a =>
      rw [hargument, Option.getD_some] at hinner
      rw [Node.member?_eq_some _ hargument]
      dsimp only
      rw [hinner, ok_map]
  | .block hkind hbody each => by
    have hitems := each.ofJsonList_eq
    unfold Node.ofJson
    simp only [hkind, Node.required_eq_ok _ _ hbody, ok_bind, Node.ofJsonArray_array, hitems]
    rfl
  | .function hkind hid hparams hbody hname hnames inner => by
    have hinner := inner.ofJson_eq
    unfold Node.ofJson
    simp only [hkind, Node.required_eq_ok _ _ hid, Node.required_eq_ok _ _ hparams,
      Node.required_eq_ok _ _ hbody, ok_bind, hname, hnames, hinner]
    rfl
  | .foreign hkind hforeign => Node.ofJson_foreign hkind hforeign
theorem Json.DenoteEach.ofJsonList_eq {items : List Json} {nodes : List Node} :
    Json.DenoteEach items nodes → Node.ofJsonList items = .ok nodes
  | .nil => by
    unfold Node.ofJsonList
    rfl
  | .cons head tail => by
    have hhead := head.ofJson_eq
    have htail := tail.ofJsonList_eq
    unfold Node.ofJsonList
    rw [hhead, ok_bind, htail]
    rfl
end

/-! ## Loaded trees are denoted -/

theorem Node.ofJsonArray_eq_ok_iff {j : Json} {nodes : List Node} :
    Node.ofJsonArray j = .ok nodes ↔ ∃ items, j = .array items ∧
      Node.ofJsonList items = .ok nodes := by
  constructor
  · intro h
    unfold Node.ofJsonArray at h
    split at h
    · exact ⟨_, rfl, h⟩
    · cases h
  · rintro ⟨items, rfl, h⟩
    rw [Node.ofJsonArray_array, h]

section Objects

open Node

variable {members : List (Text × Json)} {kind : Text} {n : Node}

theorem Node.exists_kind_of_ofJson (h : Node.ofJson (.object members) = .ok n) :
    ∃ kind, field? "type" members = some (.string kind) := by
  unfold Node.ofJson at h
  dsimp only at h
  split at h
  · rename_i kind hkind
    exact ⟨kind, hkind⟩
  · cases h

/-- What is loaded from an object is denoted, if this holds of all that is smaller. -/
theorem Node.denotes_of_ofJson_object
    (tree : ∀ {j n}, sizeOf j < sizeOf members → Node.ofJson j = .ok n → Json.Denotes j n)
    (trees : ∀ {items nodes}, sizeOf (Json.array items) < sizeOf members →
      Node.ofJsonList items = .ok nodes → Json.DenoteEach items nodes)
    (hkind : field? "type" members = some (.string kind))
    (h : Node.ofJson (.object members) = .ok n) : Json.Denotes (.object members) n := by
  unfold Node.ofJson at h
  simp only [hkind] at h
  -- One case for each kind, in the order in which the loader asks for them.
  split at h
  · simp only [bind_eq_ok_iff, required_eq_ok_iff, Subtype.exists, ofJsonArray_eq_ok_iff] at h
    obtain ⟨_, hlt, hbody, body, ⟨items, rfl, hitems⟩, hn⟩ := h
    cases hn
    exact .program hkind hbody (trees hlt hitems)
  · obtain ⟨value, hvalue, rfl⟩ := map_eq_ok_iff.1 h
    exact .literal hkind hvalue
  · obtain ⟨name, hname, rfl⟩ := map_eq_ok_iff.1 h
    obtain ⟨_, hmembers, _, hname⟩ := identifierName_eq_ok_iff.1 hname
    cases hmembers
    exact .identifier hkind hname
  · simp only [bind_eq_ok_iff, required_eq_ok_iff, Subtype.exists] at h
    obtain ⟨operator, _, hoperator, l, hl, hleft, left, hfirst, r, hr, hright, right, hsecond,
      hn⟩ := h
    cases hn
    exact .binary hkind hoperator hleft hright (tree hl hfirst) (tree hr hsecond)
  · simp only [bind_eq_ok_iff, required_eq_ok_iff, Subtype.exists, ofJsonArray_eq_ok_iff] at h
    obtain ⟨c, hc, hcallee, callee, hcalled, _, hlt, harguments, arguments,
      ⟨items, rfl, hitems⟩, hn⟩ := h
    cases hn
    exact .call hkind hcallee harguments (tree hc hcalled) (trees hlt hitems)
  · simp only [bind_eq_ok_iff, required_eq_ok_iff, Subtype.exists] at h
    obtain ⟨e, hlt, hbody, body, hinner, hn⟩ := h
    cases hn
    exact .expression hkind hbody (tree hlt hinner)
  · simp only [bind_eq_ok_iff, required_eq_ok_iff, Subtype.exists] at h
    obtain ⟨t, ht, htest, test, htested, c, hc, hconsequent, consequent, hone, h⟩ := h
    split at h
    · rename_i a ha halternate
      obtain ⟨alternate, hother, hn⟩ := bind_eq_ok_iff.1 h
      cases hn
      refine .conditional hkind htest hconsequent (tree ht htested) (tree hc hone) ?_
      rw [member?_eq_some_iff.1 halternate]
      exact tree ha hother
    · rename_i halternate
      cases h
      refine .conditional hkind htest hconsequent (tree ht htested) (tree hc hone) ?_
      rw [member?_eq_none_iff.1 halternate]
      exact .absent
  · split at h
    · rename_i a ha hargument
      obtain ⟨argument, hinner, rfl⟩ := map_eq_ok_iff.1 h
      refine .returning hkind ?_
      rw [member?_eq_some_iff.1 hargument]
      exact tree ha hinner
    · rename_i hargument
      cases h
      refine .returning hkind ?_
      rw [member?_eq_none_iff.1 hargument]
      exact .absent
  · simp only [bind_eq_ok_iff, required_eq_ok_iff, Subtype.exists, ofJsonArray_eq_ok_iff] at h
    obtain ⟨_, hlt, hbody, body, ⟨items, rfl, hitems⟩, hn⟩ := h
    cases hn
    exact .block hkind hbody (trees hlt hitems)
  · simp only [bind_eq_ok_iff, required_eq_ok_iff, Subtype.exists] at h
    obtain ⟨p, _, hparams, params, hnames, b, hlt, hbody, body, hinner, h⟩ := h
    split at h
    · simp only [bind_eq_ok_iff, required_eq_ok_iff, Subtype.exists] at h
      obtain ⟨i, _, hid, name, hname, hn⟩ := h
      cases hn
      exact .function hkind hid hparams hbody hname hnames (tree hlt hinner)
    · exact nomatch h
  · cases h
    refine .foreign hkind fun hknown => ?_
    simp only [kinds, List.mem_cons, List.not_mem_nil, or_false] at hknown
    grind

end Objects

mutual
theorem Node.denotes_of_ofJson : ∀ {j : Json} {n : Node}, Node.ofJson j = .ok n → j.Denotes n
  | .null, n, h => by
    cases Node.ofJson_null.symm.trans h
    exact .absent
  | .object members, n, h => by
    obtain ⟨kind, hkind⟩ := Node.exists_kind_of_ofJson h
    exact Node.denotes_of_ofJson_object (fun _ => denotes_of_ofJson)
      (fun _ => denoteEach_of_ofJsonList) hkind h
  | .bool _, _, h | .integer _, _, h | .real _, _, h | .string _, _, h | .array _, _, h => by
    unfold Node.ofJson at h
    exact nomatch h
termination_by j => sizeOf j
decreasing_by
  all_goals
    simp only [Json.object.sizeOf_spec, Json.array.sizeOf_spec] at *
    omega
theorem Node.denoteEach_of_ofJsonList : ∀ {items : List Json} {nodes : List Node},
    Node.ofJsonList items = .ok nodes → Json.DenoteEach items nodes
  | [], _, h => by
    unfold Node.ofJsonList at h
    cases h
    exact .nil
  | item :: items, _, h => by
    unfold Node.ofJsonList at h
    simp only [bind_eq_ok_iff] at h
    obtain ⟨node, hhead, nodes, htail, hn⟩ := h
    cases hn
    exact .cons (denotes_of_ofJson hhead) (denoteEach_of_ofJsonList htail)
termination_by items => sizeOf items
end

/-- **The loader gives a tree exactly if the document denotes it**. -/
theorem Node.ofJson_eq_ok_iff {j : Json} {n : Node} : Node.ofJson j = .ok n ↔ j.Denotes n :=
  ⟨Node.denotes_of_ofJson, Json.Denotes.ofJson_eq⟩

end Scriptlet
