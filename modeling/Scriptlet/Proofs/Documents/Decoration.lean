import Mathlib.Data.List.Perm.Basic
import Scriptlet.Proofs.Documents.Denotation
import Scriptlet.Proofs.Simulation.Looks

/-!
# Decorated documents

Other parsers put more into a tree than the loader reads: raw text, ranges, flags.  The loader asks
an object for the members of its kind and for nothing else, so what else the object holds and in
which order it holds it makes no difference.

* `Node.roleOf` says which members the loader reads of which kind, and what it expects there.
* `Json.Decorated` relates a document to those that have more in the objects of known kinds, at any
  depth, and the members of these in any order.  Objects of unknown kinds are kept as they are, so
  nothing can be added to them; at most their members may be reordered.
* `Json.ReadsAlike` is what is left of that for one object: the members that are read.
* `Json.Denotes.decorated`: a decorated document denotes the same tree, up to the order of the
  members of unknown objects.
* `ofJson_decorated` says it of the loader, and of runs.
-/

namespace Scriptlet

open Json (field?)

/-! ## Members that the loader reads -/

/-- What the loader makes of a member. -/
inductive MemberRole where
  /-- It is read as it stands. -/
  | data
  | tree
  /-- An array, of which every item is read as a tree. -/
  | trees
  deriving DecidableEq

/-- The members that the loader reads of an object of a known kind. -/
def Node.roleOf : Text → Text → Option MemberRole
  | _, "type" => some .data
  | "Program", "body" => some .trees
  | "Literal", "value" => some .data
  | "Identifier", "name" => some .data
  | "BinaryExpression", "operator" => some .data
  | "BinaryExpression", "left" => some .tree
  | "BinaryExpression", "right" => some .tree
  | "CallExpression", "callee" => some .tree
  | "CallExpression", "arguments" => some .trees
  | "ExpressionStatement", "expression" => some .tree
  | "IfStatement", "test" => some .tree
  | "IfStatement", "consequent" => some .tree
  | "IfStatement", "alternate" => some .tree
  | "ReturnStatement", "argument" => some .tree
  | "BlockStatement", "body" => some .trees
  | "FunctionDeclaration", "id" => some .tree
  | "FunctionDeclaration", "params" => some .trees
  | "FunctionDeclaration", "body" => some .tree
  | _, _ => none

theorem Node.roleOf_type (kind : Text) : Node.roleOf kind "type" = some .data := by
  unfold Node.roleOf
  split <;> simp_all

/-! ## Decorations -/

mutual
/-- The second document is the first with more members in objects of known kinds, and these members
in any order.  If `reorders` holds, members of unknown objects may be in any order as well. -/
inductive Json.Decorated (reorders : Prop) : Json → Json → Prop
  | same (j : Json) : Decorated reorders j j
  | object {kind : Text} {members between extra members' : List (Text × Json)}
      (hkind : field? "type" members = some (.string kind)) (hknown : kind ∈ Node.kinds)
      (inside : MembersDecorated reorders kind members between)
      (hextra : ∀ member ∈ extra, Node.roleOf kind member.1 = none)
      (hperm : members'.Perm (between ++ extra)) (hkeys : (members'.map Prod.fst).Nodup) :
      Decorated reorders (.object members) (.object members')
  | unknown {kind : Text} {members members' : List (Text × Json)} (hreorders : reorders)
      (hkind : field? "type" members = some (.string kind)) (hunknown : kind ∉ Node.kinds)
      (hperm : members'.Perm members) (hkeys : (members'.map Prod.fst).Nodup) :
      Decorated reorders (.object members) (.object members')
/-- The members of an object of a known kind, with the trees among them decorated. -/
inductive Json.MembersDecorated (reorders : Prop) :
    Text → List (Text × Json) → List (Text × Json) → Prop
  | nil (kind : Text) : MembersDecorated reorders kind [] []
  | kept {kind : Text} {members members' : List (Text × Json)} (member : Text × Json)
      (rest : MembersDecorated reorders kind members members') :
      MembersDecorated reorders kind (member :: members) (member :: members')
  | tree {kind key : Text} {j j' : Json} {members members' : List (Text × Json)}
      (hrole : Node.roleOf kind key = some .tree) (inside : Decorated reorders j j')
      (rest : MembersDecorated reorders kind members members') :
      MembersDecorated reorders kind ((key, j) :: members) ((key, j') :: members')
  | trees {kind key : Text} {items items' : List Json} {members members' : List (Text × Json)}
      (hrole : Node.roleOf kind key = some .trees) (each : EachDecorated reorders items items')
      (rest : MembersDecorated reorders kind members members') :
      MembersDecorated reorders kind ((key, .array items) :: members)
        ((key, .array items') :: members')
/-- Documents that are decorated one by one. -/
inductive Json.EachDecorated (reorders : Prop) : List Json → List Json → Prop
  | nil : EachDecorated reorders [] []
  | cons {j j' : Json} {items items' : List Json} (head : Decorated reorders j j')
      (tail : EachDecorated reorders items items') :
      EachDecorated reorders (j :: items) (j' :: items')
end

namespace Json

variable {reorders : Prop} {kind key : Text}

theorem EachDecorated.refl (items : List Json) : EachDecorated reorders items items := by
  induction items with
  | nil => exact .nil
  | cons j items ih => exact .cons (.same j) ih

/-! ## Looking members up -/

theorem field?_append (key : Text) (members extra : List (Text × Json)) :
    field? key (members ++ extra) = (field? key members).or (field? key extra) := by
  induction members with
  | nil => rfl
  | cons member members ih =>
    obtain ⟨k, j⟩ := member
    rw [List.cons_append, field?_cons, field?_cons, ih]
    split <;> rfl

theorem field?_eq_none_of_forall {members : List (Text × Json)}
    (h : ∀ member ∈ members, member.1 ≠ key) : field? key members = none := by
  induction members with
  | nil => rfl
  | cons member members ih =>
    obtain ⟨hhead, hrest⟩ := List.forall_mem_cons.mp h
    obtain ⟨k, j⟩ := member
    rw [field?_cons, if_neg hhead, ih hrest]

/-- Where no key is there twice, members are found in any order. -/
theorem field?_perm (key : Text) {members members' : List (Text × Json)}
    (h : members'.Perm members) (hkeys : (members'.map Prod.fst).Nodup) :
    field? key members' = field? key members := by
  induction h with
  | nil => rfl
  | @cons member members' members h ih =>
    rw [List.map_cons, List.nodup_cons] at hkeys
    rw [field?_cons, field?_cons, ih hkeys.2]
  | swap member member' members =>
    rw [List.map_cons, List.map_cons, List.nodup_cons, List.mem_cons, not_or] at hkeys
    rw [field?_cons, field?_cons, field?_cons, field?_cons]
    by_cases h : member.1 = key
    · rw [if_pos h, if_pos h, if_neg fun h' => hkeys.1.1 (h'.trans h.symm)]
    · rw [if_neg h, if_neg h]
  | @trans members' between members h h' ih ih' =>
    rw [ih hkeys, ih' ((h.map Prod.fst).nodup_iff.mp hkeys)]

theorem Decorated.of_some {j : Json} {o : Option Json}
    (h : Option.Rel (Decorated reorders) (some j) o) :
    ∃ j', o = some j' ∧ Decorated reorders j j' := by
  cases h with
  | some hinside => exact ⟨_, rfl, hinside⟩

theorem Decorated.getD {o o' : Option Json} (h : Option.Rel (Decorated reorders) o o') :
    Decorated reorders (o.getD .null) (o'.getD .null) := by
  cases h with
  | none => exact .same _
  | some hinside => exact hinside

/-- Two objects hold what the loader reads of one and of the other. -/
structure ReadsAlike (reorders : Prop) (kind : Text) (members members' : List (Text × Json)) :
    Prop where
  data : ∀ key, Node.roleOf kind key = some .data → field? key members' = field? key members
  tree : ∀ key, Node.roleOf kind key = some .tree →
    Option.Rel (Decorated reorders) (field? key members) (field? key members')
  trees : ∀ key, Node.roleOf kind key = some .trees → field? key members' = field? key members ∨
    ∃ items items', field? key members = some (.array items) ∧
      field? key members' = some (.array items') ∧ EachDecorated reorders items items'

namespace ReadsAlike

variable {members members' : List (Text × Json)}

theorem refl (reorders : Prop) (kind : Text) (members : List (Text × Json)) :
    ReadsAlike reorders kind members members where
  data _ _ := rfl
  tree key _ := by
    cases field? key members with
    | none => exact .none
    | some j => exact .some (.same j)
  trees _ _ := Or.inl rfl

/-- One more member on both sides, with what the loader makes of it. -/
theorem cons {j j' : Json} (h : ReadsAlike reorders kind members members')
    (hdata : Node.roleOf kind key = some .data → j' = j)
    (htree : Node.roleOf kind key = some .tree → Decorated reorders j j')
    (htrees : Node.roleOf kind key = some .trees → j' = j ∨
      ∃ items items', j = .array items ∧ j' = .array items' ∧ EachDecorated reorders items items') :
    ReadsAlike reorders kind ((key, j) :: members) ((key, j') :: members') where
  data other hrole := by
    rw [field?_cons, field?_cons, h.data other hrole]
    split
    · rename_i heq
      rw [hdata (heq ▸ hrole)]
    · rfl
  tree other hrole := by
    rw [field?_cons, field?_cons]
    split
    · rename_i heq
      exact .some (htree (heq ▸ hrole))
    · exact h.tree other hrole
  trees other hrole := by
    rw [field?_cons, field?_cons]
    split
    · rename_i heq
      rcases htrees (heq ▸ hrole) with rfl | ⟨items, items', rfl, rfl, heach⟩
      · exact Or.inl rfl
      · exact Or.inr ⟨items, items', rfl, rfl, heach⟩
    · exact h.trees other hrole

/-- It is a matter of the members that are read. -/
theorem congr {others : List (Text × Json)} (h : ReadsAlike reorders kind members members')
    (hothers : ∀ key, (Node.roleOf kind key).isSome = true →
      field? key others = field? key members') : ReadsAlike reorders kind members others where
  data key hrole := by
    rw [hothers key (by rw [hrole]; rfl)]
    exact h.data key hrole
  tree key hrole := by
    rw [hothers key (by rw [hrole]; rfl)]
    exact h.tree key hrole
  trees key hrole := by
    rw [hothers key (by rw [hrole]; rfl)]
    exact h.trees key hrole

section Members

variable (h : ReadsAlike reorders kind members members')

include h

theorem kind_eq (hkind : field? "type" members = some (.string kind)) :
    field? "type" members' = some (.string kind) :=
  (h.data "type" (Node.roleOf_type kind)).trans hkind

theorem exists_tree {j : Json} (hrole : Node.roleOf kind key = some .tree)
    (hmember : field? key members = some j) :
    ∃ j', field? key members' = some j' ∧ Decorated reorders j j' :=
  Decorated.of_some (hmember ▸ h.tree key hrole)

/-- A tree that may be missing. -/
theorem getD_tree (hrole : Node.roleOf kind key = some .tree) :
    Decorated reorders ((field? key members).getD .null) ((field? key members').getD .null) :=
  Decorated.getD (h.tree key hrole)

theorem exists_trees {items : List Json} (hrole : Node.roleOf kind key = some .trees)
    (hmember : field? key members = some (.array items)) :
    ∃ items', field? key members' = some (.array items') ∧
      EachDecorated reorders items items' := by
  rcases h.trees key hrole with heq | ⟨items₁, items', hitems, hitems', heach⟩
  · exact ⟨items, heq.trans hmember, .refl items⟩
  · obtain rfl := Json.array.inj (Option.some.inj (hmember.symm.trans hitems))
    exact ⟨items', hitems', heach⟩

end Members

end ReadsAlike

theorem MembersDecorated.readsAlike : ∀ {kind : Text} {members members' : List (Text × Json)},
    MembersDecorated reorders kind members members' → ReadsAlike reorders kind members members'
  | kind, _, _, .nil _ => .refl reorders kind []
  | _, _, _, .kept _ rest =>
    rest.readsAlike.cons (fun _ => rfl) (fun _ => .same _) fun _ => Or.inl rfl
  | _, _, _, .tree hrole inside rest => by
    refine rest.readsAlike.cons (fun hdata => ?_) (fun _ => inside) fun htrees => ?_
    · exact nomatch hrole.symm.trans hdata
    · exact nomatch hrole.symm.trans htrees
  | _, _, _, .trees hrole each rest => by
    refine rest.readsAlike.cons (fun hdata => ?_) (fun htree => ?_) fun _ => ?_
    · exact nomatch hrole.symm.trans hdata
    · exact nomatch hrole.symm.trans htree
    · exact Or.inr ⟨_, _, rfl, rfl, each⟩

/-- **Of an object of a known kind the loader reads the same, however it is decorated.** -/
theorem Decorated.of_known {members : List (Text × Json)} {j' : Json}
    (h : Decorated reorders (.object members) j')
    (hkind : field? "type" members = some (.string kind)) (hknown : kind ∈ Node.kinds) :
    ∃ members', j' = .object members' ∧ ReadsAlike reorders kind members members' := by
  cases h with
  | same => exact ⟨members, rfl, .refl reorders kind members⟩
  | @object kind' _ between extra members' hkind' _ inside hextra hperm hkeys =>
    obtain rfl : kind' = kind := Json.string.inj (Option.some.inj (hkind'.symm.trans hkind))
    refine ⟨members', rfl, inside.readsAlike.congr fun key hrole => ?_⟩
    have hnone : field? key extra = none := by
      refine field?_eq_none_of_forall fun member hmember hkey => ?_
      rw [← hkey, hextra member hmember] at hrole
      cases hrole
    rw [field?_perm key hperm hkeys, field?_append, hnone, Option.or_none]
  | unknown _ hkind' hunknown =>
    obtain rfl := Json.string.inj (Option.some.inj (hkind'.symm.trans hkind))
    exact absurd hknown hunknown

theorem Decorated.null {j' : Json} (h : Decorated reorders .null j') : j' = .null := by
  cases h
  rfl

end Json

/-! ## Trees that are the same up to order -/

mutual
/-- The same tree.  If `reorders` holds, what is kept of unknown objects may be in any order. -/
inductive Node.SameTree (reorders : Prop) : Node → Node → Prop
  | same (n : Node) : SameTree reorders n n
  | program {body body' : List Node} (each : SameTrees reorders body body') :
      SameTree reorders (.program body) (.program body')
  | binary (operator : Json) {left left' right right' : Node} (first : SameTree reorders left left')
      (second : SameTree reorders right right') :
      SameTree reorders (.binary operator left right) (.binary operator left' right')
  | call {callee callee' : Node} {arguments arguments' : List Node}
      (called : SameTree reorders callee callee') (each : SameTrees reorders arguments arguments') :
      SameTree reorders (.call callee arguments) (.call callee' arguments')
  | expression {body body' : Node} (inner : SameTree reorders body body') :
      SameTree reorders (.expression body) (.expression body')
  | conditional {test test' consequent consequent' alternate alternate' : Node}
      (tested : SameTree reorders test test') (one : SameTree reorders consequent consequent')
      (other : SameTree reorders alternate alternate') :
      SameTree reorders (.conditional test consequent alternate)
        (.conditional test' consequent' alternate')
  | returning {argument argument' : Node} (inner : SameTree reorders argument argument') :
      SameTree reorders (.returning argument) (.returning argument')
  | block {body body' : List Node} (each : SameTrees reorders body body') :
      SameTree reorders (.block body) (.block body')
  | function (name : Text) (params : List Text) {body body' : List Node}
      (each : SameTrees reorders body body') :
      SameTree reorders (.function name params body) (.function name params body')
  | foreign (kind : Text) {fields fields' : List (Text × Json)} (hreorders : reorders)
      (hperm : fields'.Perm fields) :
      SameTree reorders (.foreign kind fields) (.foreign kind fields')
/-- The same trees, one by one. -/
inductive Node.SameTrees (reorders : Prop) : List Node → List Node → Prop
  | nil : SameTrees reorders [] []
  | cons {n n' : Node} {nodes nodes' : List Node} (head : SameTree reorders n n')
      (tail : SameTrees reorders nodes nodes') : SameTrees reorders (n :: nodes) (n' :: nodes')
end

namespace Node

variable {reorders : Prop}

theorem SameTrees.refl (nodes : List Node) : SameTrees reorders nodes nodes := by
  induction nodes with
  | nil => exact .nil
  | cons n nodes ih => exact .cons (.same n) ih

theorem SameTrees.forall₂ {nodes nodes' : List Node} :
    SameTrees reorders nodes nodes' → List.Forall₂ (SameTree reorders) nodes nodes'
  | .nil => .nil
  | .cons head tail => .cons head tail.forall₂

mutual
/-- Where nothing is reordered, the same tree is an equal one. -/
theorem SameTree.eq (hkept : ¬ reorders) {n n' : Node} : SameTree reorders n n' → n' = n
  | .same _ => rfl
  | .program each => by rw [each.eq hkept]
  | .binary _ first second => by rw [first.eq hkept, second.eq hkept]
  | .call called each => by rw [called.eq hkept, each.eq hkept]
  | .expression inner => by rw [inner.eq hkept]
  | .conditional tested one other => by rw [tested.eq hkept, one.eq hkept, other.eq hkept]
  | .returning inner => by rw [inner.eq hkept]
  | .block each => by rw [each.eq hkept]
  | .function _ _ each => by rw [each.eq hkept]
  | .foreign _ hreorders _ => absurd hreorders hkept
theorem SameTrees.eq (hkept : ¬ reorders) {nodes nodes' : List Node} :
    SameTrees reorders nodes nodes' → nodes' = nodes
  | .nil => rfl
  | .cons head tail => by rw [head.eq hkept, tail.eq hkept]
end

theorem SameTree.absent_iff {n n' : Node} (h : SameTree reorders n n') :
    n = .absent ↔ n' = .absent := by
  cases h with
  | same => exact Iff.rfl
  | _ => exact ⟨nofun, nofun⟩

theorem SameTree.of_block {body : List Node} {n' : Node} (h : SameTree reorders (.block body) n') :
    ∃ body', n' = .block body' ∧ SameTrees reorders body body' := by
  cases h with
  | same => exact ⟨body, rfl, .refl body⟩
  | block each => exact ⟨_, rfl, each⟩

theorem SameTree.of_program {body : List Node} {n' : Node}
    (h : SameTree reorders (.program body) n') :
    ∃ body', n' = .program body' ∧ SameTrees reorders body body' := by
  cases h with
  | same => exact ⟨body, rfl, .refl body⟩
  | program each => exact ⟨_, rfl, each⟩

/-- The same tree does the same: the fields of foreign nodes are nothing that a walk looks at. -/
theorem SameTree.parallel {n n' : Node} (h : SameTree reorders n n') :
    Node.Parallel (SameTree reorders) (List.Forall₂ (SameTree reorders)) (fun _ => true)
      (fun _ => False) n n' := by
  cases h with
  | same =>
    exact Node.parallel_self .same (fun _ => List.forall₂_same.mpr fun _ _ => .same _)
      (fun _ => rfl) _ n
  | program each => exact .refused ⟨rfl, rfl⟩ ⟨rfl, rfl⟩ rfl
  | binary operator first second => exact .binary operator first second
  | call called each => exact .call called each.forall₂
  | expression inner => exact .expression inner
  | conditional tested one other => exact .conditional tested one other
  | returning inner => exact .returning inner.absent_iff inner
  | block each => exact .block each.forall₂
  | function name params each => exact .function rfl (fun _ _ => rfl) each.forall₂
  | «foreign» kind => exact .refused ⟨rfl, rfl⟩ ⟨rfl, rfl⟩ rfl

end Node

/-! ## Decorated documents denote the same trees -/

section Loading

variable {reorders : Prop}

theorem Node.identifierName_decorated {j j' : Json} {name : Text}
    (hname : Node.identifierName j = .ok name) (h : j.Decorated reorders j') :
    Node.identifierName j' = .ok name := by
  obtain ⟨members, rfl, hkind, hmember⟩ := Node.identifierName_eq_ok_iff.mp hname
  obtain ⟨members', rfl, hreads⟩ := h.of_known hkind (by decide)
  have hmember' := (hreads.data "name" rfl).trans hmember
  exact Node.identifierName_eq_ok_iff.mpr ⟨members', rfl, hreads.kind_eq hkind, hmember'⟩

theorem Node.mapM_identifierName_decorated {items items' : List Json} {names : List Text}
    (hnames : items.mapM Node.identifierName = .ok names)
    (h : Json.EachDecorated reorders items items') :
    items'.mapM Node.identifierName = .ok names := by
  induction items generalizing items' names with
  | nil =>
    cases h
    exact hnames
  | cons j items ih =>
    cases h with
    | cons head tail =>
      rw [List.mapM_cons] at hnames ⊢
      obtain ⟨name, hname, hrest⟩ := bind_eq_ok_iff.mp hnames
      obtain ⟨rest, hrest, hdone⟩ := bind_eq_ok_iff.mp hrest
      rw [Node.identifierName_decorated hname head, ok_bind, ih hrest tail, ok_bind]
      exact hdone

theorem Node.parameterNames_decorated {members members' : List (Text × Json)} {j : Json}
    {names : List Text} (h : Json.ReadsAlike reorders "FunctionDeclaration" members members')
    (hparams : field? "params" members = some j) (hnames : Node.parameterNames j = .ok names) :
    ∃ j', field? "params" members' = some j' ∧ Node.parameterNames j' = .ok names := by
  rcases h.trees "params" rfl with heq | ⟨items, items', hitems, hitems', heach⟩
  · exact ⟨j, heq.trans hparams, hnames⟩
  · obtain rfl := Option.some.inj (hparams.symm.trans hitems)
    exact ⟨.array items', hitems', Node.mapM_identifierName_decorated hnames heach⟩

mutual
/-- **A decorated document denotes the same tree.** -/
theorem Json.Denotes.decorated : ∀ {j j' : Json} {n : Node}, j.Denotes n →
    j.Decorated reorders j' → ∃ n', j'.Denotes n' ∧ n.SameTree reorders n'
  | _, _, _, .absent, h => by
    obtain rfl := h.null
    exact ⟨_, .absent, .same _⟩
  | _, _, _, .program hkind hbody each, h => by
    obtain ⟨members', rfl, hreads⟩ := h.of_known hkind (by decide)
    obtain ⟨items', hbody', heach⟩ := hreads.exists_trees rfl hbody
    obtain ⟨body', hdenotes, hsame⟩ := each.decorated heach
    exact ⟨_, .program (hreads.kind_eq hkind) hbody' hdenotes, .program hsame⟩
  | _, _, _, .literal hkind hvalue, h => by
    obtain ⟨members', rfl, hreads⟩ := h.of_known hkind (by decide)
    rw [← hreads.data "value" rfl] at hvalue
    exact ⟨_, .literal (hreads.kind_eq hkind) hvalue, .same _⟩
  | _, _, _, .identifier hkind hname, h => by
    obtain ⟨members', rfl, hreads⟩ := h.of_known hkind (by decide)
    have hname' := (hreads.data "name" rfl).trans hname
    exact ⟨_, .identifier (hreads.kind_eq hkind) hname', .same _⟩
  | _, _, _, .binary hkind hoperator hleft hright first second, h => by
    obtain ⟨members', rfl, hreads⟩ := h.of_known hkind (by decide)
    have hoperator' := (hreads.data "operator" rfl).trans hoperator
    obtain ⟨l, hleft', hl⟩ := hreads.exists_tree rfl hleft
    obtain ⟨r, hright', hr⟩ := hreads.exists_tree rfl hright
    obtain ⟨left', hdenotes, hsame⟩ := first.decorated hl
    obtain ⟨right', hdenotes', hsame'⟩ := second.decorated hr
    exact ⟨_, .binary (hreads.kind_eq hkind) hoperator' hleft' hright' hdenotes hdenotes',
      .binary _ hsame hsame'⟩
  | _, _, _, .call hkind hcallee harguments called each, h => by
    obtain ⟨members', rfl, hreads⟩ := h.of_known hkind (by decide)
    obtain ⟨c, hcallee', hc⟩ := hreads.exists_tree rfl hcallee
    obtain ⟨items', harguments', heach⟩ := hreads.exists_trees rfl harguments
    obtain ⟨callee', hdenotes, hsame⟩ := called.decorated hc
    obtain ⟨arguments', hdenotes', hsame'⟩ := each.decorated heach
    exact ⟨_, .call (hreads.kind_eq hkind) hcallee' harguments' hdenotes hdenotes',
      .call hsame hsame'⟩
  | _, _, _, .expression hkind hbody inner, h => by
    obtain ⟨members', rfl, hreads⟩ := h.of_known hkind (by decide)
    obtain ⟨e, hbody', he⟩ := hreads.exists_tree rfl hbody
    obtain ⟨body', hdenotes, hsame⟩ := inner.decorated he
    exact ⟨_, .expression (hreads.kind_eq hkind) hbody' hdenotes, .expression hsame⟩
  | _, _, _, .conditional hkind htest hconsequent tested one other, h => by
    obtain ⟨members', rfl, hreads⟩ := h.of_known hkind (by decide)
    obtain ⟨t, htest', ht⟩ := hreads.exists_tree rfl htest
    obtain ⟨c, hconsequent', hc⟩ := hreads.exists_tree rfl hconsequent
    obtain ⟨test', hdenotes, hsame⟩ := tested.decorated ht
    obtain ⟨consequent', hdenotes', hsame'⟩ := one.decorated hc
    obtain ⟨alternate', hdenotes'', hsame''⟩ := other.decorated (hreads.getD_tree rfl)
    exact ⟨_, .conditional (hreads.kind_eq hkind) htest' hconsequent' hdenotes hdenotes' hdenotes'',
      .conditional hsame hsame' hsame''⟩
  | _, _, _, .returning hkind inner, h => by
    obtain ⟨members', rfl, hreads⟩ := h.of_known hkind (by decide)
    obtain ⟨argument', hdenotes, hsame⟩ := inner.decorated (hreads.getD_tree rfl)
    exact ⟨_, .returning (hreads.kind_eq hkind) hdenotes, .returning hsame⟩
  | _, _, _, .block hkind hbody each, h => by
    obtain ⟨members', rfl, hreads⟩ := h.of_known hkind (by decide)
    obtain ⟨items', hbody', heach⟩ := hreads.exists_trees rfl hbody
    obtain ⟨body', hdenotes, hsame⟩ := each.decorated heach
    exact ⟨_, .block (hreads.kind_eq hkind) hbody' hdenotes, .block hsame⟩
  | _, _, _, .function hkind hid hparams hbody hname hnames inner, h => by
    obtain ⟨members', rfl, hreads⟩ := h.of_known hkind (by decide)
    obtain ⟨i', hid', hi⟩ := hreads.exists_tree rfl hid
    obtain ⟨b', hbody', hb⟩ := hreads.exists_tree rfl hbody
    obtain ⟨p', hparams', hnames'⟩ := Node.parameterNames_decorated hreads hparams hnames
    obtain ⟨block', hdenotes, hsame⟩ := inner.decorated hb
    obtain ⟨body', rfl, heach⟩ := hsame.of_block
    exact ⟨_, .function (hreads.kind_eq hkind) hid' hparams' hbody'
      (Node.identifierName_decorated hname hi) hnames' hdenotes, .function _ _ heach⟩
  | _, _, _, .foreign hkind hforeign, h => by
    cases h with
    | same => exact ⟨_, .foreign hkind hforeign, .same _⟩
    | object hkind' hknown =>
      obtain rfl := Json.string.inj (Option.some.inj (hkind'.symm.trans hkind))
      exact absurd hknown hforeign
    | unknown hreorders _ _ hperm hkeys =>
      exact ⟨_, .foreign ((Json.field?_perm "type" hperm hkeys).trans hkind) hforeign,
        .foreign _ hreorders (hperm.filter _)⟩
theorem Json.DenoteEach.decorated : ∀ {items items' : List Json} {nodes : List Node},
    Json.DenoteEach items nodes → Json.EachDecorated reorders items items' →
      ∃ nodes', Json.DenoteEach items' nodes' ∧ Node.SameTrees reorders nodes nodes'
  | _, _, _, .nil, h => by
    cases h
    exact ⟨[], .nil, .nil⟩
  | _, _, _, .cons head tail, h => by
    cases h with
    | cons hhead htail =>
      obtain ⟨n', hdenotes, hsame⟩ := head.decorated hhead
      obtain ⟨nodes', hdenotes', hsame'⟩ := tail.decorated htail
      exact ⟨n' :: nodes', .cons hdenotes hdenotes', .cons hsame hsame'⟩
end

end Loading

/-- The likeness of a tree and of the same tree in another order. -/
def Likeness.reordering (reorders : Prop) : Likeness where
  node := Node.SameTree reorders
  mentions _ := true
  scope i j := i = j
  identity i j := i = j
  escapes _ := False
  parallel := Node.SameTree.parallel
  bodies := bodies_of_forall₂ _
  scope_iff := Eq.congr
  identity_iff := Eq.congr

theorem Likeness.inPlace_reordering (reorders : Prop) : (Likeness.reordering reorders).InPlace where
  body _ := List.forall₂_same.mpr fun _ _ => .same _
  mentions _ := rfl
  scope _ _ := Iff.rfl
  identity _ _ := Iff.rfl

/-- The same program does the same. -/
theorem Node.SameTrees.run_looks {reorders : Prop} {body body' : List Node}
    (h : Node.SameTrees reorders body body') (bound : Nat) (scope : ScopeId) (w : World) :
    SameLook (run bound body scope) (run bound body' scope) w := by
  refine ((Likeness.inPlace_reordering reorders).run_looks (Likeness.bounds_refl bound) h.forall₂
    scope w).resolve_left fun hends => ?_
  unfold EndsIn at hends
  split at hends <;> exact hends

/-- **Decoration is ignored.**  Let a document be loaded, and let more members be put into any of
its objects of known kinds, under keys that the loader does not read for that kind, and let the
members of these objects be put in any order.  Then the loader gives the same tree for it.  If the
members of unknown objects are reordered as well, it gives the same tree but for the order of what
is kept of these.  A program does the same in either case, wherever it is run. -/
theorem ofJson_decorated {reorders : Prop} {o o' : Json} {n : Node}
    (hload : Node.ofJson o = .ok n) (h : o.Decorated reorders o') :
    ∃ n', Node.ofJson o' = .ok n' ∧ n.SameTree reorders n' ∧ (¬ reorders → n' = n) ∧
      ∀ body, n = .program body → ∃ body', n' = .program body' ∧
        ∀ bound scope w, SameLook (run bound body scope) (run bound body' scope) w := by
  obtain ⟨n', hdenotes, hsame⟩ := (Node.ofJson_eq_ok_iff.mp hload).decorated h
  refine ⟨n', Node.ofJson_eq_ok_iff.mpr hdenotes, hsame, fun hkept => hsame.eq hkept, ?_⟩
  rintro body rfl
  obtain ⟨body', rfl, heach⟩ := hsame.of_program
  exact ⟨body', rfl, heach.run_looks⟩

/-- The theorem for a statement that gets a flag in front of its other members, and the range of its
identifier. -/
theorem ofJson_decorated_range :
    Node.ofJson (.object [("type", .string "ExpressionStatement"),
        ("expression", .object [("type", .string "Identifier"), ("name", .string "f")])]) =
      .ok (.expression (.identifier "f")) ∧
    Json.Decorated False
      (.object [("type", .string "ExpressionStatement"),
        ("expression", .object [("type", .string "Identifier"), ("name", .string "f")])])
      (.object [("directive", .bool false), ("type", .string "ExpressionStatement"),
        ("expression", .object [("type", .string "Identifier"), ("name", .string "f"),
          ("range", .array [.integer 0, .integer 1])])]) ∧
    Node.ofJson (.object [("directive", .bool false), ("type", .string "ExpressionStatement"),
        ("expression", .object [("type", .string "Identifier"), ("name", .string "f"),
          ("range", .array [.integer 0, .integer 1])])]) =
      .ok (.expression (.identifier "f")) := by
  refine ⟨?load, ?decorated, (ofJson_decorated ?load ?decorated).elim fun n' h => ?_⟩
  · exact Node.ofJson_eq_ok_iff.mpr (.expression rfl rfl (.identifier rfl rfl))
  · have hinside : Json.Decorated False
        (.object [("type", .string "Identifier"), ("name", .string "f")])
        (.object [("type", .string "Identifier"), ("name", .string "f"),
          ("range", .array [.integer 0, .integer 1])]) :=
      .object rfl (by decide) (.kept _ (.kept _ (.nil _)))
        (List.forall_mem_singleton.mpr rfl) (.refl _) (by decide)
    exact .object rfl (by decide) (.kept _ (.tree rfl hinside (.nil _)))
      (List.forall_mem_singleton.mpr rfl)
      (List.perm_append_singleton (Text.plain "directive", Json.bool false) _).symm (by decide)
  · obtain ⟨hload, -, heq, -⟩ := h
    exact hload.trans (congrArg Except.ok (heq id))

end Scriptlet
