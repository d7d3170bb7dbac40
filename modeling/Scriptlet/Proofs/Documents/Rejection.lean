import Mathlib.Algebra.Group.Int.Defs
import Mathlib.Logic.Relation
import Scriptlet.Proofs.Binary64.Overflow
import Scriptlet.Proofs.Documents.Denotation

/-!
# What documents are rejected for

Nearly every error of the loader says that a document has not the form of a tree.  Three do not.
The items of parameters are taken without asking whether there are any, an integer is converted to
a double without asking whether it is too large, and a message shows what it complains of without
asking whether that has too many digits.  The errors of these three steps come out of the loader as
they are.

The loader works through a document in order and stops at the first error, so that what is wrong
with a part matters only if the loader gets there.

* `LoadError.IsFormat`: the errors about the form of a document.
* `Json.isShowable_integer_iff`: the integers that can be shown.
* `Json.Enters`: the inner documents that the loader loads for an outer one, each of them after
  what it loads before.  `Json.Reaches` follows such steps to any depth.
* `Json.Enters.ofJson_eq_error`: an error passes through every document around it.
* `Json.Shows`: a document that is rejected with a message that shows a document.
* `Json.Breaks`: a document that the loader takes without a check that it needs.
* `Node.ofJson_eq_error_iff`: **the errors that are not about the form are exactly those of such
  documents that are reached**.
-/

namespace Scriptlet

open Json (field?)

/-! ## Errors about the form -/

/-- The error says that a document has not the form of a tree. -/
def LoadError.IsFormat : LoadError → Prop
  | .notIterable _ | .integerTooLarge | .tooManyDigits => False
  | _ => True

instance : DecidablePred LoadError.IsFormat := fun error =>
  match error with
  | .notIterable _ | .integerTooLarge | .tooManyDigits => isFalse id
  | .missingField .. | .notIdentifier _ | .notNodeList _ | .notObject | .unsupportedLiteral _
  | .bodyNotBlock => isTrue trivial

/-- An integer can be shown if its digits are no more than the limit. -/
theorem Json.isShowable_integer_iff {n : Int} :
    (Json.integer n).isShowable = true ↔ n.natAbs < 10 ^ maxIntegerDigits := by
  rw [isShowable, decide_eq_true_iff]
  exact Nat.length_toDigits_le_iff (by decide) (by decide)

/-- A message shows a document, and is about the form, unless that document has too many digits. -/
theorem LoadError.showing_cases (make : Json.Shown → LoadError) (found : Json) :
    (∃ shown, showing make found = make shown) ∨
      showing make found = .tooManyDigits ∧ found.isShowable = false := by
  unfold showing
  split
  · exact Or.inl ⟨_, rfl⟩
  · rename_i hdigits
    exact Or.inr ⟨rfl, Bool.eq_false_iff.mpr hdigits⟩

theorem LoadError.showing_of_not_isShowable (make : Json.Shown → LoadError) {found : Json}
    (h : found.isShowable = false) : showing make found = .tooManyDigits :=
  dif_neg (Bool.eq_false_iff.mp h)

namespace Json

/-- The document has items to walk through, as parameters should. -/
def HasItems : Json → Prop
  | .array _ | .string _ | .object _ => True
  | .null | .bool _ | .integer _ | .real _ => False

/-- The document is made of others, as no literal is. -/
def HasParts : Json → Prop
  | .array _ | .object _ => True
  | _ => False

/-- The document is an identifier's object. -/
def IsIdentifier (j : Json) : Prop := ∃ name, Node.identifierName j = .ok name

end Json

namespace Node

variable {error : LoadError}

theorem isFormat_of_required {kind key : String} {members : List (Text × Json)}
    (h : required kind key members = .error error) : error.IsFormat := by
  unfold required at h
  split at h
  · cases h
  · cases h
    trivial

theorem identifierName_of_not_isIdentifier {found : Json} (h : ¬ found.IsIdentifier) :
    identifierName found = .error (.showing .notIdentifier found) := by
  cases hname : identifierName found with
  | ok name => exact absurd ⟨name, hname⟩ h
  | error e =>
    unfold identifierName at hname
    split at hname
    · split at hname
      · cases hname
      · exact hname.symm
    · exact hname.symm

/-- What is no identifier is at fault in its form, or has too many digits for a message. -/
theorem identifierName_eq_error {found : Json} (h : identifierName found = .error error) :
    error.IsFormat ∨
      error = .tooManyDigits ∧ ¬ found.IsIdentifier ∧ found.isShowable = false := by
  have hnot : ¬ found.IsIdentifier := by
    rintro ⟨name, hname⟩
    cases hname.symm.trans h
  cases (identifierName_of_not_isIdentifier hnot).symm.trans h
  rcases LoadError.showing_cases .notIdentifier found with ⟨shown, hshown⟩ | ⟨hshown, hdigits⟩
  · rw [hshown]
    exact Or.inl trivial
  · exact Or.inr ⟨hshown, hnot, hdigits⟩

/-- A word that is no identifier can be shown. -/
theorem isFormat_of_identifierName_string {s : Text}
    (h : identifierName (.string s) = .error error) : error.IsFormat :=
  (identifierName_eq_error h).resolve_right fun ⟨_, _, hdigits⟩ => nomatch hdigits

/-- Parameters are at fault in their form, or have no items at all, or one of them has too many
digits for a message. -/
theorem parameterNames_eq_error {found : Json} (h : parameterNames found = .error error) :
    error.IsFormat ∨ (¬ found.HasItems ∧ error = .notIterable found) ∨
      error = .tooManyDigits ∧ ∃ pre item post, found = .array (pre ++ item :: post) ∧
        (∀ i ∈ pre, i.IsIdentifier) ∧ ¬ item.IsIdentifier ∧ item.isShowable = false := by
  unfold parameterNames at h
  split at h
  · obtain ⟨pre, item, post, rfl, hpre, hitem⟩ := mapM_eq_error_iff.mp h
    refine (identifierName_eq_error hitem).imp_right fun ⟨herror, hnot, hdigits⟩ => ?_
    exact Or.inr ⟨herror, pre, item, post, rfl, hpre, hnot, hdigits⟩
  · obtain ⟨_, u, _, -, -, hitem⟩ := mapM_eq_error_iff.mp h
    exact Or.inl (isFormat_of_identifierName_string hitem)
  · obtain ⟨_, ⟨key, _⟩, _, -, -, hitem⟩ := mapM_eq_error_iff.mp h
    exact Or.inl (isFormat_of_identifierName_string hitem)
  · rename_i harray hstring hobject
    cases h
    refine Or.inr (Or.inl ⟨fun hitems => ?_, rfl⟩)
    cases found with
    | array items => exact harray items rfl
    | string s => exact hstring s rfl
    | object members => exact hobject members rfl
    | _ => exact hitems

theorem parameterNames_of_not_hasItems {found : Json} (h : ¬ found.HasItems) :
    parameterNames found = .error (.notIterable found) := by
  cases found with
  | array | string | object => exact absurd trivial h
  | _ => rfl

end Node

/-- A literal is at fault in its form, or is an integer that no double stands for, or has too many
digits for a message. -/
theorem Literal.ofJson_eq_error {found : Json} {error : LoadError}
    (h : Literal.ofJson found = .error error) :
    error.IsFormat ∨
      (error = .integerTooLarge ∧
        ∃ n : Int, found = .integer n ∧ 2 ^ 1024 - 2 ^ 970 ≤ n.natAbs) ∨
      error = .tooManyDigits ∧ found.HasParts ∧ found.isShowable = false := by
  unfold Literal.ofJson at h
  split at h
  · cases h
  · cases h
  · rename_i n
    split at h
    · cases h
    · rename_i hnone
      cases h
      exact Or.inr (Or.inl ⟨rfl, n, rfl, Binary64.ofInt?_eq_none_iff.mp hnone⟩)
  · cases h
  · cases h
  · rename_i hnull hbool hinteger hreal hstring
    cases h
    rcases LoadError.showing_cases .unsupportedLiteral found with
      ⟨shown, hshown⟩ | ⟨hshown, hdigits⟩
    · rw [hshown]
      exact Or.inl trivial
    · refine Or.inr (Or.inr ⟨hshown, ?_, hdigits⟩)
      cases found with
      | array | object => exact trivial
      | null => exact hnull rfl
      | bool b => exact hbool b rfl
      | integer n => exact hinteger n rfl
      | real x => exact hreal x rfl
      | string s => exact hstring s rfl

theorem Literal.ofJson_of_large {n : Int} (h : 2 ^ 1024 - 2 ^ 970 ≤ n.natAbs) :
    Literal.ofJson (.integer n) = .error .integerTooLarge := by
  unfold Literal.ofJson
  dsimp only
  rw [Binary64.ofInt?_eq_none_iff.mpr h]

theorem Literal.ofJson_of_hasParts {found : Json} (h : found.HasParts) :
    Literal.ofJson found = .error (.showing .unsupportedLiteral found) := by
  cases found with
  | array | object => rfl
  | _ => exact h.elim

/-! ## Where the loader gets -/

namespace Json

/-- The document denotes a tree. -/
def Loads (j : Json) : Prop := ∃ n, j.Denotes n

/-- Loading the outer document comes to loading the inner one.  Whatever is looked at before has
been found right, and what is looked at afterwards does not matter. -/
inductive Enters : Json → Json → Prop
  | item {members : List (Text × Json)} {kind : Text} {pre post : List Json} {j : Json}
      (hkind : field? "type" members = some (.string kind))
      (hlist : kind = "Program" ∨ kind = "BlockStatement")
      (hbody : field? "body" members = some (.array (pre ++ j :: post)))
      (before : ∀ i ∈ pre, i.Loads) : Enters (.object members) j
  | left {members : List (Text × Json)} {operator j : Json}
      (hkind : field? "type" members = some (.string "BinaryExpression"))
      (hoperator : field? "operator" members = some operator)
      (hleft : field? "left" members = some j) : Enters (.object members) j
  | right {members : List (Text × Json)} {operator l j : Json}
      (hkind : field? "type" members = some (.string "BinaryExpression"))
      (hoperator : field? "operator" members = some operator)
      (hleft : field? "left" members = some l) (before : l.Loads)
      (hright : field? "right" members = some j) : Enters (.object members) j
  | callee {members : List (Text × Json)} {j : Json}
      (hkind : field? "type" members = some (.string "CallExpression"))
      (hcallee : field? "callee" members = some j) : Enters (.object members) j
  | argument {members : List (Text × Json)} {c j : Json} {pre post : List Json}
      (hkind : field? "type" members = some (.string "CallExpression"))
      (hcallee : field? "callee" members = some c) (called : c.Loads)
      (harguments : field? "arguments" members = some (.array (pre ++ j :: post)))
      (before : ∀ i ∈ pre, i.Loads) : Enters (.object members) j
  | expression {members : List (Text × Json)} {j : Json}
      (hkind : field? "type" members = some (.string "ExpressionStatement"))
      (hbody : field? "expression" members = some j) : Enters (.object members) j
  | test {members : List (Text × Json)} {j : Json}
      (hkind : field? "type" members = some (.string "IfStatement"))
      (htest : field? "test" members = some j) : Enters (.object members) j
  | consequent {members : List (Text × Json)} {t j : Json}
      (hkind : field? "type" members = some (.string "IfStatement"))
      (htest : field? "test" members = some t) (tested : t.Loads)
      (hconsequent : field? "consequent" members = some j) : Enters (.object members) j
  | alternate {members : List (Text × Json)} {t c j : Json}
      (hkind : field? "type" members = some (.string "IfStatement"))
      (htest : field? "test" members = some t) (tested : t.Loads)
      (hconsequent : field? "consequent" members = some c) (one : c.Loads)
      (halternate : field? "alternate" members = some j) : Enters (.object members) j
  | returned {members : List (Text × Json)} {j : Json}
      (hkind : field? "type" members = some (.string "ReturnStatement"))
      (hargument : field? "argument" members = some j) : Enters (.object members) j
  | body {members : List (Text × Json)} {p j : Json} {params : List Text}
      (hkind : field? "type" members = some (.string "FunctionDeclaration"))
      (hparams : field? "params" members = some p) (hnames : Node.parameterNames p = .ok params)
      (hbody : field? "body" members = some j) : Enters (.object members) j

/-- Loading the outer document comes to loading the inner one, through any number of documents
between them. -/
abbrev Reaches : Json → Json → Prop := Relation.ReflTransGen Enters

/-- The loader rejects the first document with a message that shows the second.  Whatever is looked
at before has been found right. -/
inductive Shows : Json → Json → Prop
  /-- No literal is made of other documents. -/
  | literal {members : List (Text × Json)} {found : Json}
      (hkind : field? "type" members = some (.string "Literal"))
      (hvalue : field? "value" members = some found) (hparts : found.HasParts) :
      Shows (.object members) found
  /-- The name is missing or no text. -/
  | identifier {members : List (Text × Json)}
      (hkind : field? "type" members = some (.string "Identifier"))
      (hname : ¬ (Json.object members).IsIdentifier) :
      Shows (.object members) (.object members)
  /-- The statements are no list. -/
  | body {members : List (Text × Json)} {kind : Text} {found : Json}
      (hkind : field? "type" members = some (.string kind))
      (hlist : kind = "Program" ∨ kind = "BlockStatement")
      (hbody : field? "body" members = some found) (hitems : ∀ items, found ≠ .array items) :
      Shows (.object members) found
  /-- The arguments are no list. -/
  | arguments {members : List (Text × Json)} {c found : Json}
      (hkind : field? "type" members = some (.string "CallExpression"))
      (hcallee : field? "callee" members = some c) (called : c.Loads)
      (harguments : field? "arguments" members = some found)
      (hitems : ∀ items, found ≠ .array items) : Shows (.object members) found
  /-- A parameter is no identifier. -/
  | param {members : List (Text × Json)} {pre post : List Json} {found : Json}
      (hkind : field? "type" members = some (.string "FunctionDeclaration"))
      (hparams : field? "params" members = some (.array (pre ++ found :: post)))
      (before : ∀ i ∈ pre, i.IsIdentifier) (hfound : ¬ found.IsIdentifier) :
      Shows (.object members) found
  /-- The name of a function is no identifier. -/
  | id {members : List (Text × Json)} {p b found : Json} {params : List Text} {body : List Node}
      (hkind : field? "type" members = some (.string "FunctionDeclaration"))
      (hparams : field? "params" members = some p) (hnames : Node.parameterNames p = .ok params)
      (hbody : field? "body" members = some b) (inner : b.Denotes (.block body))
      (hid : field? "id" members = some found) (hfound : ¬ found.IsIdentifier) :
      Shows (.object members) found

/-- The loader takes something from the document, as the first thing that it looks at, which it
does not check.  It fails with an error that is not about the form. -/
inductive Breaks : Json → LoadError → Prop
  /-- The literal is an integer beyond the largest double. -/
  | literal {members : List (Text × Json)} {n : Int}
      (hkind : field? "type" members = some (.string "Literal"))
      (hvalue : field? "value" members = some (.integer n))
      (hlarge : 2 ^ 1024 - 2 ^ 970 ≤ n.natAbs) : Breaks (.object members) .integerTooLarge
  /-- The parameters are null, a boolean or a number. -/
  | params {members : List (Text × Json)} {p : Json}
      (hkind : field? "type" members = some (.string "FunctionDeclaration"))
      (hparams : field? "params" members = some p) (hitems : ¬ p.HasItems) :
      Breaks (.object members) (.notIterable p)
  /-- What a message shows holds an integer with too many digits. -/
  | message {j found : Json} (hshows : j.Shows found) (hdigits : found.isShowable = false) :
      Breaks j .tooManyDigits

end Json

/-! ## Errors pass outwards -/

section Outwards

variable {error : LoadError}

theorem Json.Loads.ofJson_eq {j : Json} (h : j.Loads) : ∃ n, Node.ofJson j = .ok n := by
  obtain ⟨n, hn⟩ := h
  exact ⟨n, hn.ofJson_eq⟩

theorem Node.ofJsonList_eq_mapM (items : List Json) :
    Node.ofJsonList items = items.mapM Node.ofJson := by
  induction items with
  | nil =>
    unfold Node.ofJsonList
    rfl
  | cons item items ih =>
    unfold Node.ofJsonList
    rw [ih, List.mapM_cons]

theorem Node.ofJsonList_eq_error_iff {items : List Json} :
    Node.ofJsonList items = .error error ↔ ∃ pre j post, items = pre ++ j :: post ∧
      (∀ i ∈ pre, i.Loads) ∧ Node.ofJson j = .error error := by
  simp only [Node.ofJsonList_eq_mapM, mapM_eq_error_iff, Json.Loads, Node.ofJson_eq_ok_iff]

theorem Node.ofJsonList_of_error {pre : List Json} {j : Json} (before : ∀ i ∈ pre, i.Loads)
    (h : Node.ofJson j = .error error) (post : List Json) :
    Node.ofJsonList (pre ++ j :: post) = .error error :=
  Node.ofJsonList_eq_error_iff.mpr ⟨pre, j, post, rfl, before, h⟩

/-- **An error passes outwards**, whatever it is. -/
theorem Json.Enters.ofJson_eq_error {outer inner : Json} (h : outer.Enters inner)
    (herror : Node.ofJson inner = .error error) : Node.ofJson outer = .error error := by
  cases h with
  | item hkind hlist hbody before =>
    have hitems := Node.ofJsonList_of_error before herror
    rcases hlist with rfl | rfl
    · unfold Node.ofJson
      simp only [hkind, Node.required_eq_ok _ _ hbody, ok_bind, Node.ofJsonArray_array, hitems,
        error_bind]
    · unfold Node.ofJson
      simp only [hkind, Node.required_eq_ok _ _ hbody, ok_bind, Node.ofJsonArray_array, hitems,
        error_bind]
  | left hkind hoperator hleft =>
    unfold Node.ofJson
    simp only [hkind, Node.required_eq_ok _ _ hoperator, Node.required_eq_ok _ _ hleft, ok_bind,
      herror, error_bind]
  | right hkind hoperator hleft before hright =>
    obtain ⟨n, hn⟩ := before.ofJson_eq
    unfold Node.ofJson
    simp only [hkind, Node.required_eq_ok _ _ hoperator, Node.required_eq_ok _ _ hleft,
      Node.required_eq_ok _ _ hright, ok_bind, hn, herror, error_bind]
  | callee hkind hcallee =>
    unfold Node.ofJson
    simp only [hkind, Node.required_eq_ok _ _ hcallee, ok_bind, herror, error_bind]
  | argument hkind hcallee called harguments before =>
    obtain ⟨n, hn⟩ := called.ofJson_eq
    have hitems := Node.ofJsonList_of_error before herror
    unfold Node.ofJson
    simp only [hkind, Node.required_eq_ok _ _ hcallee, Node.required_eq_ok _ _ harguments, ok_bind,
      hn, Node.ofJsonArray_array, hitems, error_bind]
  | expression hkind hbody =>
    unfold Node.ofJson
    simp only [hkind, Node.required_eq_ok _ _ hbody, ok_bind, herror, error_bind]
  | test hkind htest =>
    unfold Node.ofJson
    simp only [hkind, Node.required_eq_ok _ _ htest, ok_bind, herror, error_bind]
  | consequent hkind htest tested hconsequent =>
    obtain ⟨n, hn⟩ := tested.ofJson_eq
    unfold Node.ofJson
    simp only [hkind, Node.required_eq_ok _ _ htest, Node.required_eq_ok _ _ hconsequent, ok_bind,
      hn, herror, error_bind]
  | alternate hkind htest tested hconsequent one halternate =>
    obtain ⟨n, hn⟩ := tested.ofJson_eq
    obtain ⟨m, hm⟩ := one.ofJson_eq
    unfold Node.ofJson
    simp only [hkind, Node.required_eq_ok _ _ htest, Node.required_eq_ok _ _ hconsequent, ok_bind,
      hn, hm]
    rw [Node.member?_eq_some _ halternate]
    dsimp only
    rw [herror, error_bind]
  | returned hkind hargument =>
    unfold Node.ofJson
    simp only [hkind]
    rw [Node.member?_eq_some _ hargument]
    dsimp only
    rw [herror]
    rfl
  | body hkind hparams hnames hbody =>
    unfold Node.ofJson
    simp only [hkind, Node.required_eq_ok _ _ hparams, Node.required_eq_ok _ _ hbody, ok_bind,
      hnames, herror, error_bind]

theorem Json.Reaches.ofJson_eq_error {outer inner : Json} (h : outer.Reaches inner)
    (herror : Node.ofJson inner = .error error) : Node.ofJson outer = .error error := by
  induction h using Relation.ReflTransGen.head_induction_on with
  | refl => exact herror
  | head henters _ ih => exact henters.ofJson_eq_error ih

theorem Node.ofJsonArray_of_ne {found : Json} (h : ∀ items, found ≠ .array items) :
    Node.ofJsonArray found = .error (.showing .notNodeList found) := by
  unfold Node.ofJsonArray
  split
  · rename_i items
    exact absurd rfl (h items)
  · rfl

/-- **What the loader says of what it shows.** -/
theorem Json.Shows.ofJson_eq_error {j found : Json} (h : j.Shows found) :
    ∃ make, Node.ofJson j = .error (.showing make found) := by
  cases h with
  | literal hkind hvalue hparts =>
    refine ⟨.unsupportedLiteral, ?_⟩
    unfold Node.ofJson
    simp only [hkind, hvalue, Option.getD_some, Literal.ofJson_of_hasParts hparts]
    rfl
  | identifier hkind hname =>
    refine ⟨.notIdentifier, ?_⟩
    unfold Node.ofJson
    simp only [hkind, Node.identifierName_of_not_isIdentifier hname]
    rfl
  | body hkind hlist hbody hitems =>
    refine ⟨.notNodeList, ?_⟩
    rcases hlist with rfl | rfl
    · unfold Node.ofJson
      simp only [hkind, Node.required_eq_ok _ _ hbody, ok_bind, Node.ofJsonArray_of_ne hitems,
        error_bind]
    · unfold Node.ofJson
      simp only [hkind, Node.required_eq_ok _ _ hbody, ok_bind, Node.ofJsonArray_of_ne hitems,
        error_bind]
  | arguments hkind hcallee called harguments hitems =>
    refine ⟨.notNodeList, ?_⟩
    obtain ⟨n, hn⟩ := called.ofJson_eq
    unfold Node.ofJson
    simp only [hkind, Node.required_eq_ok _ _ hcallee, Node.required_eq_ok _ _ harguments, ok_bind,
      hn, Node.ofJsonArray_of_ne hitems, error_bind]
  | param hkind hparams before hfound =>
    rename_i pre post
    have hnames : Node.parameterNames (.array (pre ++ found :: post)) =
        .error (.showing .notIdentifier found) := mapM_eq_error_iff.mpr
      ⟨pre, found, post, rfl, before, Node.identifierName_of_not_isIdentifier hfound⟩
    refine ⟨.notIdentifier, ?_⟩
    unfold Node.ofJson
    simp only [hkind, Node.required_eq_ok _ _ hparams, ok_bind, hnames, error_bind]
  | id hkind hparams hnames hbody inner hid hfound =>
    refine ⟨.notIdentifier, ?_⟩
    unfold Node.ofJson
    simp only [hkind, Node.required_eq_ok _ _ hparams, Node.required_eq_ok _ _ hbody,
      Node.required_eq_ok _ _ hid, ok_bind, hnames, inner.ofJson_eq,
      Node.identifierName_of_not_isIdentifier hfound, error_bind]

theorem Json.Breaks.ofJson_eq_error {j : Json} (h : j.Breaks error) :
    Node.ofJson j = .error error := by
  cases h with
  | literal hkind hvalue hlarge =>
    unfold Node.ofJson
    simp only [hkind, hvalue, Option.getD_some, Literal.ofJson_of_large hlarge]
    rfl
  | params hkind hparams hitems =>
    unfold Node.ofJson
    simp only [hkind, Node.required_eq_ok _ _ hparams, ok_bind,
      Node.parameterNames_of_not_hasItems hitems, error_bind]
  | message hshows hdigits =>
    obtain ⟨make, hmake⟩ := hshows.ofJson_eq_error
    rw [hmake, LoadError.showing_of_not_isShowable make hdigits]

theorem Json.Breaks.not_isFormat {j : Json} (h : j.Breaks error) : ¬ error.IsFormat := by
  cases h <;> exact id

end Outwards

/-! ## Errors come from inside -/

section Inwards

open Node

variable {error : LoadError} {members : List (Text × Json)} {kind : Text}

/-- An inner document is smaller. -/
theorem Json.Enters.sizeOf_lt {outer inner : Json} (h : outer.Enters inner) :
    sizeOf inner < sizeOf outer := by
  have hitem : ∀ {members : List (Text × Json)} {key : Text} {pre post : List Json},
      field? key members = some (.array (pre ++ inner :: post)) →
      sizeOf inner < sizeOf (Json.object members) := by
    intro members key pre post hfield
    have hsmall := Json.sizeOf_lt_of_field? hfield
    have hmem : inner ∈ pre ++ inner :: post := List.mem_append_right _ (List.mem_cons_self ..)
    have hlist := List.sizeOf_lt_of_mem hmem
    simp only [Json.object.sizeOf_spec, Json.array.sizeOf_spec] at hsmall ⊢
    omega
  have hmember : ∀ {members : List (Text × Json)} {key : Text},
      field? key members = some inner → sizeOf inner < sizeOf (Json.object members) := by
    intro members key hfield
    have hsmall := Json.sizeOf_lt_of_field? hfield
    simp only [Json.object.sizeOf_spec]
    omega
  cases h with
  | item _ _ hbody _ => exact hitem hbody
  | left _ _ hleft => exact hmember hleft
  | right _ _ _ _ hright => exact hmember hright
  | callee _ hcallee => exact hmember hcallee
  | argument _ _ _ harguments _ => exact hitem harguments
  | expression _ hbody => exact hmember hbody
  | test _ htest => exact hmember htest
  | consequent _ _ _ hconsequent => exact hmember hconsequent
  | alternate _ _ _ _ _ halternate => exact hmember halternate
  | returned _ hargument => exact hmember hargument
  | body _ _ _ hbody => exact hmember hbody

/-- Where an error of a document comes from: it is about the form, it is of the document's own, or
it is that of an inner document. -/
inductive Json.Origin (j : Json) (error : LoadError) : Prop
  | form (hformat : error.IsFormat)
  | own (hbreaks : j.Breaks error)
  | inside {inner : Json} (henters : j.Enters inner) (herror : Node.ofJson inner = .error error)

theorem Node.loads_of_ofJson {j : Json} {n : Node} (h : Node.ofJson j = .ok n) : j.Loads :=
  ⟨n, Node.denotes_of_ofJson h⟩

/-- A member that is asked for is missing, which is an error about the form, or it is there. -/
theorem Node.required_bind_eq_error {α : Type} {kind key : String}
    {f : Member members → Except LoadError α}
    (h : (required kind key members >>= f) = .error error) :
    error.IsFormat ∨ ∃ m : Member members, field? key members = some m.1 ∧ f m = .error error := by
  rcases bind_eq_error_iff.mp h with h | ⟨m, hm, h⟩
  · exact Or.inl (isFormat_of_required h)
  · exact Or.inr ⟨m, required_eq_ok_iff.mp hm, h⟩

/-- Where an error of a list comes from, if the document around the list enters its items and shows
in a message what stands there and is no list. -/
theorem Json.origin_of_ofJsonArray {α : Type} {j found : Json} {f : List Node → α}
    (henters : ∀ pre item post, found = .array (pre ++ item :: post) → (∀ i ∈ pre, i.Loads) →
      j.Enters item)
    (hshows : (∀ items, found ≠ .array items) → j.Shows found)
    (h : (Node.ofJsonArray found >>= fun nodes => pure (f nodes)) = .error error) :
    j.Origin error := by
  rcases bind_eq_error_iff.mp h with h | ⟨_, _, h⟩
  · unfold Node.ofJsonArray at h
    split at h
    · obtain ⟨pre, item, post, rfl, before, hitem⟩ := Node.ofJsonList_eq_error_iff.mp h
      exact .inside (henters pre item post rfl before) hitem
    · rename_i hne
      cases h
      rcases LoadError.showing_cases .notNodeList found with
        ⟨shown, hshown⟩ | ⟨hshown, hdigits⟩
      · rw [hshown]
        exact .form trivial
      · rw [hshown]
        exact .own (.message (hshows hne) hdigits)
  · cases h

/-- A value that is not null stands in the object. -/
theorem Node.field?_eq_of_getD {key : Text} {j : Json} (h : (field? key members).getD .null = j)
    (hj : j ≠ .null) : field? key members = some j := by
  cases hfield : field? key members with
  | none =>
    rw [hfield] at h
    exact absurd h.symm hj
  | some value =>
    rw [hfield] at h
    exact congrArg some h

theorem Node.ofJson_object_eq_error (h : Node.ofJson (.object members) = .error error) :
    (Json.object members).Origin error := by
  unfold Node.ofJson at h
  dsimp only at h
  split at h
  · rename_i kind hkind
    -- One case for each kind, in the order in which the loader asks for them.
    split at h
    · rcases required_bind_eq_error h with hformat | ⟨⟨body, _⟩, hbody, h⟩
      · exact .form hformat
      refine Json.origin_of_ofJsonArray ?_ (.body hkind (Or.inl rfl) hbody) h
      rintro pre item post rfl before
      exact .item hkind (Or.inl rfl) hbody before
    · rcases Literal.ofJson_eq_error (map_eq_error_iff.mp h) with
        hformat | ⟨rfl, n, hn, hlarge⟩ | ⟨rfl, hparts, hdigits⟩
      · exact .form hformat
      · exact .own (.literal hkind (field?_eq_of_getD hn Json.noConfusion) hlarge)
      · refine .own (.message (.literal hkind (field?_eq_of_getD rfl ?_) hparts) hdigits)
        intro hnull
        rw [hnull] at hparts
        exact hparts
    · rcases identifierName_eq_error (map_eq_error_iff.mp h) with
        hformat | ⟨rfl, hname, hdigits⟩
      · exact .form hformat
      · exact .own (.message (.identifier hkind hname) hdigits)
    · rcases required_bind_eq_error h with hformat | ⟨⟨operator, _⟩, hoperator, h⟩
      · exact .form hformat
      rcases required_bind_eq_error h with hformat | ⟨⟨l, _⟩, hleft, h⟩
      · exact .form hformat
      rcases bind_eq_error_iff.mp h with h | ⟨left, hfirst, h⟩
      · exact .inside (.left hkind hoperator hleft) h
      rcases required_bind_eq_error h with hformat | ⟨⟨r, _⟩, hright, h⟩
      · exact .form hformat
      rcases bind_eq_error_iff.mp h with h | ⟨_, _, h⟩
      · exact .inside (.right hkind hoperator hleft (loads_of_ofJson hfirst) hright) h
      · cases h
    · rcases required_bind_eq_error h with hformat | ⟨⟨c, _⟩, hcallee, h⟩
      · exact .form hformat
      rcases bind_eq_error_iff.mp h with h | ⟨callee, hcalled, h⟩
      · exact .inside (.callee hkind hcallee) h
      rcases required_bind_eq_error h with hformat | ⟨⟨arguments, _⟩, harguments, h⟩
      · exact .form hformat
      have called := loads_of_ofJson hcalled
      refine Json.origin_of_ofJsonArray ?_ (.arguments hkind hcallee called harguments) h
      rintro pre item post rfl before
      exact .argument hkind hcallee called harguments before
    · rcases required_bind_eq_error h with hformat | ⟨⟨body, _⟩, hbody, h⟩
      · exact .form hformat
      rcases bind_eq_error_iff.mp h with h | ⟨_, _, h⟩
      · exact .inside (.expression hkind hbody) h
      · cases h
    · rcases required_bind_eq_error h with hformat | ⟨⟨t, _⟩, htest, h⟩
      · exact .form hformat
      rcases bind_eq_error_iff.mp h with h | ⟨test, htested, h⟩
      · exact .inside (.test hkind htest) h
      rcases required_bind_eq_error h with hformat | ⟨⟨c, _⟩, hconsequent, h⟩
      · exact .form hformat
      rcases bind_eq_error_iff.mp h with h | ⟨consequent, hone, h⟩
      · exact .inside (.consequent hkind htest (loads_of_ofJson htested) hconsequent) h
      split at h
      · rename_i a _ halternate
        rcases bind_eq_error_iff.mp h with h | ⟨_, _, h⟩
        · exact .inside (.alternate hkind htest (loads_of_ofJson htested) hconsequent
            (loads_of_ofJson hone) (member?_eq_some_iff.mp halternate)) h
        · cases h
      · cases h
    · split at h
      · rename_i a _ hargument
        exact .inside (.returned hkind (member?_eq_some_iff.mp hargument)) (map_eq_error_iff.mp h)
      · cases h
    · rcases required_bind_eq_error h with hformat | ⟨⟨body, _⟩, hbody, h⟩
      · exact .form hformat
      refine Json.origin_of_ofJsonArray ?_ (.body hkind (Or.inr rfl) hbody) h
      rintro pre item post rfl before
      exact .item hkind (Or.inr rfl) hbody before
    · rcases required_bind_eq_error h with hformat | ⟨⟨p, _⟩, hparams, h⟩
      · exact .form hformat
      rcases bind_eq_error_iff.mp h with h | ⟨params, hnames, h⟩
      · rcases parameterNames_eq_error h with
          hformat | ⟨hitems, rfl⟩ | ⟨rfl, pre, item, post, rfl, before, hitem, hdigits⟩
        · exact .form hformat
        · exact .own (.params hkind hparams hitems)
        · exact .own (.message (.param hkind hparams before hitem) hdigits)
      rcases required_bind_eq_error h with hformat | ⟨⟨b, _⟩, hbody, h⟩
      · exact .form hformat
      rcases bind_eq_error_iff.mp h with h | ⟨body, hinner, h⟩
      · exact .inside (.body hkind hparams hnames hbody) h
      split at h
      · rcases required_bind_eq_error h with hformat | ⟨⟨i, _⟩, hid, h⟩
        · exact .form hformat
        rcases bind_eq_error_iff.mp h with h | ⟨_, _, h⟩
        · rcases identifierName_eq_error h with hformat | ⟨rfl, hname, hdigits⟩
          · exact .form hformat
          · have inner := Node.denotes_of_ofJson hinner
            exact .own (.message (.id hkind hparams hnames hbody inner hid hname) hdigits)
        · cases h
      · cases h
        exact .form trivial
    · cases h
  · cases h
    exact .form trivial

theorem Node.ofJson_error_origin (j : Json) (h : Node.ofJson j = .error error) :
    j.Origin error := by
  cases j with
  | null =>
    rw [Node.ofJson_null] at h
    cases h
  | object members => exact Node.ofJson_object_eq_error h
  | _ =>
    unfold Node.ofJson at h
    cases h
    exact .form trivial

/-- An error that is not about the form comes from a document that is reached. -/
theorem Node.exists_breaks_of_ofJson (hformat : ¬ error.IsFormat) (j : Json)
    (h : Node.ofJson j = .error error) : ∃ part, j.Reaches part ∧ part.Breaks error := by
  cases Node.ofJson_error_origin j h with
  | form h => exact absurd h hformat
  | own hbreaks => exact ⟨j, .refl, hbreaks⟩
  | @inside inner henters herror =>
    have hsmaller := henters.sizeOf_lt
    obtain ⟨part, hreaches, hbreaks⟩ := exists_breaks_of_ofJson hformat inner herror
    exact ⟨part, .head henters hreaches, hbreaks⟩
termination_by sizeOf j

end Inwards

/-- **What documents are rejected for.**  The loader gives a tree, or fails with an error that says
that the document has not the form of one, unless it reaches a document that it takes something
from without the check that this needs: a literal that is an integer beyond the largest double, a
function whose parameters are null, a boolean or a number, or anything that it would have to show in
a message and that holds an integer with more digits than can be shown.  Exactly then it fails with
another error, which is the one of the document that it reaches. -/
theorem Node.ofJson_eq_error_iff (document : Json) (error : LoadError) :
    (Node.ofJson document = .error error ∧ ¬ error.IsFormat) ↔
      ∃ part, document.Reaches part ∧ part.Breaks error := by
  constructor
  · rintro ⟨herror, hformat⟩
    exact Node.exists_breaks_of_ofJson hformat document herror
  · rintro ⟨part, hreaches, hbreaks⟩
    exact ⟨hreaches.ofJson_eq_error hbreaks.ofJson_eq_error, hbreaks.not_isFormat⟩

/-- Two documents that are no trees, and are not rejected for that: a function with no parameters at
all, where an empty list was meant, and a program whose statements are an integer with too many
digits for the message that says that they are no list. -/
theorem Node.ofJson_fails_unchecked :
    (Node.ofJson (.object [("type", .string "FunctionDeclaration"),
        ("id", .object [("type", .string "Identifier"), ("name", .string "f")]),
        ("params", .null),
        ("body", .object [("type", .string "BlockStatement"), ("body", .array [])])]) =
      .error (.notIterable .null) ∧ ¬ (LoadError.notIterable .null).IsFormat) ∧
    Node.ofJson (.object [("type", .string "Program"), ("body", .integer (10 ^ 5000))]) =
      .error .tooManyDigits ∧ ¬ LoadError.tooManyDigits.IsFormat := by
  have hdigits : (Json.integer (10 ^ 5000)).isShowable = false :=
    Bool.eq_false_iff.mpr fun h => absurd (Json.isShowable_integer_iff.mp h) (by decide +kernel)
  have hitems (items : List Json) : Json.integer (10 ^ 5000) ≠ .array items := Json.noConfusion
  have hshows : Json.Shows (.object [("type", .string "Program"), ("body", .integer (10 ^ 5000))])
      (.integer (10 ^ 5000)) := .body rfl (Or.inl rfl) rfl hitems
  exact ⟨⟨(Json.Breaks.params rfl rfl id).ofJson_eq_error, id⟩,
    (Json.Breaks.message hshows hdigits).ofJson_eq_error, id⟩

end Scriptlet
