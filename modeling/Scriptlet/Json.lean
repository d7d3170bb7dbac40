import Scriptlet.Text

/-!
# JSON documents

Documents keep the order of an object's members and keep integers apart from other numbers, so
that a document written back is the document that was read.

* `field?` looks a member up by its key.
* `setField` gives a key a value: a key already there keeps its place and takes the new value.
-/

namespace Scriptlet

/-- A JSON document.  An integer is a number written without point and exponent. -/
inductive Json where
  | null
  | bool (b : Bool)
  | integer (n : Int)
  | real (x : Float)
  | string (s : Text)
  | array (items : List Json)
  | object (members : List (Text × Json))
  deriving Inhabited

namespace Json

/-- The number of digits that an integer may have where it is read or shown. -/
def maxIntegerDigits : Nat := 4300

/-- The value of a key among the members of an object. -/
def field? (key : Text) : List (Text × Json) → Option Json
  | [] => none
  | (k, v) :: members => if k = key then some v else field? key members

/-- The members with one more key set. -/
def setField (key : Text) (value : Json) : List (Text × Json) → List (Text × Json)
  | [] => [(key, value)]
  | (k, v) :: members =>
    if k = key then (k, value) :: members else (k, v) :: setField key value members

@[simp] theorem field?_nil (key : Text) : field? key [] = none := rfl

theorem field?_cons (key k : Text) (v : Json) (members : List (Text × Json)) :
    field? key ((k, v) :: members) = if k = key then some v else field? key members := rfl

/-- A key just set has its new value. -/
@[simp] theorem field?_setField_self (key : Text) (value : Json)
    (members : List (Text × Json)) :
    field? key (setField key value members) = some value := by
  induction members with
  | nil => simp [setField, field?]
  | cons m members ih =>
    obtain ⟨k, v⟩ := m
    by_cases h : k = key <;> simp [setField, field?_cons, h, ih]

/-- Setting one key leaves the others as they are. -/
theorem field?_setField_of_ne {key other : Text} (h : key ≠ other) (value : Json)
    (members : List (Text × Json)) :
    field? other (setField key value members) = field? other members := by
  induction members with
  | nil => simp [setField, field?, h]
  | cons m members ih =>
    obtain ⟨k, v⟩ := m
    by_cases hk : k = key
    · subst hk
      simp [setField, field?_cons, h]
    · simp only [setField, if_neg hk, field?_cons, ih]

/-- What a key holds is smaller than the object, so recursion into it ends. -/
theorem sizeOf_lt_of_field? {key : Text} {members : List (Text × Json)} {value : Json}
    (h : field? key members = some value) : sizeOf value < sizeOf members := by
  induction members with
  | nil => simp at h
  | cons m members ih =>
    obtain ⟨k, v⟩ := m
    rw [field?_cons] at h
    simp only [List.cons.sizeOf_spec, Prod.mk.sizeOf_spec]
    split at h
    · cases h
      omega
    · have := ih h
      omega

end Json
end Scriptlet
