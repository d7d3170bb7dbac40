import Scriptlet.Proofs.Simulation.Looks

/-!
# Nodes that are never reached

A node outside the language is refused when evaluation reaches it, and not before.  So as long as a
run is not refused anything, it cannot depend on what such nodes are, wherever in the program they
stand: in a branch that is not taken, behind a return, in a function that is never called.

* `Node.Replaced`: a program in which any of these nodes have been replaced, at any depth.
* `Likeness.replacing`: such programs do the same, node by node, up to the first refusal.  The
  functions that they declare have different code, and are compared by it.
* `run_replaced` is what comes of it for whole runs.
-/

namespace Scriptlet

/-- The nodes outside the language: loops, declarations of variables, and whatever else a document
may hold. -/
inductive Node.IsUnknown : Node → Prop
  | whileLoop (test body : Node) : IsUnknown (.whileLoop test body)
  | declaration (name : Text) (initial : Node) : IsUnknown (.declaration name initial)
  | «foreign» (kind : Text) (fields : List (Text × Json)) : IsUnknown (.foreign kind fields)

/-- A node in which any number of nodes outside the language have been replaced by other nodes. -/
inductive Node.Replaced : Node → Node → Prop
  | same (node : Node) : Replaced node node
  | unknown {node node' : Node} (hunknown : node.IsUnknown) (hpresent : node' ≠ .absent) :
      Replaced node node'
  | program {body body' : List Node} (hbody : List.Forall₂ Replaced body body') :
      Replaced (.program body) (.program body')
  | binary (operator : Json) {left left' right right' : Node} (hleft : Replaced left left')
      (hright : Replaced right right') :
      Replaced (.binary operator left right) (.binary operator left' right')
  | call {callee callee' : Node} {arguments arguments' : List Node}
      (hcallee : Replaced callee callee')
      (harguments : List.Forall₂ Replaced arguments arguments') :
      Replaced (.call callee arguments) (.call callee' arguments')
  | expression {body body' : Node} (hbody : Replaced body body') :
      Replaced (.expression body) (.expression body')
  | conditional {test test' consequent consequent' alternate alternate' : Node}
      (htest : Replaced test test') (hconsequent : Replaced consequent consequent')
      (halternate : Replaced alternate alternate') :
      Replaced (.conditional test consequent alternate) (.conditional test' consequent' alternate')
  | returning {argument argument' : Node} (hargument : Replaced argument argument') :
      Replaced (.returning argument) (.returning argument')
  | block {body body' : List Node} (hbody : List.Forall₂ Replaced body body') :
      Replaced (.block body) (.block body')
  | function (name : Text) (params : List Text) {body body' : List Node}
      (hbody : List.Forall₂ Replaced body body') :
      Replaced (.function name params body) (.function name params body')

/-- A refusal to evaluate or to execute a node. -/
def Fault.IsRefusal (fault : Fault) : Prop := ∃ role kind, fault = .unsupportedNode role kind

instance : DecidablePred Fault.IsRefusal := fun fault =>
  match fault with
  | .unsupportedNode role kind => isTrue ⟨role, kind, rfl⟩
  | .unsupportedOperator _ | .tooManyDigits | .notCallable _ | .integerTooLarge | .unwritable ..
  | .stackExhausted => isFalse nofun

namespace Node

theorem IsUnknown.isRefused {node : Node} (h : node.IsUnknown) : node.IsRefused := by
  cases h <;> exact ⟨rfl, rfl⟩

/-- Where nothing stood, nothing stands. -/
theorem Replaced.absent_iff {node node' : Node} (h : node.Replaced node') :
    node = .absent ↔ node' = .absent := by
  cases h with
  | same => exact Iff.rfl
  | unknown hunknown hpresent =>
    refine iff_of_false ?_ hpresent
    rintro rfl
    cases hunknown
  | _ => exact iff_of_false nofun nofun

theorem forall₂_replaced_self (nodes : List Node) : List.Forall₂ Replaced nodes nodes :=
  List.forall₂_same.mpr fun node _ => .same node

/-- Up to a refusal, a node does the same whatever has been replaced in it. -/
theorem Replaced.parallel {node node' : Node} (h : node.Replaced node') :
    Node.Parallel Replaced (List.Forall₂ Replaced) (fun _ => true) Fault.IsRefusal node node' := by
  cases h with
  | same =>
    exact Node.parallel_self Replaced.same forall₂_replaced_self (fun _ => rfl) _ node
  | unknown hunknown _ => exact .escaping hunknown.isRefused fun role kind => ⟨role, kind, rfl⟩
  | program hbody => exact .refused ⟨rfl, rfl⟩ ⟨rfl, rfl⟩ rfl
  | binary operator hleft hright => exact .binary operator hleft hright
  | call hcallee harguments => exact .call hcallee harguments
  | expression hbody => exact .expression hbody
  | conditional htest hconsequent halternate => exact .conditional htest hconsequent halternate
  | returning hargument => exact .returning hargument.absent_iff hargument
  | block hbody => exact .block hbody
  | function name params hbody => exact .function rfl (fun _ _ => rfl) hbody

end Node

/-- The likeness of a program and of one in which nodes outside the language have been replaced. -/
def Likeness.replacing : Likeness where
  node := Node.Replaced
  mentions _ := true
  scope i j := i = j
  identity i j := i = j
  escapes := Fault.IsRefusal
  parallel := Node.Replaced.parallel
  bodies := bodies_of_forall₂ _
  scope_iff := Eq.congr
  identity_iff := Eq.congr

theorem Likeness.inPlace_replacing : Likeness.replacing.InPlace where
  body := Node.forall₂_replaced_self
  mentions _ := rfl
  scope _ _ := Iff.rfl
  identity _ _ := Iff.rfl

/-- **What is never reached does not matter.**  Let any number of nodes outside the language be
replaced in a program, at any depth, by any other nodes.  If the program, run in whatever scope of
whatever world, is not refused a node, then the other program ends in the same way, with the same
fault or a value that looks the same.  It prints and traces the same, and every scope binds the
same names, in the same order, to values that look the same. -/
theorem run_replaced {body body' : List Node} (h : List.Forall₂ Node.Replaced body body')
    (bound : Nat) (scope : ScopeId) (w : World) :
    EndsIn Fault.IsRefusal (run bound body scope w) ∨
      SameLook (run bound body scope) (run bound body' scope) w :=
  Likeness.inPlace_replacing.run_looks (Likeness.bounds_refl bound) h scope w

/-- The theorem for a program that ends with a fault.  It declares a function that would loop if it
were called, and has a statement of an unknown kind in a branch that is not taken.  The loop is
replaced by a call, and that statement by a return. -/
theorem run_replaced_uncalled :
    List.Forall₂ Node.Replaced
        [.function "f" ["x"] [.whileLoop (.literal (.boolean true)) (.block [])],
          .conditional (.literal (.boolean false)) (.foreign "ForStatement" []) .absent,
          .expression (.call (.literal (.string "g")) [.identifier "f"])]
        [.function "f" ["x"] [.expression (.call (.identifier "f") [])],
          .conditional (.literal (.boolean false)) (.returning .absent) .absent,
          .expression (.call (.literal (.string "g")) [.identifier "f"])] ∧
      SameLook
        (run 9 [.function "f" ["x"] [.whileLoop (.literal (.boolean true)) (.block [])],
          .conditional (.literal (.boolean false)) (.foreign "ForStatement" []) .absent,
          .expression (.call (.literal (.string "g")) [.identifier "f"])] World.globalScope)
        (run 9 [.function "f" ["x"] [.expression (.call (.identifier "f") [])],
          .conditional (.literal (.boolean false)) (.returning .absent) .absent,
          .expression (.call (.literal (.string "g")) [.identifier "f"])] World.globalScope)
        (World.fresh 3) := by
  refine ⟨?replaced, (run_replaced ?replaced 9 World.globalScope (World.fresh 3)).resolve_left ?_⟩
  · exact .cons (.function _ _ (.cons (.unknown (.whileLoop _ _) nofun) .nil))
      (.cons (.conditional (.same _) (.unknown (.foreign _ _) nofun) (.same _))
        (.cons (.same _) .nil))
  · decide +kernel

end Scriptlet
