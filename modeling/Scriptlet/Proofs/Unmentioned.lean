import Scriptlet.Proofs.Grammar.Mentions
import Scriptlet.Proofs.Simulation.Tracking

/-!
# Names that a program does not mention

What is bound to a name that a program does not mention makes no difference to it, although every
call copies the binding into its scope.  The two runs that are compared differ in all their scopes
and, if the value is a function that the host made, in all the numbers that they hand out.

* `Node.Uses x`: the tree mentions the name for a variable, a function or a parameter.
* `World.FreshBut`: a new world in which the host has bound one more name.
* `Coding.without x`: the code that does not use the name.  The name alone is left open by it.
* `run_unmentioned`: the two runs do the same, and the binding is kept.
-/

namespace Scriptlet

/-! ## Trees that do not use a name -/

/-- The tree mentions the name for a variable, a function or a parameter. -/
def Node.Uses (x : Text) (n : Node) : Prop :=
  n.Mentions (.identifier x) ∨ n.Mentions (.function x) ∨ n.Mentions (.param x)

namespace Node

variable {x : Text}

/-- What a tree does not use, its parts do not use. -/
theorem not_uses_of_mem_parts {n child : Node} (h : ¬ n.Uses x) (hchild : child ∈ n.parts) :
    ¬ child.Uses x :=
  fun huses => h (huses.imp (.part hchild) (Or.imp (.part hchild) (.part hchild)))

theorem ne_of_not_uses_identifier {name : Text} (h : ¬ (identifier name).Uses x) : name ≠ x := by
  rintro rfl
  exact h (Or.inl (.own (List.mem_singleton_self _)))

theorem ne_of_not_uses_function {name : Text} {params : List Text} {body : List Node}
    (h : ¬ (function name params body).Uses x) : name ≠ x ∧ ∀ param ∈ params, param ≠ x := by
  refine ⟨?_, fun param hparam => ?_⟩
  · rintro rfl
    exact h (Or.inr (Or.inl (.own (List.mem_cons_self ..))))
  · rintro rfl
    exact h (Or.inr (Or.inr (.own (List.mem_cons_of_mem _ (List.mem_map_of_mem hparam)))))

end Node

/-- Code that is the same and does not use a name. -/
def Node.SameWithout (x : Text) (m n : Node) : Prop := m = n ∧ ¬ m.Uses x

namespace Node

variable {x : Text}

theorem sameWithout_of_mem_parts {n child : Node} (h : ¬ n.Uses x) (hchild : child ∈ n.parts) :
    child.SameWithout x child :=
  ⟨rfl, not_uses_of_mem_parts h hchild⟩

theorem forall₂_sameWithout {nodes : List Node} (h : ∀ n ∈ nodes, ¬ n.Uses x) :
    List.Forall₂ (SameWithout x) nodes nodes :=
  List.forall₂_same.mpr fun n hn => ⟨rfl, h n hn⟩

theorem SameWithout.parallel {m n : Node} (h : m.SameWithout x n) :
    Node.Parallel (SameWithout x) (Rearranged False (SameWithout x)) (fun name => name != x)
      (fun _ => False) m n := by
  obtain ⟨rfl, huses⟩ := h
  have hpart : ∀ child ∈ m.parts, child.SameWithout x child := fun child hchild =>
    sameWithout_of_mem_parts huses hchild
  have hbody : ∀ {nodes : List Node}, m.parts = nodes →
      Rearranged False (SameWithout x) nodes nodes := by
    rintro nodes rfl
    exact .of_forall₂ (List.forall₂_same.mpr hpart)
  cases m with
  | absent => exact .absent
  | literal value => exact .literal value
  | identifier name => exact .identifier (bne_iff_ne.mpr (ne_of_not_uses_identifier huses))
  | binary operator left right =>
    exact .binary operator (hpart left (List.mem_cons_self ..))
      (hpart right (List.mem_cons_of_mem _ (List.mem_cons_self ..)))
  | call callee arguments =>
    exact .call (hpart callee (List.mem_cons_self ..))
      (List.forall₂_same.mpr fun n hn => hpart n (List.mem_cons_of_mem _ hn))
  | expression body => exact .expression (hpart body (List.mem_singleton_self _))
  | conditional test consequent alternate =>
    refine .conditional (hpart test ?_) (hpart consequent ?_) (hpart alternate ?_) <;>
      simp [parts]
  | returning argument => exact .returning Iff.rfl (hpart argument (List.mem_singleton_self _))
  | block body => exact .block (hbody rfl)
  | function name params body =>
    obtain ⟨hname, hparams⟩ := ne_of_not_uses_function huses
    exact .function (bne_iff_ne.mpr hname)
      (fun param hparam => bne_iff_ne.mpr (hparams param hparam)) (hbody rfl)
  | program | whileLoop | declaration | «foreign» => exact .refused ⟨rfl, rfl⟩ ⟨rfl, rfl⟩ rfl

end Node

/-- The code that does not use a name. -/
def Coding.without (x : Text) : Coding where
  node := Node.SameWithout x
  mentions name := name != x
  reorders := False
  parallel := Node.SameWithout.parallel

/-! ## Worlds with one more binding -/

/-- A new world in which the host has bound one more name.  It may have made any scopes and
functions before that. -/
structure World.FreshBut (verbosity : Nat) (x : Text) (value : Value) (u : World) : Prop where
  size_pos : 0 < u.scopes.size
  identity_pos : 0 < u.nextIdentity
  bound : (u.scopeAt globalScope).get? x = some value
  others : ∀ name, name ≠ x → (u.scopeAt globalScope).get? name =
    ((World.fresh verbosity).scopeAt globalScope).get? name
  output : u.output = (World.fresh verbosity).output
  trace : u.trace = (World.fresh verbosity).trace
  tracing : u.tracing = (World.fresh verbosity).tracing
  verbosity : u.verbosity = (World.fresh verbosity).verbosity

/-- Binding the name is enough, whatever number the host has handed out to its functions. -/
theorem World.freshBut_bind (verbosity n : Nat) (x : Text) (value : Value) :
    ({ World.fresh verbosity with nextIdentity := n + 1 }.bind globalScope x value).FreshBut
      verbosity x value where
  size_pos := by
    rw [size_bind]
    exact Nat.one_pos
  identity_pos := Nat.succ_pos n
  bound := by
    rw [scopeAt_bind_self _ (by exact Nat.one_pos), Scope.get?_bind_self]
  others name hname := by
    rw [scopeAt_bind_self _ (by exact Nat.one_pos), Scope.get?_bind_of_ne _ hname.symm]
    rfl
  output := rfl
  trace := rfl
  tracing := rfl
  verbosity := rfl

/-- Worlds that look the same from the global scope but for one name, which is bound to a value in
the second. -/
structure World.SameBut (x : Text) (value : Value) (w v : World) : Prop where
  output : w.output = v.output
  trace : w.trace = v.trace
  others : ∀ name, name ≠ x → ((w.scopeAt globalScope).get? name).map Value.look =
    ((v.scopeAt globalScope).get? name).map Value.look
  bound : (v.scopeAt globalScope).get? x = some value

/-- At first the global scopes are paired, and the builtins that print. -/
def Pairing.origin : Pairing where
  scope i j := i = 0 ∧ j = 0
  identity i j := i = 0 ∧ j = 0
  scope_iff _ _ _ _ h h' := iff_of_true (h.1.trans h'.1.symm) (h.2.trans h'.2.symm)
  identity_iff _ _ _ _ h h' := iff_of_true (h.1.trans h'.1.symm) (h.2.trans h'.2.symm)

theorem World.FreshBut.tied {verbosity : Nat} {x : Text} {value : Value} {u : World}
    (h : u.FreshBut verbosity x value) :
    (Coding.without x).Tied Pairing.origin (World.fresh verbosity) u where
  scope_lt := by
    rintro i j ⟨rfl, rfl⟩
    exact ⟨Nat.one_pos, h.size_pos⟩
  identity_lt := by
    rintro i j ⟨rfl, rfl⟩
    exact ⟨Nat.one_pos, h.identity_pos⟩
  scopes := by
    rintro i j ⟨rfl, rfl⟩ name hname
    have hscope : (World.fresh verbosity).scopeAt globalScope =
        Scope.empty.bind "print" (.builtin ⟨0, "print", .print⟩) := rfl
    show Option.Rel _ (((World.fresh verbosity).scopeAt globalScope).get? name)
      ((u.scopeAt globalScope).get? name)
    rw [h.others name (bne_iff_ne.mp hname), hscope, Scope.get?_bind]
    split
    · exact .some (.builtin ⟨rfl, rfl⟩ rfl rfl rfl)
    · exact .none
  output := h.output.symm
  trace := h.trace.symm
  tracing := h.tracing.symm
  verbosity := h.verbosity.symm
  silent := False.elim

/-- What tied worlds show of a name that is left open, and of the others. -/
theorem Coding.Advances.sameBut {x : Text} {value : Value} {p : Pairing} {u w v : World}
    (h : (Coding.without x).Advances Pairing.origin p u w v) (hsize : 0 < u.scopes.size)
    (hbound : (u.scopeAt World.globalScope).get? x = some value) : w.SameBut x value v where
  output := h.tied.output
  trace := h.tied.trace
  others _ hname := h.tied.look_eq (h.grows.scope ⟨rfl, rfl⟩) (bne_iff_ne.mpr hname)
  bound := (h.keeps.get?_eq _ hsize x (bne_self_eq_false x)).trans hbound

/-- **What a program does not mention cannot influence it.**  Let a name be used in no statement of
a program, and let the host have bound it to any value in a new world, having made any scopes and
functions before.  A run there ends like a run in a new world without the binding: with the same
fault, or with a value that looks the same.  It prints and traces the same, every other name of the
global scope is bound to what looks the same, and the name itself is still bound to its value. -/
theorem run_unmentioned {verbosity : Nat} {x : Text} {value : Value} {u : World}
    (hu : u.FreshBut verbosity x value) {body : List Node} (hbody : ∀ n ∈ body, ¬ n.Uses x)
    (bound : Nat) :
    Concur (fun a b => a.look = b.look) (World.SameBut x value)
      (run bound body World.globalScope) (run bound body World.globalScope)
      (World.fresh verbosity) u := by
  have hcode : (Coding.without x).body body body := .of_forall₂ (Node.forall₂_sameWithout hbody)
  have hruns := Coding.tracks_run bound hcode hu.tied (i := 0) (j := 0) ⟨rfl, rfl⟩
  refine Relates.mono hruns ?_ ?_
  · rintro a b w v ⟨q, hadvances, hab⟩
    exact ⟨hab.look_eq, hadvances.sameBut hu.size_pos hu.bound⟩
  · rintro e f w v ⟨hef, q, hadvances⟩
    exact ⟨hef, hadvances.sameBut hu.size_pos hu.bound⟩

/-- The theorem for a program that declares a function and calls it, in a world where the host has
made and bound a function of its own. -/
theorem run_unmentioned_closure :
    (((World.fresh 3).addClosure "g" [] [] World.globalScope).2.bind World.globalScope "y"
      (.closure ⟨1, "g", [], [], World.globalScope⟩)).FreshBut 3 "y"
        (.closure ⟨1, "g", [], [], World.globalScope⟩) ∧
    (∀ n ∈ [Node.function "f" ["a"] [.returning (.identifier "a")],
      .expression (.call (.identifier "f") [.identifier "f"])], ¬ n.Uses "y") ∧
    Concur (fun a b => a.look = b.look)
      (World.SameBut "y" (.closure ⟨1, "g", [], [], World.globalScope⟩))
      (run 9 [Node.function "f" ["a"] [.returning (.identifier "a")],
        .expression (.call (.identifier "f") [.identifier "f"])] World.globalScope)
      (run 9 [Node.function "f" ["a"] [.returning (.identifier "a")],
        .expression (.call (.identifier "f") [.identifier "f"])] World.globalScope)
      (World.fresh 3)
      (((World.fresh 3).addClosure "g" [] [] World.globalScope).2.bind World.globalScope "y"
        (.closure ⟨1, "g", [], [], World.globalScope⟩)) := by
  have hworld := World.freshBut_bind 3 1 "y" (.closure ⟨1, "g", [], [], World.globalScope⟩)
  have hbody : ∀ n ∈ [Node.function "f" ["a"] [.returning (.identifier "a")],
      .expression (.call (.identifier "f") [.identifier "f"])], ¬ n.Uses "y" := by
    simp [Node.Uses, Node.mentions_function, Node.mentions_expression, Node.mentions_call,
      Node.mentions_returning, Node.mentions_identifier]
  exact ⟨hworld, hbody, run_unmentioned hworld hbody 9⟩

end Scriptlet
