import Scriptlet.Proofs.Simulation.Looks
import Scriptlet.Proofs.Simulation.Truncation

/-!
# Lists of statements made flatter

A block has no scope of its own, nothing is executed after a return, and what follows a conditional
follows whichever branch is taken.  Each of these is a law of statement lists, and each makes a list
flatter: it needs no more nesting afterwards than before.

* `Flattens` are the three laws.  `Flattens.refines` says that a flattened block does the same,
  unless the nested one ran out of its bound.
* `Node.Flattened`: the laws applied in the bodies of blocks and functions anywhere in a program.
* `Likeness.flattening`: such programs do the same, though the functions that they declare have
  different code.
* `flattening_preserves`: two lists of which one flattens to the other, and two programs that
  flatten to one and the same, cannot be told apart.
-/

namespace Scriptlet

/-- The laws of statement lists, from the nested side to the flat one. -/
inductive Flattens : List Node → List Node → Prop
  /-- A block in a list is its statements. -/
  | block (pre mid post : List Node) :
      Flattens (pre ++ [.block mid] ++ post) (pre ++ mid ++ post)
  /-- What follows a return makes no difference. -/
  | returning (pre : List Node) (argument : Node) (post : List Node) :
      Flattens (pre ++ [.returning argument] ++ post) (pre ++ [.returning argument])
  /-- What follows a conditional may as well stand in both branches. -/
  | conditional (pre : List Node) (test x y : Node) (post : List Node) :
      Flattens (pre ++ [.conditional test (.block ([x] ++ post)) (.block ([y] ++ post))])
        (pre ++ [.conditional test x y] ++ post)

/-! ## Statements after one another -/

/-- The statements that come after one are executed unless it returns. -/
def Outcome.andThen (rest : Run Outcome) : Outcome → Run Outcome
  | .proceed => rest
  | .returned value => pure (.returned value)

theorem executeEach_cons (exec : Node → Run Outcome) (node : Node) (nodes : List Node) :
    executeEach exec (node :: nodes) =
      (exec node >>= Outcome.andThen (executeEach exec nodes)) := by
  rw [executeEach]
  congr 1
  funext outcome
  cases outcome <;> rfl

theorem executeEach_append (exec : Node → Run Outcome) (ms ns : List Node) :
    executeEach exec (ms ++ ns) =
      (executeEach exec ms >>= Outcome.andThen (executeEach exec ns)) := by
  induction ms with
  | nil => rfl
  | cons node nodes ih =>
    rw [List.cons_append, executeEach_cons, executeEach_cons, ih, bind_assoc]
    congr 1
    funext outcome
    cases outcome <;> rfl

theorem executeEach_singleton (exec : Node → Run Outcome) (node : Node) :
    executeEach exec [node] = exec node := by
  rw [executeEach_cons]
  refine (congrArg (exec node >>= ·) (funext fun outcome => ?_)).trans (bind_pure (exec node))
  cases outcome <;> rfl

variable {E : Fault → Prop} {exec : Node → Run Outcome}

theorem refines_andThen {rest rest' : Run Outcome} (h : Refines E rest rest') (outcome : Outcome) :
    Refines E (outcome.andThen rest) (outcome.andThen rest') := by
  cases outcome with
  | proceed => exact h
  | returned value => exact Refines.refl _

/-- Part of a list may be exchanged for statements that refine it. -/
theorem refines_executeEach_append {ms ns : List Node}
    (h : Refines E (executeEach exec ms) (executeEach exec ns)) (pre post : List Node) :
    Refines E (executeEach exec (pre ++ ms ++ post)) (executeEach exec (pre ++ ns ++ post)) := by
  simp only [executeEach_append]
  refine Refines.bind ?_ fun outcome => Refines.refl _
  exact Refines.bind (Refines.refl _) fun outcome => refines_andThen h outcome

/-! ## The laws at one statement -/

variable (bound : Nat) (scope : ScopeId)

/-- A block does what its statements do, which are nested less without it. -/
theorem refines_execute_block (body : List Node) :
    Refines (· = .stackExhausted) (execute bound (.block body) scope)
      (executeEach (fun node => execute bound node scope) body) := by
  cases bound with
  | zero =>
    rw [execute_zero]
    exact Refines.of_escapes rfl _
  | succ bound =>
    rw [execute_block, ← executeBlock_succ]
    exact (walksRefine (Nat.le_add_right bound 2)).executeBlock body scope

/-- A return never proceeds. -/
theorem execute_returning_eq (argument : Node) : ∃ value : Run Value,
    execute bound (.returning argument) scope = (value >>= fun a => pure (.returned a)) := by
  cases bound with
  | zero =>
    refine ⟨throw .stackExhausted, ?_⟩
    rw [execute_zero]
    rfl
  | succ bound =>
    by_cases hargument : argument = .absent
    · rw [hargument, execute_returning_absent]
      refine ⟨do tell 3 fun _ => "return " ++ Value.undefined.display; return .undefined, ?_⟩
      simp only [bind_assoc, pure_bind]
    · refine ⟨do
        let value ← evaluate bound argument scope
        tell 3 fun _ => "return " ++ value.display
        return value, ?_⟩
      rw [execute_returning bound scope hargument]
      simp only [bind_assoc, pure_bind]

theorem executeEach_returning (argument : Node) (post : List Node) :
    executeEach (fun node => execute bound node scope) ([.returning argument] ++ post) =
      executeEach (fun node => execute bound node scope) [.returning argument] := by
  obtain ⟨value, hvalue⟩ := execute_returning_eq bound scope argument
  rw [executeEach_append, executeEach_singleton, hvalue, bind_assoc]
  rfl

/-- What stands in both branches does what follows the conditional. -/
theorem refines_execute_conditional (test x y : Node) (post : List Node) :
    Refines (· = .stackExhausted)
      (execute bound (.conditional test (.block ([x] ++ post)) (.block ([y] ++ post))) scope)
      (executeEach (fun node => execute bound node scope) ([.conditional test x y] ++ post)) := by
  rw [executeEach_append, executeEach_singleton]
  cases bound with
  | zero =>
    rw [execute_zero]
    exact Refines.of_escapes rfl _
  | succ bound =>
    have hbranch : ∀ branch, Refines (· = .stackExhausted)
        (execute bound (.block ([branch] ++ post)) scope)
        (execute bound branch scope >>=
          Outcome.andThen (executeEach (fun node => execute (bound + 1) node scope) post)) := by
      intro branch
      refine (refines_execute_block bound scope _).trans ?_
      rw [executeEach_append, executeEach_singleton]
      refine Refines.bind (Refines.refl _) fun outcome => refines_andThen ?_ outcome
      exact refines_executeEach
        (fun node => (walksRefine (Nat.le_add_right bound 1)).execute node scope) post
    rw [execute_conditional, execute_conditional]
    simp only [bind_assoc]
    refine Refines.bind (Refines.refl _) fun value => ?_
    refine Refines.bind (Refines.refl _) fun _ => ?_
    split
    · exact hbranch x
    · exact hbranch y

/-- **A flattened list does the same**, unless the nested one runs out of its bound. -/
theorem Flattens.refines {ms ns : List Node} (h : Flattens ms ns) :
    Refines (· = .stackExhausted) (executeBlock bound ms scope) (executeBlock bound ns scope) := by
  cases bound with
  | zero =>
    rw [executeBlock_zero]
    exact Refines.of_escapes rfl _
  | succ bound =>
    rw [executeBlock_succ, executeBlock_succ]
    cases h with
    | block pre mid post =>
      refine refines_executeEach_append ?_ pre post
      rw [executeEach_singleton]
      exact refines_execute_block bound scope mid
    | returning pre argument post =>
      rw [List.append_assoc, executeEach_append, executeEach_returning, ← executeEach_append]
      exact Refines.refl _
    | conditional pre test x y post =>
      rw [List.append_assoc, executeEach_append, executeEach_append, executeEach_singleton]
      refine Refines.bind (Refines.refl _) fun outcome => refines_andThen ?_ outcome
      exact refines_execute_conditional bound scope test x y post

theorem refines_of_flattens {ms ns : List Node} (h : Relation.ReflTransGen Flattens ms ns) :
    Refines (· = .stackExhausted) (executeBlock bound ms scope) (executeBlock bound ns scope) := by
  induction h with
  | refl => exact Refines.refl _
  | tail _ hlaw ih => exact ih.trans (hlaw.refines bound scope)

/-! ## In every context -/

/-- A node in which any number of bodies of blocks and functions, at any depth, have been made
flatter by any number of applications of the laws. -/
inductive Node.Flattened : Node → Node → Prop
  | same (node : Node) : Flattened node node
  | program {body body' : List Node} (hbody : List.Forall₂ Flattened body body') :
      Flattened (.program body) (.program body')
  | binary (operator : Json) {left left' right right' : Node} (hleft : Flattened left left')
      (hright : Flattened right right') :
      Flattened (.binary operator left right) (.binary operator left' right')
  | call {callee callee' : Node} {arguments arguments' : List Node}
      (hcallee : Flattened callee callee')
      (harguments : List.Forall₂ Flattened arguments arguments') :
      Flattened (.call callee arguments) (.call callee' arguments')
  | expression {body body' : Node} (hbody : Flattened body body') :
      Flattened (.expression body) (.expression body')
  | conditional {test test' consequent consequent' alternate alternate' : Node}
      (htest : Flattened test test') (hconsequent : Flattened consequent consequent')
      (halternate : Flattened alternate alternate') :
      Flattened (.conditional test consequent alternate) (.conditional test' consequent' alternate')
  | returning {argument argument' : Node} (hargument : Flattened argument argument') :
      Flattened (.returning argument) (.returning argument')
  | block {body between body' : List Node} (hlaws : Relation.ReflTransGen Flattens body between)
      (hbody : List.Forall₂ Flattened between body') : Flattened (.block body) (.block body')
  | function (name : Text) (params : List Text) {body between body' : List Node}
      (hlaws : Relation.ReflTransGen Flattens body between)
      (hbody : List.Forall₂ Flattened between body') :
      Flattened (.function name params body) (.function name params body')
  | whileLoop {test test' body body' : Node} (htest : Flattened test test')
      (hbody : Flattened body body') : Flattened (.whileLoop test body) (.whileLoop test' body')
  | declaration (name : Text) {initial initial' : Node} (hinitial : Flattened initial initial') :
      Flattened (.declaration name initial) (.declaration name initial')

/-- Bodies that the laws make flatter, with statements that have been made flatter themselves. -/
def FlattenedBody (ms ns : List Node) : Prop :=
  ∃ between, Relation.ReflTransGen Flattens ms between ∧ List.Forall₂ Node.Flattened between ns

theorem flattenedBody_self (nodes : List Node) : FlattenedBody nodes nodes :=
  ⟨nodes, .refl, List.forall₂_same.mpr fun node _ => .same node⟩

theorem Node.Flattened.absent_iff {node node' : Node} (h : node.Flattened node') :
    node = .absent ↔ node' = .absent := by
  cases h with
  | same => exact Iff.rfl
  | _ => exact iff_of_false nofun nofun

/-- What has been flattened in a node is a matter of the nodes below it. -/
theorem Node.Flattened.parallel {node node' : Node} (h : node.Flattened node') :
    Node.Parallel Flattened FlattenedBody (fun _ => true) (· = .stackExhausted) node node' := by
  cases h with
  | same => exact Node.parallel_self .same flattenedBody_self (fun _ => rfl) _ node
  | binary operator hleft hright => exact .binary operator hleft hright
  | call hcallee harguments => exact .call hcallee harguments
  | expression hbody => exact .expression hbody
  | conditional htest hconsequent halternate => exact .conditional htest hconsequent halternate
  | returning hargument => exact .returning hargument.absent_iff hargument
  | block hlaws hbody => exact .block ⟨_, hlaws, hbody⟩
  | function name params hlaws hbody =>
    exact .function rfl (fun _ _ => rfl) ⟨_, hlaws, hbody⟩
  | program | whileLoop | declaration => exact .refused ⟨rfl, rfl⟩ ⟨rfl, rfl⟩ rfl

/-- The likeness of a program and of one with flatter bodies. -/
def Likeness.flattening : Likeness where
  node := Node.Flattened
  body := FlattenedBody
  mentions _ := true
  scope i j := i = j
  identity i j := i = j
  escapes := (· = .stackExhausted)
  parallel := Node.Flattened.parallel
  bodies := by
    rintro ms ns ⟨between, hlaws, hbetween⟩
    exact ⟨between, hbetween, fun bound scope => refines_of_flattens bound scope hlaws⟩
  scope_iff := Eq.congr
  identity_iff := Eq.congr

theorem Likeness.inPlace_flattening : Likeness.flattening.InPlace where
  body := flattenedBody_self
  mentions _ := rfl
  scope _ _ := Iff.rfl
  identity _ _ := Iff.rfl

/-- **The laws hold in every context.**

* The two sides of a law do the same as blocks, in any scope of any world: they end with the same
  outcome or fault and leave one and the same world.
* Take two programs, and let the laws in the bodies of their blocks and functions, at whatever
  places, lead from both to one and the same program.  They end with the same fault or with values
  that look the same, they print and trace the same, and every scope binds the same names to values
  that look the same.

The two sides may have different bounds on nesting, as long as neither runs out of its own. -/
theorem flattening_preserves :
    (∀ ms ns, Flattens ms ns → ∀ bound bound' scope w,
      ¬ Exhausted (executeBlock bound ms scope w) → ¬ Exhausted (executeBlock bound' ns scope w) →
        executeBlock bound ms scope w = executeBlock bound' ns scope w) ∧
    (∀ body body' flat, List.Forall₂ Node.Flattened body flat →
      List.Forall₂ Node.Flattened body' flat → ∀ bound bound' scope w,
        ¬ Exhausted (run bound body scope w) → ¬ Exhausted (run bound' body' scope w) →
          SameLook (run bound body scope) (run bound' body' scope) w) := by
  refine ⟨fun ms ns hlaw bound bound' scope w hms hns => ?_,
    fun body body' flat hbody hbody' bound bound' scope w hrun hrun' => ?_⟩
  · have hleft := (hlaw.refines bound scope).trans
      ((walksRefine (Nat.le_max_left bound bound')).executeBlock ns scope)
    have hright := (walksRefine (Nat.le_max_right bound bound')).executeBlock ns scope
    exact eq_of_not_exhausted hleft hright hms hns
  · have hleft := (Likeness.inPlace_flattening.run_looks
      (Or.inr ⟨Nat.le_max_left bound bound', rfl⟩) hbody scope w).resolve_left hrun
    have hright := (Likeness.inPlace_flattening.run_looks
      (Or.inr ⟨Nat.le_max_right bound bound', rfl⟩) hbody' scope w).resolve_left hrun'
    exact hleft.trans hright.symm

/-- The theorem for a function that returns from both branches of a conditional, compared with one
that returns after it, and for its body. -/
theorem flattening_preserves_branches :
    (Flattens
        [.conditional (.literal (.boolean true)) (.block [.absent, .returning (.identifier "x")])
          (.block [.absent, .returning (.identifier "x")])]
        [.conditional (.literal (.boolean true)) .absent .absent, .returning (.identifier "x")] ∧
      executeBlock 9
          [.conditional (.literal (.boolean true)) (.block [.absent, .returning (.identifier "x")])
            (.block [.absent, .returning (.identifier "x")])] World.globalScope (World.fresh 3) =
        executeBlock 5
          [.conditional (.literal (.boolean true)) .absent .absent, .returning (.identifier "x")]
          World.globalScope (World.fresh 3)) ∧
    SameLook
      (run 9 [.function "f" ["x"]
          [.conditional (.literal (.boolean true)) (.block [.absent, .returning (.identifier "x")])
            (.block [.absent, .returning (.identifier "x")])],
        .expression (.call (.identifier "f") [.identifier "f"])] World.globalScope)
      (run 9 [.function "f" ["x"]
          [.conditional (.literal (.boolean true)) .absent .absent, .returning (.identifier "x")],
        .expression (.call (.identifier "f") [.identifier "f"])] World.globalScope)
      (World.fresh 3) := by
  have hlaw : Flattens
      [.conditional (.literal (.boolean true)) (.block [.absent, .returning (.identifier "x")])
        (.block [.absent, .returning (.identifier "x")])]
      [.conditional (.literal (.boolean true)) .absent .absent, .returning (.identifier "x")] :=
    .conditional [] _ .absent .absent [.returning (.identifier "x")]
  refine ⟨⟨hlaw, flattening_preserves.1 _ _ hlaw 9 5 World.globalScope (World.fresh 3) ?_ ?_⟩,
    flattening_preserves.2 _ _ _ (.cons (.function _ _ (.single hlaw) ?_) (.cons (.same _) .nil))
      (List.forall₂_same.mpr fun node _ => .same node) 9 9 World.globalScope (World.fresh 3) ?_ ?_⟩
  · decide +kernel
  · decide +kernel
  · exact List.forall₂_same.mpr fun node _ => .same node
  · decide +kernel
  · decide +kernel

end Scriptlet
