import Scriptlet.Proofs.Documents.Reloading
import Scriptlet.Proofs.Grammar.Roles
import Scriptlet.Proofs.Simulation.Walks

/-!
# Running a tree that came back

A program that text spells does the same when it is written into a document and loaded again.
What comes back is not the same tree: loops and declarations come back as foreign nodes.  But
these are refused with the same words, and a number in a text has no sign that it could lose.

* `Literal.reloads_unchanged`: so literals of a text come back as they are.
* `Node.ComesBackAs`: the nodes of a text, and what comes back of them.
* `Likeness.reloading`: they do the same, node by node, and hence in whole runs.
* `run_reloaded` is the result.
-/

namespace Scriptlet

open Json (field?)

/-- A number without a sign is written as an integer and read as the number again, or it is no
integer and is kept as it is. -/
theorem Literal.reloads_unchanged {value : Literal}
    (hsign : ∀ x, value = .number x → Binary64.isNegative x = false) :
    Literal.ofJson value.toJson = .ok value := by
  cases value with
  | undefined => rfl
  | boolean b => rfl
  | string s => rfl
  | number x =>
    cases hx : Binary64.toInt? x with
    | none =>
      rw [Literal.toJson_of_toInt?_eq_none hx]
      rfl
    | some n =>
      rw [Literal.toJson_of_toInt? hx]
      exact Literal.ofJson_of_ofInt?
        (Binary64.ofInt?_of_toInt?_of_not_isNegative (hsign x rfl) hx)

/-- Nothing else comes back as nothing. -/
theorem Node.Restored.eq_absent {n : Node} (h : n.Restored .absent) : n = .absent := by
  cases h
  rfl

variable [CharacterNames]

/-- A node of a text, and the node that comes back of it. -/
structure Node.ComesBackAs (ts : List Token) (n n' : Node) : Prop where
  plays : ∃ role, n.Plays ts role
  denotes : n.toJson.Denotes n'
  restored : n.Restored n'

section Reloading

variable {ts : List Token}

theorem Node.comeBackAs_each {nodes nodes' : List Node}
    (hplays : ∀ n ∈ nodes, ∃ role, n.Plays ts role)
    (hdenotes : Json.DenoteEach (Node.toJsonList nodes) nodes')
    (hrestored : Node.RestoredEach nodes nodes') :
    List.Forall₂ (Node.ComesBackAs ts) nodes nodes' := by
  induction nodes generalizing nodes' with
  | nil =>
    cases hrestored
    exact .nil
  | cons n nodes ih =>
    rw [List.forall_mem_cons] at hplays
    rw [Node.toJsonList] at hdenotes
    cases hrestored with
    | cons hhead htail =>
      cases hdenotes with
      | cons hn hnodes => exact .cons ⟨hplays.1, hn, hhead⟩ (ih hplays.2 hnodes htail)

/-- What comes back of a node does the same. -/
theorem Node.ComesBackAs.parallel {n n' : Node} (h : n.ComesBackAs ts n') :
    Node.Parallel (Node.ComesBackAs ts) (List.Forall₂ (Node.ComesBackAs ts)) (fun _ => true)
      (fun _ => False) n n' := by
  obtain ⟨⟨role, hplays⟩, hdenotes, hrestored⟩ := h
  cases hplays with
  | literal hsign _ =>
    cases hrestored with
    | literal same =>
      rw [Node.toJson] at hdenotes
      cases hdenotes with
      | literal _ hvalue =>
        have hsame := (Literal.reloads_unchanged hsign).symm.trans hvalue
        obtain rfl := Except.ok.inj hsame
        exact .literal _
  | identifier name =>
    cases hrestored
    exact .identifier rfl
  | binary hoperator first second =>
    cases hrestored with
    | binary _ hfirst hsecond =>
      rw [Node.toJson] at hdenotes
      cases hdenotes with
      | binary _ _ hleft hright hdenotes hdenotes' =>
        obtain rfl := Option.some.inj hleft
        obtain rfl := Option.some.inj hright
        exact .binary _ ⟨⟨_, first⟩, hdenotes, hfirst⟩ ⟨⟨_, second⟩, hdenotes', hsecond⟩
  | call called each =>
    cases hrestored with
    | call hcalled heach =>
      rw [Node.toJson] at hdenotes
      cases hdenotes with
      | call _ hcallee harguments hdenotes hdenotes' =>
        obtain rfl := Option.some.inj hcallee
        obtain rfl := Json.array.inj (Option.some.inj harguments)
        exact .call ⟨⟨_, called⟩, hdenotes, hcalled⟩
          (Node.comeBackAs_each (fun n hn => ⟨_, each n hn⟩) hdenotes' heach)
  | absent =>
    cases hrestored
    exact .absent
  | expression inner =>
    cases hrestored with
    | expression hinner =>
      rw [Node.toJson] at hdenotes
      cases hdenotes with
      | expression _ hbody hdenotes =>
        obtain rfl := Option.some.inj hbody
        exact .expression ⟨⟨_, inner⟩, hdenotes, hinner⟩
  | conditional tested one other =>
    cases hrestored with
    | conditional htested hone hother =>
      rw [Node.toJson] at hdenotes
      cases hdenotes with
      | conditional _ htest hconsequent hdenotes hdenotes' hdenotes'' =>
        obtain rfl := Option.some.inj htest
        obtain rfl := Option.some.inj hconsequent
        exact .conditional ⟨⟨_, tested⟩, hdenotes, htested⟩ ⟨⟨_, one⟩, hdenotes', hone⟩
          ⟨⟨_, other⟩, hdenotes'', hother⟩
  | returningNothing =>
    cases hrestored with
    | returning hinner =>
      rw [Node.toJson] at hdenotes
      cases hdenotes with
      | returning _ hdenotes =>
        cases hinner
        exact .returning Iff.rfl ⟨⟨_, .absent⟩, hdenotes, .absent⟩
  | returning inner =>
    cases hrestored with
    | returning hinner =>
      rw [Node.toJson] at hdenotes
      cases hdenotes with
      | returning _ hdenotes =>
        refine .returning (iff_of_false inner.ne_absent ?_) ⟨⟨_, inner⟩, hdenotes, hinner⟩
        rintro rfl
        exact inner.ne_absent hinner.eq_absent
  | block each =>
    cases hrestored with
    | block heach =>
      rw [Node.toJson] at hdenotes
      cases hdenotes with
      | block _ hbody hdenotes =>
        obtain rfl := Json.array.inj (Option.some.inj hbody)
        exact .block (Node.comeBackAs_each (fun n hn => ⟨_, each n hn⟩) hdenotes heach)
  | function name hparams each =>
    cases hrestored with
    | function _ _ heach =>
      rw [Node.toJson] at hdenotes
      cases hdenotes with
      | function _ _ _ hbody _ _ hdenotes =>
        obtain rfl := Option.some.inj hbody
        cases hdenotes with
        | block _ hbody hdenotes =>
          obtain rfl := Json.array.inj (Option.some.inj hbody)
          exact .function rfl (fun _ _ => rfl)
            (Node.comeBackAs_each (fun n hn => ⟨_, each n hn⟩) hdenotes heach)
  | whileLoop hword test body =>
    cases hrestored
    exact .refused ⟨rfl, rfl⟩ ⟨rfl, rfl⟩ rfl
  | declaration isDeclarator hword name initial =>
    cases hrestored
    exact .refused ⟨rfl, rfl⟩ ⟨rfl, rfl⟩ rfl

/-- The likeness of a program and what comes back of it. -/
def Likeness.reloading (ts : List Token) : Likeness where
  node := Node.ComesBackAs ts
  mentions _ := true
  scope i j := i = j
  identity i j := i = j
  escapes _ := False
  parallel := Node.ComesBackAs.parallel
  bodies := Likeness.bodies_of_forall₂ _
  scope_iff := Eq.congr
  identity_iff := Eq.congr

end Reloading

/-- **A program of a text does the same when it is loaded from its document.**  In new worlds that
trace alike it ends in the same way, with the same fault if there is one, and prints and traces the
same. -/
theorem run_reloaded {source : String} {body : List Node} (h : parse source = .ok body) :
    ∃ body', Node.ofJson (Node.program body).toJson = .ok (.program body') ∧
      ∀ bound verbosity, Relates (run bound body World.globalScope)
        (run bound body' World.globalScope) (World.fresh verbosity) (World.fresh verbosity)
        (fun _ _ w v => w.output = v.output ∧ w.trace = v.trace)
        fun e f w v => e = f ∧ w.output = v.output ∧ w.trace = v.trace := by
  obtain ⟨ts, -, hplays⟩ := plays_of_parse h
  obtain ⟨m, hdenotes, hrestored, -⟩ := (storable_of_parse h).reloads
  have hloads := Node.ofJson_eq_ok_iff.mpr hdenotes
  cases hrestored with
  | @program _ body' hrestored =>
    rw [Node.toJson] at hdenotes
    cases hdenotes with
    | program _ hbody hdenotes =>
      obtain rfl := Json.array.inj (Option.some.inj hbody)
      have hnodes : List.Forall₂ (Likeness.reloading ts).node body body' :=
        Node.comeBackAs_each (fun n hn => ⟨_, hplays n hn⟩) hdenotes hrestored
      refine ⟨body', hloads, fun bound verbosity => ?_⟩
      have hheaps := (Likeness.reloading ts).heaps_fresh (fun _ _ => Iff.rfl) (fun _ => rfl)
        verbosity verbosity
      refine (Likeness.relates_run (fun _ => id) bound rfl hnodes hheaps rfl).mono ?_ ?_
      · rintro a b w v ⟨-, -, hsince⟩
        exact hsince.eq_of_origin
      · rintro e f w v ⟨hef, -, hsince⟩
        exact ⟨hef, hsince.eq_of_origin⟩

end Scriptlet
