import Scriptlet.Proofs.Settled
import Scriptlet.Proofs.Simulation.Tracking

/-!
# The order of declarations does not matter

Functions that are declared one after another may be declared in any order, as long as they have
different names.  They are made in that order, so the same function has one identity in one run and
another in the other, and so have the functions that its calls declare later.  But a program cannot
see identities; it can only see which functions are one and the same.

* `Permuted`: a statement list in which runs of neighbouring declarations have been permuted.
* `Node.Reordered`: a tree in which this has been done to statement lists at any depth.
  `ReorderedBody` is a statement list in which it has been done to the list itself and to what
  stands in it.
* `Coding.reordering`: the walks over such trees differ in nothing else.
* `Value.Nameless`: the value is not a builtin to which names are more than their meaning.
* `run_reordered` is the result.
-/

namespace Scriptlet

/-! ## Reordered programs -/

/-- Neighbouring declarations of functions with different names have been permuted, any number of
times in different places of the list. -/
inductive Permuted : List Node → List Node → Prop
  | nil : Permuted [] []
  | cons (node : Node) {ms ns : List Node} (tail : Permuted ms ns) :
      Permuted (node :: ms) (node :: ns)
  | functions {ds es : List Declaration} (hnames : (ds.map Declaration.name).Nodup)
      (hperm : es.Perm ds) {ms ns : List Node} (tail : Permuted ms ns) :
      Permuted (ds.map Declaration.node ++ ms) (es.map Declaration.node ++ ns)

theorem Permuted.refl (nodes : List Node) : Permuted nodes nodes := by
  induction nodes with
  | nil => exact .nil
  | cons node nodes ih => exact .cons node ih

/-- A tree in which declarations have been permuted in any number of statement lists. -/
inductive Node.Reordered : Node → Node → Prop
  | same (node : Node) : Reordered node node
  | program {body between body' : List Node} (hruns : Permuted body between)
      (hbody : List.Forall₂ Reordered between body') : Reordered (.program body) (.program body')
  | binary (operator : Json) {left left' right right' : Node} (hleft : Reordered left left')
      (hright : Reordered right right') :
      Reordered (.binary operator left right) (.binary operator left' right')
  | call {callee callee' : Node} {arguments arguments' : List Node}
      (hcallee : Reordered callee callee')
      (harguments : List.Forall₂ Reordered arguments arguments') :
      Reordered (.call callee arguments) (.call callee' arguments')
  | expression {body body' : Node} (hbody : Reordered body body') :
      Reordered (.expression body) (.expression body')
  | conditional {test test' consequent consequent' alternate alternate' : Node}
      (htest : Reordered test test') (hconsequent : Reordered consequent consequent')
      (halternate : Reordered alternate alternate') :
      Reordered (.conditional test consequent alternate) (.conditional test' consequent' alternate')
  | returning {argument argument' : Node} (hargument : Reordered argument argument') :
      Reordered (.returning argument) (.returning argument')
  | block {body between body' : List Node} (hruns : Permuted body between)
      (hbody : List.Forall₂ Reordered between body') : Reordered (.block body) (.block body')
  | function (name : Text) (params : List Text) {body between body' : List Node}
      (hruns : Permuted body between) (hbody : List.Forall₂ Reordered between body') :
      Reordered (.function name params body) (.function name params body')
  | whileLoop {test test' body body' : Node} (htest : Reordered test test')
      (hbody : Reordered body body') : Reordered (.whileLoop test body) (.whileLoop test' body')
  | declaration (name : Text) {initial initial' : Node} (hinitial : Reordered initial initial') :
      Reordered (.declaration name initial) (.declaration name initial')

/-- A statement list in which declarations have been permuted, and its statements reordered
themselves. -/
def ReorderedBody (ms ns : List Node) : Prop :=
  ∃ between, Permuted ms between ∧ List.Forall₂ Node.Reordered between ns

theorem reorderedBody_self (nodes : List Node) : ReorderedBody nodes nodes :=
  ⟨nodes, .refl nodes, List.forall₂_same.mpr fun node _ => .same node⟩

namespace Node.Reordered

variable {node node' : Node}

theorem absent_iff (h : node.Reordered node') : node = .absent ↔ node' = .absent := by
  cases h with
  | same => exact Iff.rfl
  | _ => exact iff_of_false nofun nofun

/-- A declaration stays one, of the same name. -/
theorem of_declaration {d : Declaration} (h : d.node.Reordered node') :
    ∃ e : Declaration, node' = e.node ∧ e.name = d.name := by
  obtain ⟨name, params, body⟩ := d
  cases h with
  | same => exact ⟨⟨name, params, body⟩, rfl, rfl⟩
  | @function _ _ _ _ body' => exact ⟨⟨name, params, body'⟩, rfl, rfl⟩

/-- Declarations stay declarations, of the same names. -/
theorem of_declarations {ds : List Declaration} {ms ns : List Node}
    (h : List.Forall₂ Node.Reordered (ds.map Declaration.node ++ ms) ns) :
    ∃ (es : List Declaration) (ns' : List Node), ns = es.map Declaration.node ++ ns' ∧
      es.map Declaration.name = ds.map Declaration.name ∧
      (∀ d ∈ ds, ∃ e ∈ es, d.node.Reordered e.node) ∧
      (∀ e ∈ es, ∃ d ∈ ds, d.node.Reordered e.node) ∧ List.Forall₂ Node.Reordered ms ns' := by
  induction ds generalizing ns with
  | nil => exact ⟨[], ns, rfl, rfl, nofun, nofun, h⟩
  | cons d ds ih =>
    cases h with
    | cons hhead hrest =>
      obtain ⟨e, rfl, hname⟩ := hhead.of_declaration
      obtain ⟨es, ns', rfl, hnames, forth, back, htail⟩ := ih hrest
      refine ⟨e :: es, ns', rfl, ?_, ?_, ?_, htail⟩
      · rw [List.map_cons, List.map_cons, hname, hnames]
      · refine List.forall_mem_cons.mpr ⟨⟨e, List.mem_cons_self .., hhead⟩, fun d' hd' => ?_⟩
        obtain ⟨e', he', hnode⟩ := forth d' hd'
        exact ⟨e', List.mem_cons_of_mem e he', hnode⟩
      · refine List.forall_mem_cons.mpr ⟨⟨d, List.mem_cons_self .., hhead⟩, fun e' he' => ?_⟩
        obtain ⟨d', hd', hnode⟩ := back e' he'
        exact ⟨d', List.mem_cons_of_mem d hd', hnode⟩

end Node.Reordered

/-- Walks see statements that are reordered themselves, and declarations in another order. -/
theorem ReorderedBody.rearranged {ms ns : List Node} (h : ReorderedBody ms ns) :
    Rearranged True Node.Reordered ms ns := by
  obtain ⟨between, hruns, heach⟩ := h
  induction hruns generalizing ns with
  | nil =>
    cases heach
    exact .nil
  | cons node _ ih =>
    cases heach with
    | cons hhead hrest => exact .cons hhead (ih hrest)
  | @functions ds es hnames hperm ms _ _ ih =>
    obtain ⟨es', ns', rfl, hnames', forth, back, hrest⟩ := Node.Reordered.of_declarations heach
    refine .functions trivial hnames ?_ (fun d hd => ?_) (fun e he => ?_) (ih hrest)
    · rw [hnames']
      exact (hperm.map Declaration.name).nodup_iff.mpr hnames
    · exact forth d (hperm.mem_iff.mpr hd)
    · obtain ⟨d, hd, hnode⟩ := back e he
      exact ⟨d, hperm.mem_iff.mp hd, hnode⟩

/-- What has been reordered in a node is a matter of the nodes below it. -/
theorem Node.Reordered.parallel {node node' : Node} (h : node.Reordered node') :
    Node.Parallel Reordered (Rearranged True Reordered) (fun _ => true) (fun _ => False) node
      node' := by
  cases h with
  | same =>
    exact Node.parallel_self .same (fun nodes => (reorderedBody_self nodes).rearranged)
      (fun _ => rfl) _ node
  | program => exact .refused ⟨rfl, rfl⟩ ⟨rfl, rfl⟩ rfl
  | binary operator hleft hright => exact .binary operator hleft hright
  | call hcallee harguments => exact .call hcallee harguments
  | expression hbody => exact .expression hbody
  | conditional htest hconsequent halternate => exact .conditional htest hconsequent halternate
  | returning hargument => exact .returning hargument.absent_iff hargument
  | block hruns hbody => exact .block (ReorderedBody.rearranged ⟨_, hruns, hbody⟩)
  | function name params hruns hbody =>
    exact .function rfl (fun _ _ => rfl) (ReorderedBody.rearranged ⟨_, hruns, hbody⟩)
  | whileLoop => exact .refused ⟨rfl, rfl⟩ ⟨rfl, rfl⟩ rfl
  | declaration => exact .refused ⟨rfl, rfl⟩ ⟨rfl, rfl⟩ rfl

/-- The code of a program and of one with its declarations in another order. -/
def Coding.reordering : Coding where
  node := Node.Reordered
  mentions _ := true
  reorders := True
  parallel := Node.Reordered.parallel

/-! ## Worlds in which names are nothing but names -/

/-- A value that is not a builtin to which names are more than their meaning. -/
def Value.Nameless (v : Value) : Prop := ∀ f, v = .builtin f → f.action.readsNames = false

/-- What a world has handed out stands for itself. -/
def Pairing.selves (w : World) : Pairing where
  scope i j := i = j ∧ i < w.scopes.size
  identity i j := i = j ∧ i < w.nextIdentity
  scope_iff _ _ _ _ h h' := by rw [h.1, h'.1]
  identity_iff _ _ _ _ h h' := by rw [h.1, h'.1]

theorem Coding.alike_selves {w : World} {v : Value} (hknown : w.Knows v) (hnames : v.Nameless) :
    Coding.reordering.Alike (Pairing.selves w) v v := by
  cases v with
  | undefined => exact .undefined
  | boolean b => exact .boolean b
  | number x => exact .number x
  | string s => exact .string s
  | closure f =>
    exact .closure ⟨rfl, hknown.1⟩ rfl rfl (fun _ _ => rfl) (reorderedBody_self f.body).rearranged
      ⟨rfl, hknown.2⟩
  | builtin f => exact .builtin ⟨rfl, hknown⟩ rfl rfl (hnames f rfl)

theorem Coding.tied_selves {w : World} (hw : w.Settled) (hsilent : w.verbosity = 0)
    (hnames : w.Holds Value.Nameless) :
    Coding.reordering.Tied (Pairing.selves w) w w where
  scope_lt := by
    rintro i _ ⟨rfl, hi⟩
    exact ⟨hi, hi⟩
  identity_lt := by
    rintro i _ ⟨rfl, hi⟩
    exact ⟨hi, hi⟩
  scopes := by
    rintro i _ ⟨rfl, -⟩ name -
    cases hv : (w.scopeAt i).get? name with
    | none => exact .none
    | some v =>
      exact .some (Coding.alike_selves ((hw.scopes i).get? hv) (hnames.bound i name v hv))
  output := rfl
  trace := rfl
  tracing := rfl
  verbosity := rfl
  silent _ := hsilent

/-- Worlds that look the same as far as scopes below this place go. -/
structure World.LooksLikeBelow (size : Nat) (w v : World) : Prop where
  output : w.output = v.output
  trace : w.trace = v.trace
  scopes : ∀ id < size, ∀ name, ((w.scopeAt id).get? name).map Value.look =
    ((v.scopeAt id).get? name).map Value.look

/-- **The order of neighbouring declarations does not matter.**  Let functions of different names
that are declared one after another be declared in another order, any number of times and at any
depth of a program.  In a world that traces nothing, the program ends with the same fault or with a
value that looks the same, and prints the same.  Every name of every scope that there was is bound
to what looks the same.  The bound on nesting is the same as well, so that neither program exhausts
it alone. -/
theorem run_reordered {body body' : List Node} (h : ReorderedBody body body') (bound : Nat)
    {scope : ScopeId} {w : World} (hw : w.Settled) (hsilent : w.verbosity = 0)
    (hnames : w.Holds Value.Nameless) (hscope : scope < w.scopes.size) :
    Concur (fun a b => a.look = b.look) (World.LooksLikeBelow w.scopes.size)
      (run bound body scope) (run bound body' scope) w w := by
  have hruns := Coding.tracks_run bound h.rearranged (Coding.tied_selves hw hsilent hnames)
    (i := scope) (j := scope) ⟨rfl, hscope⟩
  have hlooks : ∀ {q : Pairing} {w' v' : World},
      Coding.reordering.Advances (Pairing.selves w) q w w' v' →
        World.LooksLikeBelow w.scopes.size w' v' :=
    fun hadvances => ⟨hadvances.tied.output, hadvances.tied.trace, fun id hid name =>
      hadvances.tied.look_eq (hadvances.grows.scope ⟨rfl, hid⟩) rfl⟩
  refine Relates.mono hruns ?_ ?_
  · rintro a b w' v' ⟨q, hadvances, hab⟩
    exact ⟨hab.look_eq, hlooks hadvances⟩
  · rintro e f w' v' ⟨hef, q, hadvances⟩
    exact ⟨hef, hlooks hadvances⟩

/-- Two functions that call each other. -/
def mutualCalls : List Declaration :=
  [⟨"f", ["n"], [.conditional (.identifier "n")
      (.block [.returning (.call (.identifier "g") [.literal (.boolean false)])]) .absent]⟩,
    ⟨"g", ["n"], [.returning (.call (.identifier "f") [.identifier "n"])]⟩]

/-- The theorem for functions that call each other, declared in the block of a conditional and
called there. -/
theorem run_reordered_mutual :
    ReorderedBody
      [.conditional (.literal (.boolean true)) (.block (mutualCalls.map Declaration.node ++
        [.expression (.call (.identifier "g") [.literal (.boolean true)])])) .absent]
      [.conditional (.literal (.boolean true)) (.block (mutualCalls.reverse.map Declaration.node ++
        [.expression (.call (.identifier "g") [.literal (.boolean true)])])) .absent] ∧
    (World.fresh 0).Settled ∧ (World.fresh 0).verbosity = 0 ∧
    (World.fresh 0).Holds Value.Nameless ∧ World.globalScope < (World.fresh 0).scopes.size ∧
    Concur (fun a b => a.look = b.look) (World.LooksLikeBelow (World.fresh 0).scopes.size)
      (run 9 [.conditional (.literal (.boolean true)) (.block (mutualCalls.map Declaration.node ++
        [.expression (.call (.identifier "g") [.literal (.boolean true)])])) .absent]
          World.globalScope)
      (run 9 [.conditional (.literal (.boolean true))
        (.block (mutualCalls.reverse.map Declaration.node ++
          [.expression (.call (.identifier "g") [.literal (.boolean true)])])) .absent]
          World.globalScope)
      (World.fresh 0) (World.fresh 0) := by
  have hblock : Permuted (mutualCalls.map Declaration.node ++
        [.expression (.call (.identifier "g") [.literal (.boolean true)])])
      (mutualCalls.reverse.map Declaration.node ++
        [.expression (.call (.identifier "g") [.literal (.boolean true)])]) :=
    .functions (by decide) (List.reverse_perm mutualCalls) (.refl _)
  have hbody : ReorderedBody _ _ :=
    ⟨_, .refl _, .cons (.conditional (.same (.literal (.boolean true)))
      (.block hblock (List.forall₂_same.mpr fun n _ => .same n)) (.same .absent)) .nil⟩
  have hnames : (World.fresh 0).Holds Value.Nameless :=
    World.holds_fresh (fun f hf => by cases hf; rfl) 0
  have hsettled := World.settled_fresh 0
  have hscope : World.globalScope < (World.fresh 0).scopes.size := by decide
  exact ⟨hbody, hsettled, rfl, hnames, hscope,
    run_reordered hbody 9 hsettled rfl hnames hscope⟩

end Scriptlet
