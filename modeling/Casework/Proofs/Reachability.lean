import Casework.Proofs.Termination

/-!
Graphs that can be built.

New types, bound type variables, sealed variants and unified types: whatever is done to a
graph without positions, as long as references name nodes and no variable is bound to
itself, the graph stays well-formed and without positions.
-/

namespace Casework

namespace TypeGraph

variable {graph middle later : TypeGraph} {ref : Ref} {node : Node}

structure Tidy (graph : TypeGraph) : Prop where
  wellFormed : graph.WellFormed
  folded : graph.Folded

/-- A tidy graph that a graph has become. References that named nodes still do. -/
structure Becomes (graph later : TypeGraph) : Prop where
  tidy : later.Tidy
  grown : graph.size ≤ later.size

theorem Tidy.becomes (tidy : graph.Tidy) : graph.Becomes graph := ⟨tidy, Nat.le_refl _⟩

theorem Becomes.trans (first : graph.Becomes middle) (second : middle.Becomes later) :
    graph.Becomes later :=
  ⟨second.tidy, first.grown.trans second.grown⟩

theorem Becomes.has (becomes : graph.Becomes later) (has : graph.Has ref) :
    later.Has ref :=
  has.mono becomes.grown

theorem tidy_empty : ({} : TypeGraph).Tidy := by
  have empty : ∀ ref node, ({} : TypeGraph).node ref ≠ .ok node := by
    intro ref node found
    have has := has_of_node found
    have positive := has.1
    have small : ref.number ≤ (0 : Nat) := has.2
    omega
  constructor
  · constructor
    · exact fun ref node found => absurd found (empty ref node)
    · intro ref has
      rcases has_iff.1 has with ⟨node, found⟩
      exact absurd found (empty ref node)
    · exact fun ref node found => absurd found (empty ref node)
  · exact fun ref node found => absurd found (empty ref node)

theorem Tidy.rooted (tidy : graph.Tidy) (has : graph.Has ref) :
    ∃ target node, graph.Rooted ref target node ∧ node.form.isPosition = false := by
  rcases tidy.wellFormed.settles ref has with ⟨target, node, rooted⟩
  exact ⟨target, node, rooted, tidy.folded target node rooted.found⟩

theorem Tidy.text (tidy : graph.Tidy) (has : graph.Has ref) :
    ∃ text, graph.text ref = .ok text :=
  tidy.wellFormed.text tidy.folded.grounded has

theorem Alters.becomes {before after : Node}
    (alters : graph.Alters later ref before after) (tidy : graph.Tidy)
    (link : after.link = before.link) (parts : ∀ part ∈ after.form.refs, graph.Has part)
    (fair : after.form.Fair) (plain : after.form.isPosition = false) :
    graph.Becomes later :=
  ⟨⟨alters.wellFormed link tidy.wellFormed parts fair, alters.folded tidy.folded plain⟩,
    alters.size.ge⟩

end TypeGraph

namespace Build

open TypeGraph

variable {graph : TypeGraph} {failed : Failure → TypeGraph → Prop}

/-! ## New types -/

theorem yields_allocate_tidy (tidy : graph.Tidy) (form : Form)
    (parts : ∀ part ∈ form.refs, graph.Has part) (fair : form.Fair)
    (plain : form.isPosition = false) :
    (allocate { form := form }).Yields graph
      (fun ref later => graph.Becomes later ∧ later.Rooted ref ref { form := form })
        failed := by
  apply yields_allocate
  refine ⟨⟨⟨?_, ?_⟩, ?_⟩, rooted_allocate rfl⟩
  · exact tidy.wellFormed.allocate rfl parts fair
  · exact tidy.folded.allocate plain
  · rw [size_allocate]
    exact Nat.le_succ _

theorem yields_newVar (tidy : graph.Tidy) :
    newVar.Yields graph (fun ref later => graph.Becomes later ∧ later.Has ref) failed :=
  (yields_allocate_tidy tidy (.var none) (fun _ member => nomatch member) trivial rfl).imp
    fun _ _ made => ⟨made.1, made.2.has⟩

theorem yields_newPrimitive (tidy : graph.Tidy) (primitive : Primitive) :
    (newPrimitive primitive).Yields graph
      (fun ref later => graph.Becomes later ∧ later.Has ref) failed :=
  (yields_allocate_tidy tidy (.primitive primitive) (fun _ member => nomatch member)
    trivial rfl).imp
    fun _ _ made => ⟨made.1, made.2.has⟩

theorem yields_newFunction (tidy : graph.Tidy) {argument result : Ref}
    (argumentHas : graph.Has argument) (resultHas : graph.Has result) :
    (newFunction argument result).Yields graph
      (fun ref later => graph.Becomes later ∧ later.Has ref) failed := by
  apply (yields_allocate_tidy tidy (.function argument result) _ trivial rfl).imp
    fun _ _ made => ⟨made.1, made.2.has⟩
  intro part member
  simp only [Form.refs, Form.parameters, List.mem_cons, List.not_mem_nil,
    or_false] at member
  rcases member with rfl | rfl
  · exact argumentHas
  · exact resultHas

theorem yields_newList (tidy : graph.Tidy) {element : Ref}
    (elementHas : graph.Has element) :
    (newList element).Yields graph
      (fun ref later => graph.Becomes later ∧ later.Has ref) failed := by
  apply (yields_allocate_tidy tidy (.list element) _ trivial rfl).imp
    fun _ _ made => ⟨made.1, made.2.has⟩
  intro part member
  rw [List.mem_singleton.1 member]
  exact elementHas

theorem has_refs_ofList {entries : List (String × Ref)}
    (named : ∀ entry ∈ entries, graph.Has entry.2) :
    ∀ part ∈ (Row.ofList entries).refs, graph.Has part := by
  intro part member
  rcases List.mem_map.1 ((Row.ofList_spec entries).2 part member) with
    ⟨entry, listed, rfl⟩
  exact named entry listed

theorem yields_newOpen (tidy : graph.Tidy) (kind : RowKind)
    {entries : List (String × Ref)} (named : ∀ entry ∈ entries, graph.Has entry.2) :
    (newOpen kind entries).Yields graph
      (fun ref later => graph.Becomes later ∧ later.Has ref) failed := by
  apply (yields_allocate_tidy tidy (.row kind (.ofList entries) none) _
    (Row.fair_ofList entries) rfl).imp
    fun _ _ made => ⟨made.1, made.2.has⟩
  intro part member
  rcases List.mem_append.1 member with stored | bounded
  · exact has_refs_ofList named part stored
  · cases bounded

theorem yields_newClosed (tidy : graph.Tidy) (kind : RowKind)
    {entries : List (String × Ref)} (named : ∀ entry ∈ entries, graph.Has entry.2) :
    (newClosed kind entries).Yields graph
      (fun ref later => graph.Becomes later ∧ later.Has ref) failed := by
  apply (yields_allocate_tidy tidy
    (.row kind (.ofList entries) (some (.ofList entries))) _
    (Row.fair_ofList entries).seal rfl).imp fun _ _ made => ⟨made.1, made.2.has⟩
  intro part member
  exact (List.mem_append.1 member).elim (has_refs_ofList named part)
    (has_refs_ofList named part)

/-! ## Changed types -/

theorem yields_bind_tidy (tidy : graph.Tidy) {ref target : Ref} {node : Node}
    (found : graph.node ref = .ok node) (isVar : node.form.kind = .var)
    (unlinked : node.link = none) (targetHas : graph.Has target)
    (apart : graph.deref target ≠ .ok ref) :
    (bind ref target).Yields graph (fun _ later => graph.Becomes later) failed := by
  rcases tidy.wellFormed.settles target targetHas with ⟨root, rootNode, rooted⟩
  have different : root ≠ ref := by
    rintro rfl
    exact apart rooted.deref
  have numbered : target.number ≠ 0 := by
    have positive := targetHas.1
    omega
  unfold bind
  apply yields_read_bind found
  rw [isVar, unlinked]
  apply yields_update (has_of_node found)
  have alters := alters_update found fun node =>
    { node with link := if target.number = 0 then none else some target }
  refine ⟨⟨?_, alters.folded tidy.folded (tidy.folded ref node found)⟩, alters.size.ge⟩
  exact alters.wellFormed_of_linked unlinked (if_neg numbered) rooted different
    tidy.wellFormed targetHas
    (fun _ member => member) (tidy.wellFormed.fair ref node found)

theorem yields_sealVariant (tidy : graph.Tidy) {ref : Ref} (has : graph.Has ref) :
    (sealVariant ref).Yields graph (fun _ later => graph.Becomes later) failed := by
  rcases tidy.wellFormed.settles ref has with ⟨target, node, rooted⟩
  unfold sealVariant
  apply yields_look_bind rooted.root
  split
  next members form =>
      have fair := tidy.wellFormed.fair target node rooted.found
      have parts : ∀ part ∈ node.form.refs, graph.Has part :=
        fun _ => tidy.wellFormed.has_part rooted.found
      rw [form] at fair parts
      apply yields_updateRoot_bind rooted
      apply yields_pure
      refine Alters.becomes (alters_update rooted.found _) tidy rfl
        (fun part member => ?_) ?_ rfl
      · apply parts
        exact List.mem_append_left _ ((List.mem_append.1 member).elim id id)
      · exact Row.Fair.seal fair
  next => exact yields_pure tidy.becomes

theorem yields_unify_tidy (tidy : graph.Tidy) {left right : Ref}
    (leftHas : graph.Has left) (rightHas : graph.Has right) :
    (unify left right).Yields graph (fun _ later => graph.Becomes later)
      (fun failure later => (∃ clash, failure = .mismatch clash) ∧
        graph.Becomes later) := by
  apply (yields_unify (fun _ _ => True) (fun _ _ _ _ _ => trivial) tidy.wellFormed
    tidy.folded leftHas rightHas trivial).mono
  · rintro _ later ⟨wellFormed, folded, size, _⟩
    exact ⟨⟨wellFormed, folded⟩, size.ge⟩
  · rintro failure later ⟨clash, wellFormed, folded, size, _⟩
    exact ⟨clash, ⟨wellFormed, folded⟩, size.ge⟩

end Build

/-! ## Operations -/

inductive Operation where
  | newVar
  | newPrimitive (primitive : Primitive)
  | newFunction (argument result : Ref)
  | newList (element : Ref)
  | newOpen (kind : RowKind) (entries : List (String × Ref))
  | newClosed (kind : RowKind) (entries : List (String × Ref))
  | bind (ref target : Ref)
  | sealVariant (ref : Ref)
  | unify (left right : Ref)

namespace Operation

open Build

def run : Operation → Build Unit
  | newVar => do let _ ← Build.newVar
  | newPrimitive primitive => do let _ ← Build.newPrimitive primitive
  | newFunction argument result => do let _ ← Build.newFunction argument result
  | newList element => do let _ ← Build.newList element
  | newOpen kind entries => do let _ ← Build.newOpen kind entries
  | newClosed kind entries => do let _ ← Build.newClosed kind entries
  | bind ref target => Build.bind ref target
  | sealVariant ref => do let _ ← Build.sealVariant ref
  | unify left right => Build.unify left right

def Unbound (graph : TypeGraph) (ref : Ref) : Prop :=
  ∃ node, graph.node ref = .ok node ∧ node.form.kind = .var ∧ node.link = none

instance (graph : TypeGraph) (ref : Ref) : Decidable (Unbound graph ref) :=
  match found : graph.node ref with
  | .ok node =>
      decidable_of_iff (node.form.kind = .var ∧ node.link = none)
        (by simp [Unbound, found])
  | .error _ => isFalse (by simp [Unbound, found])

/-- References name nodes, and only an unbound type variable is bound, to a type that it
does not stand for. -/
def Allowed (graph : TypeGraph) : Operation → Prop
  | newVar => True
  | newPrimitive _ => True
  | newFunction argument result => graph.Has argument ∧ graph.Has result
  | newList element => graph.Has element
  | newOpen _ entries => ∀ entry ∈ entries, graph.Has entry.2
  | newClosed _ entries => ∀ entry ∈ entries, graph.Has entry.2
  | bind ref target => Unbound graph ref ∧ graph.Has target ∧ graph.deref target ≠ .ok ref
  | sealVariant ref => graph.Has ref
  | unify left right => graph.Has left ∧ graph.Has right

instance (graph : TypeGraph) :
    (operation : Operation) → Decidable (operation.Allowed graph)
  | newVar => inferInstanceAs (Decidable True)
  | newPrimitive _ => inferInstanceAs (Decidable True)
  | newFunction argument result =>
      inferInstanceAs (Decidable (graph.Has argument ∧ graph.Has result))
  | newList element => inferInstanceAs (Decidable (graph.Has element))
  | newOpen _ entries =>
      inferInstanceAs (Decidable (∀ entry ∈ entries, graph.Has entry.2))
  | newClosed _ entries =>
      inferInstanceAs (Decidable (∀ entry ∈ entries, graph.Has entry.2))
  | bind ref target =>
      inferInstanceAs
        (Decidable (Unbound graph ref ∧ graph.Has target ∧ graph.deref target ≠ .ok ref))
  | sealVariant ref => inferInstanceAs (Decidable (graph.Has ref))
  | unify left right => inferInstanceAs (Decidable (graph.Has left ∧ graph.Has right))

end Operation

/-- A graph that operations lead to, failed ones among them. -/
inductive TypeGraph.Reachable : TypeGraph → Prop where
  | empty : Reachable {}
  | run {graph : TypeGraph} (reachable : Reachable graph) (operation : Operation)
      (allowed : operation.Allowed graph) : Reachable (operation.run.on graph).2

namespace Operation

open Build TypeGraph

variable {graph : TypeGraph}

theorem yields_run (tidy : graph.Tidy) {operation : Operation}
    (allowed : operation.Allowed graph) :
    operation.run.Yields graph (fun _ later => graph.Becomes later)
      (fun _ later => graph.Becomes later) := by
  cases operation with
  | newVar => exact (yields_newVar tidy).bind fun _ _ made => yields_pure made.1
  | newPrimitive primitive =>
      exact (yields_newPrimitive tidy primitive).bind fun _ _ made => yields_pure made.1
  | newFunction argument result =>
      exact (yields_newFunction tidy allowed.1 allowed.2).bind fun _ _ made =>
        yields_pure made.1
  | newList element =>
      exact (yields_newList tidy allowed).bind fun _ _ made => yields_pure made.1
  | newOpen kind entries =>
      exact (yields_newOpen tidy kind allowed).bind fun _ _ made => yields_pure made.1
  | newClosed kind entries =>
      exact (yields_newClosed tidy kind allowed).bind fun _ _ made => yields_pure made.1
  | bind ref target =>
      rcases allowed with ⟨⟨node, found, isVar, unlinked⟩, targetHas, apart⟩
      exact yields_bind_tidy tidy found isVar unlinked targetHas apart
  | sealVariant ref =>
      exact (yields_sealVariant tidy allowed).bind fun _ _ becomes => yields_pure becomes
  | unify left right =>
      exact (yields_unify_tidy tidy allowed.1 allowed.2).mono (fun _ _ becomes => becomes)
        fun _ _ fails => fails.2

end Operation

theorem TypeGraph.Reachable.tidy {graph : TypeGraph} (reachable : graph.Reachable) :
    graph.Tidy := by
  induction reachable with
  | empty => exact tidy_empty
  | run _ operation allowed tidy => exact (Operation.yields_run tidy allowed).leaves.tidy

def TypeGraph.endlessLists : TypeGraph :=
  [.newVar, .newList ⟨1⟩, .bind ⟨1⟩ ⟨2⟩, .newVar, .newList ⟨3⟩, .bind ⟨3⟩ ⟨4⟩].foldl
    (fun graph operation => (Operation.run operation |>.on graph).2) {}

theorem TypeGraph.reachable_endlessLists : endlessLists.Reachable := by
  have first : Reachable _ :=
    .run (.run .empty .newVar trivial) (.newList ⟨1⟩) (by decide)
  have second : Reachable _ := .run first (.bind ⟨1⟩ ⟨2⟩) (by decide)
  have third : Reachable _ :=
    .run (.run second .newVar trivial) (.newList ⟨3⟩) (by decide)
  exact .run third (.bind ⟨3⟩ ⟨4⟩) (by decide)

end Casework
