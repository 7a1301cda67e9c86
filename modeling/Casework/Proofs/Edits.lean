import Casework.Proofs.Reachability

/-!
Graphs stay consistent.

Besides new types, bindings, seals and unifications, patterns leave notes on types and add
members to them. An edit that fails halfway keeps what it has done so far, and the next
one starts from there. The main statement is that no sequence of edits spoils a graph:
links lead to a node without one, what is stored is there, and a bound has the names of
the members.
-/

namespace Casework

/-! ## Edits -/

/-- What can be done to a type graph, notes of patterns and new members among it. -/
inductive Edit where
  | operation (own : Operation)
  | noteMatched (ref : Ref) (tag : String)
  | noteForms (ref : Ref) (forms : Marks)
  | putMember (ref : Ref) (name : String) (type : Ref)

def TypeGraph.Allows (graph : TypeGraph) (ref : Ref) (name : String) : Prop :=
  ∃ node, graph.root ref = .ok node ∧ node.form.bound?.all (·.contains name) = true

instance (graph : TypeGraph) (ref : Ref) (name : String) :
    Decidable (graph.Allows ref name) :=
  match found : graph.root ref with
  | .ok node =>
      decidable_of_iff (node.form.bound?.all (·.contains name) = true)
        (by simp [TypeGraph.Allows, found])
  | .error _ => isFalse (by simp [TypeGraph.Allows, found])

namespace Edit

def run : Edit → Build Unit
  | operation own => own.run
  | noteMatched ref tag => Build.noteMatched ref tag
  | noteForms ref forms => Build.noteForms ref forms
  | putMember ref name type => Build.putMember ref name type

def Allowed (graph : TypeGraph) : Edit → Prop
  | operation own => own.Allowed graph
  | noteMatched ref _ => graph.Has ref
  | noteForms ref _ => graph.Has ref
  | putMember ref name type => graph.Allows ref name ∧ graph.Has type

instance (graph : TypeGraph) : (edit : Edit) → Decidable (edit.Allowed graph)
  | operation own => inferInstanceAs (Decidable (own.Allowed graph))
  | noteMatched ref _ => inferInstanceAs (Decidable (graph.Has ref))
  | noteForms ref _ => inferInstanceAs (Decidable (graph.Has ref))
  | putMember ref name type =>
      inferInstanceAs (Decidable (graph.Allows ref name ∧ graph.Has type))

end Edit

namespace TypeGraph

def edited (graph : TypeGraph) (edits : List Edit) : TypeGraph :=
  edits.foldl (fun graph edit => (edit.run.on graph).2) graph

def Permits (graph : TypeGraph) : List Edit → Prop
  | [] => True
  | edit :: rest => edit.Allowed graph ∧ (edit.run.on graph).2.Permits rest

def decidablePermits (graph : TypeGraph) :
    (edits : List Edit) → Decidable (graph.Permits edits)
  | [] => inferInstanceAs (Decidable True)
  | edit :: rest =>
      have := (edit.run.on graph).2.decidablePermits rest
      inferInstanceAs (Decidable (_ ∧ _))

instance (graph : TypeGraph) (edits : List Edit) : Decidable (graph.Permits edits) :=
  graph.decidablePermits edits

end TypeGraph

/-! ## What one edit keeps -/

namespace Build

open TypeGraph

variable {graph : TypeGraph} {ref : Ref} {failed : Failure → TypeGraph → Prop}

theorem becomes_of_note {target : Ref} {node : Node} (tidy : graph.Tidy)
    (rooted : graph.Rooted ref target node) {change : Node → Node}
    (form : (change node).form = node.form) (link : (change node).link = node.link) :
    graph.Becomes (graph.update target change) := by
  apply (alters_update rooted.found change).becomes tidy link
  · rw [form]
    exact fun _ => tidy.wellFormed.has_part rooted.found
  · rw [form]
    exact tidy.wellFormed.fair target node rooted.found
  · rw [form]
    exact tidy.folded target node rooted.found

theorem yields_noteMatched_tidy (tidy : graph.Tidy) (has : graph.Has ref) (tag : String) :
    (noteMatched ref tag).Yields graph (fun _ later => graph.Becomes later) failed := by
  rcases tidy.wellFormed.settles ref has with ⟨target, node, rooted⟩
  exact yields_updateRoot rooted (becomes_of_note tidy rooted rfl rfl)

theorem yields_noteForms_tidy (tidy : graph.Tidy) (has : graph.Has ref) (forms : Marks) :
    (noteForms ref forms).Yields graph (fun _ later => graph.Becomes later) failed := by
  rcases tidy.wellFormed.settles ref has with ⟨target, node, rooted⟩
  exact yields_updateRoot rooted (becomes_of_note tidy rooted rfl rfl)

theorem yields_putMember_tidy (tidy : graph.Tidy) {name : String} {type : Ref}
    (allows : graph.Allows ref name) (typeHas : graph.Has type) :
    (putMember ref name type).Yields graph (fun _ later => graph.Becomes later)
      (fun _ later => graph.Becomes later) := by
  rcases allows with ⟨node, found, allowed⟩
  rcases rooted_of_root found with ⟨target, rooted⟩
  apply yields_look_bind found
  split
  next kind members bound form =>
      have fair := tidy.wellFormed.fair target node rooted.found
      have parts : ∀ part ∈ node.form.refs, graph.Has part :=
        fun _ => tidy.wellFormed.has_part rooted.found
      rw [form] at fair parts allowed
      apply yields_updateRoot rooted
      refine Alters.becomes (alters_update rooted.found _) tidy rfl
        (fun part member => ?_)
        (Row.Fair.put fair allowed) rfl
      rcases List.mem_append.1 member with stored | bounded
      · rcases Row.mem_refs_put stored with old | rfl
        · exact parts part (List.mem_append_left _ old)
        · exact typeHas
      · exact parts part (List.mem_append_right _ bounded)
  next => exact yields_throw tidy.becomes

end Build

namespace Edit

open Build TypeGraph

variable {graph : TypeGraph}

theorem yields_run_tidy (tidy : graph.Tidy) {edit : Edit} (allowed : edit.Allowed graph) :
    edit.run.Yields graph (fun _ later => graph.Becomes later)
      (fun _ later => graph.Becomes later) := by
  cases edit with
  | operation own => exact Operation.yields_run tidy allowed
  | noteMatched ref tag => exact yields_noteMatched_tidy tidy allowed tag
  | noteForms ref forms => exact yields_noteForms_tidy tidy allowed forms
  | putMember ref name type => exact yields_putMember_tidy tidy allowed.1 allowed.2

end Edit

namespace TypeGraph

variable {graph : TypeGraph} {ref other : Ref}

theorem Tidy.edited (tidy : graph.Tidy) {edits : List Edit}
    (permits : graph.Permits edits) :
    (graph.edited edits).Tidy := by
  induction edits generalizing graph with
  | nil => exact tidy
  | cons edit rest induction =>
      exact induction (Edit.yields_run_tidy tidy permits.1).leaves.tidy permits.2

/-! ## Consistent graphs -/

theorem Away.of_linked {count : Nat} (linked : Relation.TransGen graph.LinksTo ref other)
    (away : graph.Away count other) : ∃ more > count, graph.Away more ref := by
  induction linked generalizing count with
  | single linked => exact ⟨count + 1, Nat.lt_succ_self count, .link linked away⟩
  | tail _ linked induction =>
      rcases induction (.link linked away) with ⟨more, greater, further⟩
      exact ⟨more, Nat.lt_of_succ_lt greater, further⟩

theorem WellFormed.acyclic (wellFormed : graph.WellFormed) (ref : Ref) :
    ¬ Relation.TransGen graph.LinksTo ref ref := by
  intro cycle
  have has : graph.Has ref := by
    rcases Relation.TransGen.head'_iff.1 cycle with ⟨next, ⟨node, found, _⟩, _⟩
    exact has_of_node found
  rcases wellFormed.settles ref has with ⟨target, node, rooted⟩
  rcases rooted.exists_away with ⟨count, away⟩
  rcases Away.of_linked cycle away with ⟨more, greater, further⟩
  exact absurd (further.unique away) (Nat.ne_of_gt greater)

structure Consistent (graph : TypeGraph) : Prop where
  acyclic : ∀ ref, ¬ Relation.TransGen graph.LinksTo ref ref
  deref : ∀ ref, graph.Has ref → ∃ target node, graph.deref ref = .ok target ∧
    graph.node target = .ok node ∧ node.link = none
  stored : ∀ ref node, graph.node ref = .ok node → ∀ part ∈ node.stored, graph.Has part
  list : ∀ ref node, graph.node ref = .ok node → node.form.kind = .list →
    node.form.parameters.length = 1
  function : ∀ ref node, graph.node ref = .ok node → node.form.kind = .function →
    node.form.parameters.length = 2
  row : ∀ ref node, graph.node ref = .ok node → node.form.kind = .struct ∨
    node.form.kind = .variant →
    ∃ members, node.form.members? = some members
  bound : ∀ ref node members bound, graph.node ref = .ok node →
    node.form.members? = some members →
    node.form.bound? = some bound → ∀ name, bound.contains name ↔ members.contains name

/-- However a graph is edited, starting from the empty one, it is consistent. -/
theorem consistent_edited (edits : List Edit) (permits : ({} : TypeGraph).Permits edits) :
    (({} : TypeGraph).edited edits).Consistent := by
  have tidy := tidy_empty.edited permits
  generalize ({} : TypeGraph).edited edits = graph at tidy
  refine ⟨tidy.wellFormed.acyclic, ?_, tidy.wellFormed.stored, ?_, ?_, ?_, ?_⟩
  · intro ref has
    rcases tidy.wellFormed.settles ref has with ⟨target, node, rooted⟩
    exact ⟨target, node, rooted.deref, rooted.found, rooted.unlinked⟩
  · rintro ref ⟨form⟩ _ isList
    cases form with
    | list => rfl
    | row kind => cases kind <;> cases isList
    | _ => cases isList
  · rintro ref ⟨form⟩ _ isFunction
    cases form with
    | function => rfl
    | row kind => cases kind <;> cases isFunction
    | _ => cases isFunction
  · rintro ref ⟨form⟩ _ isRow
    cases form with
    | row kind members => exact ⟨members, rfl⟩
    | _ => rcases isRow with isStruct | isVariant <;> contradiction
  · rintro ref ⟨form⟩ members bound found isMembers isBound
    have fair := tidy.wellFormed.fair ref _ found
    cases form with
    | row kind =>
        cases isMembers
        exact fair.agreed bound isBound
    | _ => cases isMembers

def halfUnified : List Edit :=
  [.operation .newVar, .operation (.newPrimitive .number),
    .operation (.newPrimitive .text),
    .operation (.newClosed .struct [("a", ⟨1⟩), ("b", ⟨2⟩)]),
    .operation (.newClosed .struct [("a", ⟨2⟩), ("b", ⟨3⟩)]), .operation (.unify ⟨4⟩ ⟨5⟩),
    .putMember ⟨5⟩ "a" ⟨3⟩, .operation (.newOpen .variant [("A", ⟨4⟩)]),
    .noteMatched ⟨6⟩ "A",
    .operation (.sealVariant ⟨6⟩)]

theorem consistent_halfUnified : ({} : TypeGraph).Permits halfUnified ∧
    (({} : TypeGraph).edited halfUnified).Consistent :=
  ⟨by decide, consistent_edited halfUnified (by decide)⟩

end TypeGraph

end Casework
