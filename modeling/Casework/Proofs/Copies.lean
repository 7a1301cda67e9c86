import Casework.Proofs.Forests
import Casework.Proofs.Reachability

/-!
Graphs in which a type is being copied.

An unfolding copies a type of a graph without positions. What is done to the copy is done
to nodes that the graph did not have, and these never lead back to the nodes it had. So
the original stays what it is.

While a pattern inside a list is checked, the type it is checked against is not yet part
of the copy. The nodes made for it do not lead to the nodes that were there before, so the
same is said with a base: the number of nodes that nothing is done to.
-/

namespace Casework

def Form.Snug : Form → Prop
  | .row _ members (some whole) => ∀ name, whole.get? name = members.get? name
  | _ => True

theorem Form.snug_of_isPlain {form : Form} (plain : form.isPlain) : form.Snug := by
  cases form with
  | row kind members bound =>
      cases bound with
      | none => trivial
      | some row => cases plain
  | _ => trivial

def Unfolding.Names (own : Unfolding) (ref : Ref) : Prop :=
  ref = own.root ∨ ref ∈ own.positions ∨ ∃ copy ∈ own.copies, ref ∈ copy.2

namespace TypeGraph

variable {original graph middle later : TypeGraph} {unfolding base top : Nat}
  {ref target : Ref} {node before after : Node}

def Lists (graph : TypeGraph) (unfolding : Nat) (ref : Ref) : Prop :=
  ∃ own, graph.unfoldings[unfolding]? = some own ∧ ref ∈ own.positions

instance (graph : TypeGraph) (unfolding : Nat) (ref : Ref) :
    Decidable (graph.Lists unfolding ref) :=
  match found : graph.unfoldings[unfolding]? with
  | some own => decidable_of_iff (ref ∈ own.positions) (by simp [Lists, found])
  | none => isFalse (by simp [Lists, found])

/-- A node above the base that leads only to such nodes. A position copies a type of the
original. -/
structure Placed (original : TypeGraph) (unfolding base : Nat)
    (graph : TypeGraph) (ref : Ref) (node : Node) : Prop where
  above : base < ref.number
  parts : ∀ part ∈ node.stored, base < part.number
  snug : node.form.Snug
  position : ∀ origin, node.form = .var (some origin) →
    original.Has origin.copied ∧ origin.unfolding = unfolding ∧ graph.Lists unfolding ref

/-- The book-keeping of an unfolding names nodes that the original does not have. -/
def Noted (original : TypeGraph) (unfolding : Nat) (graph : TypeGraph) : Prop :=
  ∃ own, graph.unfoldings[unfolding]? = some own ∧
    ∀ ref, own.Names ref → original.size < ref.number ∧ graph.Has ref

/-- A graph in which an unfolding copies a type of another. -/
structure Copying (original : TypeGraph) (unfolding base : Nat) (graph : TypeGraph) :
    Prop where
  wellFormed : graph.WellFormed
  frozen : ∀ ref, original.Has ref → graph.node ref = original.node ref
  low : original.size ≤ base
  small : base ≤ graph.size
  placed : ∀ (ref : Ref) node, original.size < ref.number → graph.node ref = .ok node →
    Placed original unfolding original.size graph ref node
  above : ∀ (ref : Ref) node, base < ref.number → graph.node ref = .ok node →
    ∀ part ∈ node.stored, base < part.number
  below : ∀ (ref : Ref) node, ref.number ≤ base → graph.node ref = .ok node →
    ∀ part ∈ node.stored, part.number ≤ base
  noted : Noted original unfolding graph

/-- What is done above the base: nodes up to it are not changed, and trees up to the top
stay trees. -/
structure Spares (base top : Nat) (graph later : TypeGraph) : Prop where
  grown : graph.size ≤ later.size
  untouched : ∀ ref, graph.Has ref → ref.number ≤ base → later.node ref = graph.node ref
  forests : ∀ (ref : Ref) nodes, ref.number ≤ top → graph.Forest [ref] nodes →
    ∃ all, later.Forest [ref] all

structure Advances (original : TypeGraph) (unfolding base top : Nat)
    (graph later : TypeGraph) : Prop where
  copying : Copying original unfolding base later
  spares : Spares base top graph later

theorem Spares.refl (base top : Nat) (graph : TypeGraph) : Spares base top graph graph :=
  ⟨Nat.le_refl _, fun _ _ _ => rfl, fun _ nodes _ forest => ⟨nodes, forest⟩⟩

theorem Spares.trans (first : Spares base top graph middle)
    (second : Spares base top middle later) :
    Spares base top graph later where
  grown := first.grown.trans second.grown
  untouched ref has small :=
    (second.untouched ref (has.mono first.grown) small).trans
      (first.untouched ref has small)
  forests ref nodes small forest := by
    rcases first.forests ref nodes small forest with ⟨all, grown⟩
    exact second.forests ref all small grown

theorem Spares.mono {lower less : Nat} (spares : Spares base top graph later)
    (lowerBase : lower ≤ base) (lessTop : less ≤ top) :
    Spares lower less graph later where
  grown := spares.grown
  untouched ref has small := spares.untouched ref has (by omega)
  forests ref nodes small := spares.forests ref nodes (by omega)

theorem Copying.refl (copying : Copying original unfolding base graph) (top : Nat) :
    Advances original unfolding base top graph graph :=
  ⟨copying, .refl base top graph⟩

theorem Advances.trans (first : Advances original unfolding base top graph middle)
    (second : Advances original unfolding base top middle later) :
    Advances original unfolding base top graph later :=
  ⟨second.copying, first.spares.trans second.spares⟩

theorem Advances.mono {less : Nat}
    (advances : Advances original unfolding base top graph later) (lessTop : less ≤ top) :
    Advances original unfolding base less graph later :=
  ⟨advances.copying, advances.spares.mono (Nat.le_refl _) lessTop⟩

theorem Advances.has (advances : Advances original unfolding base top graph later)
    (has : graph.Has ref) : later.Has ref :=
  has.mono advances.spares.grown

theorem Rooted.of_frozen (rooted : original.Rooted ref target node)
    (frozen : ∀ ref, original.Has ref → graph.node ref = original.node ref) :
    graph.Rooted ref target node := by
  refine ⟨rooted.leads.mono ?_, ?_, rooted.unlinked⟩
  · rintro own next ⟨ownNode, found, linked⟩
    exact ⟨ownNode, (frozen own (has_of_node found)).trans found, linked⟩
  · exact (frozen target rooted.has).trans rooted.found

/-! ## What copying keeps -/

namespace Copying

theorem change (copying : Copying original unfolding base graph)
    (wellFormed : later.WellFormed) (grown : graph.size ≤ later.size)
    (noted : Noted original unfolding later)
    (lists : ∀ ref, graph.Lists unfolding ref → later.Lists unfolding ref)
    (nodes : ∀ ref node, later.node ref = .ok node →
      graph.node ref = .ok node ∨ Placed original unfolding base later ref node) :
    Copying original unfolding base later where
  wellFormed := wellFormed
  frozen ref has := by
    have same := copying.frozen ref has
    rcases has_iff.1 has with ⟨node, found⟩
    rw [found] at same ⊢
    rcases has_iff.1 ((has_of_node same).mono grown) with ⟨own, ownFound⟩
    rcases nodes ref own ownFound with old | new
    · rw [ownFound, ← old, same]
    · have high := new.above
      have low := copying.low
      have small := has.2
      omega
  low := copying.low
  small := copying.small.trans grown
  placed ref node high found := by
    rcases nodes ref node found with old | new
    · have placed := copying.placed ref node high old
      refine ⟨placed.above, placed.parts, placed.snug, fun origin form => ?_⟩
      rcases placed.position origin form with ⟨has, own, listed⟩
      exact ⟨has, own, lists ref listed⟩
    · refine ⟨high, fun part member => ?_, new.snug, new.position⟩
      have partAbove := new.parts part member
      have low := copying.low
      omega
  above ref node high found := by
    rcases nodes ref node found with old | new
    · exact copying.above ref node high old
    · exact new.parts
  below ref node small found := by
    rcases nodes ref node found with old | new
    · exact copying.below ref node small old
    · have high := new.above
      omega
  noted := noted

theorem untouched (grown : graph.size ≤ later.size)
    (nodes : ∀ ref node, later.node ref = .ok node →
      graph.node ref = .ok node ∨ Placed original unfolding base later ref node) :
    ∀ ref, graph.Has ref → ref.number ≤ base → later.node ref = graph.node ref := by
  intro ref has small
  rcases has_iff.1 (has.mono grown) with ⟨node, found⟩
  rcases nodes ref node found with old | new
  · rw [found, old]
  · have high := new.above
    omega

theorem placed_above (copying : Copying original unfolding base graph)
    (high : base < ref.number) (found : graph.node ref = .ok node) :
    Placed original unfolding base graph ref node := by
  have low := copying.low
  have placed := copying.placed ref node (by omega) found
  exact ⟨high, copying.above ref node high found, placed.snug, placed.position⟩

theorem noted_of_eq (copying : Copying original unfolding base graph)
    (grown : graph.size ≤ later.size) (same : later.unfoldings = graph.unfoldings) :
    Noted original unfolding later := by
  rcases copying.noted with ⟨own, found, names⟩
  refine ⟨own, same ▸ found, fun ref named => ?_⟩
  exact ⟨(names ref named).1, (names ref named).2.mono grown⟩

theorem lists_of_eq (same : later.unfoldings = graph.unfoldings)
    (listed : graph.Lists unfolding ref) :
    later.Lists unfolding ref := by
  unfold Lists
  rw [same]
  exact listed

theorem placed_of_eq (same : later.unfoldings = graph.unfoldings)
    (placed : Placed original unfolding base graph ref node) :
    Placed original unfolding base later ref node :=
  ⟨placed.above, placed.parts, placed.snug, fun origin form =>
    ⟨(placed.position origin form).1, (placed.position origin form).2.1,
      lists_of_eq same (placed.position origin form).2.2⟩⟩

theorem has (copying : Copying original unfolding base graph) (has : original.Has ref) :
    graph.Has ref :=
  has.mono (copying.low.trans copying.small)

theorem rooted (copying : Copying original unfolding base graph)
    (rooted : original.Rooted ref target node) : graph.Rooted ref target node :=
  rooted.of_frozen copying.frozen

theorem origin (copying : Copying original unfolding base graph) (tidy : original.Tidy)
    {origin : Origin} (found : graph.node ref = .ok node)
    (form : node.form = .var (some origin)) :
    original.size < ref.number ∧ original.Has origin.copied ∧
      origin.unfolding = unfolding ∧
      graph.Lists unfolding ref := by
  have high : original.size < ref.number := by
    by_contra small
    have has : original.Has ref := ⟨(has_of_node found).1, by omega⟩
    rw [copying.frozen ref has] at found
    have plain := tidy.folded ref node found
    rw [form] at plain
    cases plain
  exact ⟨high, (copying.placed ref node high found).position origin form⟩

theorem grounded (copying : Copying original unfolding base graph)
    (tidy : original.Tidy) :
    graph.Grounded := by
  intro ref node origin found form
  rcases tidy.rooted (copying.origin tidy found form).2.1 with
    ⟨target, own, rooted, plain⟩
  exact ⟨target, own, copying.rooted rooted, plain⟩

theorem above_of_leads (copying : Copying original unfolding base graph)
    (leads : graph.Leads ref target) (high : base < ref.number) :
    base < target.number := by
  induction leads with
  | refl => exact high
  | link linked _ induction =>
      rcases linked with ⟨node, found, isLinked⟩
      exact induction (copying.above _ node high found _
        (node.mem_stored_of_link isLinked))

theorem text (copying : Copying original unfolding base graph) (tidy : original.Tidy)
    (has : graph.Has ref) : ∃ text, graph.text ref = .ok text :=
  copying.wellFormed.text (copying.grounded tidy) has

/-! ## Other bases -/

theorem rebase (copying : Copying original unfolding base graph) :
    Copying original unfolding graph.size graph where
  wellFormed := copying.wellFormed
  frozen := copying.frozen
  low := copying.low.trans copying.small
  small := Nat.le_refl _
  placed := copying.placed
  above ref node high found := by
    have small := (has_of_node found).2
    omega
  below ref node _ found part member :=
    (copying.wellFormed.stored ref node found part member).2
  noted := copying.noted

end Copying

theorem Advances.lower {higher : Nat}
    (advances : Advances original unfolding higher top graph later)
    (copying : Copying original unfolding base graph) (le : base ≤ higher)
    (small : higher ≤ graph.size) :
    Advances original unfolding base top graph later where
  copying := {
    wellFormed := advances.copying.wellFormed
    frozen := advances.copying.frozen
    low := copying.low
    small := copying.small.trans advances.spares.grown
    placed := advances.copying.placed
    above := by
      intro ref node high found part member
      by_cases old : ref.number ≤ higher
      · have has : graph.Has ref := ⟨(has_of_node found).1, by omega⟩
        rw [advances.spares.untouched ref has old] at found
        exact copying.above ref node high found part member
      · have partHigh := advances.copying.above ref node (by omega) found part member
        omega
    below := by
      intro ref node low found
      have has : graph.Has ref := ⟨(has_of_node found).1, by omega⟩
      rw [advances.spares.untouched ref has (by omega)] at found
      exact copying.below ref node low found
    noted := advances.copying.noted }
  spares := advances.spares.mono le (Nat.le_refl _)

/-! ## Single changes -/

theorem WellFormed.closed_allocate {added : Node} (wellFormed : graph.WellFormed)
    (ref : Ref) (node : Node) (small : ref.number ≤ graph.size)
    (found : (graph.allocate added).2.node ref = .ok node) :
    ∀ part ∈ node.stored, part.number ≤ graph.size := by
  intro part member
  rcases node_allocate_cases found with old | ⟨rfl, _⟩
  · exact (wellFormed.stored ref node old part member).2
  · change (graph.size + 1 : Int) ≤ graph.size at small
    omega

theorem keeps_allocate {added : Node} : graph.Keeps (graph.allocate added).2 ref :=
  fun node found => ⟨node, node_allocate_of_ok found added, rfl, rfl⟩

theorem spares_of_keeps (grown : graph.size ≤ later.size)
    (untouched : ∀ ref, graph.Has ref → ref.number ≤ base →
      later.node ref = graph.node ref)
    (keeps : ∀ ref, graph.Keeps later ref) : Spares base top graph later :=
  ⟨grown, untouched, fun _ nodes _ forest => ⟨nodes, forest.frame fun ref _ => keeps ref⟩⟩

namespace Copying

theorem allocate (copying : Copying original unfolding base graph) (form : Form)
    (parts : ∀ part ∈ form.refs, graph.Has part ∧ base < part.number) (fair : form.Fair)
    (snug : form.Snug) (plain : form.isPosition = false) (top : Nat) :
    Advances original unfolding base top graph (graph.allocate { form := form }).2 := by
  have grown : graph.size ≤ (graph.allocate { form := form }).2.size := by
    rw [size_allocate]
    exact Nat.le_succ _
  have nodes : ∀ ref node, (graph.allocate { form := form }).2.node ref = .ok node →
      graph.node ref = .ok node ∨
        Placed original unfolding base (graph.allocate { form := form }).2 ref node := by
    intro ref node found
    rcases node_allocate_cases found with old | ⟨rfl, rfl⟩
    · exact .inl old
    · refine .inr ⟨?_, fun part member => (parts part member).2, snug,
        fun origin isPosition => ?_⟩
      · have small := copying.small
        change (base : Int) < (graph.size + 1 : Int)
        omega
      · change form = _ at isPosition
        rw [isPosition] at plain
        cases plain
  constructor
  · apply copying.change _ grown (copying.noted_of_eq grown rfl)
      (fun _ => lists_of_eq rfl) nodes
    exact copying.wellFormed.allocate rfl (fun part member => (parts part member).1) fair
  · exact spares_of_keeps grown (untouched grown nodes) fun _ => keeps_allocate

theorem alter (copying : Copying original unfolding base graph)
    (alters : graph.Alters later ref before after) (high : base < ref.number)
    (wellFormed : later.WellFormed) (parts : ∀ part ∈ after.stored, base < part.number)
    (snug : after.form.Snug)
    (position : after.form = before.form ∨ after.form.isPosition = false) :
    Copying original unfolding base later ∧
      ∀ ref, graph.Has ref → ref.number ≤ base → later.node ref = graph.node ref := by
  have grown : graph.size ≤ later.size := alters.size.ge
  have nodes : ∀ ref node, later.node ref = .ok node →
      graph.node ref = .ok node ∨ Placed original unfolding base later ref node := by
    intro own node found
    rcases alters.node_cases found with ⟨rfl, rfl⟩ | ⟨_, old⟩
    · refine .inr ⟨high, parts, snug, fun origin isPosition => ?_⟩
      rcases position with same | plain
      · have placed := copying.placed_above high alters.found
        exact (placed_of_eq alters.unfoldings placed).position origin (same ▸ isPosition)
      · rw [isPosition] at plain
        cases plain
    · exact .inl old
  exact ⟨copying.change wellFormed grown (copying.noted_of_eq grown alters.unfoldings)
    (fun _ => lists_of_eq alters.unfoldings) nodes, untouched grown nodes⟩

theorem remark (copying : Copying original unfolding base graph)
    (alters : graph.Alters later ref before after) (high : base < ref.number)
    (form : after.form = before.form) (link : after.link = before.link) (top : Nat) :
    Advances original unfolding base top graph later := by
  have placed := copying.placed_above high alters.found
  have stored : after.stored = before.stored := by
    rw [Node.stored, Node.stored, form, link]
  have changed := copying.alter alters high
    (alters.wellFormed link copying.wellFormed
      (fun part member => copying.wellFormed.has_part alters.found (form ▸ member))
      (form ▸ copying.wellFormed.fair ref before alters.found))
    (stored ▸ placed.parts) (form ▸ placed.snug) (.inl form)
  refine ⟨changed.1, spares_of_keeps alters.size.ge changed.2 fun own node found => ?_⟩
  by_cases equal : own = ref
  · subst equal
    rw [alters.found] at found
    cases found
    exact ⟨after, alters.changed, form, link⟩
  · exact ⟨node, (alters.others own equal).trans found, rfl, rfl⟩

end Copying

theorem Alters.forests (alters : graph.Alters later ref before after)
    {extra added : List Ref}
    (closed : ∀ (ref : Ref) node, ref.number ≤ top → graph.node ref = .ok node →
      ∀ part ∈ node.stored, part.number ≤ top)
    (plain : before.form.isPlain → after.form.isPlain)
    (stored : after.stored = before.stored ++ extra) (grown : later.Forest extra added)
    (new : ∀ ref ∈ added, top < ref.number) (own : Ref) (nodes : List Ref)
    (small : own.number ≤ top) (forest : graph.Forest [own] nodes) :
    ∃ all, later.Forest [own] all := by
  have keeps : ∀ other, other ≠ ref → graph.Keeps later other := fun other different =>
    keeps_of_eq (alters.others other different)
  by_cases member : ref ∈ nodes
  · rcases forest.node_of_mem member with ⟨node, found, nodePlain, _⟩
    rw [alters.found] at found
    cases found
    have old : ∀ other ∈ nodes, other.number ≤ top := by
      refine forest.within closed fun other listed => ?_
      rw [List.mem_singleton.1 listed]
      exact small
    have apart : nodes.Disjoint added := by
      intro other first second
      have low := old other first
      have high := new other second
      omega
    rcases forest.graft alters.found alters.changed (plain nodePlain) stored grown apart
      (fun other _ => keeps other) with ⟨all, result, _⟩
    exact ⟨all, result⟩
  · exact ⟨nodes, forest.frame fun other listed => keeps other fun equal =>
      member (equal ▸ listed)⟩

end TypeGraph

end Casework
