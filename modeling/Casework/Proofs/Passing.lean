import Mathlib.Data.Finset.Card
import Mathlib.Data.Finset.Range
import Mathlib.Logic.Relation
import Casework.Proofs.Outcomes
import Casework.Proofs.WellFormed

/-!
Graphs in which types do not pass on to themselves.

A type passes on to the type that stands for it, and a position of an unfolding to the
type that it copies. As long as nothing passes on to itself, every type can be read and
every position can be expanded, whatever rows the graph has and however unfoldings are
stacked on each other. Expanding keeps such a graph, and it keeps the marks and the parts
of every node.
-/

namespace Casework

/-- Two nodes with the same marks and the same parts. -/
structure Node.Alike (before after : Node) : Prop where
  marks : after.marks = before.marks
  matched : after.matched = before.matched
  walked : after.walked = before.walked
  parameters : after.form.parameters = before.form.parameters
  members : after.form.members? = before.form.members?
  bound : after.form.bound? = before.form.bound?

theorem Node.Alike.refl (node : Node) : node.Alike node := ⟨rfl, rfl, rfl, rfl, rfl, rfl⟩

theorem Node.Alike.trans {before between after : Node} (first : before.Alike between)
    (second : between.Alike after) : before.Alike after :=
  ⟨second.marks.trans first.marks, second.matched.trans first.matched,
    second.walked.trans first.walked, second.parameters.trans first.parameters,
    second.members.trans first.members,
    second.bound.trans first.bound⟩

namespace TypeGraph

variable {graph middle later : TypeGraph} {ref next other target : Ref}
  {node before after : Node}

/-- A type passes on to another one: through its link or, if it is a position, to what it
copies. -/
inductive Passes (graph : TypeGraph) (ref : Ref) : Ref → Prop where
  | link {node : Node} {next : Ref} (found : graph.node ref = .ok node)
    (linked : node.link = some next) :
      Passes graph ref next
  | origin {node : Node} {origin : Origin} (found : graph.node ref = .ok node)
      (unlinked : node.link = none) (form : node.form = .var (some origin)) :
      Passes graph ref origin.copied

/-- All references are there, and nothing passes on to itself. -/
structure Founded (graph : TypeGraph) : Prop where
  stored : ∀ ref node, graph.node ref = .ok node → ∀ part ∈ node.stored, graph.Has part
  copied : ∀ ref node origin, graph.node ref = .ok node → node.form = .var (some origin) →
    graph.Has origin.copied
  acyclic : ∀ ref, ¬ Relation.TransGen graph.Passes ref ref

theorem Passes.has (passes : graph.Passes ref next) : graph.Has ref := by
  cases passes with
  | link found _ => exact has_of_node found
  | origin found _ _ => exact has_of_node found

theorem Founded.has_next (founded : graph.Founded) (passes : graph.Passes ref next) :
    graph.Has next := by
  cases passes with
  | link found linked => exact founded.stored _ _ found _ (Node.mem_stored_of_link linked)
  | origin found _ form => exact founded.copied _ _ _ found form

theorem not_passes (found : graph.node ref = .ok node) (unlinked : node.link = none)
    (plain : node.form.isPosition = false) : ¬ graph.Passes ref next := by
  intro passes
  cases passes with
  | link same linked =>
      rw [found] at same
      cases same
      rw [unlinked] at linked
      cases linked
  | origin same _ form =>
      rw [found] at same
      cases same
      rw [form] at plain
      cases plain

/-! ## Ranks -/

def Falls (graph : TypeGraph) (rank : Ref → Nat) : Prop :=
  ∀ ref next, graph.Passes ref next → rank next < rank ref

theorem Falls.lt_of_transGen {rank : Ref → Nat} (falls : graph.Falls rank)
    (chain : Relation.TransGen graph.Passes ref target) : rank target < rank ref := by
  induction chain with
  | single passes => exact falls _ _ passes
  | tail _ passes induction => exact (falls _ _ passes).trans induction

theorem Falls.acyclic {rank : Ref → Nat} (falls : graph.Falls rank) (ref : Ref) :
    ¬ Relation.TransGen graph.Passes ref ref :=
  fun chain => Nat.lt_irrefl _ (falls.lt_of_transGen chain)

open Classical in
noncomputable def below (graph : TypeGraph) (ref : Ref) : Finset Nat :=
  (Finset.range graph.size).filter fun index =>
    Relation.TransGen graph.Passes ref ⟨index + 1⟩

open Classical in
theorem mem_below {index : Nat} : index ∈ graph.below ref ↔
    index < graph.size ∧ Relation.TransGen graph.Passes ref ⟨index + 1⟩ := by
  rw [below, Finset.mem_filter, Finset.mem_range]

theorem Has.exists_number (has : graph.Has ref) :
    ∃ index : Nat, index < graph.size ∧ ref = ⟨index + 1⟩ := by
  rcases ref with ⟨number⟩
  have positive : 0 < number := has.1
  have small : number ≤ graph.size := has.2
  exact ⟨number.toNat - 1, by omega, by rw [Ref.mk.injEq]; omega⟩

theorem Founded.exists_rank (founded : graph.Founded) :
    ∃ rank : Ref → Nat, graph.Falls rank ∧ ∀ ref, graph.Has ref → rank ref <
      graph.size := by
  classical
  refine ⟨fun ref => (graph.below ref).card, fun ref next passes => ?_, fun ref has => ?_⟩
  · rcases (founded.has_next passes).exists_number with ⟨index, small, rfl⟩
    apply Finset.card_lt_card
    refine Finset.ssubset_iff_subset_ne.2 ⟨fun own member => ?_, fun same => ?_⟩
    · rw [mem_below] at member ⊢
      exact ⟨member.1, .head passes member.2⟩
    · have isBelow : index ∈ graph.below ref := mem_below.2 ⟨small, .single passes⟩
      rw [← same, mem_below] at isBelow
      exact founded.acyclic _ isBelow.2
  · rcases has.exists_number with ⟨index, small, rfl⟩
    have within : graph.below ⟨index + 1⟩ ⊂ Finset.range graph.size := by
      refine Finset.ssubset_iff_subset_ne.2 ⟨Finset.filter_subset _ _, fun same => ?_⟩
      have isBelow : index ∈ graph.below ⟨index + 1⟩ := same ▸ Finset.mem_range.2 small
      exact founded.acyclic _ (mem_below.1 isBelow).2
    exact (Finset.card_lt_card within).trans_eq (Finset.card_range _)

theorem Falls.le_of_leads {rank : Ref → Nat} (falls : graph.Falls rank)
    (leads : graph.Leads ref target) :
    rank target ≤ rank ref := by
  induction leads with
  | refl => exact Nat.le_refl _
  | link linked _ induction =>
      rcases linked with ⟨node, found, isLinked⟩
      exact induction.trans (falls _ _ (.link found isLinked)).le

/-! ## Reading -/

theorem Founded.settles (founded : graph.Founded) (has : graph.Has ref) :
    ∃ target node, graph.Rooted ref target node := by
  rcases founded.exists_rank with ⟨rank, falls, _⟩
  induction height : rank ref using Nat.strong_induction_on generalizing ref with
  | _ height induction =>
      rcases has_iff.1 has with ⟨node, found⟩
      cases linked : node.link with
      | none => exact ⟨ref, node, .self found linked⟩
      | some next =>
          have passes : graph.Passes ref next := .link found linked
          rcases induction _ (height ▸ falls _ _ passes)
            (founded.has_next passes) rfl with
            ⟨target, own, rooted⟩
          exact ⟨target, own, rooted.to_leads (.link ⟨node, found, linked⟩ (.refl next))⟩

theorem Founded.shown (founded : graph.Founded) {rank : Ref → Nat}
    (falls : graph.Falls rank) {fuel : Nat} (has : graph.Has ref)
    (enough : rank ref < fuel) :
    ∃ target node, graph.shown fuel ref = .ok (target, node.form) ∧
      graph.node target = .ok node := by
  induction fuel generalizing ref with
  | zero => omega
  | succ fuel induction =>
      rcases founded.settles has with ⟨target, node, rooted⟩
      rw [shown_succ rooted]
      split
      next origin form =>
          have passes : graph.Passes target origin.copied :=
            .origin rooted.found rooted.unlinked form
          have lower := falls _ _ passes
          have least := falls.le_of_leads rooted.leads
          exact induction (founded.has_next passes) (by omega)
      next => exact ⟨target, node, rfl, rooted.found⟩

theorem Founded.readable (founded : graph.Founded) : graph.Readable where
  parts ref node found _ member :=
    founded.stored ref node found _ (node.mem_stored_of_refs member)
  settles _ has := founded.settles has
  shows ref has := by
    rcases founded.exists_rank with ⟨rank, falls, small⟩
    exact founded.shown falls has (Nat.lt_succ_of_lt (small ref has))

/-! ## Adding and replacing nodes -/

theorem Founded.allocate (founded : graph.Founded) {added : Node}
    (unlinked : added.link = none) (parts : ∀ part ∈ added.form.refs, graph.Has part)
    (copied : ∀ origin, added.form = .var (some origin) → graph.Has origin.copied) :
    (graph.allocate added).2.Founded := by
  rcases founded.exists_rank with ⟨rank, falls, small⟩
  have hasToo (ref : Ref) (has : graph.Has ref) : (graph.allocate added).2.Has ref :=
    has_allocate_iff.2 (.inl has)
  refine ⟨fun ref node found part member => ?_, fun ref node origin found form => ?_, ?_⟩
  · rcases node_allocate_cases found with old | ⟨rfl, rfl⟩
    · exact hasToo _ (founded.stored ref node old part member)
    · rw [Node.stored, unlinked] at member
      exact hasToo _ (parts part member)
  · rcases node_allocate_cases found with old | ⟨rfl, rfl⟩
    · exact hasToo _ (founded.copied ref node origin old form)
    · exact hasToo _ (copied origin form)
  · -- The new node may pass on to others, but none of them passes on to it.
    let above : Ref → Nat := fun ref => if ref = (graph.allocate added).1 then
      graph.size else rank ref
    have old (ref : Ref) (has : graph.Has ref) : above ref = rank ref :=
      if_neg fun same : ref = (graph.allocate added).1 =>
        graph.not_has_allocate added (same ▸ has)
    have falling : (graph.allocate added).2.Falls above := by
      have known {ref next : Ref} (passes : graph.Passes ref next) :
          above next < above ref := by
        rw [old _ passes.has, old _ (founded.has_next passes)]
        exact falls _ _ passes
      intro ref next passes
      cases passes with
      | link found linked =>
          rcases node_allocate_cases found with before | ⟨rfl, rfl⟩
          · exact known (.link before linked)
          · rw [unlinked] at linked
            cases linked
      | origin found noLink form =>
          rcases node_allocate_cases found with before | ⟨rfl, rfl⟩
          · exact known (.origin before noLink form)
          · have has := copied _ form
            rw [old _ has]
            exact (small _ has).trans_eq (if_pos rfl).symm
    exact falling.acyclic

theorem Founded.alter (founded : graph.Founded)
    (alters : graph.Alters later ref before after)
    (stored : ∀ part ∈ after.stored, graph.Has part)
    (copied : ∀ origin, after.form = .var (some origin) → graph.Has origin.copied)
    (ends : ∀ next, later.Passes ref next → next ≠ ref ∧ ∀ far, ¬ graph.Passes next far) :
    later.Founded := by
  classical
  rcases founded.exists_rank with ⟨rank, falls, _⟩
  refine ⟨fun own node found part member => ?_, fun own node origin found form => ?_, ?_⟩
  · rw [alters.has_iff]
    rcases alters.node_cases found with ⟨rfl, rfl⟩ | ⟨_, old⟩
    · exact stored part member
    · exact founded.stored own node old part member
  · rw [alters.has_iff]
    rcases alters.node_cases found with ⟨rfl, rfl⟩ | ⟨_, old⟩
    · exact copied origin form
    · exact founded.copied own node origin old form
  · let lowered : Ref → Nat := fun own => if later.Passes ref own then 0 else rank own + 1
    have low {own : Ref} (passes : later.Passes ref own) : lowered own =
        0 := if_pos passes
    have high {own : Ref} (passes : ¬ later.Passes ref own) : lowered own = rank own +
        1 := if_neg passes
    have known {own next : Ref} (passes : graph.Passes own next) : lowered next <
        lowered own := by
      rw [high fun isEnd => (ends own isEnd).2 next passes]
      by_cases isEnd : later.Passes ref next
      · rw [low isEnd]
        exact Nat.succ_pos _
      · rw [high isEnd]
        exact Nat.succ_lt_succ (falls _ _ passes)
    have falling : later.Falls lowered := by
      intro own next passes
      by_cases same : own = ref
      · subst same
        rw [low passes, high fun loops => (ends own loops).1 rfl]
        exact Nat.succ_pos _
      · have unchanged := alters.others own same
        cases passes with
        | link found linked => exact known (.link (unchanged ▸ found) linked)
        | origin found unlinked form =>
            exact known (.origin (unchanged ▸ found) unlinked form)
    exact falling.acyclic

theorem Founded.of_nodes (founded : graph.Founded) (nodes : later.nodes = graph.nodes) :
    later.Founded := by
  have size : later.size = graph.size := congrArg Array.size nodes
  have same : ∀ ref, later.node ref = graph.node ref := fun ref => by
    rw [TypeGraph.node, index?, size, nodes]
    rfl
  have has : ∀ ref, graph.Has ref → later.Has ref := fun ref has => has.mono size.ge
  refine ⟨fun ref node found part member => ?_, fun ref node origin found form =>
    ?_, fun ref chain => ?_⟩
  · exact has _ (founded.stored ref node (same ref ▸ found) part member)
  · exact has _ (founded.copied ref node origin (same ref ▸ found) form)
  · refine founded.acyclic ref
      (Relation.TransGen.mono (fun own next passes => ?_) _ _ chain)
    cases passes with
    | link found linked => exact .link (same own ▸ found) linked
    | origin found unlinked form => exact .origin (same own ▸ found) unlinked form

/-! ## What expanding keeps -/

/-- Nodes have been added that are not being walked. Of the others only positions have
changed, and they have kept their marks and parts. -/
structure Resembles (graph later : TypeGraph) : Prop where
  founded : later.Founded
  size : graph.size ≤ later.size
  plain : ∀ ref node, graph.node ref = .ok node → node.form.isPosition = false →
    later.node ref = .ok node
  kept : ∀ ref node, graph.node ref = .ok node → ∃ after, later.node ref = .ok after ∧
    node.Alike after
  unwalked : ∀ ref node, later.node ref = .ok node → graph.Has ref ∨ node.walked = false

theorem Founded.resembles (founded : graph.Founded) : graph.Resembles graph where
  founded := founded
  size := Nat.le_refl _
  plain _ _ found _ := found
  kept _ node found := ⟨node, found, .refl node⟩
  unwalked _ _ found := .inl (has_of_node found)

theorem Resembles.trans (first : graph.Resembles middle)
    (second : middle.Resembles later) :
    graph.Resembles later where
  founded := second.founded
  size := first.size.trans second.size
  plain ref node found noPosition :=
    second.plain ref node (first.plain ref node found noPosition) noPosition
  kept ref node found := by
    rcases first.kept ref node found with ⟨between, middleFound, alike⟩
    rcases second.kept ref between middleFound with ⟨after, laterFound, further⟩
    exact ⟨after, laterFound, alike.trans further⟩
  unwalked ref node found := by
    rcases second.unwalked ref node found with old | unwalked
    · rcases has_iff.1 old with ⟨between, middleFound⟩
      rcases second.kept ref between middleFound with ⟨after, laterFound, alike⟩
      rw [found] at laterFound
      cases laterFound
      rw [alike.walked]
      exact first.unwalked ref between middleFound
    · exact .inr unwalked

theorem Resembles.has (resembles : graph.Resembles later) (has : graph.Has ref) :
    later.Has ref :=
  has.mono resembles.size

theorem Founded.resembles_allocate (founded : graph.Founded) {added : Node}
    (unlinked : added.link = none) (parts : ∀ part ∈ added.form.refs, graph.Has part)
    (copied : ∀ origin, added.form = .var (some origin) → graph.Has origin.copied)
    (unwalked : added.walked = false) : graph.Resembles (graph.allocate added).2 where
  founded := founded.allocate unlinked parts copied
  size := by
    rw [size_allocate]
    exact Nat.le_succ _
  plain _ _ found _ := node_allocate_of_ok found added
  kept _ node found := ⟨node, node_allocate_of_ok found added, .refl node⟩
  unwalked _ _ found := by
    rcases node_allocate_cases found with old | ⟨_, rfl⟩
    · exact .inl (has_of_node old)
    · exact .inr unwalked

theorem Resembles.alter (resembles : graph.Resembles middle)
    (alters : middle.Alters later ref before after) (founded : later.Founded)
    (position : ∀ node, graph.node ref = .ok node → node.form.isPosition = true ∧
      node.Alike after)
    (walked : after.walked = before.walked) : graph.Resembles later where
  founded := founded
  size := alters.size ▸ resembles.size
  plain own node found noPosition := by
    have different : own ≠ ref := by
      rintro rfl
      rw [(position node found).1] at noPosition
      cases noPosition
    exact (alters.others own different).trans (resembles.plain own node found noPosition)
  kept own node found := by
    by_cases equal : own = ref
    · subst equal
      exact ⟨after, alters.changed, (position node found).2⟩
    · rcases resembles.kept own node found with ⟨between, middleFound, same⟩
      exact ⟨between, (alters.others own equal).trans middleFound, same⟩
  unwalked own node found := by
    rcases alters.node_cases found with ⟨rfl, rfl⟩ | ⟨_, old⟩
    · exact (resembles.unwalked _ _ alters.found).imp_right walked.trans
    · exact resembles.unwalked own node old

theorem Resembles.of_nodes (resembles : graph.Resembles middle)
    (nodes : later.nodes = middle.nodes) :
    graph.Resembles later := by
  have size : later.size = middle.size := congrArg Array.size nodes
  have same : ∀ ref, later.node ref = middle.node ref := fun ref => by
    rw [TypeGraph.node, index?, size, nodes]
    rfl
  exact ⟨resembles.founded.of_nodes nodes, size ▸ resembles.size,
    fun ref node found => same ref ▸ resembles.plain ref node found,
    fun ref node found => same ref ▸ resembles.kept ref node found,
    fun ref node found => resembles.unwalked ref node (same ref ▸ found)⟩

theorem Resembles.expands {position copy : Ref} {linked : Node} {last : TypeGraph}
    {origin : Origin} (resembles : graph.Resembles middle)
    (found : graph.node position = .ok node) (form : node.form = .var (some origin))
    (isNew : ¬ graph.Has copy) (fills : middle.Alters later copy before after)
    (unlinked : after.link = none) (parts : ∀ part ∈ after.form.refs, middle.Has part)
    (plain : after.form.isPosition = false)
    (fillWalked : after.walked = before.walked) {old : Node}
    (links : later.Alters last position old linked) (linkedForm : linked.form = .var none)
    (isLinked : linked.link = some copy) (alike : node.Alike linked)
    (linkWalked : linked.walked = old.walked) :
    graph.Resembles last := by
  have apart : copy ≠ position := by
    rintro rfl
    exact isNew (has_of_node found)
  have ends : ∀ far, ¬ later.Passes copy far := fun _ =>
    not_passes fills.changed unlinked plain
  have filled : later.Founded := by
    refine resembles.founded.alter fills (fun part member => ?_) (fun origin isCopy => ?_)
      fun far passes => ?_
    · rw [Node.stored, unlinked] at member
      exact parts part member
    · rw [isCopy] at plain
      cases plain
    · exact absurd passes (ends far)
  have fillResembles : graph.Resembles later :=
    resembles.alter fills filled
      (fun _ copyFound => absurd (has_of_node copyFound) isNew) fillWalked
  refine fillResembles.alter links ?_ (fun own ownFound => ?_) linkWalked
  · refine filled.alter links (fun part member => ?_) (fun origin isCopy => ?_)
      fun next passes => ?_
    · have stored : linked.stored = [copy] := by
        rw [Node.stored, isLinked, linkedForm]
        rfl
      rw [stored] at member
      rw [List.mem_singleton.1 member]
      exact has_of_node fills.changed
    · rw [linkedForm] at isCopy
      cases isCopy
    · cases passes with
      | link positionFound positionLinked =>
          rw [links.changed] at positionFound
          cases positionFound
          rw [isLinked] at positionLinked
          cases positionLinked
          exact ⟨apart, ends⟩
      | origin positionFound noLink _ =>
          rw [links.changed] at positionFound
          cases positionFound
          rw [isLinked] at noLink
          cases noLink
  · rw [found] at ownFound
    cases ownFound
    exact ⟨by rw [form]; rfl, alike⟩

end TypeGraph

/-! ## Expanding -/

namespace Build

open TypeGraph

variable {graph : TypeGraph} {ref : Ref} {failed : Failure → TypeGraph → Prop}

theorem yields_newPosition_founded (founded : graph.Founded) (unfolding : Nat)
    (has : graph.Has ref) :
    (newPosition unfolding ref).Yields graph (fun position later =>
      graph.Resembles later ∧ later.Has position) failed := by
  rcases founded.settles has with ⟨target, node, rooted⟩
  apply yields_look_bind rooted.deref
  apply yields_look_bind rooted.found
  apply yields_allocate_bind
  apply yields_modify_bind
  have added :
      graph.Resembles (graph.allocate { form := .var (some ⟨target, unfolding⟩) }).2 := by
    refine founded.resembles_allocate rfl
      (fun _ member => (List.not_mem_nil member).elim) ?_ rfl
    rintro _ ⟨⟩
    exact rooted.has
  exact yields_pure ⟨added.of_nodes rfl, graph.has_allocate _⟩

theorem yields_newPositions_founded (founded : graph.Founded) (unfolding : Nat)
    {entries : List (String × Ref)}
    (has : ∀ entry ∈ entries, graph.Has entry.2) {known : Row}
    (knownHas : ∀ name ref, known.get? name = some ref → graph.Has ref) :
    (newPositions unfolding known entries).Yields graph
      (fun result later => graph.Resembles later ∧
      (∀ entry ∈ result.1, later.Has entry.2) ∧
        ∀ name ref, result.2.get? name = some ref → later.Has ref) failed := by
  induction entries generalizing graph known with
  | nil => exact yields_pure ⟨founded.resembles, nofun, knownHas⟩
  | cons entry rest induction =>
      rcases entry with ⟨name, copied⟩
      have restHas := fun entry member => has entry (List.mem_cons_of_mem _ member)
      rw [newPositions]
      split
      next position found =>
          apply (induction founded restHas knownHas).bind
          rintro ⟨entries, all⟩ later ⟨resembles, entriesHave, allHave⟩
          refine yields_pure ⟨resembles, fun own member => ?_, allHave⟩
          rcases List.mem_cons.1 member with rfl | further
          · exact resembles.has (knownHas name position found)
          · exact entriesHave own further
      next =>
          apply (yields_newPosition_founded founded unfolding
            (has _ List.mem_cons_self)).bind
          rintro position middle ⟨first, positionHas⟩
          have knownToo : ∀ label ref, (known.put name position).get? label = some ref →
              middle.Has ref := by
            intro label ref found
            by_cases equal : label = name
            · subst equal
              rw [Row.get?_put_self] at found
              cases found
              exact positionHas
            · rw [known.get?_put_of_ne equal] at found
              exact first.has (knownHas label ref found)
          apply (induction first.founded
            (fun own member => first.has (restHas own member)) knownToo).bind
          rintro ⟨entries, all⟩ later ⟨second, entriesHave, allHave⟩
          refine yields_pure ⟨first.trans second, fun own member => ?_, allHave⟩
          rcases List.mem_cons.1 member with rfl | further
          · exact second.has positionHas
          · exact entriesHave own further

theorem yields_copyForm_founded (founded : graph.Founded) (unfolding : Nat) {form : Form}
    (has : ∀ part ∈ form.refs, graph.Has part) :
    (copyForm unfolding form).Yields graph (fun copy later => graph.Resembles later ∧
      (∀ part ∈ copy.refs, later.Has part) ∧ copy.isPosition = false) failed := by
  cases form with
  | var origin =>
      exact yields_pure
        ⟨founded.resembles, fun _ member => (List.not_mem_nil member).elim, rfl⟩
  | primitive primitive =>
      exact yields_pure
        ⟨founded.resembles, fun _ member => (List.not_mem_nil member).elim, rfl⟩
  | function argument result =>
      apply (yields_newPosition_founded founded unfolding
        (has argument List.mem_cons_self)).bind
      rintro first middle ⟨resembles, firstHas⟩
      have resultHas := has result (List.mem_cons_of_mem _ List.mem_cons_self)
      apply (yields_newPosition_founded resembles.founded unfolding
        (resembles.has resultHas)).bind
      rintro second later ⟨further, secondHas⟩
      refine yields_pure ⟨resembles.trans further, fun part member => ?_, rfl⟩
      rcases List.mem_cons.1 member with rfl | last
      · exact further.has firstHas
      · exact List.mem_singleton.1 last ▸ secondHas
  | list element =>
      apply (yields_newPosition_founded founded unfolding
        (has element List.mem_cons_self)).bind
      rintro position later ⟨resembles, positionHas⟩
      exact yields_pure ⟨resembles, fun part member => List.mem_singleton.1 member ▸
        positionHas, rfl⟩
  | row kind members bound =>
      have membersHave : ∀ entry ∈ members.entries, graph.Has entry.2 :=
        fun entry member =>
        has entry.2 (List.mem_append_left _ (List.mem_map_of_mem member))
      apply (yields_newPositions_founded founded unfolding membersHave (by simp)).bind
      rintro ⟨entries, known⟩ middle ⟨resembles, entriesHave, knownHave⟩
      have inMembers : ∀ part ∈ (Row.mk entries).refs, middle.Has part := by
        intro part member
        rcases List.mem_map.1 member with ⟨entry, stored, rfl⟩
        exact entriesHave entry stored
      cases bound with
      | none =>
          refine yields_pure ⟨resembles, fun part member => ?_, rfl⟩
          exact inMembers part ((List.mem_append.1 member).resolve_right List.not_mem_nil)
      | some bound =>
          have boundHave : ∀ entry ∈ bound.entries, middle.Has entry.2 :=
            fun entry member => resembles.has
              (has entry.2 (List.mem_append_right _ (List.mem_map_of_mem member)))
          apply (yields_newPositions_founded resembles.founded unfolding
            boundHave knownHave).bind
          rintro ⟨bounds, all⟩ later ⟨further, boundsHave, _⟩
          refine yields_pure ⟨resembles.trans further, fun part member => ?_, rfl⟩
          rcases List.mem_append.1 member with inside | outside
          · exact further.has (inMembers part inside)
          · rcases List.mem_map.1 outside with ⟨entry, stored, rfl⟩
            exact boundsHave entry stored

theorem yields_expandWithin_founded (founded : graph.Founded) {rank : Ref → Nat}
    (falls : graph.Falls rank) {fuel : Nat} (has : graph.Has ref)
    (enough : rank ref < fuel) :
    (expandWithin fuel ref).Yields graph
      (fun _ later => graph.Resembles later) failed := by
  induction fuel generalizing ref with
  | zero => omega
  | succ fuel induction =>
      rcases founded.settles has with ⟨position, node, rooted⟩
      rw [expandWithin]
      apply yields_look_bind rooted.deref
      apply yields_look_bind rooted.found
      split
      next origin form =>
          have passes : graph.Passes position origin.copied :=
            .origin rooted.found rooted.unlinked form
          have lower := falls _ _ passes
          have least := falls.le_of_leads rooted.leads
          have copiedHas := founded.has_next passes
          apply (induction copiedHas (by omega)).bind
          intro _ middle resembles
          rcases resembles.founded.settles (resembles.has copiedHas) with
            ⟨target, own, copiedRooted⟩
          apply yields_look_bind copiedRooted.root
          dsimp only
          split
          · exact yields_pure resembles
          · apply yields_allocate_bind
            have isNew := middle.not_has_allocate { form := .var none }
            have copyFound := middle.node_allocate_self { form := .var none }
            have allocated : middle.Resembles (middle.allocate { form := .var none }).2 :=
              resembles.founded.resembles_allocate rfl
                (fun _ member => (List.not_mem_nil member).elim)
                nofun rfl
            generalize (middle.allocate { form := .var none }).1 = copy at *
            generalize (middle.allocate { form := .var none }).2 = first at *
            have parts : ∀ part ∈ own.form.refs, first.Has part := fun part member =>
              allocated.has (resembles.founded.readable.parts target own
                copiedRooted.found part member)
            apply (yields_copyForm_founded allocated.founded origin.unfolding parts).bind
            rintro copied second ⟨copies, copyParts, plain⟩
            have all := (resembles.trans allocated).trans copies
            have fills := alters_update (copies.plain copy _ copyFound rfl) fun node =>
              { node with form := copied }
            rcases all.kept position node rooted.found with ⟨old, oldFound, alike⟩
            have apart : position ≠ copy := by
              rintro rfl
              exact isNew (resembles.has rooted.has)
            have links :=
              alters_update ((fills.others position apart).trans oldFound) fun node =>
              { node with form := .var none, link := some copy }
            apply yields_update_bind (has_of_node fills.found)
            apply yields_update (has_of_node links.found)
            refine all.expands rooted.found form (fun has => isNew (resembles.has has))
              fills rfl copyParts
              plain rfl links rfl rfl ?_ rfl
            have bare : node.form.parameters = [] ∧ node.form.members? = none ∧
                node.form.bound? = none := by
              rw [form]
              exact ⟨rfl, rfl, rfl⟩
            exact ⟨alike.marks, alike.matched, alike.walked, bare.1.symm,
              bare.2.1.symm, bare.2.2.symm⟩
      next => exact yields_pure founded.resembles

theorem yields_expand_founded (founded : graph.Founded) (has : graph.Has ref) :
    (expand ref).Yields graph (fun _ later => graph.Resembles later) failed := by
  rcases founded.exists_rank with ⟨rank, falls, small⟩
  apply yields_get_bind
  exact yields_expandWithin_founded founded falls has (Nat.lt_succ_of_lt (small ref has))

end Build

end Casework
