import Mathlib.Data.List.Perm.Subperm
import Casework.Proofs.Meaning

/-!
Following links.

Links lead from a type to the node that stands for it. There is only one way to follow
them, so a way that ends at a node without a link visits no node twice, and it is no
longer than the graph is large. That is why following links always has enough fuel.
-/

namespace Casework.TypeGraph

variable {graph later : TypeGraph} {ref other target : Ref} {node : Node}

/-! ## Has of nodes -/

/-- A reference names a node. -/
def Has (graph : TypeGraph) (ref : Ref) : Prop :=
  0 < ref.number ∧ ref.number ≤ graph.size

instance (graph : TypeGraph) (ref : Ref) : Decidable (graph.Has ref) :=
  inferInstanceAs (Decidable (_ ∧ _))

theorem has_iff : graph.Has ref ↔ ∃ node, graph.node ref = .ok node := by
  constructor
  · intro names
    have place : graph.index? ref = some (ref.number.toNat - 1) := by
      rw [index?_eq_some_iff]
      rcases ref with ⟨number⟩
      have positive : 0 < number := names.1
      have small : number ≤ graph.size := names.2
      simp only [Ref.mk.injEq]
      constructor <;> omega
    have small := ((index?_eq_some_iff graph ref _).1 place).1
    refine ⟨graph.nodes[ref.number.toNat - 1], ?_⟩
    simp [TypeGraph.node, place, Array.getElem?_eq_getElem small]
  · rintro ⟨node, found⟩
    cases place : graph.index? ref with
    | none => simp [TypeGraph.node, place] at found
    | some index =>
        rcases (index?_eq_some_iff graph ref index).1 place with ⟨small, rfl⟩
        constructor
        · change (0 : Int) < index + 1
          omega
        · change (index + 1 : Int) ≤ graph.size
          omega

theorem has_of_node (found : graph.node ref = .ok node) : graph.Has ref :=
  has_iff.2 ⟨node, found⟩

theorem Has.mono (names : graph.Has ref) (grown : graph.size ≤ later.size) :
    later.Has ref := by
  have small := names.2
  exact ⟨names.1, by omega⟩

theorem has_allocate (graph : TypeGraph) (node : Node) :
    (graph.allocate node).2.Has (graph.allocate node).1 :=
  has_of_node (graph.node_allocate_self node)

theorem length_le_size {refs : List Ref} (distinct : refs.Nodup)
    (named : ∀ ref ∈ refs, graph.Has ref) : refs.length ≤ graph.size := by
  let all : List Ref := (List.range graph.size).map fun index : Nat => ⟨index + 1⟩
  have within : refs ⊆ all := by
    rintro ⟨number⟩ member
    have names := named _ member
    have positive : 0 < number := names.1
    have small : number ≤ graph.size := names.2
    refine List.mem_map.2 ⟨number.toNat - 1, List.mem_range.2 (by omega), ?_⟩
    simp only [Ref.mk.injEq]
    omega
  have length := (distinct.subperm within).length_le
  rwa [List.length_map, List.length_range] at length

/-! ## Ways -/

inductive Leads (graph : TypeGraph) : Ref → Ref → Prop where
  | refl (ref : Ref) : Leads graph ref ref
  | link {ref next target : Ref} (linked : graph.LinksTo ref next)
    (leads : Leads graph next target) :
      Leads graph ref target

/-- A node stands for a type. -/
structure Rooted (graph : TypeGraph) (ref target : Ref) (node : Node) : Prop where
  leads : graph.Leads ref target
  found : graph.node target = .ok node
  unlinked : node.link = none

def Same (graph : TypeGraph) (ref other : Ref) : Prop :=
  ∃ target, graph.Leads ref target ∧ graph.Leads other target

theorem Leads.trans (first : graph.Leads ref other) (second : graph.Leads other target) :
    graph.Leads ref target := by
  induction first with
  | refl ref => exact second
  | link linked _ induction => exact .link linked (induction second)

theorem Leads.compare (first : graph.Leads ref other) (second : graph.Leads ref target) :
    graph.Leads other target ∨ graph.Leads target other := by
  induction first with
  | refl ref => exact .inl second
  | link linked leads induction =>
      cases second with
      | refl => exact .inr (.link linked leads)
      | link same rest =>
          rw [← linked.unique same] at rest
          exact induction rest

theorem Leads.eq_of_unlinked (leads : graph.Leads target other)
    (found : graph.node target = .ok node) (unlinked : node.link = none) :
    other = target := by
  cases leads with
  | refl => rfl
  | link linked =>
      rcases linked with ⟨own, ownFound, ownLinked⟩
      rw [found] at ownFound
      cases ownFound
      rw [unlinked] at ownLinked
      cases ownLinked

theorem Rooted.of_leads (rooted : graph.Rooted ref target node)
    (leads : graph.Leads ref other) :
    graph.Rooted other target node := by
  constructor
  · rcases leads.compare rooted.leads with onwards | back
    · exact onwards
    · rw [back.eq_of_unlinked rooted.found rooted.unlinked]
      exact .refl target
  · exact rooted.found
  · exact rooted.unlinked

theorem Rooted.to_leads (rooted : graph.Rooted other target node)
    (leads : graph.Leads ref other) :
    graph.Rooted ref target node :=
  ⟨leads.trans rooted.leads, rooted.found, rooted.unlinked⟩

theorem Rooted.unique {same : Ref} {twin : Node} (left : graph.Rooted ref target node)
    (right : graph.Rooted ref same twin) : same = target ∧ twin = node := by
  have equal := (right.of_leads left.leads).leads.eq_of_unlinked left.found left.unlinked
  subst equal
  have found := left.found
  rw [right.found] at found
  cases found
  exact ⟨rfl, rfl⟩

theorem Rooted.self (found : graph.node target = .ok node) (unlinked : node.link = none) :
    graph.Rooted target target node :=
  ⟨.refl target, found, unlinked⟩

theorem Rooted.has (rooted : graph.Rooted ref target node) : graph.Has target :=
  has_of_node rooted.found

theorem Rooted.has_start (rooted : graph.Rooted ref target node) : graph.Has ref := by
  cases rooted.leads with
  | refl => exact rooted.has
  | link linked _ =>
      rcases linked with ⟨own, found, _⟩
      exact has_of_node found

theorem Same.refl (ref : Ref) : graph.Same ref ref := ⟨ref, .refl ref, .refl ref⟩

theorem Same.symm (same : graph.Same ref other) : graph.Same other ref := by
  rcases same with ⟨target, left, right⟩
  exact ⟨target, right, left⟩

theorem Same.trans {third : Ref} (left : graph.Same ref other)
    (right : graph.Same other third) :
    graph.Same ref third := by
  rcases left with ⟨target, first, second⟩
  rcases right with ⟨goal, other, last⟩
  rcases second.compare other with onwards | back
  · exact ⟨goal, first.trans onwards, last⟩
  · exact ⟨target, first, last.trans back⟩

theorem Leads.same (leads : graph.Leads ref other) : graph.Same ref other :=
  ⟨other, leads, .refl other⟩

theorem Rooted.of_same (rooted : graph.Rooted ref target node)
    (same : graph.Same ref other) :
    graph.Rooted other target node := by
  rcases same with ⟨common, left, right⟩
  exact (rooted.of_leads left).to_leads right

theorem Leads.mono (leads : graph.Leads ref target)
    (links : ∀ ref next, graph.LinksTo ref next → later.LinksTo ref next) :
    later.Leads ref target := by
  induction leads with
  | refl ref => exact .refl ref
  | link linked _ induction => exact .link (links _ _ linked) induction

theorem Same.mono (same : graph.Same ref other)
    (links : ∀ ref next, graph.LinksTo ref next → later.LinksTo ref next) :
    later.Same ref other := by
  rcases same with ⟨target, left, right⟩
  exact ⟨target, left.mono links, right.mono links⟩

/-! ## Fuel -/

/-- A node without a link is so many links away. -/
inductive Away (graph : TypeGraph) : Nat → Ref → Prop where
  | here {ref : Ref} {node : Node} (found : graph.node ref = .ok node)
    (unlinked : node.link = none) :
      Away graph 0 ref
  | link {count : Nat} {ref next : Ref} (linked : graph.LinksTo ref next)
      (away : Away graph count next) : Away graph (count + 1) ref

theorem Away.unique {count total : Nat} (first : graph.Away count ref)
    (second : graph.Away total ref) :
    count = total := by
  induction first generalizing total with
  | here found unlinked =>
      cases second with
      | here => rfl
      | link linked =>
          rcases linked with ⟨own, ownFound, ownLinked⟩
          rw [found] at ownFound
          cases ownFound
          rw [unlinked] at ownLinked
          cases ownLinked
  | link linked _ induction =>
      cases second with
      | here found unlinked =>
          rcases linked with ⟨own, ownFound, ownLinked⟩
          rw [found] at ownFound
          cases ownFound
          rw [unlinked] at ownLinked
          cases ownLinked
      | link same away =>
          rw [← linked.unique same] at away
          rw [induction away]

theorem Away.exists_way {count : Nat} (away : graph.Away count ref) :
    ∃ way : List Ref, way.length = count + 1 ∧ way.Nodup ∧
      ∀ own ∈ way, graph.Has own ∧ ∃ distance ≤ count, graph.Away distance own := by
  induction away with
  | @here ref node found unlinked =>
      refine ⟨[ref], rfl, by simp, fun own member => ?_⟩
      rw [List.mem_singleton.1 member]
      exact ⟨has_of_node found, 0, Nat.le_refl 0, .here found unlinked⟩
  | @link count ref next linked away induction =>
      rcases induction with ⟨way, length, distinct, each⟩
      refine ⟨ref :: way, by rw [List.length_cons, length], ?_, fun own member => ?_⟩
      · rw [List.nodup_cons]
        refine ⟨fun member => ?_, distinct⟩
        rcases (each ref member).2 with ⟨distance, near, own⟩
        have equal := own.unique (.link linked away)
        omega
      · rcases List.mem_cons.1 member with rfl | further
        · rcases linked with ⟨node, found, isLinked⟩
          exact ⟨has_of_node found, count + 1, Nat.le_refl _,
            .link ⟨node, found, isLinked⟩ away⟩
        · rcases each own further with ⟨names, distance, near, ownAway⟩
          exact ⟨names, distance, Nat.le_succ_of_le near, ownAway⟩

theorem Away.lt_size {count : Nat} (away : graph.Away count ref) :
    count < graph.size := by
  rcases away.exists_way with ⟨way, length, distinct, each⟩
  have short := length_le_size distinct fun own member => (each own member).1
  omega

theorem Rooted.exists_away (rooted : graph.Rooted ref target node) :
    ∃ count, graph.Away count ref := by
  rcases rooted with ⟨leads, found, unlinked⟩
  induction leads with
  | refl ref => exact ⟨0, .here found unlinked⟩
  | link linked _ induction =>
      rcases induction found with ⟨count, away⟩
      exact ⟨count + 1, .link linked away⟩

theorem Away.follow {count fuel : Nat} (away : graph.Away count ref)
    (enough : count < fuel) (rooted : graph.Rooted ref target node) :
    graph.follow fuel ref = .ok target := by
  induction away generalizing fuel with
  | here found unlinked =>
      cases fuel with
      | zero => omega
      | succ fuel =>
          rw [follow_succ, found, Except.bind, unlinked]
          rw [rooted.leads.eq_of_unlinked found unlinked]
  | link linked _ induction =>
      cases fuel with
      | zero => omega
      | succ fuel =>
          have onwards := rooted.of_leads (.link linked (.refl _))
          rcases linked with ⟨own, found, isLinked⟩
          rw [follow_succ, found, Except.bind, isLinked]
          exact induction (by omega) onwards

theorem leads_of_follow {fuel : Nat} (followed : graph.follow fuel ref = .ok target) :
    graph.Leads ref target := by
  induction fuel generalizing ref with
  | zero => cases followed
  | succ fuel induction =>
      rw [follow_succ] at followed
      cases found : graph.node ref with
      | error fault =>
          rw [found] at followed
          cases followed
      | ok own =>
          rw [found, Except.bind] at followed
          cases linked : own.link with
          | none =>
              simp only [linked] at followed
              cases followed
              exact .refl _
          | some next =>
              simp only [linked] at followed
              exact .link ⟨own, found, linked⟩ (induction followed)

theorem rooted_of_deref (found : graph.deref ref = .ok target) :
    ∃ node, graph.Rooted ref target node := by
  rcases (of_deref found).1 with ⟨node, nodeFound, unlinked⟩
  exact ⟨node, leads_of_follow found, nodeFound, unlinked⟩

/-- Following links finds the node that stands for a type, if there is one. -/
theorem Rooted.deref (rooted : graph.Rooted ref target node) :
    graph.deref ref = .ok target := by
  rcases rooted.exists_away with ⟨count, away⟩
  exact away.follow (Nat.lt_succ_of_lt away.lt_size) rooted

theorem Rooted.root (rooted : graph.Rooted ref target node) :
    graph.root ref = .ok node := by
  rw [TypeGraph.root, rooted.deref]
  exact rooted.found

theorem rooted_of_root (found : graph.root ref = .ok node) :
    ∃ target, graph.Rooted ref target node := by
  rcases exists_of_root found with ⟨target, followed, nodeFound⟩
  exact ⟨target, leads_of_follow followed, nodeFound, (of_root found).1⟩

end Casework.TypeGraph
