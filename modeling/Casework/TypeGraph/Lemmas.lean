import Casework.TypeGraph.Basic

/-!
How adding and changing nodes shows: in the size of a graph and in the node under each
reference.
-/

namespace Casework.TypeGraph

theorem index?_eq_some_iff (graph : TypeGraph) (ref : Ref) (index : Nat) :
    graph.index? ref = some index ↔ index < graph.size ∧ ref = ⟨index + 1⟩ := by
  obtain ⟨number⟩ := ref
  simp only [index?, Bool.and_eq_true, decide_eq_true_eq, Ref.mk.injEq]
  constructor
  · intro found
    split at found
    · cases found
      constructor <;> omega
    · cases found
  · rintro ⟨small, rfl⟩
    rw [if_pos ⟨by omega, by omega⟩]
    congr 1

/-! ## Adding a node -/

@[simp] theorem size_allocate (graph : TypeGraph) (node : Node) :
    (graph.allocate node).2.size = graph.size + 1 := by
  simp [allocate, size]

@[simp] theorem node_allocate_self (graph : TypeGraph) (node : Node) :
    (graph.allocate node).2.node (graph.allocate node).1 = .ok node := by
  have found : (graph.allocate node).2.index? (graph.allocate node).1 =
      some graph.size := by
    rw [index?_eq_some_iff]
    simp [allocate]
    simp [size]
  rw [TypeGraph.node, found]
  simp [allocate, size]

theorem node_allocate_of_ok {graph : TypeGraph} {ref : Ref} {old : Node}
    (found : graph.node ref = .ok old) (node : Node) :
    (graph.allocate node).2.node ref = .ok old := by
  cases place : graph.index? ref with
  | none => simp [TypeGraph.node, place] at found
  | some index =>
      obtain ⟨small, equal⟩ := (index?_eq_some_iff graph ref index).1 place
      have later : (graph.allocate node).2.index? ref = some index := by
        rw [index?_eq_some_iff, size_allocate]
        exact ⟨by omega, equal⟩
      rw [TypeGraph.node, place] at found
      rw [TypeGraph.node, later, ← found]
      simp [allocate, Array.getElem?_push_lt small, Array.getElem?_eq_getElem small]

/-! ## Changing a node -/

@[simp] theorem size_update (graph : TypeGraph) (ref : Ref) (change : Node → Node) :
    (graph.update ref change).size = graph.size := by
  unfold update
  split <;> simp [size]

theorem index?_update (graph : TypeGraph) (ref other : Ref) (change : Node → Node) :
    (graph.update ref change).index? other = graph.index? other := by
  simp [index?]

theorem node_update_self {graph : TypeGraph} {ref : Ref} {node : Node}
    (found : graph.node ref = .ok node) (change : Node → Node) :
    (graph.update ref change).node ref = .ok (change node) := by
  cases place : graph.index? ref with
  | none => simp [TypeGraph.node, place] at found
  | some index =>
      have small := ((index?_eq_some_iff graph ref index).1 place).1
      rw [TypeGraph.node, index?_update, place]
      simp [TypeGraph.node, place, Array.getElem?_eq_getElem small] at found
      simp [update, place, Array.getElem?_modify, Array.getElem?_eq_getElem small, found]

/-- There is nothing to change under a reference that names no node. -/
theorem node_update_of_error {graph : TypeGraph} {ref : Ref} {fault : Fault}
    (missing : graph.node ref = .error fault) (change : Node → Node) :
    (graph.update ref change).node ref = .error fault := by
  cases place : graph.index? ref with
  | none =>
      rw [update, place]
      exact missing
  | some index =>
      have small := ((index?_eq_some_iff graph ref index).1 place).1
      simp [TypeGraph.node, place, Array.getElem?_eq_getElem small] at missing

theorem node_update_of_ne (graph : TypeGraph) {ref other : Ref} (different : other ≠ ref)
    (change : Node → Node) :
    (graph.update ref change).node other = graph.node other := by
  rw [TypeGraph.node, index?_update, TypeGraph.node]
  cases place : graph.index? other with
  | none => rfl
  | some index =>
      cases changed : graph.index? ref with
      | none => simp [update, changed]
      | some changedIndex =>
          have apart : changedIndex ≠ index := by
            intro equal
            subst equal
            exact different (((index?_eq_some_iff graph other _).1 place).2.trans
              ((index?_eq_some_iff graph ref _).1 changed).2.symm)
          simp [update, changed, Array.getElem?_modify, apart]

theorem update_of_index? {graph : TypeGraph} {ref : Ref} {index : Nat}
    (place : graph.index? ref = some index) (change : Node → Node) :
    graph.update ref change =
      { graph with nodes := graph.nodes.modify index change } := by
  rw [update, place]

theorem update_of_no_index {graph : TypeGraph} {ref : Ref}
    (place : graph.index? ref = none) (change : Node → Node) :
    graph.update ref change = graph := by
  rw [update, place]

theorem update_comm (graph : TypeGraph) {left right : Ref} (apart : left ≠ right)
    (changeLeft changeRight : Node → Node) :
    (graph.update left changeLeft).update right changeRight =
      (graph.update right changeRight).update left changeLeft := by
  have leftLater := index?_update graph right left changeRight
  have rightLater := index?_update graph left right changeLeft
  cases leftPlace : graph.index? left with
  | none =>
      rw [update_of_no_index leftPlace, update_of_no_index (leftLater.trans leftPlace)]
  | some leftIndex =>
      cases rightPlace : graph.index? right with
      | none =>
          rw [update_of_no_index rightPlace,
            update_of_no_index (rightLater.trans rightPlace)]
      | some rightIndex =>
          have different : leftIndex ≠ rightIndex := by
            rintro rfl
            exact apart (((index?_eq_some_iff graph left _).1 leftPlace).2.trans
              ((index?_eq_some_iff graph right _).1 rightPlace).2.symm)
          rw [update_of_index? (rightLater.trans rightPlace), update_of_index? leftPlace,
            update_of_index? (leftLater.trans leftPlace), update_of_index? rightPlace]
          congr 1
          apply Array.ext
          · simp
          · intro index _ _
            grind

theorem update_congr {graph : TypeGraph} {ref : Ref} {node : Node}
    (found : graph.node ref = .ok node) {change other : Node → Node}
    (same : change node = other node) :
    graph.update ref change = graph.update ref other := by
  cases place : graph.index? ref with
  | none => rw [update_of_no_index place, update_of_no_index place]
  | some index =>
      have small : index < graph.nodes.size :=
        ((index?_eq_some_iff graph ref index).1 place).1
      have isNode : graph.nodes[index] = node := by
        simpa [TypeGraph.node, place, Array.getElem?_eq_getElem small] using found
      rw [update_of_index? place, update_of_index? place]
      congr 1
      apply Array.ext
      · simp
      · intro own _ _
        by_cases equal : index = own
        · subst equal
          simp [Array.getElem_modify, isNode, same]
        · simp [Array.getElem_modify, equal]

end Casework.TypeGraph
