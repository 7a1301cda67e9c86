import Mathlib.Algebra.BigOperators.Group.Finset.Basic
import Mathlib.Algebra.BigOperators.Fin
import Mathlib.Algebra.Order.BigOperators.Group.Finset
import Mathlib.Tactic.Linarith
import Mathlib.Tactic.Ring
import Casework.Proofs.Steps

/-!
Unification ends.

Without positions to expand, unification only links nodes. Every pair that it looks at
either is the same type already or costs the graph a node without a link. Then at most as
many pairs come up as twice the references that the nodes without links hold, and linking
nodes never raises that number. So there is a measure that every step lowers, and the fuel
is far above it.
-/

namespace Casework

namespace TypeGraph

variable {graph later : TypeGraph}

/-! ## Sums over nodes -/

def weightAt (graph : TypeGraph) (weight : Node → Nat) (index : Nat) : Nat :=
  match graph.node ⟨index + 1⟩ with
  | .ok node => weight node
  | .error _ => 0

def total (graph : TypeGraph) (weight : Node → Nat) : Nat :=
  ∑ index ∈ Finset.range graph.size, graph.weightAt weight index

theorem exists_index {ref : Ref} (has : graph.Has ref) :
    ∃ index ∈ Finset.range graph.size, ref = ⟨index + 1⟩ := by
  rcases ref with ⟨number⟩
  have positive : 0 < number := has.1
  have small : number ≤ graph.size := has.2
  refine ⟨number.toNat - 1, Finset.mem_range.2 (by omega), ?_⟩
  simp only [Ref.mk.injEq]
  omega

theorem weightAt_eq {weight : Node → Nat} {index : Nat} {node : Node}
    (found : graph.node ⟨index + 1⟩ = .ok node) :
    graph.weightAt weight index = weight node := by
  rw [weightAt, found]

theorem total_le {lighter heavier : Node → Nat}
    (lighterEqual : ∀ node, lighter node ≤ heavier node) :
    graph.total lighter ≤ graph.total heavier := by
  apply Finset.sum_le_sum
  intro index _
  unfold weightAt
  split
  · exact lighterEqual _
  · exact Nat.le_refl 0

theorem total_eq_add {weight : Node → Nat} {first second : Nat}
    (firstIn : first ∈ Finset.range graph.size)
    (secondIn : second ∈ Finset.range graph.size) (different : second ≠ first) :
    graph.total weight = graph.weightAt weight first + (graph.weightAt weight second +
      (((Finset.range graph.size).erase first).erase second).sum
        (graph.weightAt weight)) := by
  unfold total
  rw [← Finset.add_sum_erase _ _ firstIn,
    ← Finset.add_sum_erase _ _ (Finset.mem_erase.2 ⟨different, secondIn⟩)]

theorem add_le_total (weight : Node → Nat) {left right : Ref} {leftNode rightNode : Node}
    (leftFound : graph.node left = .ok leftNode)
    (rightFound : graph.node right = .ok rightNode) (different : right ≠ left) :
    weight leftNode + weight rightNode ≤ graph.total weight := by
  rcases exists_index (has_of_node leftFound) with ⟨first, firstIn, rfl⟩
  rcases exists_index (has_of_node rightFound) with ⟨second, secondIn, rfl⟩
  rw [total_eq_add firstIn secondIn fun equal => different (by rw [equal]),
    weightAt_eq leftFound, weightAt_eq rightFound]
  omega

theorem total_add (first second : Node → Nat) :
    graph.total first + graph.total second = graph.total fun node => first node +
      second node := by
  unfold total
  rw [← Finset.sum_add_distrib]
  apply Finset.sum_congr rfl
  intro index _
  unfold weightAt
  split <;> rfl

theorem node_of_lt {index : Nat} (small : index < graph.size) :
    graph.node ⟨index + 1⟩ = .ok graph.nodes[index] := by
  have place : graph.index? ⟨index + 1⟩ = some index :=
    (index?_eq_some_iff _ _ _).2 ⟨small, rfl⟩
  rw [node, place]
  rw [Option.bind_some, Array.getElem?_eq_getElem small]

theorem total_eq_sum (weight : Node → Nat) :
    graph.total weight = (graph.nodes.toList.map weight).sum := by
  have listed : graph.nodes.toList.map weight =
      List.ofFn fun index : Fin graph.size => graph.weightAt weight index := by
    apply List.ext_getElem
    · simp [size]
    · intro index small _
      have inside : index < graph.size := by simpa [size] using small
      rw [List.getElem_map, Array.getElem_toList, List.getElem_ofFn,
        weightAt_eq (node_of_lt inside)]
      rfl
  rw [listed, List.sum_ofFn, total, Finset.sum_range]

theorem Unites.total {gone kept : Ref} {goneNode before : Node} {form : Form}
    (unites : graph.Unites later gone kept goneNode form)
    (keptFound : graph.node kept = .ok before) (weight : Node → Nat) :
    ∃ goneAfter keptAfter, goneAfter.form = goneNode.form ∧ goneAfter.link = some kept ∧
      keptAfter.form = form ∧ keptAfter.link = none ∧
        later.total weight + (weight goneNode + weight before) =
          graph.total weight + (weight goneAfter + weight keptAfter) := by
  rcases unites.goneLater with ⟨goneAfter, goneLater, goneForm, goneLink⟩
  rcases unites.keptLater with ⟨keptAfter, keptLater, keptForm, keptLink⟩
  refine ⟨goneAfter, keptAfter, goneForm, goneLink, keptForm, keptLink, ?_⟩
  rcases exists_index (has_of_node unites.goneFound) with ⟨first, firstIn, rfl⟩
  rcases exists_index (has_of_node keptFound) with ⟨second, secondIn, rfl⟩
  have different : second ≠ first := fun equal => unites.apart (by rw [equal])
  have rest : (((Finset.range graph.size).erase first).erase second).sum
      (later.weightAt weight) =
      (((Finset.range graph.size).erase first).erase second).sum
      (graph.weightAt weight) := by
    apply Finset.sum_congr rfl
    intro index member
    rw [Finset.mem_erase, Finset.mem_erase] at member
    unfold weightAt
    rw [unites.others]
    · intro equal
      rw [Ref.mk.injEq] at equal
      exact member.2.1 (by omega)
    · intro equal
      rw [Ref.mk.injEq] at equal
      exact member.1 (by omega)
  rw [total_eq_add firstIn secondIn different,
    total_eq_add (by rwa [unites.size]) (by rwa [unites.size]) different,
    unites.size, rest,
    weightAt_eq goneLater, weightAt_eq keptLater, weightAt_eq unites.goneFound,
    weightAt_eq keptFound]
  omega

/-! ## What unification uses up -/

/-- The weight of a node that counts only while it is not linked. -/
def free (weight : Node → Nat) (node : Node) : Nat :=
  if node.link.isNone then weight node else 0

theorem free_of_unlinked (weight : Node → Nat) {node : Node}
    (unlinked : node.link = none) :
    free weight node = weight node := by
  rw [free, unlinked, Option.isNone_none, if_pos rfl]

theorem free_of_linked (weight : Node → Nat) {node : Node} {next : Ref}
    (linked : node.link = some next) :
    free weight node = 0 := by
  rw [free, linked, Option.isNone_some, if_neg Bool.false_ne_true]

def freeCount (graph : TypeGraph) : Nat :=
  graph.total (free fun _ => 1)

def freeRefs (graph : TypeGraph) : Nat :=
  graph.total (free fun node => node.form.refs.length)

theorem Unites.freeCount {gone kept : Ref} {goneNode : Node} {form : Form}
    (unites : graph.Unites later gone kept goneNode form) :
    later.freeCount + 1 = graph.freeCount := by
  rcases unites.keptFound with ⟨before, keptFound, unlinked⟩
  rcases unites.total keptFound (free fun _ => 1) with
    ⟨goneAfter, keptAfter, _, goneLink, _, keptLink, balance⟩
  simp only [free_of_unlinked _ unites.goneUnlinked, free_of_unlinked _ unlinked,
    free_of_linked _ goneLink, free_of_unlinked _ keptLink] at balance
  unfold TypeGraph.freeCount
  omega

theorem Unites.freeRefs {gone kept : Ref} {goneNode before : Node} {form : Form}
    (unites : graph.Unites later gone kept goneNode form)
    (keptFound : graph.node kept = .ok before) (unlinked : before.link = none)
    (few : form.refs.length ≤ goneNode.form.refs.length + before.form.refs.length) :
    later.freeRefs ≤ graph.freeRefs := by
  rcases unites.total keptFound (free fun node => node.form.refs.length) with
    ⟨goneAfter, keptAfter, _, goneLink, keptForm, keptLink, balance⟩
  simp only [free_of_unlinked _ unites.goneUnlinked, free_of_unlinked _ unlinked,
    free_of_linked _ goneLink, free_of_unlinked _ keptLink, keptForm] at balance
  unfold TypeGraph.freeRefs
  omega

end TypeGraph

/-! ## What a step makes of the references -/

namespace Build

variable (leftMembers : Row) (leftBound : Option Row) {rightMembers : Row}
  (rightBound : Option Row)

theorem length_mergeRows (distinct : rightMembers.labels.Nodup) :
    (mergeRows leftMembers leftBound rightMembers rightBound).members.entries.length ≤
      leftMembers.entries.length + rightMembers.entries.length := by
  rw [entries_mergeRows distinct, List.length_append]
  have short := List.length_filter_le (fun entry => !leftMembers.contains entry.1)
    rightMembers.entries
  exact Nat.add_le_add_left short _

theorem length_bound_mergeRows (rightMembers : Row) :
    (((mergeRows leftMembers leftBound rightMembers rightBound).bound.map Row.refs).getD
      []).length ≤
      ((leftBound.map Row.refs).getD []).length +
        ((rightBound.map Row.refs).getD []).length := by
  cases leftBound with
  | none => exact Nat.le_add_left _ _
  | some left =>
      cases rightBound with
      | none => exact Nat.le_add_right _ _
      | some right =>
          have short : (left.within right).refs.length ≤ left.refs.length :=
            Row.refs_within_sublist.length_le
          exact Nat.le_add_right_of_le short

theorem length_pairs_mergeRows (distinct : rightMembers.labels.Nodup) :
    (mergeRows leftMembers leftBound rightMembers rightBound).pairs.length ≤
      leftMembers.entries.length + 2 * rightMembers.entries.length +
        ((leftBound.map Row.refs).getD []).length := by
  have members :
      (mergeRows leftMembers leftBound rightMembers rightBound).members.entries.length ≤
      leftMembers.entries.length + rightMembers.entries.length :=
    length_mergeRows leftMembers leftBound rightBound distinct
  have parts : (mergeRows leftMembers leftBound rightMembers rightBound).pairs.length =
      _ + _ + _ :=
    (List.length_append ..).trans (congrArg (· + _) (List.length_append ..))
  rw [parts]
  apply Nat.le_trans
    (m := rightMembers.entries.length + ((leftBound.map Row.refs).getD []).length +
      (mergeRows leftMembers leftBound rightMembers rightBound).members.entries.length)
  · refine Nat.add_le_add (Nat.add_le_add (List.length_filterMap_le _ _) ?_)
      (List.length_filterMap_le _ _)
    cases leftBound with
    | none => exact Nat.le_refl 0
    | some left =>
        cases rightBound with
        | none => exact Nat.zero_le _
        | some right =>
            change _ ≤ (left.entries.map Prod.snd).length
            rw [List.length_map]
            exact List.length_filterMap_le _ _
  · omega

end Build

namespace Form

variable {left right form : Form} {pairs : List (Ref × Ref)}

theorem length_refs_row (kind : RowKind) (members : Row) (bound : Option Row) :
    (Form.row kind members bound).refs.length =
      members.entries.length + ((bound.map Row.refs).getD []).length := by
  rw [refs, List.length_append, Row.refs, List.length_map]

theorem length_of_join? (rightFair : right.Fair)
    (joined : left.join? right = some (form, pairs)) :
    form.refs.length ≤ left.refs.length + right.refs.length ∧
      pairs.length ≤ 2 * (left.refs.length + right.refs.length) := by
  rcases join?_cases joined with
    ⟨own, rfl, rfl, rfl, rfl⟩ | ⟨_, _, _, _, rfl, rfl, rfl, rfl⟩ |
    ⟨_, _, rfl, rfl, rfl, rfl⟩ | ⟨kind, members, bound, otherMembers, otherBound, rfl,
      rfl, fits, rfl, rfl⟩
  · exact ⟨Nat.le_refl 0, Nat.le_refl 0⟩
  · exact ⟨by simp [refs, parameters], by simp [refs, parameters]⟩
  · exact ⟨by simp [refs, parameters], by simp [refs, parameters]⟩
  · have distinct : otherMembers.labels.Nodup := rightFair.distinct
    have memberCount :
        (Build.mergeRows members bound otherMembers otherBound).members.entries.length ≤
        members.entries.length + otherMembers.entries.length :=
      Build.length_mergeRows members bound otherBound distinct
    have boundCount := Build.length_bound_mergeRows members bound otherBound otherMembers
    have pairCount := Build.length_pairs_mergeRows members bound otherBound distinct
    rw [length_refs_row, length_refs_row, length_refs_row]
    omega

end Form

/-! ## Steps -/

namespace TypeGraph

variable {graph later : TypeGraph} {left right : Ref} {leftNode rightNode : Node}
  {pairs : List (Ref × Ref)}

namespace Step

theorem size (step : graph.Step later left right leftNode rightNode pairs) :
    later.size = graph.size := by
  cases step with
  | same _ unchanged => rw [unchanged]
  | bindLeft _ unites => exact unites.size
  | bindRight _ _ unites => exact unites.size
  | join _ unites => exact unites.size

theorem wellFormed (step : graph.Step later left right leftNode rightNode pairs)
    (wellFormed : graph.WellFormed) (leftFound : graph.node left = .ok leftNode)
    (rightFound : graph.node right = .ok rightNode) : later.WellFormed := by
  have leftParts : ∀ part ∈ leftNode.form.refs, graph.Has part :=
    fun _ => wellFormed.has_part leftFound
  have rightParts : ∀ part ∈ rightNode.form.refs, graph.Has part :=
    fun _ => wellFormed.has_part rightFound
  have leftFair := wellFormed.fair left leftNode leftFound
  have rightFair := wellFormed.fair right rightNode rightFound
  cases step with
  | same _ unchanged =>
      rw [unchanged]
      exact wellFormed
  | bindLeft _ unites => exact unites.wellFormed wellFormed rightParts rightFair
  | bindRight _ _ unites => exact unites.wellFormed wellFormed leftParts leftFair
  | join joined unites =>
      apply unites.wellFormed wellFormed _ (Form.fair_of_join? leftFair rightFair joined)
      intro part member
      exact (Form.mem_refs_of_join? joined member).elim (leftParts part) (rightParts part)

theorem folded (step : graph.Step later left right leftNode rightNode pairs)
    (folded : graph.Folded) (leftFound : graph.node left = .ok leftNode)
    (rightFound : graph.node right = .ok rightNode) :
    later.Folded := by
  cases step with
  | same _ unchanged =>
      rw [unchanged]
      exact folded
  | bindLeft _ unites => exact unites.folded folded (folded right rightNode rightFound)
  | bindRight _ _ unites => exact unites.folded folded (folded left leftNode leftFound)
  | join joined unites => exact unites.folded folded (Form.isPosition_of_join? joined)

theorem has_pairs (step : graph.Step later left right leftNode rightNode pairs)
    (wellFormed : graph.WellFormed) (leftFound : graph.node left = .ok leftNode)
    (rightFound : graph.node right = .ok rightNode) :
    ∀ pair ∈ pairs, graph.Has pair.1 ∧ graph.Has pair.2 := by
  have leftParts : ∀ part ∈ leftNode.form.refs, graph.Has part :=
    fun _ => wellFormed.has_part leftFound
  have rightParts : ∀ part ∈ rightNode.form.refs, graph.Has part :=
    fun _ => wellFormed.has_part rightFound
  intro pair member
  cases step with
  | same => cases member
  | bindLeft => cases member
  | bindRight => cases member
  | join joined unites =>
      have stored := Form.mem_refs_of_pair joined member
      exact ⟨stored.1.elim (leftParts _) (rightParts _),
        stored.2.elim (leftParts _) (rightParts _)⟩

/-- A step that links a node uses it up, and brings up no more pairs than twice the
references held. -/
theorem uses (step : graph.Step later left right leftNode rightNode pairs)
    (wellFormed : graph.WellFormed) (leftFound : graph.node left = .ok leftNode)
    (leftUnlinked : leftNode.link = none) (rightFound : graph.node right = .ok rightNode)
    (rightUnlinked : rightNode.link = none) :
    pairs = [] ∧ later = graph ∨
      later.freeCount + 1 = graph.freeCount ∧ later.freeRefs ≤ graph.freeRefs ∧
        pairs.length ≤ 2 * graph.freeRefs := by
  cases step with
  | same _ unchanged => exact .inl ⟨rfl, unchanged⟩
  | bindLeft _ unites =>
      right
      exact ⟨unites.freeCount, unites.freeRefs rightFound rightUnlinked
        (Nat.le_add_left _ _), Nat.zero_le _⟩
  | bindRight _ _ unites =>
      right
      exact ⟨unites.freeCount, unites.freeRefs leftFound leftUnlinked
        (Nat.le_add_left _ _), Nat.zero_le _⟩
  | join joined unites =>
      right
      have lengths :=
        Form.length_of_join? (wellFormed.fair right rightNode rightFound) joined
      have held : leftNode.form.refs.length + rightNode.form.refs.length ≤
          graph.freeRefs := by
        have both :=
          add_le_total (free fun node => node.form.refs.length) leftFound rightFound
          unites.apart.symm
        rwa [free_of_unlinked _ leftUnlinked, free_of_unlinked _ rightUnlinked] at both
      refine ⟨unites.freeCount, unites.freeRefs leftFound leftUnlinked ?_, ?_⟩
      · rw [Nat.add_comm]
        exact lengths.1
      · exact lengths.2.trans (Nat.mul_le_mul_left 2 held)

end Step

def measure (graph : TypeGraph) (held : Nat) (waiting : List (Ref × Ref)) : Nat :=
  waiting.length + (2 * held + 1) * graph.freeCount

theorem Step.measure {held : Nat} (waiting : List (Ref × Ref)) (pair : Ref × Ref)
    (step : graph.Step later left right leftNode rightNode pairs)
    (wellFormed : graph.WellFormed) (leftFound : graph.node left = .ok leftNode)
    (leftUnlinked : leftNode.link = none) (rightFound : graph.node right = .ok rightNode)
    (rightUnlinked : rightNode.link = none) (few : graph.freeRefs ≤ held) :
    later.freeRefs ≤ held ∧
      later.measure held (pairs ++ waiting) < graph.measure held (pair :: waiting) := by
  unfold TypeGraph.measure
  rcases step.uses wellFormed leftFound leftUnlinked rightFound rightUnlinked with
    ⟨rfl, rfl⟩ | ⟨count, refs, short⟩
  · exact ⟨few, by simp⟩
  · refine ⟨refs.trans few, ?_⟩
    rw [← count, List.length_append, List.length_cons, Nat.mul_succ]
    omega

theorem measure_le_unifyFuel (graph : TypeGraph) (pair : Ref × Ref) :
    graph.measure graph.freeRefs [pair] ≤ Build.unifyFuel graph := by
  have summed : ∀ (nodes : List Node) (start : Nat),
      nodes.foldl (fun sum node => sum + 1 + node.form.refs.length) start =
        start + (nodes.map fun node => 1 + node.form.refs.length).sum := by
    intro nodes
    induction nodes with
    | nil => exact fun start => rfl
    | cons head tail induction =>
        intro start
        rw [List.foldl_cons, induction, List.map_cons, List.sum_cons]
        omega
  have weighed : graph.nodes.foldl (fun sum node => sum + 1 + node.form.refs.length) 0 =
      graph.total fun node => 1 + node.form.refs.length := by
    rw [total_eq_sum, ← Array.foldl_toList, summed, Nat.zero_add]
  have enough : graph.freeCount + graph.freeRefs ≤ graph.total fun node =>
      1 + node.form.refs.length := by
    unfold freeCount freeRefs
    rw [total_add]
    apply total_le
    intro node
    unfold free
    split
    · exact Nat.le_refl _
    · exact Nat.zero_le _
  rw [Build.unifyFuel, weighed]
  calc graph.measure graph.freeRefs [pair]
      ≤ 16 * (graph.freeRefs + 1) * (graph.freeCount + 1) := by
        simp only [measure, List.length_singleton]
        nlinarith
    _ ≤ 16 * 2 ^ graph.freeRefs * 2 ^ graph.freeCount :=
        Nat.mul_le_mul (Nat.mul_le_mul_left 16 Nat.lt_two_pow_self) Nat.lt_two_pow_self
    _ = 2 ^ (4 + (graph.freeCount + graph.freeRefs)) := by
        rw [Nat.pow_add, Nat.pow_add]
        ring
    _ ≤ _ := Nat.pow_le_pow_right (by omega) (Nat.add_le_add_left enough 4)

end TypeGraph

/-! ## Runs -/

namespace Build

open TypeGraph

variable {graph : TypeGraph} {left right : Ref}

theorem yields_unifyPairs (invariant : Nat → TypeGraph → List (Ref × Ref) → Prop)
    {failed : Failure → TypeGraph → Prop} (step : ∀ bound graph left right waiting,
      invariant bound graph ((left, right) :: waiting) → 0 < bound ∧
        (unifyStep left right).Yields graph
          (fun pairs later => ∃ less < bound, invariant less later (pairs ++ waiting))
            failed)
    {bound fuel : Nat} {pairs : List (Ref × Ref)} (start : invariant bound graph pairs)
    (enough : bound ≤ fuel) :
    (unifyPairs fuel pairs).Yields graph
      (fun _ later => ∃ less, invariant less later []) failed := by
  induction fuel generalizing bound graph pairs with
  | zero =>
      cases pairs with
      | nil => exact yields_pure ⟨bound, start⟩
      | cons pair waiting =>
          have positive := (step bound graph pair.1 pair.2 waiting start).1
          omega
  | succ fuel induction =>
      cases pairs with
      | nil => exact yields_pure ⟨bound, start⟩
      | cons pair waiting =>
          rcases pair with ⟨left, right⟩
          apply (step bound graph left right waiting start).2.bind
          rintro parts later ⟨less, lower, kept⟩
          exact induction kept (by omega)

theorem on_expand_of_rooted {ref target : Ref} {node : Node}
    (rooted : graph.Rooted ref target node) (plain : node.form.isPosition = false) :
    (expand ref).on graph = (.ok (), graph) := by
  have yields : (expand ref).Yields graph (fun _ later => later = graph)
      fun _ _ => False := by
    apply yields_get_bind
    rw [expandWithin]
    apply yields_look_bind rooted.deref
    apply yields_look_bind rooted.found
    split
    next origin form =>
        rw [form] at plain
        cases plain
    next => exact yields_pure rfl
  rcases yields.exists_ok with ⟨value, later, ran, rfl⟩
  exact ran

theorem on_expand_of_folded {ref : Ref} (wellFormed : graph.WellFormed)
    (folded : graph.Folded) (has : graph.Has ref) :
    (expand ref).on graph = (.ok (), graph) := by
  rcases wellFormed.settles ref has with ⟨target, node, rooted⟩
  exact on_expand_of_rooted rooted (folded target node rooted.found)

/-- A unification that has got so far in a graph without positions, with the pairs that
wait. -/
structure Running (start : TypeGraph)
    (invariant : TypeGraph → List (Ref × Ref) → Prop) (bound : Nat) (graph : TypeGraph)
    (waiting : List (Ref × Ref)) : Prop where
  wellFormed : graph.WellFormed
  folded : graph.Folded
  size : graph.size = start.size
  held : graph.freeRefs ≤ start.freeRefs
  bound : graph.measure start.freeRefs waiting ≤ bound
  named : ∀ pair ∈ waiting, graph.Has pair.1 ∧ graph.Has pair.2
  kept : invariant graph waiting

theorem Running.step {start later : TypeGraph}
    {invariant : TypeGraph → List (Ref × Ref) → Prop} {bound : Nat} {first second : Ref}
    {waiting pairs : List (Ref × Ref)} {leftNode rightNode : Node}
    (running : Running start invariant bound graph ((first, second) :: waiting))
    (leftRooted : graph.Rooted first left leftNode)
    (rightRooted : graph.Rooted second right rightNode)
    (step : graph.Step later left right leftNode rightNode pairs)
    (kept : invariant later (pairs ++ waiting)) :
    ∃ less < bound, Running start invariant less later (pairs ++ waiting) := by
  have measured := step.measure waiting (first, second) running.wellFormed
    leftRooted.found
    leftRooted.unlinked rightRooted.found rightRooted.unlinked running.held
  refine ⟨_, Nat.lt_of_lt_of_le measured.2 running.bound, ?_⟩
  refine ⟨step.wellFormed running.wellFormed leftRooted.found rightRooted.found,
    step.folded running.folded leftRooted.found rightRooted.found,
    step.size.trans running.size,
    measured.1, Nat.le_refl _, fun pair member => ?_, kept⟩
  have named : graph.Has pair.1 ∧ graph.Has pair.2 := by
    rcases List.mem_append.1 member with new | old
    · exact step.has_pairs running.wellFormed leftRooted.found rightRooted.found pair new
    · exact running.named pair (List.mem_cons_of_mem _ old)
  have grown : graph.size ≤ later.size := step.size.ge
  exact ⟨named.1.mono grown, named.2.mono grown⟩

/-- What unification keeps in a graph without positions, if every step keeps it. It ends,
and fails only for a clash. -/
theorem yields_unify (invariant : TypeGraph → List (Ref × Ref) → Prop)
    (step : ∀ {graph later first second left right leftNode rightNode pairs waiting},
      graph.WellFormed → graph.Rooted first left leftNode →
        graph.Rooted second right rightNode →
        graph.Step later left right leftNode rightNode pairs →
          invariant graph ((first, second) :: waiting) →
            invariant later (pairs ++ waiting))
    (wellFormed : graph.WellFormed) (folded : graph.Folded) (leftHas : graph.Has left)
    (rightHas : graph.Has right) (start : invariant graph [(left, right)]) :
    (unify left right).Yields graph
      (fun _ later => later.WellFormed ∧ later.Folded ∧ later.size = graph.size ∧
        invariant later [])
      (fun failure later => (∃ clash, failure = .mismatch clash) ∧
        later.WellFormed ∧ later.Folded ∧
        later.size = graph.size ∧
          ∃ first second waiting leftRoot rightRoot leftNode rightNode,
          later.Rooted first leftRoot leftNode ∧ later.Rooted second rightRoot rightNode ∧
            Clash leftRoot rightRoot leftNode rightNode ∧
              invariant later ((first, second) :: waiting)) := by
  apply yields_get_bind
  have both : ∀ pair ∈ [(left, right)], graph.Has pair.1 ∧ graph.Has pair.2 := by
    intro pair member
    rw [List.mem_singleton.1 member]
    exact ⟨leftHas, rightHas⟩
  have running : Running graph invariant _ graph [(left, right)] :=
    ⟨wellFormed, folded, rfl, Nat.le_refl _, Nat.le_refl _, both, start⟩
  apply Yields.imp (yields_unifyPairs (Running graph invariant) ?_ running
    (graph.measure_le_unifyFuel (left, right)))
  · rintro _ later ⟨_, ran⟩
    exact ⟨ran.wellFormed, ran.folded, ran.size, ran.kept⟩
  · intro bound own first second waiting ran
    have named := ran.named (first, second) List.mem_cons_self
    rcases ran.wellFormed.settles first named.1 with ⟨leftRoot, leftNode, leftRooted⟩
    rcases ran.wellFormed.settles second named.2 with ⟨rightRoot, rightNode, rightRooted⟩
    constructor
    · exact Nat.lt_of_lt_of_le (Nat.add_pos_left (Nat.succ_pos _) _) ran.bound
    · apply yields_unifyStep (on_expand_of_folded ran.wellFormed ran.folded named.1)
        (on_expand_of_folded ran.wellFormed ran.folded named.2) ran.wellFormed
        ran.folded.grounded
        leftRooted rightRooted
      · intro pairs later stepped
        exact ran.step leftRooted rightRooted stepped
          (step ran.wellFormed leftRooted rightRooted stepped ran.kept)
      · intro clash mismatch
        exact ⟨⟨mismatch, rfl⟩, ran.wellFormed, ran.folded, ran.size, first, second,
          waiting, leftRoot, rightRoot, leftNode, rightNode, leftRooted, rightRooted,
          clash, ran.kept⟩

end Build

end Casework
