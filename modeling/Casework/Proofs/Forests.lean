import Mathlib.Data.List.Nodup
import Casework.Proofs.WellFormed

/-!
Types without shared parts.

The types that patterns build of themselves hold neither positions nor bounds, and they
are trees: no node is met twice. Such a type stays a tree when a tree of other nodes is
hung below one of its own.
-/

namespace Casework

def Form.isPlain : Form → Bool
  | .var origin => origin.isNone
  | .row _ _ bound => bound.isNone
  | _ => true

theorem Form.isPosition_of_isPlain {form : Form} (plain : form.isPlain) :
    form.isPosition = false := by
  cases form with
  | var origin =>
      cases origin with
      | none => rfl
      | some origin => cases plain
  | _ => rfl

theorem Node.stored_of_unlinked {node : Node} (unlinked : node.link = none) :
    node.stored = node.form.refs := by
  simp [stored, unlinked]

namespace TypeGraph

variable {graph later : TypeGraph} {ref target : Ref}
  {refs nodes : List Ref} {node : Node}

/-- The nodes below some references, none of which is met twice. -/
inductive Forest (graph : TypeGraph) : List Ref → List Ref → Prop where
  | nil : Forest graph [] []
  | cons {ref : Ref} {refs inner outer : List Ref} {node : Node}
    (found : graph.node ref = .ok node)
      (plain : node.form.isPlain) (parts : Forest graph node.stored inner)
      (rest : Forest graph refs outer) (fresh : ref ∉ inner ++ outer)
      (apart : inner.Disjoint outer) :
      Forest graph (ref :: refs) (ref :: (inner ++ outer))

def Keeps (graph later : TypeGraph) (ref : Ref) : Prop :=
  ∀ node, graph.node ref = .ok node →
    ∃ after, later.node ref = .ok after ∧ after.form = node.form ∧ after.link = node.link

theorem keeps_of_eq (same : later.node ref = graph.node ref) : graph.Keeps later ref :=
  fun node found => ⟨node, same.trans found, rfl, rfl⟩

theorem Keeps.trans {middle : TypeGraph} (first : graph.Keeps middle ref)
    (second : middle.Keeps later ref) :
    graph.Keeps later ref := by
  intro node found
  rcases first node found with ⟨own, middleFound, form, link⟩
  rcases second own middleFound with ⟨after, laterFound, laterForm, laterLink⟩
  exact ⟨after, laterFound, laterForm.trans form, laterLink.trans link⟩

namespace Forest

theorem leaf (found : graph.node ref = .ok node) (plain : node.form.isPlain)
    (bare : node.stored = []) :
    graph.Forest [ref] [ref] := by
  have parts : graph.Forest node.stored [] := by
    rw [bare]
    exact .nil
  exact .cons found plain parts .nil List.not_mem_nil (List.disjoint_nil_left [])

theorem nodup (forest : graph.Forest refs nodes) : nodes.Nodup := by
  induction forest with
  | nil => exact List.nodup_nil
  | cons _ _ _ _ fresh apart inner outer =>
      exact List.nodup_cons.2 ⟨fresh, inner.append outer apart⟩

theorem mem (forest : graph.Forest refs nodes) (member : ref ∈ refs) : ref ∈ nodes := by
  induction forest with
  | nil => cases member
  | cons _ _ _ _ _ _ _ outer =>
      rcases List.mem_cons.1 member with rfl | further
      · exact List.mem_cons_self
      · exact List.mem_cons_of_mem _ (List.mem_append_right _ (outer further))

theorem node_of_mem (forest : graph.Forest refs nodes) (member : ref ∈ nodes) :
    ∃ node, graph.node ref = .ok node ∧ node.form.isPlain ∧ ∀ part ∈ node.stored,
      part ∈ nodes := by
  induction forest with
  | nil => cases member
  | cons found plain parts rest _ _ inner outer =>
      rcases List.mem_cons.1 member with rfl | further
      · refine ⟨_, found, plain, fun part stored => ?_⟩
        exact List.mem_cons_of_mem _ (List.mem_append_left _ (parts.mem stored))
      · rcases List.mem_append.1 further with inside | outside
        · rcases inner inside with ⟨own, ownFound, ownPlain, below⟩
          exact ⟨own, ownFound, ownPlain, fun part stored =>
            List.mem_cons_of_mem _ (List.mem_append_left _ (below part stored))⟩
        · rcases outer outside with ⟨own, ownFound, ownPlain, below⟩
          exact ⟨own, ownFound, ownPlain, fun part stored =>
            List.mem_cons_of_mem _ (List.mem_append_right _ (below part stored))⟩

theorem has (forest : graph.Forest refs nodes) (member : ref ∈ nodes) :
    graph.Has ref := by
  rcases forest.node_of_mem member with ⟨node, found, _⟩
  exact has_of_node found

theorem length_le (forest : graph.Forest refs nodes) : nodes.length ≤ graph.size :=
  length_le_size forest.nodup fun _ => forest.has

/-- What is of a sort that references do not lead out of has only nodes of the sort below
it. -/
theorem within {holds : Ref → Prop} (forest : graph.Forest refs nodes)
    (reaches : ∀ ref node, holds ref → graph.node ref = .ok node →
      ∀ part ∈ node.stored, holds part)
    (start : ∀ ref ∈ refs, holds ref) : ∀ ref ∈ nodes, holds ref := by
  induction forest with
  | nil => exact nofun
  | @cons ref refs inner outer node found _ _ _ _ _ innerHolds outerHolds =>
      have here := start ref List.mem_cons_self
      intro own member
      rcases List.mem_cons.1 member with rfl | further
      · exact here
      · rcases List.mem_append.1 further with inside | outside
        · exact innerHolds (reaches ref node here found) own inside
        · exact outerHolds
            (fun own listed => start own (List.mem_cons_of_mem _ listed)) own outside

theorem frame (forest : graph.Forest refs nodes)
    (keeps : ∀ ref ∈ nodes, graph.Keeps later ref) :
    later.Forest refs nodes := by
  induction forest with
  | nil => exact .nil
  | @cons ref refs inner outer node found plain _ _ fresh apart innerLater outerLater =>
      rcases keeps ref List.mem_cons_self node found with ⟨after, laterFound, form, link⟩
      apply Forest.cons laterFound (form ▸ plain) _ _ fresh apart
      · rw [Node.stored, form, link]
        exact innerLater fun own member =>
          keeps own (List.mem_cons_of_mem _ (List.mem_append_left _ member))
      · exact outerLater fun own member =>
          keeps own (List.mem_cons_of_mem _ (List.mem_append_right _ member))

/-! ## Taking apart and putting together -/

theorem append {others added : List Ref} (forest : graph.Forest refs nodes)
    (second : graph.Forest others added) (apart : nodes.Disjoint added) :
    graph.Forest (refs ++ others) (nodes ++ added) := by
  induction forest with
  | nil => exact second
  | @cons ref refs inner outer node found plain parts _ fresh apartInside _
    outerAppended =>
      rw [List.disjoint_cons_left, List.disjoint_append_left] at apart
      rw [List.cons_append, List.cons_append, List.append_assoc]
      rw [List.mem_append, not_or] at fresh
      apply Forest.cons found plain parts (outerAppended apart.2.2)
      · simp only [List.mem_append, not_or]
        exact ⟨fresh.1, fresh.2, apart.1⟩
      · exact List.disjoint_append_right.2 ⟨apartInside, apart.2.1⟩

theorem partition {entries : List (String × Ref)} (chosen : String × Ref → Bool)
    (forest : graph.Forest (entries.map Prod.snd) nodes) :
    ∃ inside outside, graph.Forest ((entries.filter chosen).map Prod.snd) inside ∧
      graph.Forest ((entries.filter fun entry => !chosen entry).map Prod.snd) outside ∧
        inside.Disjoint outside ∧ inside ⊆ nodes ∧ outside ⊆ nodes := by
  induction entries generalizing nodes with
  | nil =>
      cases forest
      exact ⟨[], [], .nil, .nil, List.disjoint_nil_left [], List.nil_subset _,
        List.nil_subset _⟩
  | cons entry rest induction =>
      cases forest with
      | @cons _ _ inner outer node found plain parts following fresh apart =>
          rcases induction following with
            ⟨inside, outside, chosenOnes, others, separate, insideIn, outsideIn⟩
          rw [List.mem_append, not_or] at fresh
          have apartInside : inner.Disjoint inside :=
            List.disjoint_of_subset_right insideIn apart
          have apartOutside : inner.Disjoint outside :=
            List.disjoint_of_subset_right outsideIn apart
          have here : entry.2 :: inner ⊆ entry.2 :: (inner ++ outer) :=
            List.cons_subset_cons _ (List.subset_append_left _ _)
          have further : outer ⊆ entry.2 :: (inner ++ outer) :=
            List.subset_cons_of_subset _ (List.subset_append_right _ _)
          by_cases isChosen : chosen entry = true
          · rw [List.filter_cons_of_pos isChosen,
              List.filter_cons_of_neg (by simp [isChosen])]
            refine ⟨entry.2 :: (inner ++ inside), outside, ?_, others, ?_, ?_, ?_⟩
            · refine .cons found plain parts chosenOnes ?_ apartInside
              rw [List.mem_append, not_or]
              exact ⟨fresh.1, fun member => fresh.2 (insideIn member)⟩
            · rw [List.disjoint_cons_left, List.disjoint_append_left]
              exact ⟨fun member => fresh.2 (outsideIn member), apartOutside, separate⟩
            · intro own member
              rcases List.mem_cons.1 member with rfl | later
              · exact here List.mem_cons_self
              · rcases List.mem_append.1 later with first | second
                · exact here (List.mem_cons_of_mem _ first)
                · exact further (insideIn second)
            · exact List.Subset.trans outsideIn further
          · rw [List.filter_cons_of_neg isChosen,
              List.filter_cons_of_pos (by simpa using isChosen)]
            refine ⟨inside, entry.2 :: (inner ++ outside), chosenOnes, ?_, ?_, ?_, ?_⟩
            · refine .cons found plain parts others ?_ apartOutside
              rw [List.mem_append, not_or]
              exact ⟨fresh.1, fun member => fresh.2 (outsideIn member)⟩
            · rw [List.disjoint_cons_right, List.disjoint_append_right]
              exact ⟨fun member => fresh.2 (insideIn member),
                List.disjoint_comm.1 apartInside, separate⟩
            · exact List.Subset.trans insideIn further
            · intro own member
              rcases List.mem_cons.1 member with rfl | later
              · exact here List.mem_cons_self
              · rcases List.mem_append.1 later with first | second
                · exact here (List.mem_cons_of_mem _ first)
                · exact further (outsideIn second)

theorem below_root (forest : graph.Forest (ref :: refs) nodes)
    (rooted : graph.Rooted ref target node) :
    node.form.isPlain ∧ target ∈ nodes ∧ ∃ inner, graph.Forest node.form.refs inner ∧
      inner ⊆ nodes ∧ target ∉ inner ∧ inner.length < nodes.length := by
  rcases rooted with ⟨leads, targetFound, unlinked⟩
  induction leads generalizing refs nodes with
  | refl ref =>
      cases forest with
      | @cons _ _ inner outer own found plain parts _ fresh _ =>
          rw [targetFound] at found
          cases found
          rw [Node.stored_of_unlinked unlinked] at parts
          rw [List.mem_append, not_or] at fresh
          refine ⟨plain, List.mem_cons_self, inner, parts, ?_, fresh.1, ?_⟩
          · exact List.subset_cons_of_subset _ (List.subset_append_left _ _)
          · rw [List.length_cons, List.length_append]
            omega
  | @link ref next target linked leads induction =>
      cases forest with
      | @cons _ _ inner outer own found plain parts _ fresh _ =>
          rcases linked with ⟨same, sameFound, isLinked⟩
          rw [sameFound] at found
          cases found
          rw [Node.stored, isLinked] at parts
          rcases induction parts targetFound with
            ⟨targetPlain, member, below, forest, inside, notBelow, shorter⟩
          have subset : inner ⊆ ref :: (inner ++ outer) :=
            List.subset_cons_of_subset _ (List.subset_append_left _ _)
          refine ⟨targetPlain, subset member, below, forest, fun _ listed =>
            subset (inside listed), notBelow, ?_⟩
          rw [List.length_cons, List.length_append]
          omega

theorem graft {place : Ref} {before after : Node} {extra added : List Ref}
    (forest : graph.Forest refs nodes) (found : graph.node place = .ok before)
    (changed : later.node place = .ok after) (plain : after.form.isPlain)
    (stored : after.stored = before.stored ++ extra) (grown : later.Forest extra added)
    (apart : nodes.Disjoint added)
    (keeps : ∀ ref ∈ nodes, ref ≠ place → graph.Keeps later ref) :
    ∃ all, later.Forest refs all ∧ ∀ ref ∈ all, ref ∈ nodes ∨ ref ∈ added := by
  induction forest with
  | nil => exact ⟨[], .nil, nofun⟩
  | @cons ref refs inner outer node nodeFound nodePlain parts rest fresh apartInside
    innerGrown outerGrown =>
      rw [List.mem_append, not_or] at fresh
      rw [List.disjoint_cons_left, List.disjoint_append_left] at apart
      have keepsInner : ∀ own ∈ inner, own ≠ place → graph.Keeps later own :=
        fun own member =>
        keeps own (List.mem_cons_of_mem _ (List.mem_append_left _ member))
      have keepsOuter : ∀ own ∈ outer, own ≠ place → graph.Keeps later own :=
        fun own member =>
        keeps own (List.mem_cons_of_mem _ (List.mem_append_right _ member))
      have innerOf : ∀ own ∈ inner, own ∈ ref :: (inner ++ outer) := fun own member =>
        List.mem_cons_of_mem _ (List.mem_append_left _ member)
      have outerOf : ∀ own ∈ outer, own ∈ ref :: (inner ++ outer) := fun own member =>
        List.mem_cons_of_mem _ (List.mem_append_right _ member)
      have frameInner : place ∉ inner → later.Forest node.stored inner := fun absent =>
        parts.frame fun own member => keepsInner own member fun equal =>
          absent (equal ▸ member)
      have frameOuter : place ∉ outer → later.Forest refs outer := fun absent =>
        rest.frame fun own member => keepsOuter own member fun equal =>
          absent (equal ▸ member)
      by_cases here : ref = place
      · subst here
        rw [found] at nodeFound
        cases nodeFound
        refine ⟨ref :: ((inner ++ added) ++ outer), ?_, ?_⟩
        · apply Forest.cons changed plain _ (frameOuter fresh.2)
          · simp only [List.mem_append, not_or]
            exact ⟨⟨fresh.1, apart.1⟩, fresh.2⟩
          · exact List.disjoint_append_left.2
              ⟨apartInside, List.disjoint_comm.1 apart.2.2⟩
          · rw [stored]
            exact (frameInner fresh.1).append grown apart.2.1
        · intro own member
          simp only [List.mem_cons, List.mem_append] at member ⊢
          tauto
      · rcases keeps ref List.mem_cons_self here node nodeFound with
          ⟨same, sameFound, form, link⟩
        have sameStored : same.stored = node.stored := by
          rw [Node.stored, Node.stored, form, link]
        by_cases inside : place ∈ inner
        · rcases innerGrown apart.2.1 keepsInner with ⟨all, allGrown, allOf⟩
          refine ⟨ref :: (all ++ outer), ?_, ?_⟩
          · apply Forest.cons sameFound (form ▸ nodePlain) (sameStored ▸ allGrown)
              (frameOuter (apartInside inside))
            · rw [List.mem_append, not_or]
              exact ⟨fun member => (allOf ref member).elim fresh.1 apart.1, fresh.2⟩
            · intro own member outside
              exact (allOf own member).elim (fun old => apartInside old outside)
                (fun new => apart.2.2 outside new)
          · intro own member
            rcases List.mem_cons.1 member with rfl | further
            · exact .inl List.mem_cons_self
            · exact (List.mem_append.1 further).elim
                (fun first => (allOf own first).imp_left (innerOf own))
                (fun last => .inl (outerOf own last))
        · rcases outerGrown apart.2.2 keepsOuter with ⟨all, allGrown, allOf⟩
          refine ⟨ref :: (inner ++ all), ?_, ?_⟩
          · apply Forest.cons sameFound (form ▸ nodePlain)
              (sameStored ▸ frameInner inside) allGrown
            · rw [List.mem_append, not_or]
              exact ⟨fresh.1, fun member => (allOf ref member).elim fresh.2 apart.1⟩
            · intro own first member
              exact (allOf own member).elim (fun old => apartInside first old)
                (fun new => apart.2.1 first new)
          · intro own member
            rcases List.mem_cons.1 member with rfl | further
            · exact .inl List.mem_cons_self
            · exact (List.mem_append.1 further).elim
                (fun first => .inl (innerOf own first))
                (fun last => (allOf own last).imp_left (outerOf own))

end Forest

end TypeGraph

end Casework
