import Casework.Proofs.Expansion

/-!
Fitting a copy to a tree.

What a pattern says of a type is built as a tree of new nodes, and the copy is unified
with it. Positions are expanded on the way, so the copy may grow without end. But a pair
of types that is looked at takes the second one out of the tree, and nothing else leads
there. So no more pairs are looked at than the tree has nodes.
-/

namespace Casework

/-! ## Joining with a plain form -/

/-- What becomes of the parts of a plain form that another one is joined with: some are
paired with parts of the other, and the rest are taken over. -/
structure Form.Takes (left right form : Form) (pairs : List (Ref × Ref))
    (extra : List Ref) : Prop where
  lefts : ∀ pair ∈ pairs, pair.1 ∈ left.refs
  parts : ∀ part ∈ form.refs, part ∈ left.refs ∨ part ∈ extra
  plain : left.isPlain → form.isPlain ∧ form.refs = left.refs ++ extra
  snug : form.Snug
  trees : ∀ (graph : TypeGraph) nodes, graph.Forest right.refs nodes →
    ∃ inside outside, graph.Forest (pairs.map Prod.snd) inside ∧
    graph.Forest extra outside ∧
      inside.Disjoint outside ∧ inside ⊆ nodes ∧ outside ⊆ nodes

namespace Build

variable {leftMembers rightMembers : Row} {leftBound : Option Row}

theorem bound_mergeRows_none :
    (mergeRows leftMembers leftBound rightMembers none).bound = leftBound := by
  cases leftBound <;> rfl

theorem map_snd_memberPairs (entries : List (String × Ref)) :
    (entries.filterMap fun (name, right) => (leftMembers.get? name).map (·, right)).map
      Prod.snd =
      (entries.filter fun entry => leftMembers.contains entry.1).map Prod.snd := by
  induction entries with
  | nil => rfl
  | cons entry rest induction =>
      rcases entry with ⟨name, right⟩
      cases found : leftMembers.get? name with
      | none => simp [Row.contains, found] at induction ⊢; exact induction
      | some own => simp [Row.contains, found] at induction ⊢; exact induction

theorem snug_mergeRows {kind : RowKind} (left : leftMembers.Fair leftBound)
    (right : rightMembers.Fair none) (snug : (Form.row kind leftMembers leftBound).Snug)
    (allowed : NamesAllowed leftMembers leftBound rightMembers none) :
    (Form.row kind (mergeRows leftMembers leftBound rightMembers none).members
      (mergeRows leftMembers leftBound rightMembers none).bound).Snug := by
  rw [bound_mergeRows_none]
  cases leftBound with
  | none => trivial
  | some row =>
      intro name
      rw [get?_mergeRows, snug name]
      cases found : leftMembers.get? name with
      | some own => rfl
      | none =>
          symm
          rw [Option.none_or, Row.get?_eq_none_iff, Bool.eq_false_iff]
          intro contained
          have inside :=
            ((namesAllowed_iff left right).1 allowed).1 row rfl name contained
          have member := (left.agreed row rfl name).1 inside
          rw [Row.get?_eq_none_iff.1 found] at member
          cases member

theorem pairs_mergeRows_none :
    (mergeRows leftMembers leftBound rightMembers none).pairs =
      (rightMembers.entries.filterMap fun (name, right) =>
        (leftMembers.get? name).map (·, right)) ++
        (mergeRows leftMembers leftBound rightMembers none).members.entries.filterMap
          fun (name, type) =>
          match ((mergeRows leftMembers leftBound rightMembers none).bound.bind
            (·.get? name)) with
          | some other => if other = type then none else some (type, other)
          | none => none := by
  cases leftBound with
  | none => exact congrArg (· ++ _) (List.append_nil _)
  | some row => exact congrArg (· ++ _) (List.append_nil _)

theorem pairs_mergeRows {kind : RowKind} (left : leftMembers.Fair leftBound)
    (right : rightMembers.Fair none) (snug : (Form.row kind leftMembers leftBound).Snug)
    (allowed : NamesAllowed leftMembers leftBound rightMembers none) :
    (mergeRows leftMembers leftBound rightMembers none).pairs =
      rightMembers.entries.filterMap fun (name, right) => (leftMembers.get? name).map
        (·, right) := by
  have merged := fair_mergeRows left right allowed
  have snugToo := snug_mergeRows left right snug allowed
  rw [pairs_mergeRows_none, List.append_right_eq_self, List.filterMap_eq_nil_iff]
  rintro ⟨name, type⟩ member
  dsimp only
  split
  next other found =>
      rcases Option.bind_eq_some_iff.1 found with ⟨row, bounded, got⟩
      rw [bounded] at snugToo
      rw [snugToo name, (Row.get?_eq_some_iff merged.distinct).2 member] at got
      cases got
      exact if_pos rfl
  next => rfl

end Build

namespace Form

variable {left right form : Form} {pairs : List (Ref × Ref)}

theorem takes_of_join? (joined : left.join? right = some (form, pairs))
    (plain : right.isPlain) (snug : left.Snug) (leftFair : left.Fair)
    (rightFair : right.Fair) :
    ∃ extra, Takes left right form pairs extra := by
  rcases join?_cases joined with
    ⟨own, rfl, rfl, rfl, rfl⟩ | ⟨_, _, _, _, rfl, rfl, rfl, rfl⟩ |
    ⟨_, _, rfl, rfl, rfl, rfl⟩ |
    ⟨kind, members, bound, otherMembers, otherBound, rfl, rfl, fits, rfl, rfl⟩
  · refine ⟨[], nofun, fun _ => .inl, fun plain =>
      ⟨plain, (List.append_nil _).symm⟩, trivial, ?_⟩
    intro graph nodes forest
    exact ⟨nodes, [], forest, .nil, List.disjoint_nil_right _, List.Subset.refl _,
      List.nil_subset _⟩
  · refine ⟨[], ?_, fun _ => .inl, fun plain =>
      ⟨plain, (List.append_nil _).symm⟩, trivial, ?_⟩
    · intro pair member
      simp only [List.mem_cons, List.not_mem_nil, or_false] at member
      rcases member with rfl | rfl <;> simp [refs, parameters]
    · intro graph nodes forest
      exact ⟨nodes, [], forest, .nil, List.disjoint_nil_right _, List.Subset.refl _,
        List.nil_subset _⟩
  · refine ⟨[], ?_, fun _ => .inl, fun plain =>
      ⟨plain, (List.append_nil _).symm⟩, trivial, ?_⟩
    · intro pair member
      rw [List.mem_singleton.1 member]
      exact List.mem_cons_self
    · intro graph nodes forest
      exact ⟨nodes, [], forest, .nil, List.disjoint_nil_right _, List.Subset.refl _,
        List.nil_subset _⟩
  · cases otherBound with
    | some row => cases plain
    | none =>
        have allowed := namesAllowed_of_rowsFit fits
        have entries : (Build.mergeRows members bound otherMembers none).members.entries =
            _ :=
          Build.entries_mergeRows rightFair.distinct
        have paired := Build.pairs_mergeRows leftFair rightFair snug allowed
        refine ⟨(otherMembers.entries.filter fun entry =>
          !members.contains entry.1).map Prod.snd, ?_, ?_, ?_,
          Build.snug_mergeRows leftFair rightFair snug allowed, ?_⟩
        · intro pair member
          rw [paired] at member
          rcases List.mem_filterMap.1 member with ⟨⟨name, type⟩, _, made⟩
          rcases Option.map_eq_some_iff.1 made with ⟨own, found, rfl⟩
          exact List.mem_append_left _ (Row.mem_refs_of_get? found)
        · intro part member
          rw [Build.bound_mergeRows_none] at member
          rcases List.mem_append.1 member with inside | bounded
          · rw [Row.refs, entries, List.map_append] at inside
            exact (List.mem_append.1 inside).imp_left (List.mem_append_left _)
          · exact .inl (List.mem_append_right _ bounded)
        · intro leftPlain
          cases bound with
          | some row => cases leftPlain
          | none =>
              refine ⟨rfl, ?_⟩
              rw [Build.bound_mergeRows_none]
              simp only [refs, Row.refs, entries, List.map_append, Option.map_none,
                Option.getD_none, List.append_nil]
        · intro graph nodes forest
          have trees : graph.Forest (otherMembers.entries.map Prod.snd) nodes := by
            simpa only [refs, Row.refs, Option.map_none, Option.getD_none,
              List.append_nil] using forest
          rw [paired, Build.map_snd_memberPairs]
          exact trees.partition fun entry => members.contains entry.1

end Form

/-! ## Pairs that wait -/

namespace TypeGraph

variable {original graph middle later : TypeGraph} {unfolding base top : Nat}
  {ref target left right : Ref} {node leftNode rightNode : Node}
  {waiting pairs : List (Ref × Ref)} {forest : List Ref} {owned : Ref → Prop}

/-- The second types of the pairs that wait are trees of nodes that nothing owned leads
to. The first types are owned. -/
structure Facing (graph : TypeGraph) (waiting : List (Ref × Ref)) (forest : List Ref)
    (owned : Ref → Prop) : Prop where
  trees : graph.Forest (waiting.map Prod.snd) forest
  closed : ∀ ref node, owned ref → graph.node ref = .ok node →
    ∀ part ∈ node.stored, owned part
  fresh : ∀ ref : Ref, graph.size < ref.number → owned ref
  lefts : ∀ pair ∈ waiting, owned pair.1
  apart : ∀ ref ∈ forest, ¬ owned ref

namespace Facing

theorem owned_of_leads (facing : graph.Facing waiting forest owned)
    (leads : graph.Leads ref target) (isOwned : owned ref) : owned target := by
  apply leads.induct _ isOwned
  rintro own next ownOwned ⟨node, found, linked⟩
  exact facing.closed own node ownOwned found next (node.mem_stored_of_link linked)

theorem owned_of_forest (facing : graph.Facing waiting forest owned)
    {refs nodes : List Ref} (trees : graph.Forest refs nodes)
    (start : ∀ ref ∈ refs, owned ref) : ∀ ref ∈ nodes, owned ref :=
  trees.within facing.closed start

theorem expand (facing : graph.Facing waiting forest owned) {position : Ref}
    (expands : graph.Expands later position) : later.Facing waiting forest owned where
  trees := facing.trees.frame (expands.keeps facing.trees)
  closed ref node isOwned found part member := by
    by_cases old : graph.size < ref.number
    · exact facing.fresh part (expands.fresh ref node old found part member)
    · have has : graph.Has ref := ⟨(has_of_node found).1, by omega⟩
      by_cases equal : ref = position
      · subst equal
        rcases expands.linked with
          ⟨before, after, origin, copy, _, _, _, laterFound, form, link, isNew⟩
        rw [laterFound] at found
        cases found
        rw [Node.stored, link, form] at member
        rw [List.mem_singleton.1 member]
        exact facing.fresh copy isNew
      · rw [expands.others ref has equal] at found
        exact facing.closed ref node isOwned found part member
  fresh ref isNew := by
    apply facing.fresh
    have grown := expands.grown
    omega
  lefts := facing.lefts
  apart := facing.apart

end Facing

def Onward (graph later : TypeGraph) (waiting : List (Ref × Ref)) (count : Nat)
    (owned : Ref → Prop) :
    Prop :=
  ∃ rest more, later.Facing waiting rest more ∧ rest.length < count ∧
    (∀ ref, owned ref → more ref) ∧
    ∀ ref nodes, owned ref → graph.Forest [ref] nodes → ∃ all, later.Forest [ref] all

/-- The nodes that stand for the types of a pair. The second is in a tree of which nothing
is owned. -/
structure Paired (graph : TypeGraph) (left right : Ref) (leftNode rightNode : Node)
    (tree below : List Ref) (owned : Ref → Prop) : Prop where
  leftOwned : owned left
  leftFound : graph.node left = .ok leftNode
  leftUnlinked : leftNode.link = none
  rightFound : graph.node right = .ok rightNode
  rightUnlinked : rightNode.link = none
  rightPlain : rightNode.form.isPlain
  rightMember : right ∈ tree
  inside : graph.Forest rightNode.form.refs below
  belowTree : below ⊆ tree
  rightNotBelow : right ∉ below
  shorter : below.length < tree.length
  closedTree : ∀ ref ∈ tree, ∀ node, graph.node ref = .ok node →
    ∀ part ∈ node.stored, part ∈ tree
  treeApart : ∀ ref ∈ tree, ¬ owned ref

theorem Facing.paired {first second : Ref}
    (facing : graph.Facing ((first, second) :: waiting) forest owned)
    (leftRooted : graph.Rooted first left leftNode)
    (rightRooted : graph.Rooted second right rightNode) :
    ∃ tree below others, Paired graph left right leftNode rightNode tree below owned ∧
      graph.Facing waiting others owned ∧ tree.Disjoint others ∧
        tree.length + others.length = forest.length := by
  rcases facing with ⟨trees, closed, fresh, lefts, apart⟩
  have facing := Facing.owned_of_leads ⟨trees, closed, fresh, lefts, apart⟩
    leftRooted.leads
  cases trees with
  | @cons _ _ inner outer node found plain parts rest new separate =>
      rw [List.mem_append, not_or] at new
      have tree : graph.Forest [second] (second :: inner) := by
        have single := Forest.cons found plain parts .nil (by simpa using new.1)
          (List.disjoint_nil_right _)
        rwa [List.append_nil] at single
      rcases tree.below_root rightRooted with
        ⟨rightPlain, rightMember, below, inside, belowTree, rightNotBelow, shorter⟩
      refine ⟨second :: inner, below, outer, ?_, ?_,
        List.disjoint_cons_left.2 ⟨new.2, separate⟩, ?_⟩
      · refine ⟨facing (lefts _ List.mem_cons_self), leftRooted.found,
          leftRooted.unlinked, rightRooted.found, rightRooted.unlinked, rightPlain,
          rightMember, inside, belowTree, rightNotBelow,
          shorter, ?_, ?_⟩
        · intro own member ownNode ownFound part stored
          rcases tree.node_of_mem member with ⟨same, sameFound, _, belowToo⟩
          rw [ownFound] at sameFound
          cases sameFound
          exact belowToo part stored
        · intro own member
          apply apart
          rcases List.mem_cons.1 member with rfl | further
          · exact List.mem_cons_self
          · exact List.mem_cons_of_mem _ (List.mem_append_left _ further)
      · refine ⟨rest, closed, fresh, fun pair member =>
          lefts pair (List.mem_cons_of_mem _ member), ?_⟩
        intro own member
        exact apart own (List.mem_cons_of_mem _ (List.mem_append_right _ member))
      · simp only [List.length_cons, List.length_append]
        omega

namespace Paired

variable {tree below others : List Ref} {form : Form}

theorem different (paired : Paired graph left right leftNode rightNode tree below owned) :
    left ≠ right := by
  rintro rfl
  exact paired.treeApart left paired.rightMember paired.leftOwned

theorem onward_of_bindLeft
    (paired : Paired graph left right leftNode rightNode tree below owned)
    (facing : graph.Facing waiting others owned) (disjoint : tree.Disjoint others)
    {origin : Option Origin} (isVar : leftNode.form = .var origin)
    (unites : graph.Unites later left right leftNode rightNode.form) :
    graph.Onward later waiting (tree.length + others.length) owned := by
  have elsewhere : ∀ own, owned own → own ≠ right := by
    rintro own isOwned rfl
    exact paired.treeApart own paired.rightMember isOwned
  rcases unites.goneLater with ⟨after, afterFound, afterForm, afterLink⟩
  have afterStored : after.stored = leftNode.stored ++ [right] := by
    rw [Node.stored, Node.stored, afterLink, afterForm, paired.leftUnlinked, isVar]
    rfl
  refine ⟨others, fun ref => owned ref ∨ ref ∈ tree, ?_, ?_, fun _ => .inl, ?_⟩
  · refine ⟨?_, ?_, ?_, fun pair member => .inl (facing.lefts pair member), ?_⟩
    · refine facing.trees.frame fun own member => keeps_of_eq (unites.others own ?_ ?_)
      · rintro rfl
        exact facing.apart own member paired.leftOwned
      · rintro rfl
        exact disjoint paired.rightMember member
    · intro own node isOwned found part member
      rcases unites.node_cases found with
        ⟨rfl, sameForm, linked⟩ | ⟨rfl, sameForm, unlinked⟩ | ⟨_, _, old⟩
      · rw [Node.stored, linked, sameForm, isVar] at member
        rw [List.mem_singleton.1 member]
        exact .inr paired.rightMember
      · rw [Node.stored_of_unlinked unlinked, sameForm] at member
        exact .inr (paired.belowTree (paired.inside.mem member))
      · rcases isOwned with isOwned | inTree
        · exact .inl (facing.closed own node isOwned old part member)
        · exact .inr (paired.closedTree own inTree node old part member)
    · intro own isNew
      exact .inl (facing.fresh own (unites.size ▸ isNew))
    · rintro own member (isOwned | inTree)
      · exact facing.apart own member isOwned
      · exact disjoint inTree member
  · have positive := List.length_pos_of_mem paired.rightMember
    omega
  · intro own nodes isOwned single
    have allOwned := facing.owned_of_forest single fun ref member =>
      (List.mem_singleton.1 member) ▸ isOwned
    have keeps : ∀ ref ∈ nodes, ref ≠ left → graph.Keeps later ref :=
      fun ref member notLeft =>
      keeps_of_eq (unites.others ref notLeft (elsewhere ref (allOwned ref member)))
    by_cases inside : left ∈ nodes
    · have rightTree : graph.Forest [right] (right :: below) := by
        have single := Forest.cons paired.rightFound paired.rightPlain
          (Node.stored_of_unlinked paired.rightUnlinked ▸ paired.inside) .nil
          (by simpa using paired.rightNotBelow) (List.disjoint_nil_right _)
        rwa [List.append_nil] at single
      have belowApart : ∀ ref ∈ right :: below, ¬ owned ref := by
        intro ref member
        rcases List.mem_cons.1 member with rfl | further
        · exact paired.treeApart ref paired.rightMember
        · exact paired.treeApart ref (paired.belowTree further)
      have grown : later.Forest [right] (right :: below) := by
        refine rightTree.frame fun ref member => ?_
        by_cases equal : ref = right
        · subst equal
          intro node found
          rw [paired.rightFound] at found
          cases found
          rcases unites.keptLater with ⟨kept, keptFound, keptForm, keptUnlinked⟩
          exact ⟨kept, keptFound, keptForm, keptUnlinked.trans paired.rightUnlinked.symm⟩
        · apply keeps_of_eq (unites.others ref _ equal)
          rintro rfl
          exact belowApart ref member paired.leftOwned
      rcases single.node_of_mem inside with ⟨same, sameFound, plain, _⟩
      rw [paired.leftFound] at sameFound
      cases sameFound
      rcases single.graft paired.leftFound afterFound (afterForm ▸ plain)
        afterStored grown
        (fun ref first second => belowApart ref second (allOwned ref first)) keeps with
        ⟨all, result, _⟩
      exact ⟨all, result⟩
    · exact ⟨nodes, single.frame fun ref member => keeps ref member fun equal =>
        inside (equal ▸ member)⟩

theorem onward_of_bindRight
    (paired : Paired graph left right leftNode rightNode tree below owned)
    (facing : graph.Facing waiting others owned) (disjoint : tree.Disjoint others)
    (unites : graph.Unites later right left rightNode leftNode.form) :
    graph.Onward later waiting (tree.length + others.length) owned := by
  have elsewhere : ∀ own, owned own → own ≠ right := by
    rintro own isOwned rfl
    exact paired.treeApart own paired.rightMember isOwned
  have keeps : ∀ ref, ref ≠ right → graph.Keeps later ref := by
    intro ref notRight
    by_cases equal : ref = left
    · subst equal
      intro node found
      rw [paired.leftFound] at found
      cases found
      rcases unites.keptLater with ⟨kept, keptFound, keptForm, keptUnlinked⟩
      exact ⟨kept, keptFound, keptForm, keptUnlinked.trans paired.leftUnlinked.symm⟩
    · exact keeps_of_eq (unites.others ref notRight equal)
  refine ⟨others, owned, ⟨?_, ?_, ?_, facing.lefts, facing.apart⟩, ?_,
    fun _ isOwned => isOwned, ?_⟩
  · refine facing.trees.frame fun ref member => keeps ref ?_
    rintro rfl
    exact disjoint paired.rightMember member
  · intro own node isOwned found part member
    rcases unites.node_cases found with ⟨rfl, _⟩ | ⟨rfl, sameForm, unlinked⟩ | ⟨_, _, old⟩
    · exact absurd rfl (elsewhere own isOwned)
    · rw [Node.stored_of_unlinked unlinked, sameForm] at member
      exact facing.closed own leftNode isOwned paired.leftFound part
        (leftNode.mem_stored_of_refs member)
    · exact facing.closed own node isOwned old part member
  · intro own isNew
    exact facing.fresh own (unites.size ▸ isNew)
  · have positive := List.length_pos_of_mem paired.rightMember
    omega
  · intro own nodes isOwned single
    have allOwned := facing.owned_of_forest single fun ref member =>
      (List.mem_singleton.1 member) ▸ isOwned
    exact ⟨nodes, single.frame fun ref member =>
      keeps ref (elsewhere ref (allOwned ref member))⟩

theorem below_apart
    (paired : Paired graph left right leftNode rightNode tree below owned) :
    ∀ ref ∈ below, ¬ owned ref := fun ref member =>
  paired.treeApart ref (paired.belowTree member)

theorem keeps_below (paired : Paired graph left right leftNode rightNode tree below owned)
    (unites : graph.Unites later right left rightNode form) {ref : Ref}
    (member : ref ∈ below) : graph.Keeps later ref := by
  refine keeps_of_eq (unites.others ref ?_ ?_)
  · rintro rfl
    exact paired.rightNotBelow member
  · rintro rfl
    exact paired.below_apart ref member paired.leftOwned

/-- After two types have been joined, the trees of their parts still wait to be owned. -/
theorem facing_of_join
    (paired : Paired graph left right leftNode rightNode tree below owned)
    (facing : graph.Facing waiting others owned) (disjoint : tree.Disjoint others)
    {extra inside outside : List Ref}
    (takes : Form.Takes leftNode.form rightNode.form form pairs extra)
    (unites : graph.Unites later right left rightNode form)
    (pairTrees : graph.Forest (pairs.map Prod.snd) inside)
    (extraTrees : graph.Forest extra outside) (separate : inside.Disjoint outside)
    (insideBelow : inside ⊆ below) (outsideBelow : outside ⊆ below) :
    later.Facing (pairs ++ waiting) (inside ++ others)
      fun ref => owned ref ∨ ref ∈ outside := by
  have belowOthers : below.Disjoint others := fun ref member =>
    disjoint (paired.belowTree member)
  refine ⟨?_, ?_, ?_, ?_, ?_⟩
  · rw [List.map_append]
    refine Forest.append
      (pairTrees.frame fun ref member => paired.keeps_below unites (insideBelow member))
      (facing.trees.frame fun ref member => keeps_of_eq (unites.others ref ?_ ?_))
      fun ref member => belowOthers (insideBelow member)
    · rintro rfl
      exact disjoint paired.rightMember member
    · rintro rfl
      exact facing.apart ref member paired.leftOwned
  · intro own node isOwned found part member
    rcases unites.node_cases found with
      ⟨rfl, _⟩ | ⟨rfl, newForm, unlinked⟩ | ⟨_, _, old⟩
    · rcases isOwned with isOwned | outer
      · exact absurd isOwned (paired.treeApart own paired.rightMember)
      · exact absurd (outsideBelow outer) paired.rightNotBelow
    · rw [Node.stored_of_unlinked unlinked, newForm] at member
      rcases takes.parts part member with own | taken
      · exact .inl (facing.closed _ leftNode paired.leftOwned paired.leftFound part
          (leftNode.mem_stored_of_refs own))
      · exact .inr (extraTrees.mem taken)
    · rcases isOwned with isOwned | outer
      · exact .inl (facing.closed own node isOwned old part member)
      · rcases extraTrees.node_of_mem outer with ⟨same, sameFound, _, belowToo⟩
        rw [old] at sameFound
        cases sameFound
        exact .inr (belowToo part member)
  · intro own isNew
    exact .inl (facing.fresh own (unites.size ▸ isNew))
  · intro pair member
    rcases List.mem_append.1 member with new | waits
    · exact .inl (facing.closed left leftNode paired.leftOwned paired.leftFound pair.1
        (leftNode.mem_stored_of_refs (takes.lefts pair new)))
    · exact .inl (facing.lefts pair waits)
  · rintro own member (isOwned | outer)
    · rcases List.mem_append.1 member with first | second
      · exact paired.below_apart own (insideBelow first) isOwned
      · exact facing.apart own second isOwned
    · rcases List.mem_append.1 member with first | second
      · exact separate first outer
      · exact belowOthers (outsideBelow outer) second

/-- An owned tree is still a tree after two types have been joined. -/
theorem exists_tree_of_join
    (paired : Paired graph left right leftNode rightNode tree below owned)
    (facing : graph.Facing waiting others owned) {extra outside : List Ref}
    (takes : Form.Takes leftNode.form rightNode.form form pairs extra)
    (unites : graph.Unites later right left rightNode form)
    (extraTrees : graph.Forest extra outside) (outsideBelow : outside ⊆ below)
    {own : Ref} {nodes : List Ref} (isOwned : owned own)
    (single : graph.Forest [own] nodes) : ∃ all, later.Forest [own] all := by
  have allOwned := facing.owned_of_forest single fun ref member =>
    (List.mem_singleton.1 member) ▸ isOwned
  have keepsNodes : ∀ ref ∈ nodes, ref ≠ left → graph.Keeps later ref := by
    intro ref member notLeft
    refine keeps_of_eq (unites.others ref ?_ notLeft)
    rintro rfl
    exact paired.treeApart ref paired.rightMember (allOwned ref member)
  by_cases here : left ∈ nodes
  · rcases single.node_of_mem here with ⟨same, sameFound, plain, _⟩
    rw [paired.leftFound] at sameFound
    cases sameFound
    rcases unites.keptLater with ⟨kept, keptFound, keptForm, keptUnlinked⟩
    have stored : kept.stored = leftNode.stored ++ extra := by
      rw [Node.stored_of_unlinked keptUnlinked,
        Node.stored_of_unlinked paired.leftUnlinked, keptForm]
      exact (takes.plain plain).2
    rcases single.graft paired.leftFound keptFound
      (keptForm ▸ (takes.plain plain).1) stored
      (extraTrees.frame fun ref member => paired.keeps_below unites (outsideBelow member))
      (fun ref first second =>
        paired.below_apart ref (outsideBelow second) (allOwned ref first)) keepsNodes with
      ⟨all, result, _⟩
    exact ⟨all, result⟩
  · exact ⟨nodes, single.frame fun ref member =>
      keepsNodes ref member fun equal => here (equal ▸ member)⟩

theorem onward_of_join
    (paired : Paired graph left right leftNode rightNode tree below owned)
    (facing : graph.Facing waiting others owned) (disjoint : tree.Disjoint others)
    {extra : List Ref} (takes : Form.Takes leftNode.form rightNode.form form pairs extra)
    (unites : graph.Unites later right left rightNode form) :
    graph.Onward later (pairs ++ waiting) (tree.length + others.length) owned := by
  rcases takes.trees graph below paired.inside with
    ⟨inside, outside, pairTrees, extraTrees, separate, insideBelow, outsideBelow⟩
  refine ⟨inside ++ others, fun ref => owned ref ∨ ref ∈ outside,
    paired.facing_of_join facing disjoint takes unites pairTrees extraTrees separate
      insideBelow outsideBelow, ?_, fun _ => .inl, fun own nodes isOwned single =>
      paired.exists_tree_of_join facing takes unites extraTrees outsideBelow isOwned
        single⟩
  have fewer : inside.length ≤ below.length :=
    (pairTrees.nodup.subperm insideBelow).length_le
  have shorter := paired.shorter
  rw [List.length_append]
  omega

end Paired

/-! ## Steps -/

def Lasting (graph later : TypeGraph) : Prop :=
  ∀ ref target node, graph.Rooted ref target node → node.form.kind ≠ .var →
    ∃ root after, later.Rooted ref root after ∧ after.form.kind = node.form.kind

theorem Lasting.refl (graph : TypeGraph) : graph.Lasting graph :=
  fun _ target node rooted _ => ⟨target, node, rooted, rfl⟩

theorem Lasting.trans (first : graph.Lasting middle) (second : middle.Lasting later) :
    graph.Lasting later := by
  intro ref target node rooted notVar
  rcases first ref target node rooted notVar with ⟨root, after, rootedMiddle, kind⟩
  rcases second ref root after rootedMiddle (kind ▸ notVar) with
    ⟨last, final, rootedLater, kindLater⟩
  exact ⟨last, final, rootedLater, kindLater.trans kind⟩

theorem Expands.lasting {position : Ref} (expands : graph.Expands later position) :
    graph.Lasting later := by
  intro ref target node rooted notVar
  refine ⟨target, node, expands.rooted rooted ?_, rfl⟩
  cases form : node.form with
  | var origin =>
      rw [form] at notVar
      exact absurd rfl notVar
  | _ => rfl

theorem Unites.lasting {gone kept : Ref} {goneNode : Node} {form : Form}
    (unites : graph.Unites later gone kept goneNode form)
    (goneKind : goneNode.form.kind ≠ .var → form.kind = goneNode.form.kind)
    (keptKind : ∀ node, graph.node kept = .ok node → node.form.kind ≠ .var →
      form.kind = node.form.kind) : graph.Lasting later := by
  intro ref target node rooted notVar
  rcases unites.rooted rooted with
    ⟨root, after, laterRooted, ⟨isGone | isKept, _, newForm⟩ | ⟨_, _, _, rfl⟩⟩
  · subst isGone
    have found := rooted.found
    rw [unites.goneFound] at found
    cases found
    exact ⟨root, after, laterRooted, newForm ▸ goneKind notVar⟩
  · subst isKept
    exact ⟨root, after, laterRooted, newForm ▸ keptKind node rooted.found notVar⟩
  · exact ⟨root, after, laterRooted, rfl⟩

theorem Step.lasting (step : graph.Step later left right leftNode rightNode pairs)
    (leftFound : graph.node left = .ok leftNode)
    (rightFound : graph.node right = .ok rightNode) :
    graph.Lasting later := by
  cases step with
  | same _ unchanged =>
      subst unchanged
      exact .refl _
  | bindLeft form unites =>
      apply unites.lasting
      · rw [form]
        exact fun notVar => absurd rfl notVar
      · intro node found _
        rw [rightFound] at found
        cases found
        rfl
  | bindRight _ form unites =>
      apply unites.lasting
      · rw [form]
        exact fun notVar => absurd rfl notVar
      · intro node found _
        rw [leftFound] at found
        cases found
        rfl
  | join joined unites =>
      have kinds := Form.kind_of_join? joined
      apply unites.lasting
      · exact fun _ => kinds.1.trans kinds.2.1.symm
      · intro node found _
        rw [leftFound] at found
        cases found
        exact kinds.1

theorem Step.linksTo
    (step : graph.Step later left right leftNode rightNode pairs) {next : Ref}
    (linked : graph.LinksTo ref next) : later.LinksTo ref next := by
  cases step with
  | same _ unchanged => exact unchanged ▸ linked
  | bindLeft _ unites => exact unites.linksTo linked
  | bindRight _ _ unites => exact unites.linksTo linked
  | join _ unites => exact unites.linksTo linked

theorem Step.same_types {first second : Ref}
    (step : graph.Step later left right leftNode rightNode pairs)
    (leftLeads : graph.Leads first left) (rightLeads : graph.Leads second right) :
    later.Same first second := by
  have leads : ∀ {ref target : Ref}, graph.Leads ref target →
      later.Leads ref target := fun way =>
    way.mono fun _ _ => step.linksTo
  cases step with
  | same equal _ => exact ⟨left, leads leftLeads, equal ▸ leads rightLeads⟩
  | bindLeft _ unites =>
      rcases unites.rooted_of_leads (.inl leftLeads) with ⟨_, rooted, _⟩
      exact ⟨right, rooted.leads, leads rightLeads⟩
  | bindRight _ _ unites =>
      rcases unites.rooted_of_leads (.inl rightLeads) with ⟨_, rooted, _⟩
      exact ⟨left, leads leftLeads, rooted.leads⟩
  | join _ unites =>
      rcases unites.rooted_of_leads (.inl rightLeads) with ⟨_, rooted, _⟩
      exact ⟨left, leads leftLeads, rooted.leads⟩

theorem Copying.unite (copying : Copying original unfolding base graph) {gone kept : Ref}
    {goneNode keptNode : Node} {form : Form}
    (unites : graph.Unites later gone kept goneNode form) (goneHigh : base < gone.number)
    (keptHigh : base < kept.number) (wellFormed : later.WellFormed)
    (keptFound : graph.node kept = .ok keptNode)
    (parts : ∀ part ∈ form.refs, base < part.number) (snug : form.Snug)
    (position : form = keptNode.form ∨ form.isPosition = false) :
    Copying original unfolding base later ∧
      ∀ ref, graph.Has ref → ref.number ≤ base → later.node ref = graph.node ref := by
  have grown : graph.size ≤ later.size := unites.size.ge
  have nodes : ∀ ref node, later.node ref = .ok node →
      graph.node ref = .ok node ∨ Placed original unfolding base later ref node := by
    intro ref node found
    rcases unites.node_cases found with
      ⟨rfl, sameForm, linked⟩ | ⟨rfl, newForm, unlinked⟩ | ⟨_, _, old⟩
    · have placed :=
        placed_of_eq unites.unfoldings (copying.placed_above goneHigh unites.goneFound)
      refine .inr ⟨goneHigh, fun part member => ?_, sameForm ▸ placed.snug,
        fun origin form =>
        placed.position origin (sameForm ▸ form)⟩
      rw [Node.stored, linked, sameForm] at member
      rcases List.mem_append.1 member with isLink | inside
      · rw [List.mem_singleton.1 isLink]
        exact keptHigh
      · exact placed.parts part (goneNode.mem_stored_of_refs inside)
    · have placed :=
        placed_of_eq unites.unfoldings (copying.placed_above keptHigh keptFound)
      refine .inr ⟨keptHigh, fun part member => ?_, newForm ▸ snug,
        fun origin isPosition => ?_⟩
      · rw [Node.stored_of_unlinked unlinked, newForm] at member
        exact parts part member
      · rw [newForm] at isPosition
        rcases position with same | plain
        · exact placed.position origin (same ▸ isPosition)
        · rw [isPosition] at plain
          cases plain
    · exact .inl old
  exact ⟨copying.change wellFormed grown (copying.noted_of_eq grown unites.unfoldings)
    (fun _ => lists_of_eq unites.unfoldings) nodes, untouched grown nodes⟩

theorem Copying.step (copying : Copying original unfolding base graph)
    (step : graph.Step later left right leftNode rightNode pairs)
    (leftHigh : base < left.number) (rightHigh : base < right.number)
    (leftFound : graph.node left = .ok leftNode)
    (rightFound : graph.node right = .ok rightNode) (plain : rightNode.form.isPlain) :
    Copying original unfolding base later ∧
      ∀ ref, graph.Has ref → ref.number ≤ base → later.node ref = graph.node ref := by
  have wellFormed := step.wellFormed copying.wellFormed leftFound rightFound
  have leftPlaced := copying.placed_above leftHigh leftFound
  have rightPlaced := copying.placed_above rightHigh rightFound
  have leftParts : ∀ part ∈ leftNode.form.refs, base < part.number := fun part member =>
    leftPlaced.parts part (leftNode.mem_stored_of_refs member)
  have rightParts : ∀ part ∈ rightNode.form.refs, base < part.number := fun part member =>
    rightPlaced.parts part (rightNode.mem_stored_of_refs member)
  cases step with
  | same _ unchanged =>
      subst unchanged
      exact ⟨copying, fun _ _ _ => rfl⟩
  | bindLeft _ unites =>
      exact copying.unite unites leftHigh rightHigh wellFormed rightFound rightParts
        rightPlaced.snug
        (.inl rfl)
  | bindRight _ _ unites =>
      exact copying.unite unites rightHigh leftHigh wellFormed leftFound leftParts
        leftPlaced.snug (.inl rfl)
  | join joined unites =>
      rcases Form.takes_of_join? joined plain leftPlaced.snug
        (copying.wellFormed.fair left leftNode leftFound)
        (copying.wellFormed.fair right rightNode rightFound) with ⟨extra, takes⟩
      refine copying.unite unites rightHigh leftHigh wellFormed leftFound
        (fun part member => ?_) takes.snug
        (.inr (Form.isPosition_of_join? joined))
      exact (Form.mem_refs_of_join? joined member).elim (leftParts part) (rightParts part)

theorem Facing.step {first second : Ref}
    (facing : graph.Facing ((first, second) :: waiting) forest owned)
    (copying : Copying original unfolding base graph) (leftHigh : base < left.number)
    (leftRooted : graph.Rooted first left leftNode)
    (rightRooted : graph.Rooted second right rightNode)
    (step : graph.Step later left right leftNode rightNode pairs) :
    graph.Onward later (pairs ++ waiting) forest.length owned := by
  rcases facing.paired leftRooted rightRooted with
    ⟨tree, below, others, paired, rest, disjoint, length⟩
  rw [← length]
  cases step with
  | same equal _ => exact absurd equal paired.different
  | bindLeft isVar unites => exact paired.onward_of_bindLeft rest disjoint isVar unites
  | bindRight _ _ unites => exact paired.onward_of_bindRight rest disjoint unites
  | join joined unites =>
      rcases Form.takes_of_join? joined paired.rightPlain
        (copying.placed_above leftHigh leftRooted.found).snug
        (copying.wellFormed.fair left leftNode leftRooted.found)
        (copying.wellFormed.fair right rightNode rightRooted.found) with ⟨extra, takes⟩
      exact paired.onward_of_join rest disjoint takes unites

/-! ## Runs -/

structure Fitting (original : TypeGraph) (unfolding base top : Nat) (start : TypeGraph)
    (left right : Ref) (bound : Nat) (graph : TypeGraph) (waiting : List (Ref × Ref)) :
    Prop where
  advances : Advances original unfolding base top start graph
  named : ∀ pair ∈ waiting, (graph.Has pair.1 ∧ base < pair.1.number) ∧
    graph.Has pair.2 ∧ base < pair.2.number
  facing : ∃ forest owned, graph.Facing waiting forest owned ∧ forest.length ≤ bound ∧
    ∀ ref : Ref, ref.number ≤ top → owned ref
  joined : graph.Same left right ∨ (left, right) ∈ waiting
  lasting : start.Lasting graph

namespace Fitting

variable {start : TypeGraph} {first second : Ref} {bound : Nat}

theorem expand
    (fitting : Fitting original unfolding base top start left right bound graph waiting)
    {position : Ref} (copying : Copying original unfolding base later)
    (high : base < position.number) (expands : graph.Expands later position) :
    Fitting original unfolding base top start left right bound later waiting where
  advances := ⟨copying, fitting.advances.spares.trans (expands.spares high top)⟩
  named pair member := by
    rcases fitting.named pair member with ⟨⟨leftHas, leftHigh⟩, rightHas, rightHigh⟩
    exact ⟨⟨leftHas.mono expands.grown, leftHigh⟩, rightHas.mono expands.grown, rightHigh⟩
  facing := by
    rcases fitting.facing with ⟨forest, owned, facing, short, low⟩
    exact ⟨forest, owned, facing.expand expands, short, low⟩
  joined := fitting.joined.imp_left fun same => same.mono fun _ _ => expands.linksTo
  lasting := fitting.lasting.trans expands.lasting

theorem step
    (fitting : Fitting original unfolding base top start left right bound graph
      ((first, second) :: waiting))
    {leftRoot rightRoot : Ref} (leftRooted : graph.Rooted first leftRoot leftNode)
    (rightRooted : graph.Rooted second rightRoot rightNode)
    (step : graph.Step later leftRoot rightRoot leftNode rightNode pairs) :
    ∃ less < bound, Fitting original unfolding base top start left right less later
      (pairs ++ waiting) := by
  have copying := fitting.advances.copying
  rcases fitting.named _ List.mem_cons_self with
    ⟨⟨leftHas, leftHigh⟩, rightHas, rightHigh⟩
  have leftRootHigh := copying.above_of_leads leftRooted.leads leftHigh
  have rightRootHigh := copying.above_of_leads rightRooted.leads rightHigh
  rcases fitting.facing with ⟨forest, owned, facing, short, low⟩
  rcases facing.paired leftRooted rightRooted with ⟨_, _, _, paired, _⟩
  rcases copying.step step leftRootHigh rightRootHigh leftRooted.found rightRooted.found
    paired.rightPlain with ⟨copyingLater, untouched⟩
  rcases facing.step copying leftRootHigh leftRooted rightRooted step with
    ⟨rest, more, facingLater, shorter, kept, trees⟩
  have grown : graph.size ≤ later.size := step.size.ge
  refine ⟨rest.length, Nat.lt_of_lt_of_le shorter short,
    ⟨copyingLater, ?_⟩, ?_, ?_, ?_, ?_⟩
  · apply fitting.advances.spares.trans
    exact ⟨grown, untouched, fun ref nodes small single =>
      trees ref nodes (low ref small) single⟩
  · intro pair member
    rcases List.mem_append.1 member with new | old
    · have has :=
        step.has_pairs copying.wellFormed leftRooted.found rightRooted.found pair new
      have leftParts := copying.above leftRoot leftNode leftRootHigh leftRooted.found
      have rightParts := copying.above rightRoot rightNode rightRootHigh rightRooted.found
      have high : ∀ part, part ∈ leftNode.form.refs ∨ part ∈ rightNode.form.refs →
          base < part.number :=
        fun part either =>
          either.elim (fun own => leftParts part (leftNode.mem_stored_of_refs own))
          (fun own => rightParts part (rightNode.mem_stored_of_refs own))
      cases step with
      | same => cases new
      | bindLeft => cases new
      | bindRight => cases new
      | join joined _ =>
          have parts := Form.mem_refs_of_pair joined new
          exact ⟨⟨has.1.mono grown, high _ parts.1⟩, has.2.mono grown, high _ parts.2⟩
    · rcases fitting.named pair (List.mem_cons_of_mem _ old) with
        ⟨⟨has, high⟩, hasToo, highToo⟩
      exact ⟨⟨has.mono grown, high⟩, hasToo.mono grown, highToo⟩
  · exact ⟨rest, more, facingLater, Nat.le_refl _, fun ref small =>
      kept ref (low ref small)⟩
  · rcases fitting.joined with same | waits
    · exact .inl (same.mono fun _ _ => step.linksTo)
    · rcases List.mem_cons.1 waits with equal | further
      · cases equal
        exact .inl (step.same_types leftRooted.leads rightRooted.leads)
      · exact .inr (List.mem_append_right _ further)
  · exact fitting.lasting.trans (step.lasting leftRooted.found rightRooted.found)

end Fitting

theorem size_le_unifyFuel (graph : TypeGraph) : graph.size ≤ Build.unifyFuel graph := by
  have summed : ∀ (nodes : List Node) (start : Nat), start + nodes.length ≤
      nodes.foldl (fun sum node => sum + 1 + node.form.refs.length) start := by
    intro nodes
    induction nodes with
    | nil => exact fun start => Nat.le_refl _
    | cons head tail induction =>
        intro start
        have further := induction (start + 1 + head.form.refs.length)
        rw [List.length_cons, List.foldl_cons]
        omega
  have counted := summed graph.nodes.toList 0
  rw [Array.foldl_toList, Nat.zero_add, Array.length_toList] at counted
  calc graph.size ≤ 4 +
    graph.nodes.foldl (fun sum node => sum + 1 + node.form.refs.length) 0 :=
        counted.trans (Nat.le_add_left _ _)
    _ ≤ Build.unifyFuel graph := Nat.lt_two_pow_self.le

end TypeGraph

namespace Build

open TypeGraph

variable {original graph : TypeGraph} {unfolding base top : Nat} {left right : Ref}
  {nodes : List Ref}

theorem yields_unify_copying (tidy : original.Tidy)
    (copying : Copying original unfolding base graph)
    (newer : Copying original unfolding top graph) (leftHas : graph.Has left)
    (leftHigh : base < left.number) (leftLow : left.number ≤ top)
    (rightHas : graph.Has right) (rightHigh : top < right.number)
    (tree : graph.Forest [right] nodes) :
    (unify left right).Yields graph
      (fun _ later => Advances original unfolding base top graph later ∧
        later.Same left right ∧
        graph.Lasting later)
      (fun failure later => (∃ clash, failure = .mismatch clash) ∧
        Copying original unfolding base later) := by
  apply yields_get_bind
  have above : ∀ ref ∈ nodes, top < ref.number := by
    refine tree.within newer.above fun ref member => ?_
    rw [List.mem_singleton.1 member]
    exact rightHigh
  have facing : graph.Facing [(left, right)] nodes fun ref => ref.number ≤ top ∨
      graph.size < ref.number := by
    refine ⟨tree, ?_, fun _ => .inr, ?_, ?_⟩
    · rintro ref node (low | isNew) found part member
      · exact .inl (newer.below ref node low found part member)
      · have small := (has_of_node found).2
        omega
    · intro pair member
      rw [List.mem_singleton.1 member]
      exact .inl leftLow
    · rintro ref member (low | isNew)
      · have high := above ref member
        omega
      · have small := (tree.has member).2
        omega
  have fitting : Fitting original unfolding base top graph left right nodes.length graph
      [(left, right)] := by
    refine ⟨copying.refl top, ?_, ⟨nodes, _, facing, Nat.le_refl _, fun _ => .inl⟩,
      .inr List.mem_cons_self, .refl graph⟩
    intro pair member
    rw [List.mem_singleton.1 member]
    exact ⟨⟨leftHas, leftHigh⟩, rightHas, (leftHigh.trans_le leftLow).trans rightHigh⟩
  apply Yields.imp
    (yields_unifyPairs (Fitting original unfolding base top graph left right) ?_ fitting
      (tree.length_le.trans graph.size_le_unifyFuel))
  · rintro _ later ⟨_, done⟩
    exact ⟨done.advances, done.joined.resolve_right List.not_mem_nil, done.lasting⟩
  · intro bound own first second waiting running
    rcases running.named _ List.mem_cons_self with
      ⟨⟨firstHas, firstHigh⟩, secondHas, secondHigh⟩
    constructor
    · rcases running.facing with ⟨forest, owned, facing, short, _⟩
      exact Nat.lt_of_lt_of_le
        (List.length_pos_of_mem (facing.trees.mem List.mem_cons_self)) short
    · rcases (yields_expand tidy running.advances.copying firstHas
        firstHigh).exists_ok with
        ⟨_, middle, expanded, copyingMiddle, cases⟩
      have ready : Fitting original unfolding base top graph left right bound middle
          ((first, second) :: waiting) := by
        rcases cases with rfl | ⟨position, high, expands⟩
        · exact running
        · exact running.expand copyingMiddle high expands
      rcases ready.named _ List.mem_cons_self with ⟨⟨leftThere, _⟩, rightThere, _⟩
      rcases copyingMiddle.wellFormed.settles first leftThere with
        ⟨leftRoot, leftNode, leftRooted⟩
      rcases copyingMiddle.wellFormed.settles second rightThere with
        ⟨rightRoot, rightNode, rightRooted⟩
      rcases ready.facing with ⟨forest, owned, facingMiddle, _⟩
      rcases facingMiddle.paired leftRooted rightRooted with ⟨_, _, _, paired, _⟩
      apply yields_unifyStep expanded
        (on_expand_of_rooted rightRooted (Form.isPosition_of_isPlain paired.rightPlain))
        copyingMiddle.wellFormed (copyingMiddle.grounded tidy) leftRooted rightRooted
      · exact fun pairs later step => ready.step leftRooted rightRooted step
      · exact fun _ clash => ⟨⟨clash, rfl⟩, copyingMiddle⟩

end Build

end Casework
