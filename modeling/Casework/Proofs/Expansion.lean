import Casework.Proofs.Copies

/-!
Expanding positions.

Making the node that a position stands for adds nodes: the copied node and positions for
its parts. Of the nodes that were there, only the position changes, which is linked to the
copied node.
-/

namespace Casework

namespace TypeGraph

variable {original graph middle later : TypeGraph} {unfolding base top : Nat}
  {ref target : Ref} {node : Node}

/-- Nodes are added, which lead to such nodes only. -/
structure Adds (graph later : TypeGraph) : Prop where
  grown : graph.size ≤ later.size
  kept : ∀ ref, graph.Has ref → later.node ref = graph.node ref
  fresh : ∀ (ref : Ref) node, graph.size < ref.number → later.node ref = .ok node →
    ∀ part ∈ node.stored, graph.size < part.number

theorem Adds.refl (graph : TypeGraph) : graph.Adds graph where
  grown := Nat.le_refl _
  kept _ _ := rfl
  fresh ref node high found := by
    have small := (has_of_node found).2
    omega

theorem Adds.trans (first : graph.Adds middle) (second : middle.Adds later) :
    graph.Adds later where
  grown := first.grown.trans second.grown
  kept ref has := (second.kept ref (has.mono first.grown)).trans (first.kept ref has)
  fresh ref node high found part member := by
    have grown := first.grown
    by_cases old : ref.number ≤ middle.size
    · have has : middle.Has ref := ⟨(has_of_node found).1, old⟩
      rw [second.kept ref has] at found
      exact first.fresh ref node high found part member
    · have partHigh := second.fresh ref node (by omega) found part member
      omega

theorem WellFormed.of_nodes (wellFormed : graph.WellFormed)
    (nodes : later.nodes = graph.nodes) :
    later.WellFormed := by
  have size : later.size = graph.size := by rw [TypeGraph.size, nodes, TypeGraph.size]
  have same : ∀ ref, later.node ref = graph.node ref := by
    intro ref
    have place : later.index? ref = graph.index? ref := by rw [index?, size, index?]
    rw [TypeGraph.node, place, nodes, TypeGraph.node]
  constructor
  · intro ref node found part member
    rw [Has, size]
    exact wellFormed.stored ref node (same ref ▸ found) part member
  · intro ref has
    rw [Has, size] at has
    rcases wellFormed.settles ref has with ⟨target, node, rooted⟩
    refine ⟨target, node, rooted.leads.mono ?_, (same target).trans rooted.found,
      rooted.unlinked⟩
    rintro own next ⟨ownNode, found, linked⟩
    exact ⟨ownNode, (same own).trans found, linked⟩
  · intro ref node found
    exact wellFormed.fair ref node (same ref ▸ found)

theorem adds_allocate {added : Node} (bare : added.stored = []) :
    graph.Adds (graph.allocate added).2 where
  grown := by
    rw [size_allocate]
    exact Nat.le_succ _
  kept ref has := by
    rcases has_iff.1 has with ⟨node, found⟩
    rw [node_allocate_of_ok found, found]
  fresh ref node high found part member := by
    rcases node_allocate_cases found with old | ⟨_, rfl⟩
    · have small := (has_of_node old).2
      omega
    · rw [bare] at member
      cases member

structure Expands (graph later : TypeGraph) (position : Ref) : Prop where
  grown : graph.size ≤ later.size
  others : ∀ ref, graph.Has ref → ref ≠ position → later.node ref = graph.node ref
  linked : ∃ before after origin copy, graph.node position = .ok before ∧
    before.form = .var (some origin) ∧ before.link = none ∧
    later.node position = .ok after ∧
      after.form = .var none ∧ after.link = some copy ∧ graph.size < copy.number
  fresh : ∀ (ref : Ref) node, graph.size < ref.number → later.node ref = .ok node →
    ∀ part ∈ node.stored, graph.size < part.number

namespace Expands

variable {position : Ref}

theorem linksTo (expands : graph.Expands later position) {next : Ref}
    (linked : graph.LinksTo ref next) :
    later.LinksTo ref next := by
  rcases linked with ⟨node, found, isLinked⟩
  rcases expands.linked with ⟨before, _, _, _, positionFound, _, unlinked, _⟩
  have different : ref ≠ position := by
    rintro rfl
    rw [positionFound] at found
    cases found
    rw [unlinked] at isLinked
    cases isLinked
  exact ⟨node, (expands.others ref (has_of_node found) different).trans found, isLinked⟩

theorem ne_position (expands : graph.Expands later position)
    (found : graph.node ref = .ok node) (plain : node.form.isPosition = false) :
    ref ≠ position := by
  rintro rfl
  rcases expands.linked with ⟨before, _, origin, _, positionFound, form, _⟩
  rw [positionFound] at found
  cases found
  rw [form] at plain
  cases plain

theorem rooted (expands : graph.Expands later position)
    (rooted : graph.Rooted ref target node) (plain : node.form.isPosition = false) :
    later.Rooted ref target node :=
  ⟨rooted.leads.mono fun _ _ => expands.linksTo,
    (expands.others target rooted.has (expands.ne_position rooted.found plain)).trans
    rooted.found,
    rooted.unlinked⟩

theorem keeps (expands : graph.Expands later position) {refs nodes : List Ref}
    (forest : graph.Forest refs nodes) : ∀ ref ∈ nodes, graph.Keeps later ref := by
  intro ref member
  rcases forest.node_of_mem member with ⟨node, found, plain, _⟩
  apply keeps_of_eq
  exact expands.others ref (has_of_node found)
    (expands.ne_position found (Form.isPosition_of_isPlain plain))

theorem spares (expands : graph.Expands later position)
    (high : base < position.number) (top : Nat) :
    Spares base top graph later where
  grown := expands.grown
  untouched ref has small := by
    apply expands.others ref has
    rintro rfl
    omega
  forests _ nodes _ forest := ⟨nodes, forest.frame (expands.keeps forest)⟩

end Expands

/-- A new node is given its form, and the position is linked to it. -/
theorem Copying.expands {position copy : Ref} {before copied linked : Node}
    {origin : Origin} {last : TypeGraph}
    (copying : Copying original unfolding base middle) (adds : graph.Adds middle)
    (found : graph.node position = .ok node) (form : node.form = .var (some origin))
    (unlinked : node.link = none) (high : base < position.number)
    (small : base ≤ graph.size) (isNew : graph.size < copy.number)
    (bare : before.link = none) (copies : middle.Alters later copy before copied)
    (copiedLink : copied.link = none)
    (parts : ∀ part ∈ copied.form.refs, graph.size < part.number ∧ middle.Has part)
    (fair : copied.form.Fair) (snug : copied.form.Snug)
    (plain : copied.form.isPosition = false)
    (links : later.Alters last position node linked)
    (linkedForm : linked.form = .var none) (isLinked : linked.link = some copy) :
    Copying original unfolding base last ∧ graph.Expands last position := by
  have apart : copy ≠ position := by
    rintro rfl
    have positionSmall := (has_of_node found).2
    omega
  have copyHas := has_of_node copies.found
  have stored : copied.stored = copied.form.refs := Node.stored_of_unlinked copiedLink
  have copying := (copying.alter copies (by omega)
    (copies.wellFormed (copiedLink.trans bare.symm) copying.wellFormed
      (fun part member => (parts part member).2) fair)
    (fun part member => by have partNew := (parts part (stored ▸ member)).1; omega)
      snug (.inr plain)).1
  have copyRooted : later.Rooted copy copy copied := .self copies.changed copiedLink
  have linkedStored : linked.stored = [copy] := by
    rw [Node.stored, isLinked, linkedForm]
    rfl
  constructor
  · refine (copying.alter links high ?_ (fun part member => ?_) ?_ (.inr ?_)).1
    · apply links.wellFormed_of_linked unlinked isLinked copyRooted apart
        copying.wellFormed copyRooted.has
      · rw [linkedForm]
        exact fun _ member => (List.not_mem_nil member).elim
      · rw [linkedForm]
        trivial
    · rw [linkedStored] at member
      rw [List.mem_singleton.1 member]
      omega
    · rw [linkedForm]
      trivial
    · rw [linkedForm]
      rfl
  · refine ⟨?_, fun ref has different =>
      ?_, ?_, fun ref own refNew ownFound part member => ?_⟩
    · rw [links.size, copies.size]
      exact adds.grown
    · have notCopy : ref ≠ copy := by
        rintro rfl
        have refSmall := has.2
        omega
      rw [links.others ref different, copies.others ref notCopy, adds.kept ref has]
    · exact ⟨node, linked, origin, copy, found, form, unlinked, links.changed, linkedForm,
        isLinked, isNew⟩
    · rcases links.node_cases ownFound with ⟨rfl, rfl⟩ | ⟨_, old⟩
      · rw [linkedStored] at member
        rw [List.mem_singleton.1 member]
        exact isNew
      · rcases copies.node_cases old with ⟨rfl, rfl⟩ | ⟨_, older⟩
        · exact (parts part (stored ▸ member)).1
        · exact adds.fresh ref own refNew older part member

theorem Copying.addPosition
    (copying : Copying original unfolding base graph) {copied : Ref}
    (has : original.Has copied) (change : Unfolding → Unfolding)
    (nodes : later.nodes =
      (graph.allocate { form := .var (some ⟨copied, unfolding⟩) }).2.nodes)
    (unfoldings : later.unfoldings = (graph.allocate
      { form := .var (some ⟨copied, unfolding⟩) }).2.unfoldings.modify unfolding change)
    (names : ∀ own ref, (change own).Names ref → own.Names ref ∨ ref = ⟨graph.size + 1⟩)
    (lists : ∀ own ref, ref ∈ own.positions ∨ ref = ⟨graph.size + 1⟩ →
      ref ∈ (change own).positions) :
    Copying original unfolding base later ∧ graph.Adds later ∧
      graph.size < (⟨graph.size + 1⟩ : Ref).number ∧ later.Has ⟨graph.size + 1⟩ := by
  have size : later.size = graph.size + 1 := by
    rw [TypeGraph.size, nodes]
    exact size_allocate graph _
  have grown : graph.size ≤ later.size := size ▸ Nat.le_succ _
  have same : ∀ ref, later.node ref =
      (graph.allocate { form := .var (some ⟨copied, unfolding⟩) }).2.node ref := by
    intro ref
    rcases later with ⟨own, book⟩
    cases nodes
    rfl
  have cases : ∀ ref node, later.node ref = .ok node → graph.node ref = .ok node ∨
      ref = ⟨graph.size + 1⟩ ∧ node = { form := .var (some ⟨copied, unfolding⟩) } := by
    intro ref node found
    rw [same] at found
    exact node_allocate_cases found
  have wellFormed : later.WellFormed := by
    refine WellFormed.of_nodes (copying.wellFormed.allocate ?_ ?_ ?_) nodes
    · rfl
    · exact fun _ member => (List.not_mem_nil member).elim
    · trivial
  rcases copying.noted with ⟨own, found, named⟩
  have foundLater : later.unfoldings[unfolding]? = some (change own) := by
    rw [unfoldings, Array.getElem?_modify, if_pos rfl]
    change (graph.unfoldings[unfolding]?).map change = _
    rw [found]
    rfl
  have position : later.Has ⟨graph.size + 1⟩ := by
    rw [Has, size]
    constructor
    · change (0 : Int) < graph.size + 1
      omega
    · exact Int.le_refl _
  have small := copying.small
  have low := copying.low
  refine ⟨copying.change wellFormed grown ?_ ?_ fun ref node laterFound =>
    ?_, ⟨grown, ?_, ?_⟩, Int.lt_succ _, position⟩
  · refine ⟨change own, foundLater, fun ref isNamed => ?_⟩
    rcases names own ref isNamed with old | rfl
    · exact ⟨(named ref old).1, (named ref old).2.mono grown⟩
    · refine ⟨?_, position⟩
      change (original.size : Int) < graph.size + 1
      omega
  · rintro ref ⟨book, bookFound, listed⟩
    rw [found] at bookFound
    cases bookFound
    exact ⟨change own, foundLater, lists own ref (.inl listed)⟩
  · rcases cases ref node laterFound with old | ⟨rfl, rfl⟩
    · exact .inl old
    · refine .inr ⟨?_, fun _ member => (List.not_mem_nil member).elim, trivial, ?_⟩
      · change (base : Int) < graph.size + 1
        omega
      · rintro _ ⟨⟩
        exact ⟨has, rfl, change own, foundLater, lists own _ (.inr rfl)⟩
  · intro ref refHas
    rcases has_iff.1 refHas with ⟨node, nodeFound⟩
    rw [same, node_allocate_of_ok nodeFound, nodeFound]
  · intro ref node high laterFound part member
    rcases cases ref node laterFound with old | ⟨rfl, rfl⟩
    · have refSmall := (has_of_node old).2
      omega
    · cases member

end TypeGraph

namespace Build

open TypeGraph

variable {original graph : TypeGraph} {unfolding base : Nat}
  {failed : Failure → TypeGraph → Prop}

/-! ## Positions -/

theorem exists_mem_addCopy_iff {copied position key ref : Ref}
    {copies : List (Ref × List Ref)} :
    (∃ group, (key, group) ∈ addCopy copied position copies ∧ ref ∈ group) ↔
      (∃ group, (key, group) ∈ copies ∧ ref ∈ group) ∨ key = copied ∧ ref = position := by
  induction copies with
  | nil => simp [addCopy]
  | cons head rest induction =>
      rcases head with ⟨own, positions⟩
      rw [addCopy]
      by_cases equal : own = copied
      · rw [if_pos equal]
        subst equal
        simp only [List.mem_cons, Prod.mk.injEq, or_and_right, exists_or,
          and_assoc, exists_eq_left, exists_and_left, List.mem_append,
          List.not_mem_nil, or_false]
        rw [and_or_left, or_right_comm]
      · rw [if_neg equal]
        simp only [List.mem_cons, or_and_right, exists_or, induction]
        rw [or_assoc]

theorem mem_addCopy {copied position ref : Ref} {copies : List (Ref × List Ref)}
    (member : ∃ copy ∈ addCopy copied position copies, ref ∈ copy.2) :
    (∃ copy ∈ copies, ref ∈ copy.2) ∨ ref = position := by
  rcases member with ⟨⟨key, group⟩, listed, inside⟩
  rcases exists_mem_addCopy_iff.1 ⟨group, listed, inside⟩ with
    ⟨own, ownListed, ownInside⟩ | ⟨_, new⟩
  · exact .inl ⟨_, ownListed, ownInside⟩
  · exact .inr new

theorem yields_newPosition (tidy : original.Tidy)
    (copying : Copying original unfolding base graph) {copied : Ref}
    (has : original.Has copied) :
    (newPosition unfolding copied).Yields graph (fun position later =>
      Copying original unfolding base later ∧ graph.Adds later ∧ graph.size <
        position.number ∧
        later.Has position) failed := by
  rcases tidy.rooted has with ⟨target, node, rooted, plain⟩
  have here := copying.rooted rooted
  apply yields_look_bind here.deref
  apply yields_look_bind here.found
  apply yields_allocate_bind
  apply yields_modify_bind
  apply yields_pure
  refine copying.addPosition rooted.has (fun own =>
    { own with
      positions := own.positions ++ [⟨graph.size + 1⟩]
      copies :=
        if node.form.kind = .var then addCopy target ⟨graph.size + 1⟩ own.copies
          else own.copies })
    rfl rfl ?_ ?_
  · rintro own ref (isRoot | listed | copy)
    · exact .inl (.inl isRoot)
    · exact (List.mem_append.1 listed).imp (fun old => .inr (.inl old))
        List.mem_singleton.1
    · dsimp only at copy
      split at copy
      · exact (mem_addCopy copy).imp_left fun old => .inr (.inr old)
      · exact .inl (.inr (.inr copy))
  · rintro own ref (old | isNew)
    · exact List.mem_append_left _ old
    · exact List.mem_append_right _ (List.mem_singleton.2 isNew)

theorem yields_newPositions (tidy : original.Tidy) {low : Nat}
    {entries : List (String × Ref)} {known : Row}
    (copying : Copying original unfolding base graph)
    (named : ∀ entry ∈ entries, original.Has entry.2)
    (knownNew : ∀ name ref, known.get? name = some ref → low < ref.number ∧ graph.Has ref)
    (lowSmall : low ≤ graph.size) :
    (newPositions unfolding known entries).Yields graph (fun result later =>
      Copying original unfolding base later ∧ graph.Adds later ∧
        result.1.map Prod.fst = entries.map Prod.fst ∧
        (∀ entry ∈ result.1, result.2.get? entry.1 = some entry.2) ∧
        (∀ name ref, known.get? name = some ref → result.2.get? name = some ref) ∧
        ∀ name ref, result.2.get? name = some ref → low < ref.number ∧
          later.Has ref) failed := by
  induction entries generalizing graph known with
  | nil =>
      exact yields_pure ⟨copying, .refl graph, rfl, nofun, fun _ _ found =>
        found, knownNew⟩
  | cons entry rest induction =>
      rcases entry with ⟨name, copied⟩
      rw [newPositions]
      have restNamed : ∀ entry ∈ rest, original.Has entry.2 := fun entry member =>
        named entry (List.mem_cons_of_mem _ member)
      split
      next position found =>
          apply (induction copying restNamed knownNew lowSmall).bind
          rintro ⟨entries, all⟩ later ⟨copyingLater, adds, labels, listed, kept, allNew⟩
          refine yields_pure ⟨copyingLater, adds, by simp [labels], fun own member =>
            ?_, kept, allNew⟩
          rcases List.mem_cons.1 member with rfl | further
          · exact kept name position found
          · exact listed own further
      next absent =>
          apply (yields_newPosition tidy copying (named _ List.mem_cons_self)).bind
          rintro position middle ⟨copyingMiddle, addsPosition, isNew, positionHas⟩
          have grown := addsPosition.grown
          have knownLater : ∀ label ref, (known.put name position).get? label = some ref →
              low < ref.number ∧ middle.Has ref := by
            intro label ref found
            by_cases equal : label = name
            · subst equal
              rw [Row.get?_put_self] at found
              cases found
              exact ⟨by omega, positionHas⟩
            · rw [known.get?_put_of_ne equal] at found
              exact ⟨(knownNew label ref found).1,
                (knownNew label ref found).2.mono grown⟩
          apply (induction copyingMiddle restNamed knownLater (lowSmall.trans grown)).bind
          rintro ⟨entries, all⟩ later ⟨copyingLater, adds, labels, listed, kept, allNew⟩
          refine yields_pure ⟨copyingLater, addsPosition.trans adds, by simp [labels],
            fun own member => ?_,
            fun label ref found => ?_, allNew⟩
          · rcases List.mem_cons.1 member with rfl | further
            · exact kept name position (known.get?_put_self name position)
            · exact listed own further
          · apply kept
            rw [known.get?_put_of_ne]
            · exact found
            · rintro rfl
              rw [absent] at found
              cases found

theorem snug_of_known {entries bounds : List (String × Ref)} {known all : Row}
    (listed : ∀ entry ∈ entries, known.get? entry.1 = some entry.2)
    (listedToo : ∀ entry ∈ bounds, all.get? entry.1 = some entry.2)
    (kept : ∀ name ref, known.get? name = some ref → all.get? name = some ref)
    (agreed : ∀ name, (Row.mk bounds).contains name ↔ (Row.mk entries).contains name)
    (name : String) :
    (Row.mk bounds).get? name = (Row.mk entries).get? name := by
  cases found : (Row.mk bounds).get? name with
  | some ref =>
      have contained : (Row.mk bounds).contains name :=
        Option.isSome_iff_exists.2 ⟨ref, found⟩
      rcases Row.exists_get?_of_contains ((agreed name).1 contained) with ⟨own, ownFound⟩
      have first := kept name own (listed (name, own) (Row.mem_of_get? ownFound))
      rw [listedToo (name, ref) (Row.mem_of_get? found)] at first
      rw [ownFound, first]
  | none =>
      symm
      rw [Row.get?_eq_none_iff, Bool.eq_false_iff]
      intro contained
      have listed := (agreed name).2 contained
      rw [Row.get?_eq_none_iff.1 found] at listed
      cases listed

theorem yields_copyForm_row (tidy : original.Tidy)
    (copying : Copying original unfolding base graph) {kind : RowKind} {members : Row}
    {bound : Option Row}
    (named : ∀ part ∈ (Form.row kind members bound).refs, original.Has part)
    (fair : members.Fair bound) :
    (copyForm unfolding (.row kind members bound)).Yields graph (fun copy later =>
      Copying original unfolding base later ∧ graph.Adds later ∧
        (∀ part ∈ copy.refs, graph.size < part.number ∧ later.Has part) ∧
          copy.Fair ∧ copy.Snug ∧
          copy.isPosition = false) failed := by
  have membersNamed : ∀ entry ∈ members.entries, original.Has entry.2 :=
    fun entry member =>
    named entry.2 (List.mem_append_left _ (List.mem_map_of_mem member))
  have nothingKnown : ∀ name (ref : Ref), Row.empty.get? name = some ref →
      graph.size < ref.number ∧ graph.Has ref := by simp
  apply (yields_newPositions tidy copying membersNamed nothingKnown
    (Nat.le_refl _)).bind
  rintro ⟨entries, known⟩ middle ⟨copyingMiddle, adds, labels, listed, _, isNew⟩
  have refsNew : ∀ part ∈ (Row.mk entries).refs, graph.size < part.number ∧
      middle.Has part := by
    intro part member
    rcases List.mem_map.1 member with ⟨entry, stored, rfl⟩
    exact isNew entry.1 entry.2 (listed entry stored)
  have distinct : (Row.mk entries).labels.Nodup := by
    rw [Row.labels, labels]
    exact fair.distinct
  cases bound with
  | none =>
      refine yields_pure ⟨copyingMiddle, adds, fun part member =>
        ?_, Row.Fair.of_labels fair labels rfl, trivial, rfl⟩
      exact refsNew part ((List.mem_append.1 member).resolve_right List.not_mem_nil)
  | some bound =>
      have boundNamed : ∀ entry ∈ bound.entries, original.Has entry.2 :=
        fun entry member =>
        named entry.2 (List.mem_append_right _ (List.mem_map_of_mem member))
      apply (yields_newPositions tidy copyingMiddle boundNamed isNew adds.grown).bind
      rintro ⟨bounds, all⟩ later
        ⟨copyingLater, addsToo, boundLabels, boundListed, kept, allNew⟩
      have agreed : ∀ name, (Row.mk bounds).contains name ↔
          (Row.mk entries).contains name := by
        intro name
        rw [Row.contains_iff, Row.contains_iff, Row.labels, boundLabels,
          Row.labels, labels]
        rw [← Row.labels, ← Row.labels, ← Row.contains_iff, ← Row.contains_iff]
        exact fair.agreed bound rfl name
      refine yields_pure ⟨copyingLater, adds.trans addsToo, fun part member => ?_,
        ⟨distinct, ?_, ?_⟩, snug_of_known listed boundListed kept agreed, rfl⟩
      · rcases List.mem_append.1 member with inside | outside
        · exact ⟨(refsNew part inside).1, (refsNew part inside).2.mono addsToo.grown⟩
        · rcases List.mem_map.1 outside with ⟨entry, stored, rfl⟩
          exact allNew entry.1 entry.2 (boundListed entry stored)
      · rintro row ⟨⟩
        rw [Row.labels, boundLabels]
        exact fair.bounded bound rfl
      · rintro row ⟨⟩
        exact agreed

theorem yields_copyForm (tidy : original.Tidy)
    (copying : Copying original unfolding base graph) {form : Form}
    (named : ∀ part ∈ form.refs, original.Has part) (fair : form.Fair) :
    (copyForm unfolding form).Yields graph (fun copy later =>
      Copying original unfolding base later ∧ graph.Adds later ∧
        (∀ part ∈ copy.refs, graph.size < part.number ∧ later.Has part) ∧
          copy.Fair ∧ copy.Snug ∧
          copy.isPosition = false) failed := by
  cases form with
  | var origin =>
      exact yields_pure ⟨copying, .refl graph, fun _ member =>
        (List.not_mem_nil member).elim, trivial, trivial, rfl⟩
  | primitive primitive =>
      exact yields_pure ⟨copying, .refl graph, fun _ member =>
        (List.not_mem_nil member).elim, trivial, trivial, rfl⟩
  | function argument result =>
      apply (yields_newPosition tidy copying (named argument List.mem_cons_self)).bind
      rintro first middle ⟨copyingMiddle, addsFirst, firstNew, firstHas⟩
      apply (yields_newPosition tidy copyingMiddle
        (named result (List.mem_cons_of_mem _ List.mem_cons_self))).bind
      rintro second later ⟨copyingLater, addsSecond, secondNew, secondHas⟩
      refine yields_pure
        ⟨copyingLater, addsFirst.trans addsSecond, fun part member =>
          ?_, trivial, trivial, rfl⟩
      have grown := addsFirst.grown
      rcases List.mem_cons.1 member with rfl | last
      · exact ⟨firstNew, firstHas.mono addsSecond.grown⟩
      · rw [List.mem_singleton.1 last]
        exact ⟨by omega, secondHas⟩
  | list element =>
      apply (yields_newPosition tidy copying (named element List.mem_cons_self)).bind
      rintro position later ⟨copyingLater, adds, isNew, has⟩
      refine yields_pure ⟨copyingLater, adds, fun part member =>
        ?_, trivial, trivial, rfl⟩
      rw [List.mem_singleton.1 member]
      exact ⟨isNew, has⟩
  | row kind members bound => exact yields_copyForm_row tidy copying named fair

/-! ## Expanding -/

theorem yields_expand_of_copy (tidy : original.Tidy)
    (copying : Copying original unfolding base graph) {ref : Ref} (has : graph.Has ref)
    {done : TypeGraph → Prop} (unchanged : done graph)
    (copies : ∀ position target node own origin, graph.Rooted ref position node →
      node.form = .var (some origin) → original.Rooted origin.copied target own →
        own.form.kind ≠ .var →
        (do
          let copy ← allocate { form := .var none }
          let form ← copyForm unfolding own.form
          update copy fun node => { node with form := form }
          update position fun node =>
            { node with form := .var none, link := some copy } : Build Unit).Yields graph
          (fun _ later => done later) failed) :
    (expand ref).Yields graph (fun _ later => done later) failed := by
  rcases copying.wellFormed.settles ref has with ⟨position, node, rooted⟩
  have sizePositive : 0 < graph.size := by
    have small := has.2
    have positive := has.1
    omega
  apply yields_get_bind
  rw [expandWithin]
  apply yields_look_bind rooted.deref
  apply yields_look_bind rooted.found
  split
  next origin form =>
      rcases copying.origin tidy rooted.found form with ⟨_, copiedHas, sameUnfolding, _⟩
      rcases tidy.rooted copiedHas with ⟨target, own, originRooted, plain⟩
      have here := copying.rooted originRooted
      have inner : (expandWithin graph.size origin.copied).Yields graph
          (fun _ later => graph = later)
          failed := by
        rw [show graph.size = graph.size - 1 + 1 by omega, expandWithin]
        apply yields_look_bind here.deref
        apply yields_look_bind here.found
        split
        next again isPosition =>
            rw [isPosition] at plain
            cases plain
        next => exact yields_pure rfl
      apply inner.bind
      rintro _ _ rfl
      apply yields_look_bind here.root
      dsimp only
      split
      next isVar => exact yields_pure unchanged
      next notVar =>
          rw [sameUnfolding]
          exact copies position target node own origin rooted form originRooted notVar
  next => exact yields_pure unchanged

theorem yields_linkCopy {position : Ref} {node : Node} {form : Form}
    {made : Form → TypeGraph → Prop} {done : TypeGraph → Prop}
    (found : graph.node position = .ok node) (copies : (copyForm unfolding form).Yields
      (graph.allocate { form := .var none }).2 made failed)
    (adds : ∀ copied middle, made copied middle →
      (graph.allocate { form := .var none }).2.Adds middle)
    (links : ∀ copied middle later last, made copied middle →
      middle.Alters later ⟨graph.size + 1⟩ { form := .var none } { form := copied } →
      later.Alters last position node
        { node with form := .var none, link := some ⟨graph.size + 1⟩ } →
        done last) :
    (do
      let copy ← allocate { form := .var none }
      let form ← copyForm unfolding form
      update copy fun node => { node with form := form }
      update position fun node => { node with form := .var none, link := some copy } :
        Build Unit).Yields graph (fun _ later => done later) failed := by
  have isCopy : (graph.allocate { form := .var none }).1 = ⟨graph.size + 1⟩ := rfl
  have addsCopy : graph.Adds (graph.allocate { form := .var none }).2 := adds_allocate rfl
  apply yields_allocate_bind
  rw [isCopy]
  apply copies.bind
  intro copied middle holds
  have addsForm := adds copied middle holds
  have copyFound : middle.node ⟨graph.size + 1⟩ = .ok { form := .var none } :=
    (addsForm.kept _ (graph.has_allocate _)).trans (graph.node_allocate_self _)
  have positionFound :=
    ((addsCopy.trans addsForm).kept position (has_of_node found)).trans found
  have apart : position ≠ ⟨graph.size + 1⟩ := by
    rintro rfl
    have small : (graph.size + 1 : Int) ≤ graph.size := (has_of_node found).2
    omega
  have filled := alters_update copyFound fun node => { node with form := copied }
  have linked :=
    alters_update ((filled.others position apart).trans positionFound) fun node =>
    { node with form := .var none, link := some ⟨graph.size + 1⟩ }
  apply yields_update_bind (has_of_node copyFound)
  apply yields_update (has_of_node linked.found)
  exact links copied middle _ _ holds filled linked

theorem yields_expand (tidy : original.Tidy)
    (copying : Copying original unfolding base graph) {ref : Ref} (has : graph.Has ref)
    (high : base < ref.number) :
    (expand ref).Yields graph (fun _ later => Copying original unfolding base later ∧
      (later = graph ∨ ∃ position : Ref, base < position.number ∧
        graph.Expands later position)) failed := by
  refine yields_expand_of_copy tidy copying has ⟨copying, .inl rfl⟩ ?_
  intro position target node own origin rooted form originRooted notVar
  have positionHigh := copying.above_of_leads rooted.leads high
  have allocated := copying.allocate (.var none)
    (fun _ member => (List.not_mem_nil member).elim) trivial trivial rfl 0
  have addsCopy : graph.Adds (graph.allocate { form := .var none }).2 := adds_allocate rfl
  have grown := addsCopy.grown
  apply yields_linkCopy rooted.found (yields_copyForm tidy allocated.copying
    (fun _ => tidy.wellFormed.has_part originRooted.found)
    (tidy.wellFormed.fair target own originRooted.found)) fun _ _ made => made.2.1
  rintro copied middle later last ⟨copyingMiddle, adds, parts, fair, snug,
    noPosition⟩ copies links
  have done := copyingMiddle.expands (addsCopy.trans adds) rooted.found
    form rooted.unlinked
    positionHigh copying.small (Int.lt_succ _) rfl copies rfl
    (fun part member =>
      ⟨by have partNew := (parts part member).1; omega, (parts part member).2⟩)
    fair snug noPosition links rfl rfl
  exact ⟨done.1, .inr ⟨position, positionHigh, done.2⟩⟩

end Build

end Casework
