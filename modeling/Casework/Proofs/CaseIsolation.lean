import Casework.Proofs.PatternIsolation
import Casework.Typing.Expr

/-!
A case leaves the type of its value alone until its patterns have been checked.

The patterns of a case are checked against an unfolding of the type of its value. From the
unfolding on, up to and including the end of it, no node changes that the graph had
before. Then all positions have been folded, so the graph is as tidy as it was.
-/

namespace Casework

namespace TypeGraph

variable {original graph middle later : TypeGraph} {unfolding base : Nat}
  {ref target : Ref} {node before after : Node}

theorem node_of_nodes (nodes : later.nodes = graph.nodes) (ref : Ref) :
    later.node ref = graph.node ref := by
  rcases later with ⟨own, book⟩
  cases nodes
  rfl

/-! ## The start of an unfolding -/

theorem Tidy.copying (tidy : original.Tidy) {own : Unfolding} {copied : Ref}
    (has : original.Has copied) (nodes : later.nodes =
      (original.allocate { form := .var (some ⟨copied, unfolding⟩) }).2.nodes)
    (found : later.unfoldings[unfolding]? = some own)
    (names : ∀ ref, own.Names ref → ref = ⟨original.size + 1⟩)
    (listed : ⟨original.size + 1⟩ ∈ own.positions) :
    Copying original unfolding original.size later := by
  have size : later.size = original.size + 1 := by
    rw [TypeGraph.size, nodes]
    exact size_allocate original _
  have cases : ∀ ref node, later.node ref = .ok node → original.node ref = .ok node ∨
      ref = ⟨original.size + 1⟩ ∧ node = { form := .var (some ⟨copied, unfolding⟩) } := by
    intro ref node laterFound
    rw [node_of_nodes nodes] at laterFound
    exact node_allocate_cases laterFound
  have new : ∀ (ref : Ref) node, original.size < ref.number → later.node ref = .ok node →
      ref = ⟨original.size + 1⟩ ∧ node = { form := .var (some ⟨copied, unfolding⟩) } := by
    intro ref node high laterFound
    rcases cases ref node laterFound with old | new
    · have small := (has_of_node old).2
      omega
    · exact new
  constructor
  · refine WellFormed.of_nodes (tidy.wellFormed.allocate ?_ ?_ ?_) nodes
    · rfl
    · exact fun _ member => (List.not_mem_nil member).elim
    · trivial
  · intro ref refHas
    rcases has_iff.1 refHas with ⟨node, nodeFound⟩
    rw [node_of_nodes nodes, node_allocate_of_ok nodeFound, nodeFound]
  · exact Nat.le_refl _
  · omega
  · intro ref node high laterFound
    rcases new ref node high laterFound with ⟨rfl, rfl⟩
    refine ⟨high, fun _ member => (List.not_mem_nil member).elim, trivial, ?_⟩
    rintro _ ⟨⟩
    exact ⟨has, rfl, own, found, listed⟩
  · intro ref node high laterFound
    rcases new ref node high laterFound with ⟨rfl, rfl⟩
    exact fun _ member => (List.not_mem_nil member).elim
  · intro ref node low laterFound
    rcases cases ref node laterFound with old | ⟨rfl, _⟩
    · exact fun part member => (tidy.wellFormed.stored ref node old part member).2
    · change (original.size + 1 : Int) ≤ original.size at low
      omega
  · refine ⟨own, found, fun ref isNamed => ?_⟩
    rw [names ref isNamed, Has, size]
    change (original.size : Int) < original.size + 1 ∧ (0 : Int) < original.size + 1 ∧ _
    exact ⟨by omega, by omega, Int.le_refl _⟩

/-! ## The end of an unfolding -/

structure Folding (original : TypeGraph) (rest : List Ref) (graph : TypeGraph) :
    Prop where
  wellFormed : graph.WellFormed
  frozen : ∀ ref, original.Has ref → graph.node ref = original.node ref
  positions : ∀ ref node origin, graph.node ref = .ok node → node.form =
    .var (some origin) →
    original.size < ref.number ∧ original.Has origin.copied ∧ ref ∈ rest

theorem Copying.folding (copying : Copying original unfolding base graph)
    (tidy : original.Tidy) {own : Unfolding}
    (found : graph.unfoldings[unfolding]? = some own) :
    Folding original own.positions graph where
  wellFormed := copying.wellFormed
  frozen := copying.frozen
  positions ref node origin nodeFound form := by
    rcases copying.origin tidy nodeFound form with ⟨high, has, _, book, bookFound, listed⟩
    rw [found] at bookFound
    cases bookFound
    exact ⟨high, has, listed⟩

theorem Folding.tidy (folding : Folding original [] graph) : graph.Tidy := by
  refine ⟨folding.wellFormed, fun ref node found => ?_⟩
  cases form : node.form with
  | var origin =>
      cases origin with
      | none => rfl
      | some origin => cases (folding.positions ref node origin found form).2.2
  | _ => rfl

/-- What folding does to a node: a position is linked to what it copies, unless it has
been bound. -/
def Node.folded (node : Node) : Node :=
  match node.form with
  | .var (some origin) =>
      { node with form := .var none, link := node.link.or (some origin.copied) }
  | _ => node

theorem Node.folded_cases (node : Node) :
    (∃ origin, node.form = .var (some origin) ∧
      Node.folded node =
        { node with form := .var none, link := node.link.or (some origin.copied) }) ∨
      node.form.isPosition = false ∧ Node.folded node = node := by
  cases form : node.form with
  | var origin =>
      cases origin with
      | none => exact .inr ⟨rfl, by rw [Node.folded, form]⟩
      | some origin => exact .inl ⟨origin, rfl, by rw [Node.folded, form]⟩
  | _ => exact .inr ⟨rfl, by rw [Node.folded, form]⟩

theorem Folding.wellFormed_step {rest : List Ref} (folding : Folding original rest graph)
    (tidy : original.Tidy) (alters : graph.Alters later ref node (Node.folded node)) :
    later.WellFormed := by
  have parts : ∀ part ∈ node.form.refs, graph.Has part :=
    fun _ => folding.wellFormed.has_part alters.found
  rcases Node.folded_cases node with ⟨origin, form, isFolded⟩ | ⟨_, isFolded⟩
  · rw [isFolded] at alters
    rcases folding.positions ref node origin alters.found form with ⟨high, has, _⟩
    cases linked : node.link with
    | some next =>
        refine alters.wellFormed ?_ folding.wellFormed
          (fun _ member => (nomatch member)) trivial
        rw [linked]
        rfl
    | none =>
        rcases tidy.rooted has with ⟨target, own, rooted, _⟩
        have apart : target ≠ ref := by
          rintro rfl
          have small := rooted.has.2
          omega
        refine alters.wellFormed_of_linked linked ?_
          (rooted.of_frozen folding.frozen) apart
          folding.wellFormed ?_ (fun _ member => (nomatch member)) trivial
        · rw [linked]
          rfl
        · rcases has_iff.1 has with ⟨copied, found⟩
          exact has_of_node ((folding.frozen _ has).trans found)
  · rw [isFolded] at alters
    exact alters.wellFormed rfl folding.wellFormed parts
      (folding.wellFormed.fair ref node alters.found)

theorem Folding.step {rest : List Ref} (folding : Folding original (ref :: rest) graph)
    (tidy : original.Tidy) (high : original.size < ref.number)
    (alters : graph.Alters later ref node (Node.folded node)) :
    Folding original rest later where
  wellFormed := folding.wellFormed_step tidy alters
  frozen own has := by
    have different : own ≠ ref := by
      rintro rfl
      have small := has.2
      omega
    exact (alters.others own different).trans (folding.frozen own has)
  positions own ownNode origin found form := by
    rcases alters.node_cases found with ⟨rfl, rfl⟩ | ⟨different, old⟩
    · rcases Node.folded_cases node with ⟨_, _, isFolded⟩ | ⟨plain, isFolded⟩
      · rw [isFolded] at form
        cases form
      · rw [isFolded] at form
        rw [form] at plain
        cases plain
    · rcases folding.positions own ownNode origin old form with ⟨ownHigh, has, listed⟩
      exact ⟨ownHigh, has, (List.mem_cons.1 listed).resolve_left different⟩

end TypeGraph

namespace Build

open TypeGraph

variable {original graph : TypeGraph} {unfolding base : Nat}
  {ref type : Ref} {calm : Prop} {failed : Failure → TypeGraph → Prop}

/-! ## Unfolding -/

/-- An unfolding starts with one position, for the type that is unfolded. -/
structure Starts (graph : TypeGraph) (type : Ref) (unfolding : Nat) (later : TypeGraph) :
    Prop where
  number : unfolding = graph.unfoldings.size
  nodes : ∃ target, graph.Leads type target ∧
    later.nodes = (graph.allocate { form := .var (some ⟨target, unfolding⟩) }).2.nodes
  book : ∃ own, later.unfoldings[unfolding]? = some own ∧ own.root = ⟨graph.size + 1⟩ ∧
    ⟨graph.size + 1⟩ ∈ own.positions ∧ ∀ ref, own.Names ref → ref = ⟨graph.size + 1⟩

theorem yields_unfold_book (tidy : graph.Tidy) (has : graph.Has type) :
    (unfold type).Yields graph (fun unfolding later => unfolding = graph.unfoldings.size ∧
      ∃ target node, graph.Rooted type target node ∧
        later.nodes =
          (graph.allocate { form := .var (some ⟨target, unfolding⟩) }).2.nodes ∧
        later.unfoldings[unfolding]? = some {
          root := ⟨graph.size + 1⟩
          positions := [⟨graph.size + 1⟩]
          copies := if node.form.kind = .var then [(target, [⟨graph.size + 1⟩])] else
          [] }) failed := by
  rcases tidy.rooted has with ⟨target, node, rooted, plain⟩
  have self : graph.Rooted target target node := .self rooted.found rooted.unlinked
  apply yields_look_bind rooted.deref
  apply yields_get_bind
  apply yields_modify_bind
  unfold newPosition
  rw [bind_assoc]
  have frozen : ∀ ref, graph.Has ref → TypeGraph.node
      { graph with unfoldings := graph.unfoldings.push { root := target } } ref =
      graph.node ref :=
    fun ref _ => node_of_nodes rfl ref
  apply yields_look_bind (self.of_frozen frozen).deref
  rw [bind_assoc]
  apply yields_look_bind (self.of_frozen frozen).found
  rw [bind_assoc]
  apply yields_allocate_bind
  rw [bind_assoc]
  apply yields_modify_bind
  rw [pure_bind]
  apply yields_modify_bind
  apply yields_pure
  have started : ∀ change further : Unfolding → Unfolding,
      (((graph.unfoldings.push { root := target }).modify
        graph.unfoldings.size change).modify graph.unfoldings.size
        further)[graph.unfoldings.size]? =
          some (further (change { root := target })) := by
    intro change further
    rw [Array.getElem?_modify, if_pos rfl, Array.getElem?_modify, if_pos rfl,
      Array.getElem?_push_size]
    rfl
  have book := started (fun own =>
      { own with
        positions := own.positions ++ [⟨graph.size + 1⟩]
        copies :=
          if node.form.kind = .var then addCopy target ⟨graph.size + 1⟩ own.copies
            else own.copies })
    fun own => { own with root := ⟨graph.size + 1⟩ }
  exact ⟨rfl, target, node, rooted, rfl, book⟩

theorem yields_unfold_starts (tidy : graph.Tidy) (has : graph.Has type) :
    (unfold type).Yields graph (Starts graph type) failed := by
  apply (yields_unfold_book tidy has).imp
  rintro unfolding later ⟨number, target, node, rooted, nodes, book⟩
  refine ⟨number, ⟨target, rooted.leads, nodes⟩, _, book, rfl,
    List.mem_singleton.2 rfl, ?_⟩
  rintro ref (isRoot | listed | copy)
  · exact isRoot
  · exact List.mem_singleton.1 listed
  · dsimp only at copy
    split at copy
    · rcases copy with ⟨_, member, inside⟩
      rw [List.mem_singleton.1 member] at inside
      exact List.mem_singleton.1 inside
    · rcases copy with ⟨_, member, _⟩
      cases member

theorem yields_unfold (tidy : graph.Tidy) (has : graph.Has type) :
    (unfold type).Yields graph
      (fun unfolding later => Copying graph unfolding graph.size later) failed := by
  rcases tidy.rooted has with ⟨root, node, rooted, _⟩
  apply (yields_unfold_starts tidy has).imp
  rintro unfolding later ⟨_, ⟨target, leads, nodes⟩, own, found, _, listed, names⟩
  exact tidy.copying (rooted.of_leads leads).has_start nodes found names listed

theorem yields_unfoldingRoot (copying : Copying original unfolding base graph) :
    (unfoldingRoot unfolding).Yields graph (fun root later =>
      original.size < root.number ∧ graph.Has root ∧ graph = later) failed := by
  rcases copying.noted with ⟨own, found, names⟩
  apply yields_get_bind
  rw [found]
  exact yields_pure ⟨(names own.root (.inl rfl)).1, (names own.root (.inl rfl)).2, rfl⟩

theorem yields_foldPositions {rest : List Ref} (tidy : original.Tidy)
    (folding : Folding original rest graph)
    (named : ∀ ref ∈ rest, original.size < ref.number ∧ graph.Has ref) :
    (rest.forM foldPosition).Yields graph (fun _ later =>
      Folding original [] later ∧ graph.size ≤ later.size) failed := by
  induction rest generalizing graph with
  | nil => exact yields_pure ⟨folding, Nat.le_refl _⟩
  | cons head rest induction =>
      rcases named head List.mem_cons_self with ⟨high, has⟩
      rcases has_iff.1 has with ⟨node, found⟩
      have alters : graph.Alters _ head node (Node.folded node) :=
        alters_update found Node.folded
      apply yields_update_bind has
      apply (induction (folding.step tidy high alters) fun ref member => ?_).imp
      · rintro _ later ⟨folded, grown⟩
        exact ⟨folded, alters.size.ge.trans grown⟩
      · rcases named ref (List.mem_cons_of_mem _ member) with ⟨refHigh, refHas⟩
        exact ⟨refHigh, alters.has_iff.2 refHas⟩

theorem yields_fold (tidy : original.Tidy)
    (copying : Copying original unfolding base graph) :
    (fold unfolding).Yields graph (fun _ later => later.Tidy ∧ graph.size ≤ later.size ∧
      ∀ ref, original.Has ref → later.node ref = original.node ref) failed := by
  rcases copying.noted with ⟨own, found, names⟩
  apply yields_get_bind
  rw [found]
  apply (yields_foldPositions tidy (copying.folding tidy found)
    fun ref member => names ref (.inr (.inl member))).bind
  rintro _ middle ⟨folding, grown⟩
  apply yields_modify
  have middleTidy := folding.tidy
  refine ⟨⟨.of_nodes middleTidy.wellFormed rfl, fun ref node nodeFound => ?_⟩, grown,
    fun ref has => ?_⟩
  · rw [node_of_nodes rfl] at nodeFound
    exact middleTidy.folded ref node nodeFound
  · exact (node_of_nodes rfl ref).trans (folding.frozen ref has)

/-! ## Sharing tags -/

def Variants (base : Nat) (graph : TypeGraph) (refs : List Ref) : Prop :=
  ∀ ref ∈ refs, base < ref.number ∧ ∃ members bound, graph.IsVariant ref members bound

/-- Copying has gone on from a graph of at least some size, and the variants are still
variants. -/
structure Sharing (original : TypeGraph) (unfolding base least : Nat) (refs : List Ref)
    (graph : TypeGraph) : Prop where
  copying : Copying original unfolding base graph
  grown : least ≤ graph.size
  variants : Variants base graph refs

theorem Sharing.mono {least more : Nat} {refs : List Ref}
    (sharing : Sharing original unfolding base more refs graph) (less : least ≤ more) :
    Sharing original unfolding base least refs graph :=
  ⟨sharing.copying, less.trans sharing.grown, sharing.variants⟩

theorem yields_variantRoots (copying : Copying original unfolding base graph)
    {refs found : List Ref} (named : ∀ ref ∈ refs, graph.Has ref ∧ base < ref.number)
    (foundVariants : Variants base graph found) :
    (variantRoots refs found).Yields graph
      (fun roots later => Variants base graph roots ∧ graph = later) failed := by
  induction refs generalizing found with
  | nil => exact yields_pure ⟨foundVariants, rfl⟩
  | cons head tail induction =>
      have namedTail : ∀ ref ∈ tail, graph.Has ref ∧ base < ref.number :=
        fun ref member => named ref (List.mem_cons_of_mem _ member)
      rcases named head List.mem_cons_self with ⟨has, high⟩
      rcases copying.wellFormed.settles head has with ⟨root, node, rooted⟩
      apply yields_look_bind rooted.deref
      apply yields_read_bind (TypeGraph.Rooted.self rooted.found rooted.unlinked).root
      split
      next chosen =>
          have isVariant : node.form.kind = .variant := by
            rw [Bool.and_eq_true, decide_eq_true_iff] at chosen
            exact chosen.1
          rcases Form.exists_variant_of_kind isVariant with ⟨members, bound, form⟩
          apply induction namedTail
          intro ref member
          rcases List.mem_append.1 member with old | new
          · exact foundVariants ref old
          · rw [List.mem_singleton.1 new]
            exact ⟨copying.above_of_leads rooted.leads high, members, bound,
              node, rooted.found, rooted.unlinked, form⟩
      next => exact induction namedTail foundVariants

theorem yields_putMember (copying : Copying original unfolding base graph)
    {refs : List Ref} (variants : Variants base graph refs) (high : base < ref.number)
    {members : Row} {tag : String} (isVariant : graph.IsVariant ref members none)
    (has : graph.Has type) (typeHigh : base < type.number) :
    (putMember ref tag type).Yields graph
      (fun _ later => Sharing original unfolding base graph.size refs later) failed := by
  rcases isVariant with ⟨node, found, unlinked, form⟩
  have rooted : graph.Rooted ref ref node := .self found unlinked
  have fair : members.Fair none := by
    have nodeFair := copying.wellFormed.fair ref node found
    rwa [form] at nodeFair
  have parts : ∀ part ∈ (Form.row .variant (members.put tag type) none).refs,
      graph.Has part ∧ base < part.number := by
    intro part listed
    rcases List.mem_append.1 listed with inside | bounded
    · rcases Row.mem_refs_put inside with old | rfl
      · have held : part ∈ node.stored := by
          apply node.mem_stored_of_refs
          rw [form]
          exact List.mem_append_left _ old
        exact ⟨copying.wellFormed.stored ref node found part held,
          copying.above ref node high found part held⟩
      · exact ⟨has, typeHigh⟩
    · cases bounded
  have alters := alters_update found fun own =>
    { own with form := .row .variant (members.put tag type) none }
  have changed := copying.alter alters high
    (alters.wellFormed rfl copying.wellFormed (fun part listed => (parts part listed).1)
      fair.put_unbounded)
    (fun part listed => by
      rw [Node.stored_of_unlinked (by exact unlinked)] at listed
      exact (parts part listed).2)
    trivial (.inr rfl)
  apply yields_look_bind rooted.root
  rw [form]
  apply yields_updateRoot rooted
  refine ⟨changed.1, alters.size.ge, fun own listed => ⟨(variants own listed).1, ?_⟩⟩
  by_cases equal : own = ref
  · subst equal
    exact ⟨_, _, _, alters.changed, unlinked, rfl⟩
  · rcases (variants own listed).2 with
      ⟨ownMembers, bound, ownNode, ownFound, ownUnlinked, ownForm⟩
    exact ⟨ownMembers, bound, ownNode, (alters.others own equal).trans ownFound,
      ownUnlinked, ownForm⟩

theorem yields_copyTags (copying : Copying original unfolding base graph)
    {refs : List Ref} {target source : Ref} (variants : Variants base graph refs)
    (targetMember : target ∈ refs) (sourceMember : source ∈ refs) :
    (copyTags target source).Yields graph
      (fun _ later => Sharing original unfolding base graph.size refs later) failed := by
  rcases variants source sourceMember with
    ⟨sourceHigh, members, bound, node, found, unlinked, form⟩
  apply (yields_members (TypeGraph.Rooted.self found unlinked).root).bind
  rintro row _ ⟨rfl, rfl⟩
  have parts : ∀ entry ∈ members.entries, graph.Has entry.2 ∧ base < entry.2.number := by
    intro entry listed
    have held : entry.2 ∈ node.stored := by
      apply node.mem_stored_of_refs
      rw [form]
      exact List.mem_append_left _ (List.mem_map_of_mem listed)
    exact ⟨copying.wellFormed.stored source node found _ held,
      copying.above source node sourceHigh found _ held⟩
  rw [form]
  refine Yields.bind (yields_forIn (Sharing original unfolding base graph.size refs)
    ⟨copying, Nat.le_refl _, variants⟩ ?_) fun _ later sharing => yields_pure sharing
  rintro ⟨tag, type⟩ listed middle sharing
  rcases parts _ listed with ⟨has, typeHigh⟩
  rcases sharing.variants target targetMember with
    ⟨high, ownMembers, ownBound, own, ownFound, ownUnlinked, ownForm⟩
  have rooted : middle.Rooted target target own := .self ownFound ownUnlinked
  have skipped :
      (pure (ForInStep.yield PUnit.unit) : Build (ForInStep PUnit)).Yields middle
      (fun step later => step = .yield ⟨⟩ ∧
        Sharing original unfolding base graph.size refs later) failed :=
    yields_pure ⟨rfl, sharing⟩
  apply (yields_member? rooted.root tag).bind
  rintro type? _ ⟨isType, rfl⟩
  rw [ownForm] at isType
  split
  next isAbsent =>
      apply (yields_allows rooted.root tag).bind
      rintro allowed _ ⟨isAllowed, rfl⟩
      rw [ownForm] at isAllowed
      split
      next allows =>
          -- A fair variant that allows a tag it lacks is open.
          rw [isAllowed] at allows
          rw [isType, Option.isNone_iff_eq_none] at isAbsent
          have fair : ownMembers.Fair ownBound := by
            have ownFair := sharing.copying.wellFormed.fair target own ownFound
            rwa [ownForm] at ownFair
          have unbounded := fair.unbounded isAbsent allows
          subst unbounded
          apply (yields_putMember sharing.copying sharing.variants high
            ⟨own, ownFound, ownUnlinked, ownForm⟩ (has.mono sharing.grown) typeHigh).bind
          intro _ later shared
          exact yields_pure ⟨rfl, shared.mono sharing.grown⟩
      next => exact skipped
  next => exact skipped

theorem yields_shareTags (copying : Copying original unfolding original.size graph) :
    (shareTags unfolding).Yields graph (fun _ later =>
      Copying original unfolding original.size later ∧ graph.size ≤
        later.size) failed := by
  rcases copying.noted with ⟨own, found, names⟩
  apply yields_get_bind
  rw [found]
  refine Yields.bind
    (yields_forIn (fun middle => Copying original unfolding original.size middle ∧
      graph.size ≤ middle.size) ⟨copying, Nat.le_refl _⟩ ?_) fun _ later kept =>
      yields_pure kept
  rintro positions listed middle ⟨copyingMiddle, grown⟩
  have named : ∀ ref ∈ positions, middle.Has ref ∧ original.size < ref.number := by
    intro ref member
    rcases List.mem_map.1 (List.mem_filter.1 listed).1 with ⟨copy, copyListed, rfl⟩
    have own := names ref (.inr (.inr ⟨copy, copyListed, member⟩))
    exact ⟨own.2.mono grown, own.1⟩
  have none : Variants original.size middle [] := fun _ member => (nomatch member)
  apply (yields_variantRoots copyingMiddle named none).bind
  rintro roots _ ⟨variants, rfl⟩
  refine Yields.bind
    (yields_forIn (Sharing original unfolding original.size middle.size roots)
      ⟨copyingMiddle, Nat.le_refl _, variants⟩ ?_) fun _ later shared =>
      yields_pure ⟨rfl, shared.copying, grown.trans shared.grown⟩
  intro target targetMember second sharing
  refine Yields.bind
    (yields_forIn (Sharing original unfolding original.size middle.size roots) sharing ?_)
    fun _ later shared => yields_pure ⟨rfl, shared⟩
  intro source sourceMember third sharingToo
  apply (yields_copyTags sharingToo.copying sharingToo.variants targetMember
    sourceMember).bind
  intro _ later shared
  exact yields_pure ⟨rfl, shared.mono sharingToo.grown⟩

/-! ## Coverage -/

theorem yields_payloadText (tidy : original.Tidy) {payload : Ref}
    (copying : Copying original unfolding base graph) (has : graph.Has payload)
    (high : base < payload.number) :
    (payloadText payload).Yields graph (fun _ later =>
      Copying original unfolding base later ∧ graph.size ≤ later.size) failed := by
  apply (Elaborate.yields_expand_copying tidy copying has high).bind
  intro _ later proceeds
  have result := And.intro proceeds.copying proceeds.grown
  rcases proceeds.copying.wellFormed.settles payload (proceeds.has has) with
    ⟨target, node, rooted⟩
  apply yields_read_bind rooted.root
  split
  · exact yields_pure result
  · apply (yields_text tidy proceeds.copying (proceeds.has has)).bind
    rintro text _ rfl
    exact yields_pure result

theorem yields_gapText (tidy : original.Tidy) {gap : Gap}
    (copying : Copying original unfolding base graph)
    (mentions : gap.Mentions fun ref => graph.Has ref ∧ base < ref.number) :
    (gapText gap).Yields graph (fun _ later =>
      Copying original unfolding base later ∧ graph.size ≤ later.size) failed := by
  have unchanged : Copying original unfolding base graph ∧ graph.size ≤ graph.size :=
    ⟨copying, Nat.le_refl _⟩
  induction gap with
  | emptyList => exact yields_pure unchanged
  | nonEmptyList => exact yields_pure unchanged
  | value text => exact yields_pure unchanged
  | missing tag payload =>
      exact (yields_payloadText tidy copying mentions.1 mentions.2).bind fun _ _ result =>
        yields_pure result
  | element gap induction =>
      exact (induction mentions).bind fun _ _ result => yields_pure result
  | field name gap induction =>
      exact (induction mentions).bind fun _ _ result => yields_pure result
  | payload tag gap induction =>
      exact (induction mentions).bind fun _ _ result => yields_pure result

theorem yields_gap? (tidy : original.Tidy)
    (copying : Copying original unfolding base graph) (has : graph.Has ref)
    (high : base < ref.number) :
    (gap? ref).Yields graph (fun _ later =>
      Copying original unfolding base later ∧ graph.size ≤ later.size) failed := by
  have reaches : ∀ (own : Ref) node, graph.Has own ∧ base < own.number →
      graph.node own = .ok node →
      ∀ part ∈ node.stored, graph.Has part ∧ base < part.number :=
    fun own node holds found part member =>
      ⟨copying.wellFormed.stored own node found part member,
        copying.above own node holds.2 found part member⟩
  rcases (copying.wellFormed.readable (copying.grounded tidy)).gap? reaches has
    ⟨has, high⟩ with
    ⟨gap?, isGap, mentions⟩
  refine .congr ?_ (on_gap? ref graph)
  apply yields_look_bind isGap
  cases gap? with
  | none => exact yields_pure ⟨copying, Nat.le_refl _⟩
  | some gap =>
      exact (yields_gapText tidy copying (mentions gap rfl)).bind fun _ _ result =>
        yields_pure result

/-! ## Sealing -/

theorem yields_sealVariant_copying (copying : Copying original unfolding base graph)
    (has : graph.Has ref) (high : base < ref.number) :
    (sealVariant ref).Yields graph (fun _ later =>
      Copying original unfolding base later ∧ graph.size ≤ later.size) failed := by
  rcases copying.wellFormed.settles ref has with ⟨target, node, rooted⟩
  apply yields_look_bind rooted.root
  split
  next members form =>
      have targetHigh := copying.above_of_leads rooted.leads high
      have placed := copying.placed_above targetHigh rooted.found
      have fair := copying.wellFormed.fair target node rooted.found
      have parts : ∀ part ∈ (Form.row .variant members (some members)).refs,
          graph.Has part ∧ base < part.number := by
        intro part listed
        have held : part ∈ node.stored := by
          apply node.mem_stored_of_refs
          rw [form]
          exact List.mem_append_left _ ((List.mem_append.1 listed).elim id id)
        exact ⟨copying.wellFormed.stored target node rooted.found part held,
          placed.parts part held⟩
      rw [form] at fair
      have alters := alters_update rooted.found fun node =>
        { node with
          form := .row .variant members (some members)
          marks := { node.marks with collecting := false } }
      apply yields_updateRoot_bind rooted
      refine yields_pure
        ⟨(copying.alter alters targetHigh ?_ ?_ ?_ (.inr rfl)).1, alters.size.ge⟩
      · exact alters.wellFormed rfl copying.wellFormed
          (fun part listed => (parts part listed).1)
          (Row.Fair.seal fair)
      · intro part listed
        rw [Node.stored_of_unlinked (by exact rooted.unlinked)] at listed
        exact (parts part listed).2
      · exact fun _ => rfl
  next => exact yields_pure ⟨copying, Nat.le_refl _⟩

theorem yields_sealAll {refs : List Ref} (copying : Copying original unfolding base graph)
    (named : ∀ ref ∈ refs, base < ref.number ∧ graph.Has ref) :
    (sealAll refs).Yields graph
      (fun sealed later => Copying original unfolding base later ∧
      graph.size ≤ later.size ∧ ∀ ref ∈ sealed, later.Has ref) failed := by
  induction refs generalizing graph with
  | nil => exact yields_pure ⟨copying, Nat.le_refl _, fun _ member => (nomatch member)⟩
  | cons head tail induction =>
      rcases named head List.mem_cons_self with ⟨high, has⟩
      rcases copying.wellFormed.settles head has with ⟨root, node, rooted⟩
      have self : graph.Rooted root root node := .self rooted.found rooted.unlinked
      apply yields_look_bind rooted.deref
      apply yields_read_bind self.root
      apply (yields_hasAny has).bind
      rintro covered _ rfl
      apply (yields_hasAny self.has).bind
      rintro rootCovered _ rfl
      have rest : ∀ (wasOpen : Bool) middle, Copying original unfolding base middle ∧
          graph.size ≤ middle.size →
          (do
            let others ← sealAll tail
            return if wasOpen then root :: others else
              others : Build (List Ref)).Yields middle
            (fun sealed later => Copying original unfolding base later ∧
              graph.size ≤ later.size ∧ ∀ ref ∈ sealed, later.Has ref) failed := by
        rintro wasOpen middle ⟨copyingMiddle, grown⟩
        apply (induction copyingMiddle fun ref member =>
          have own := named ref (List.mem_cons_of_mem _ member)
          ⟨own.1, own.2.mono grown⟩).bind
        rintro others later ⟨copyingLater, grownToo, othersHave⟩
        refine yields_pure ⟨copyingLater, grown.trans grownToo, fun ref member => ?_⟩
        split at member
        · rcases List.mem_cons.1 member with rfl | inOthers
          · exact self.has.mono (grown.trans grownToo)
          · exact othersHave ref inOthers
        · exact othersHave ref member
      dsimp only
      split
      · exact rest _ graph ⟨copying, Nat.le_refl _⟩
      · exact (yields_sealVariant_copying copying self.has
          (copying.above_of_leads rooted.leads high)).bind rest

/-! ## Texts of types -/

def shown (graph : TypeGraph) (ref : Ref) : String :=
  match graph.text ref with
  | .ok text => text
  | .error _ => ""

theorem yields_mapM_text {refs : List Ref}
    (readable : ∀ ref ∈ refs, ∃ text, graph.text ref = .ok text) :
    (refs.mapM text).Yields graph
      (fun texts later => texts = refs.map (shown graph) ∧ graph = later)
      failed := by
  induction refs with
  | nil => exact yields_pure ⟨rfl, rfl⟩
  | cons head tail induction =>
      rcases readable head List.mem_cons_self with ⟨own, isText⟩
      rw [List.mapM_cons]
      apply yields_look_bind isText
      apply (induction fun ref member =>
        readable ref (List.mem_cons_of_mem _ member)).bind
      rintro _ _ ⟨rfl, rfl⟩
      refine yields_pure ⟨?_, rfl⟩
      rw [List.map_cons, shown, isText]

end Build

/-! ## Choices -/

section Choices

open TypeGraph Elaborate Elaboration Stateful

variable {original graph : TypeGraph} {unfolding base low : Nat} {type : Ref}
  {state : Elaboration}

/-- All names in a scope have types of the graph. -/
def Scope.Within (graph : TypeGraph) (scope : Scope) : Prop :=
  ∀ binding ∈ scope, graph.Has binding.type

theorem yields_elaborateChoices (tidy : original.Tidy) (setting : Setting)
    (level : Nat) {scope : Scope} (choices : List Choice)
    (ready : state.Ready original unfolding base low graph) (within : scope.Within graph)
    (has : graph.Has type) (high : base < type.number) :
    (elaborateChoices setting level scope type choices).Yields state graph
      (fun checked after later =>
        after.Continues original unfolding base low graph later ∧
        ∀ entry ∈ checked, entry.2.Within later)
      (Harmless original setting.Primitive) := by
  induction choices generalizing graph state with
  | nil => exact yields_pure ⟨ready.continues, fun _ member => (nomatch member)⟩
  | cons choice rest induction =>
      apply yields_modify_bind
      apply (choice.pattern.yields_elaborate tidy setting level false type
        base low graph _ (ready.startChoice within) has high).bind
      intro pattern after middle checked
      apply yields_get_bind
      have grown := checked.proceeds.grown
      apply (induction checked.ready
        (fun binding member => (within binding member).mono grown) (checked.has has)).bind
      rintro others last later ⟨continues, othersWithin⟩
      refine yields_pure ⟨checked.trans continues, fun entry member => ?_⟩
      rcases List.mem_cons.1 member with rfl | inOthers
      · exact fun binding listed =>
          continues.has (checked.ready.known.scope binding listed)
      · exact othersWithin entry inOthers

theorem ready_of_elaborateChoices {unfolded elaborated : TypeGraph} {root : Ref}
    {setting : Setting} {level : Nat} {scope : Scope} {choices : List Choice}
    {patterns : List (Pattern × Scope)} (tidy : graph.Tidy) (within : scope.Within graph)
    (has : graph.Has type)
    (unfolds : (Build.unfold type).on graph = (.ok unfolding, unfolded))
    (isRoot : (Build.unfoldingRoot unfolding).on unfolded = (.ok root, unfolded))
    (elaborates :
      ((elaborateChoices setting level scope root choices).run {}).on unfolded =
      (.ok (patterns, state), elaborated)) :
    state.Ready graph unfolding graph.size graph.size elaborated ∧ elaborated.Has root ∧
      graph.size < root.number := by
  have unfoldYields : (Build.unfold type).Yields graph _ fun _ _ => False :=
    Build.yields_unfold tidy has
  have copying := unfoldYields.of_ok unfolds
  have rootYields : (Build.unfoldingRoot unfolding).Yields unfolded _ fun _ _ => False :=
    Build.yields_unfoldingRoot copying
  rcases rootYields.of_ok isRoot with ⟨rootHigh, rootHas, _⟩
  have withinLater : scope.Within unfolded := fun binding member =>
    (within binding member).mono copying.small
  have continues := (Build.Yields.of_ok
    (yields_elaborateChoices tidy setting level choices (.start copying) withinLater
      rootHas rootHigh) elaborates).1
  exact ⟨continues.ready, continues.has rootHas, rootHigh⟩

theorem Build.yields_checkUnfolded (tidy : original.Tidy)
    (setting : Setting) (level : Nat) {scope : Scope}
    (copying : Copying original unfolding original.size graph)
    (within : scope.Within graph) (place : Position) (choices : List Choice) :
    (checkUnfolded setting level scope place choices unfolding).Yields graph
      (fun checked later => Copying original unfolding original.size later ∧
        later.Has checked.root ∧
        (∀ ref ∈ checked.sealed, later.Has ref) ∧ ∀ entry ∈ checked.choices,
          entry.2.Within later)
      (Harmless original setting.Primitive) := by
  apply (yields_unfoldingRoot copying).bind
  rintro root _ ⟨rootHigh, rootHas, rfl⟩
  apply Yields.bind
    (yields_elaborateChoices tidy setting level choices (.start copying) within
      rootHas rootHigh)
  rintro ⟨patterns, state⟩ first ⟨checked, scopes⟩
  have rootFirst := checked.has rootHas
  apply (yields_text tidy checked.ready.copying rootFirst).bind
  rintro matchedType _ rfl
  apply (yields_shareTags checked.ready.copying).bind
  rintro _ second ⟨shared, grown⟩
  apply (yields_gap? tidy shared (rootFirst.mono grown) rootHigh).bind
  rintro path third ⟨walked, grownToo⟩
  have registered := (checked.ready.known.mono (grown.trans grownToo)).registered
  split
  · exact Yields.stop (yields_rejected walked _ _)
  · apply (yields_sealAll walked registered).bind
    rintro sealed later ⟨sealing, grownLater, sealedHave⟩
    have all : first.size ≤ later.size := grown.trans (grownToo.trans grownLater)
    apply (yields_mapM_text fun ref member =>
      sealing.text tidy (sealedHave ref member)).bind
    rintro sealedTypes _ ⟨_, rfl⟩
    refine yields_pure ⟨sealing, rootFirst.mono all, sealedHave, fun entry member => ?_⟩
    exact fun binding listed => (scopes entry member binding listed).mono all

theorem Build.yields_checkChoices (tidy : graph.Tidy) (setting : Setting)
    (level : Nat) {scope : Scope} (within : scope.Within graph) (place : Position)
    (choices : List Choice) (has : graph.Has type) :
    (checkChoices setting level scope place choices type).Yields graph
      (fun checked later => graph.Becomes later ∧
        (∀ ref, graph.Has ref → later.node ref = graph.node ref) ∧
          later.Has checked.root ∧
          (∀ ref ∈ checked.sealed, later.Has ref) ∧ ∀ entry ∈ checked.choices,
            entry.2.Within later)
      (Harmless graph setting.Primitive) := by
  apply (yields_unfold tidy has).bind
  intro unfolding first unfolded
  have withinFirst : scope.Within first := fun binding member =>
    (within binding member).mono unfolded.small
  apply (yields_checkUnfolded tidy setting level unfolded withinFirst place choices).bind
  rintro checked second ⟨copying, rootHas, sealedHave, scopes⟩
  apply (yields_fold tidy copying).bind
  rintro _ later ⟨tidyLater, grown, frozen⟩
  refine yields_pure ⟨⟨tidyLater, copying.small.trans grown⟩, frozen, rootHas.mono grown,
    fun ref member => (sealedHave ref member).mono grown, fun entry member => ?_⟩
  exact fun binding listed => (scopes entry member binding listed).mono grown

end Choices

end Casework
