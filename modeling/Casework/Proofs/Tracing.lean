import Casework.Proofs.CaseIsolation

/-!
Copies can be traced back.

Every node that an unfolding makes stands for a type of the original graph: a position for
what it copies, a copied node for the node whose form it has. So there is a map from
references to types of the original that copying only ever extends, and under which a node
of the copy and the node it copies have the same form. It is fixed before positions are
expanded, in whatever order that is done, and still holds after the positions that are
left have been folded.
-/

namespace Casework

/-! ## Renaming references -/

namespace Row

variable {row : Row} {source other : Ref → Ref} {label : String}

def rename (source : Ref → Ref) (row : Row) : Row :=
  ⟨row.entries.map fun (label, ref) => (label, source ref)⟩

@[simp] theorem labels_rename : (row.rename source).labels = row.labels := by
  simp [labels, rename, Function.comp_def]

theorem findEntry_rename (entries : List (String × Ref)) :
    findEntry label (entries.map fun (label, ref) => (label, source ref)) =
      (findEntry label entries).map source := by
  induction entries with
  | nil => rfl
  | cons entry rest induction =>
      rcases entry with ⟨name, ref⟩
      by_cases equal : name = label
      · simp [findEntry, equal]
      · simp [findEntry, equal, induction]

@[simp] theorem get?_rename :
    (row.rename source).get? label = (row.get? label).map source :=
  findEntry_rename row.entries

theorem rename_congr (same : ∀ ref ∈ row.refs, source ref = other ref) :
    row.rename source = row.rename other := by
  unfold rename
  congr 1
  apply List.map_congr_left
  rintro ⟨label, ref⟩ member
  exact Prod.ext rfl (same ref (mem_refs_iff.2 ⟨label, member⟩))

theorem rename_eq_of_entries {entries others : List (String × Ref)}
    (labels : entries.map Prod.fst = others.map Prod.fst)
    (distinct : (others.map Prod.fst).Nodup) (each : ∀ label ref, (label, ref) ∈ entries →
      ∃ own, (label, own) ∈ others ∧ source ref = source own) :
    (Row.mk entries).rename source = (Row.mk others).rename source := by
  unfold rename
  congr 1
  induction entries generalizing others with
  | nil =>
      cases others with
      | nil => rfl
      | cons => cases labels
  | cons entry rest induction =>
      cases others with
      | nil => cases labels
      | cons head tail =>
          rcases entry with ⟨label, ref⟩
          rcases head with ⟨name, own⟩
          rw [List.map_cons, List.map_cons, List.cons.injEq] at labels
          rcases labels with ⟨equal, labels⟩
          obtain rfl : label = name := equal
          rw [List.map_cons, List.nodup_cons] at distinct
          rw [List.map_cons, List.map_cons]
          congr 1
          · rcases each label ref List.mem_cons_self with ⟨found, listed, same⟩
            rcases List.mem_cons.1 listed with isHead | further
            · cases isHead
              exact Prod.ext rfl same
            · exact absurd (List.mem_map.2 ⟨_, further, rfl⟩) distinct.1
          · apply induction labels distinct.2
            intro other part member
            rcases each other part (List.mem_cons_of_mem _ member) with
              ⟨found, listed, same⟩
            refine ⟨found, (List.mem_cons.1 listed).resolve_left ?_, same⟩
            rintro ⟨⟩
            apply distinct.1
            rw [← labels]
            exact List.mem_map.2 ⟨_, member, rfl⟩

end Row

namespace Form

variable {form other : Form} {source also : Ref → Ref}

def rename (source : Ref → Ref) : Form → Form
  | .function argument result => .function (source argument) (source result)
  | .list element => .list (source element)
  | .row kind members bound => .row kind (members.rename source)
      (bound.map (Row.rename source))
  | form => form

@[simp] theorem kind_rename : (form.rename source).kind = form.kind := by
  cases form <;> rfl

theorem rename_congr (same : ∀ part ∈ form.refs, source part = also part) :
    form.rename source = form.rename also := by
  cases form with
  | function argument result =>
      simp only [refs, parameters, List.mem_cons, List.not_mem_nil, or_false,
        forall_eq_or_imp, forall_eq] at same
      rw [rename, rename, same.1, same.2]
  | list element => rw [rename, rename, same element List.mem_cons_self]
  | row kind members bound =>
      have inMembers : members.rename source = members.rename also :=
        Row.rename_congr fun ref member => same ref (List.mem_append_left _ member)
      cases bound with
      | none => rw [rename, rename, inMembers]; rfl
      | some whole =>
          have inBound : whole.rename source = whole.rename also :=
            Row.rename_congr fun ref member => same ref (List.mem_append_right _ member)
          rw [rename, rename, inMembers, Option.map_some, Option.map_some, inBound]
  | _ => rfl

end Form

namespace TypeGraph

variable {original graph middle later : TypeGraph} {unfolding base : Nat}
  {source extended : Ref → Ref} {hole left : Option Ref} {ref other target : Ref}
  {node before after : Node}

/-! ## What a node stands for -/

def Regular (graph : TypeGraph) : Form → Prop
  | .row _ members (some bound) => bound.entries ≠ [] ∧
      ∀ name type other, members.get? name = some type → bound.get? name = some other →
        graph.Same type other
  | _ => True

def Copyable (original graph : TypeGraph) (ref : Ref) : Prop :=
  ∀ position node origin target own, graph.Rooted ref position node → node.form =
    .var (some origin) →
    original.Rooted origin.copied target own → original.Regular own.form

/-- What a node that the original does not have stands for there. -/
inductive Traces (original : TypeGraph) (source : Ref → Ref) (ref : Ref) (node : Node) :
    Prop where
  | linked {next : Ref} (isLinked : node.link = some next)
    (same : source next = source ref)
  | position {origin : Origin} (unlinked : node.link = none)
    (form : node.form = .var (some origin))
      (same : source origin.copied = source ref)
  | copy {own : Node} (unlinked : node.link = none)
    (found : original.node (source ref) = .ok own)
      (notVar : own.form.kind ≠ .var) (regular : original.Regular own.form)
      (form : node.form.rename source = own.form.rename source)

theorem Traces.of_linked (traces : Traces original source ref node) {next : Ref}
    (isLinked : node.link = some next) : source next = source ref := by
  cases traces with
  | linked own same =>
      rw [isLinked] at own
      cases own
      exact same
  | position unlinked =>
      rw [unlinked] at isLinked
      cases isLinked
  | copy unlinked =>
      rw [unlinked] at isLinked
      cases isLinked

theorem Traces.of_position (traces : Traces original source ref node) {origin : Origin}
    (form : node.form = .var (some origin)) :
    (∃ next, node.link = some next ∧ source next = source ref) ∨
      node.link = none ∧ source origin.copied = source ref := by
  cases traces with
  | linked isLinked same => exact .inl ⟨_, isLinked, same⟩
  | position unlinked own same =>
      rw [form] at own
      cases own
      exact .inr ⟨unlinked, same⟩
  | copy _ _ notVar _ renamed =>
      have kinds := congrArg Form.kind renamed
      rw [form, Form.kind_rename, Form.kind_rename] at kinds
      exact absurd kinds.symm notVar

theorem Traces.folded (traces : Traces original source ref node) :
    Traces original source ref (Node.folded node) := by
  rcases Node.folded_cases node with ⟨origin, form, isFolded⟩ | ⟨_, isFolded⟩
  · rw [isFolded]
    rcases traces.of_position form with ⟨next, isLinked, same⟩ | ⟨unlinked, same⟩
    · exact .linked (congrArg (Option.or · _) isLinked) same
    · exact .linked (congrArg (Option.or · _) unlinked) same
  · rw [isFolded]
    exact traces

/-- A graph that has the nodes of another one and for the rest nodes that stand for some
of them. A node that is still to be filled makes a hole. -/
structure Traced (original : TypeGraph) (source : Ref → Ref) (hole : Option Ref)
    (graph : TypeGraph) :
    Prop where
  kept : ∀ ref, original.Keeps graph ref
  root : ∀ ref target node, original.Rooted ref target node → source ref = target
  nodes : ∀ (ref : Ref) node, original.size < ref.number → hole ≠ some ref →
    graph.node ref = .ok node →
    Traces original source ref node

/-- A map sends the nodes of a graph to where another one sends them. -/
def Agrees (graph : TypeGraph) (source extended : Ref → Ref) : Prop :=
  ∀ ref, graph.Has ref → extended ref = source ref

theorem Agrees.refl (graph : TypeGraph) (source : Ref → Ref) :
    graph.Agrees source source :=
  fun _ _ => rfl

theorem Agrees.trans {further : Ref → Ref} (first : graph.Agrees source extended)
    (second : middle.Agrees extended further) (grown : graph.size ≤ middle.size) :
    graph.Agrees source further :=
  fun ref has => (second ref (has.mono grown)).trans (first ref has)

theorem Agrees.rename_eq {row : Row} (agrees : graph.Agrees source extended)
    (has : ∀ part ∈ row.refs, graph.Has part) : row.rename extended = row.rename source :=
  Row.rename_congr fun part member => agrees part (has part member)

theorem agrees_update (graph : TypeGraph) (source : Ref → Ref) (target : Ref) :
    graph.Agrees source (Function.update source ⟨graph.size + 1⟩ target) := by
  intro ref has
  apply Function.update_of_ne
  rintro rfl
  have small : (graph.size + 1 : Int) ≤ graph.size := has.2
  omega

namespace Traced

theorem traces (traced : Traced original source none graph)
    (high : original.size < ref.number) (found : graph.node ref = .ok node) :
    Traces original source ref node :=
  traced.nodes ref node high (Option.some_ne_none ref).symm found

theorem source_position (traced : Traced original source none graph)
    (high : original.size < ref.number) (found : graph.node ref = .ok node)
    (unlinked : node.link = none) {origin : Origin} {own : Node}
    (form : node.form = .var (some origin))
    (rooted : original.Rooted origin.copied target own) :
    source ref = target := by
  rcases (traced.traces high found).of_position form with ⟨next, isLinked, _⟩ | ⟨_, same⟩
  · rw [unlinked] at isLinked
    cases isLinked
  · rw [← same, traced.root origin.copied target own rooted]

theorem same (traced : Traced original source hole graph)
    (wellFormed : original.WellFormed) (has : original.Has ref)
    (same : original.Same ref other) : source ref = source other := by
  rcases wellFormed.settles ref has with ⟨target, node, rooted⟩
  rw [traced.root ref target node rooted,
    traced.root other target node (rooted.of_same same)]

theorem self
    (root : ∀ ref target node, original.Rooted ref target node → source ref = target) :
    Traced original source none original where
  kept _ := keeps_of_eq rfl
  root := root
  nodes ref node high _ found := by
    have small := (has_of_node found).2
    omega

theorem extend (traced : Traced original source hole graph) (tidy : original.Tidy)
    (copying : Copying original unfolding base graph)
    (agrees : graph.Agrees source extended) :
    Traced original extended hole graph where
  kept := traced.kept
  root ref target node rooted :=
    (agrees ref (copying.has rooted.has_start)).trans (traced.root ref target node rooted)
  nodes ref node high filled found := by
    have here := agrees ref (has_of_node found)
    cases traced.nodes ref node high filled found with
    | linked isLinked same =>
        have nextHas :=
          copying.wellFormed.stored ref node found _ (node.mem_stored_of_link isLinked)
        exact .linked isLinked ((agrees _ nextHas).trans (same.trans here.symm))
    | position unlinked form same =>
        have copiedHas := (copying.origin tidy found form).2.1
        exact .position unlinked form
          ((agrees _ (copying.has copiedHas)).trans (same.trans here.symm))
    | copy unlinked ownFound notVar regular form =>
        refine .copy unlinked (here ▸ ownFound) notVar regular ?_
        rw [Form.rename_congr fun part member =>
          agrees part (copying.wellFormed.has_part found member), form]
        apply Form.rename_congr
        intro part member
        exact (agrees part (copying.has (tidy.wellFormed.has_part ownFound member))).symm

/-- The nodes of the original are not touched, and every other node that is new stands for
a type. -/
theorem change (traced : Traced original source hole graph)
    (frozen : ∀ ref, original.Has ref → later.node ref = graph.node ref)
    (nodes : ∀ (ref : Ref) node, original.size < ref.number → left ≠ some ref →
      later.node ref = .ok node →
      hole ≠ some ref ∧ graph.node ref = .ok node ∨ Traces original source ref node) :
    Traced original source left later where
  kept ref node found := by
    rcases traced.kept ref node found with ⟨after, graphFound, form, link⟩
    exact ⟨after, (frozen ref (has_of_node found)).trans graphFound, form, link⟩
  root := traced.root
  nodes ref node high filled found := by
    rcases nodes ref node high filled found with ⟨old, graphFound⟩ | new
    · exact traced.nodes ref node high old graphFound
    · exact new

theorem allocate (traced : Traced original source hole graph) (added : Node)
    (small : original.size ≤ graph.size)
    (nodes : later.nodes = (graph.allocate added).2.nodes)
    (filled : left ≠ some ⟨graph.size + 1⟩ → Traces original source
      ⟨graph.size + 1⟩ added)
    (others : ∀ ref, hole = some ref → left = some ref) :
    Traced original source left later := by
  apply traced.change
  · intro ref has
    rcases has_iff.1 (has.mono small) with ⟨node, found⟩
    rw [node_of_nodes nodes, node_allocate_of_ok found, found]
  · intro ref node _ notLeft found
    rw [node_of_nodes nodes] at found
    rcases node_allocate_cases found with old | ⟨rfl, rfl⟩
    · exact .inl ⟨fun isHole => notLeft (others ref isHole), old⟩
    · exact .inr (filled notLeft)

theorem alter (traced : Traced original source hole graph)
    (alters : graph.Alters later ref before after) (high : original.size < ref.number)
    (traces : Traces original source ref after) (only : ∀ other, hole = some other →
      other = ref) : Traced original source none later := by
  apply traced.change
  · intro own has
    apply alters.others
    rintro rfl
    have small := has.2
    omega
  · intro own node _ _ found
    rcases alters.node_cases found with ⟨rfl, rfl⟩ | ⟨different, old⟩
    · exact .inr traces
    · exact .inl ⟨fun isHole => different (only own isHole), old⟩

end Traced

end TypeGraph

namespace Build

open TypeGraph

variable {original graph : TypeGraph} {unfolding base : Nat} {source : Ref → Ref}
  {hole : Option Ref} {failed : Failure → TypeGraph → Prop}

/-! ## Positions -/

theorem yields_newPosition_traced (tidy : original.Tidy)
    (copying : Copying original unfolding base graph)
    (traced : Traced original source hole graph) {copied : Ref}
    (has : original.Has copied) :
    (newPosition unfolding copied).Yields graph (fun position later => ∃ extended,
      graph.Agrees source extended ∧ Traced original extended hole later ∧
        extended position = source copied) failed := by
  rcases tidy.rooted has with ⟨target, node, rooted, plain⟩
  have here := copying.rooted rooted
  apply yields_look_bind here.deref
  apply yields_look_bind here.found
  apply yields_allocate_bind
  apply yields_modify_bind
  apply yields_pure
  have agrees := graph.agrees_update source target
  have position : Function.update source ⟨graph.size + 1⟩ target
      ⟨graph.size + 1⟩ = target :=
    Function.update_self ..
  have same := traced.root copied target node rooted
  refine ⟨_, agrees, ?_, position.trans same.symm⟩
  refine (traced.extend tidy copying agrees).allocate
    { form := .var (some ⟨target, unfolding⟩) }
    (copying.low.trans copying.small) rfl (fun _ => .position rfl rfl ?_)
    fun _ isHole => isHole
  rw [agrees target here.has, position]
  exact traced.root target target node (.self rooted.found rooted.unlinked)

theorem yields_newPositions_traced (tidy : original.Tidy)
    {entries : List (String × Ref)} {known : Row}
    (copying : Copying original unfolding base graph)
    (traced : Traced original source hole graph)
    (named : ∀ entry ∈ entries, original.Has entry.2)
    (knownHas : ∀ name ref, known.get? name = some ref → graph.Has ref) :
    (newPositions unfolding known entries).Yields graph (fun result later => ∃ extended,
      graph.Agrees source extended ∧ Traced original extended hole later ∧
        ∀ name ref, result.2.get? name = some ref → known.get? name = some ref ∨
          ∃ copied, (name, copied) ∈ entries ∧ extended ref = source copied) failed := by
  induction entries generalizing graph known source with
  | nil =>
      exact yields_pure ⟨source, .refl graph source, traced, fun _ _ found => .inl found⟩
  | cons entry rest induction =>
      rcases entry with ⟨name, copied⟩
      rw [newPositions]
      have restNamed : ∀ entry ∈ rest, original.Has entry.2 := fun entry member =>
        named entry (List.mem_cons_of_mem _ member)
      split
      next position found =>
          apply (induction copying traced restNamed knownHas).bind
          rintro ⟨entries, all⟩ later ⟨extended, agrees, tracedLater, spec⟩
          refine yields_pure ⟨extended, agrees, tracedLater, fun label ref allFound => ?_⟩
          apply (spec label ref allFound).imp_right
          rintro ⟨own, listed, same⟩
          exact ⟨own, List.mem_cons_of_mem _ listed, same⟩
      next absent =>
          have copiedHas := named _ List.mem_cons_self
          apply ((yields_newPosition tidy copying copiedHas).and
            (yields_newPosition_traced tidy copying traced copiedHas)).bind
          rintro position middle ⟨⟨copyingMiddle, adds, _, positionHas⟩,
            first, agreesFirst, tracedMiddle, positionSame⟩
          have knownMiddle : ∀ label ref,
              (known.put name position).get? label = some ref →
              middle.Has ref := by
            intro label ref found
            by_cases equal : label = name
            · subst equal
              rw [Row.get?_put_self] at found
              cases found
              exact positionHas
            · rw [known.get?_put_of_ne equal] at found
              exact (knownHas label ref found).mono adds.grown
          apply (induction copyingMiddle tracedMiddle restNamed knownMiddle).bind
          rintro ⟨entries, all⟩ later ⟨extended, agreesLater, tracedLater, spec⟩
          refine yields_pure
            ⟨extended, agreesFirst.trans agreesLater adds.grown, tracedLater,
            fun label ref found => ?_⟩
          rcases spec label ref found with old | ⟨own, listed, same⟩
          · by_cases equal : label = name
            · subst equal
              rw [Row.get?_put_self] at old
              cases old
              exact .inr ⟨copied, List.mem_cons_self,
                (agreesLater position positionHas).trans positionSame⟩
            · rw [known.get?_put_of_ne equal] at old
              exact .inl old
          · refine .inr ⟨own, List.mem_cons_of_mem _ listed, same.trans ?_⟩
            exact agreesFirst own (copying.has (restNamed _ listed))

theorem yields_copyRow_traced (tidy : original.Tidy)
    (copying : Copying original unfolding base graph)
    (traced : Traced original source hole graph) {row known : Row}
    (distinct : row.labels.Nodup) (named : ∀ part ∈ row.refs, original.Has part)
    (knownHas : ∀ name ref, known.get? name = some ref → graph.Has ref)
    (knownSame : ∀ name ref own, known.get? name = some ref → (name, own) ∈ row.entries →
      source ref = source own) :
    (newPositions unfolding known row.entries).Yields graph (fun result later =>
      Copying original unfolding base later ∧ graph.Adds later ∧
        (∀ name ref, result.2.get? name = some ref → later.Has ref) ∧
        (∀ part ∈ (Row.mk result.1).refs, later.Has part) ∧
        ∃ extended, graph.Agrees source extended ∧ Traced original extended hole later ∧
          (Row.mk result.1).rename extended = row.rename extended ∧
          ∀ name ref, result.2.get? name = some ref → known.get? name = some ref ∨
            ∃ own, (name, own) ∈ row.entries ∧ extended ref = source own) failed := by
  have entriesNamed : ∀ entry ∈ row.entries, original.Has entry.2 := fun entry member =>
    named entry.2 (List.mem_map_of_mem member)
  have knownNew : ∀ name ref, known.get? name = some ref → ((0 : Nat) : Int) <
      ref.number ∧ graph.Has ref :=
    fun name ref found => ⟨(knownHas name ref found).1, knownHas name ref found⟩
  apply ((yields_newPositions tidy copying entriesNamed knownNew (Nat.zero_le _)).and
    (yields_newPositions_traced tidy copying traced entriesNamed knownHas)).imp
  rintro ⟨entries, all⟩ later ⟨⟨copyingLater, adds, labels, listed, _, allNew⟩, extended,
    agrees, tracedLater, spec⟩
  have allHas : ∀ name ref, all.get? name = some ref → later.Has ref :=
    fun name ref found =>
    (allNew name ref found).2
  refine ⟨copyingLater, adds, allHas, ?_, extended, agrees, tracedLater, ?_, spec⟩
  · intro part member
    rcases Row.mem_refs_iff.1 member with ⟨name, stored⟩
    exact allHas name part (listed (name, part) stored)
  · apply Row.rename_eq_of_entries labels distinct
    intro name ref member
    rcases spec name ref (listed (name, ref) member) with old | ⟨own, ownListed, same⟩
    · have inRow : name ∈ row.labels := by
        rw [Row.labels, ← labels]
        exact List.mem_map.2 ⟨_, member, rfl⟩
      rcases List.mem_map.1 inRow with ⟨⟨_, own⟩, ownListed, rfl⟩
      refine ⟨own, ownListed, ?_⟩
      rw [agrees ref (knownHas _ ref old), knownSame _ ref own old ownListed,
        agrees own (copying.has (entriesNamed _ ownListed))]
    · exact ⟨own, ownListed,
        same.trans (agrees own (copying.has (entriesNamed _ ownListed))).symm⟩

theorem yields_copyForm_traced (tidy : original.Tidy)
    (copying : Copying original unfolding base graph)
    (traced : Traced original source hole graph) {form : Form}
    (named : ∀ part ∈ form.refs, original.Has part) (fair : form.Fair)
    (regular : original.Regular form) (notVar : form.kind ≠ .var) :
    (copyForm unfolding form).Yields graph (fun copy later => ∃ extended,
      graph.Agrees source extended ∧ Traced original extended hole later ∧
        copy.rename extended = form.rename extended) failed := by
  cases form with
  | var => exact absurd rfl notVar
  | primitive own => exact yields_pure ⟨source, .refl graph source, traced, rfl⟩
  | function argument result =>
      have argumentHas := named argument List.mem_cons_self
      have resultHas := named result (List.mem_cons_of_mem _ List.mem_cons_self)
      apply ((yields_newPosition tidy copying argumentHas).and
        (yields_newPosition_traced tidy copying traced argumentHas)).bind
      rintro first middle ⟨⟨copyingMiddle, adds, _, firstHas⟩, earlier, agreesFirst,
        tracedMiddle, firstSame⟩
      apply (yields_newPosition_traced tidy copyingMiddle tracedMiddle resultHas).bind
      rintro second later ⟨extended, agreesLater, tracedLater, secondSame⟩
      have agrees := agreesFirst.trans agreesLater adds.grown
      refine yields_pure ⟨extended, agrees, tracedLater, ?_⟩
      rw [Form.rename, Form.rename, agreesLater first firstHas, firstSame, secondSame,
        agrees argument (copying.has argumentHas),
        agreesLater result (copyingMiddle.has resultHas)]
  | list element =>
      have elementHas := named element List.mem_cons_self
      apply (yields_newPosition_traced tidy copying traced elementHas).bind
      rintro position later ⟨extended, agrees, tracedLater, same⟩
      refine yields_pure ⟨extended, agrees, tracedLater, ?_⟩
      rw [Form.rename, Form.rename, same, agrees element (copying.has elementHas)]
  | row kind members bound =>
      have membersNamed : ∀ part ∈ members.refs, original.Has part := fun part member =>
        named part (List.mem_append_left _ member)
      apply (yields_copyRow_traced tidy copying traced fair.distinct membersNamed
        (by simp) (by simp)).bind
      rintro ⟨entries, known⟩ middle ⟨copyingMiddle, adds, knownHas, positionsHave,
        first, agreesFirst, tracedMiddle, inMembers, spec⟩
      cases bound with
      | none =>
          refine yields_pure ⟨first, agreesFirst, tracedMiddle, ?_⟩
          rw [Form.rename, Form.rename, inMembers]
      | some bound =>
          have boundNamed : ∀ part ∈ bound.refs, original.Has part := fun part member =>
            named part (List.mem_append_right _ member)
          -- A position that was made for a member stands for the same type as what the
          -- bound has.
          have knownSame : ∀ name ref own, known.get? name = some ref →
              (name, own) ∈ bound.entries →
              first ref = first own := by
            intro name ref own found listed
            rcases (spec name ref found).resolve_left (by simp) with
              ⟨copied, copiedListed, stands⟩
            have isSame := regular.2 name copied own
              ((Row.get?_eq_some_iff fair.distinct).2 copiedListed)
              ((Row.get?_eq_some_iff (fair.bounded bound rfl)).2 listed)
            have copiedHas :=
              membersNamed copied (Row.mem_refs_iff.2 ⟨name, copiedListed⟩)
            have ownHas := boundNamed own (Row.mem_refs_iff.2 ⟨name, listed⟩)
            rw [stands, traced.same tidy.wellFormed copiedHas isSame,
              agreesFirst own (copying.has ownHas)]
          apply (yields_copyRow_traced tidy copyingMiddle tracedMiddle
            (fair.bounded bound rfl) boundNamed knownHas knownSame).bind
          rintro ⟨bounds, all⟩ later
            ⟨_, _, _, _, extended, agreesLater, tracedLater, inBound, _⟩
          refine yields_pure ⟨extended, agreesFirst.trans agreesLater adds.grown,
            tracedLater, ?_⟩
          have membersLater : members.rename extended = members.rename first :=
            agreesLater.rename_eq fun part member =>
              copyingMiddle.has (membersNamed part member)
          rw [Form.rename, Form.rename, agreesLater.rename_eq positionsHave,
            inMembers, membersLater, Option.map_some, Option.map_some, inBound]

/-! ## Expanding -/

theorem yields_expand_traced (tidy : original.Tidy)
    (copying : Copying original unfolding base graph)
    (traced : Traced original source none graph) {ref : Ref} (has : graph.Has ref)
    (high : base < ref.number) (copyable : original.Copyable graph ref) :
    (expand ref).Yields graph
      (fun _ later => ∃ extended, graph.Agrees source extended ∧
        Traced original extended none later)
      failed := by
  apply yields_expand_of_copy tidy copying has ⟨source, .refl graph source, traced⟩
  intro position target node own origin rooted form copiedRooted notVar
  have positionHigh := copying.above_of_leads rooted.leads high
  have low := copying.low
  have copyHigh : (original.size : Int) < graph.size + 1 := by
    have small := copying.small
    omega
  have regular := copyable position node origin target own rooted form copiedRooted
  have allocated := copying.allocate (.var none)
    (fun _ member => (List.not_mem_nil member).elim) trivial trivial rfl 0
  have copyHas : (graph.allocate { form := .var none }).2.Has ⟨graph.size + 1⟩ :=
    graph.has_allocate _
  have agreesCopy := graph.agrees_update source target
  -- The copy is a hole until it has got its form.
  have tracedCopy : Traced original (Function.update source ⟨graph.size + 1⟩ target)
      (some ⟨graph.size + 1⟩) (graph.allocate { form := .var none }).2 :=
    (traced.extend tidy copying agreesCopy).allocate { form := .var none }
      (low.trans copying.small) rfl
      (fun isLeft => absurd rfl isLeft) (by rintro _ ⟨⟩)
  have parts : ∀ part ∈ own.form.refs, original.Has part := fun _ =>
    tidy.wellFormed.has_part copiedRooted.found
  have fair := tidy.wellFormed.fair target own copiedRooted.found
  apply yields_linkCopy rooted.found
    ((yields_copyForm tidy allocated.copying parts fair).and (yields_copyForm_traced tidy
      allocated.copying tracedCopy parts fair regular notVar))
    fun _ _ made => made.1.2.1
  rintro copied middle later last ⟨_, extended, agreesMiddle, tracedMiddle,
    renamed⟩ copies links
  have grown : graph.size ≤ (graph.allocate { form := .var none }).2.size := by
    rw [size_allocate]
    exact Nat.le_succ _
  have agrees := agreesCopy.trans agreesMiddle grown
  have copyStands : extended ⟨graph.size + 1⟩ = target :=
    (agreesMiddle _ copyHas).trans (Function.update_self ..)
  have positionStands : extended position = target := (agrees position rooted.has).trans
    (traced.source_position (by omega) rooted.found rooted.unlinked form copiedRooted)
  have filled := tracedMiddle.alter copies copyHigh
    (.copy rfl (copyStands ▸ copiedRooted.found) notVar regular renamed)
    fun other isHole =>
      (Option.some.inj isHole).symm
  exact ⟨extended, agrees,
    filled.alter links (by omega) (.linked rfl (copyStands.trans positionStands.symm))
    (by rintro _ ⟨⟩)⟩

/-! ## The start and the end of an unfolding -/

theorem yields_unfold_traced (tidy : graph.Tidy) {type : Ref} (has : graph.Has type) :
    (unfold type).Yields graph
      (fun unfolding later => ∃ source, Traced graph source none later ∧
      ∀ own, later.unfoldings[unfolding]? = some own → source own.root =
        source type) failed := by
  rcases tidy.rooted has with ⟨root, node, rooted, _⟩
  apply (yields_unfold_starts tidy has).imp
  rintro unfolding later ⟨_, ⟨target, leads, nodes⟩, book, bookFound, isRoot, _⟩
  have targetRooted := rooted.of_leads leads
  let ends : Ref → Ref := fun ref => (graph.deref ref).toOption.getD ref
  have agrees : graph.Agrees ends (Function.update ends ⟨graph.size + 1⟩ root) :=
    graph.agrees_update ends root
  have isEnd : ∀ ref target node, graph.Rooted ref target node →
      Function.update ends ⟨graph.size + 1⟩ root ref = target := by
    intro ref target node refRooted
    rw [agrees ref refRooted.has_start]
    change (graph.deref ref).toOption.getD ref = target
    rw [refRooted.deref]
    rfl
  have atPosition : Function.update ends ⟨graph.size + 1⟩ root ⟨graph.size + 1⟩ = root :=
    Function.update_self ..
  refine ⟨_, (Traced.self isEnd).allocate { form := .var (some ⟨target, unfolding⟩) }
    (Nat.le_refl _) nodes (fun _ => .position rfl rfl ?_) (by rintro _ ⟨⟩),
    fun own found => ?_⟩
  · rw [atPosition, isEnd target root node targetRooted]
  · rw [bookFound] at found
    cases found
    rw [isRoot, atPosition, isEnd type root node rooted]

theorem yields_fold_traced (copying : Copying original unfolding base graph)
    (traced : Traced original source none graph) :
    (fold unfolding).Yields graph
      (fun _ later => Traced original source none later) failed := by
  rcases copying.noted with ⟨own, found, names⟩
  apply yields_get_bind
  rw [found]
  refine Yields.bind (yields_forM (fun middle => Traced original source none middle ∧
    middle.size = graph.size) ⟨traced, rfl⟩ ?_) ?_
  · rintro position listed middle ⟨tracedMiddle, size⟩
    rcases names position (.inr (.inl listed)) with ⟨high, has⟩
    rcases has_iff.1 (has.mono size.ge) with ⟨node, nodeFound⟩
    have alters : middle.Alters _ position node (Node.folded node) :=
      alters_update nodeFound Node.folded
    apply yields_update (has_of_node nodeFound)
    have folded := (tracedMiddle.traces high nodeFound).folded
    exact ⟨tracedMiddle.alter alters high folded (by rintro _ ⟨⟩), alters.size.trans size⟩
  · rintro _ later ⟨tracedLater, _⟩
    apply yields_modify
    apply tracedLater.change
    · exact fun ref _ => node_of_nodes rfl ref
    · intro ref node _ _ laterFound
      rw [node_of_nodes rfl] at laterFound
      exact .inl ⟨(Option.some_ne_none ref).symm, laterFound⟩

end Build

end Casework
