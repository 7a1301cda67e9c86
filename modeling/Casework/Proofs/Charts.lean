import Casework.Proofs.CaseIsolation

/-!
Ways into a copy.

A way into a type is a list of steps to parts. Every node that an unfolding makes is noted
under the way on which it is met: a position under the way it was made for, a copied node
under that of its position. As there is one note for each node, different ways lead to
different nodes. A node that is noted under a way is a copy of what the same way leads to
in the type that is unfolded. Expanding positions adds notes and changes none.
-/

namespace Casework

inductive PartStep where
  | parameter (index : Nat)
  | member (name : String)
deriving DecidableEq, Repr

namespace Form

variable {form : Form} {step : PartStep} {part : Ref}

def part? (form : Form) : PartStep → Option Ref
  | .parameter index => form.parameters[index]?
  | .member name => form.members?.bind (·.get? name)

theorem mem_refs_of_part? (isPart : form.part? step = some part) : part ∈ form.refs := by
  cases step with
  | parameter index =>
      have member := List.mem_of_getElem? isPart
      cases form with
      | row => cases member
      | _ => exact member
  | member name =>
      rcases Option.bind_eq_some_iff.1 isPart with ⟨members, isRow, found⟩
      cases form with
      | row => cases isRow; exact List.mem_append_left _ (Row.mem_refs_of_get? found)
      | _ => cases isRow

theorem kind_ne_var_of_part? (isPart : form.part? step = some part) :
    form.kind ≠ .var := by
  have member := mem_refs_of_part? isPart
  cases form with
  | var => cases member
  | _ => exact kind_ne_var nofun

theorem isPosition_of_part? (isPart : form.part? step = some part) :
    form.isPosition = false := by
  have notVar := kind_ne_var_of_part? isPart
  cases form with
  | var => exact absurd rfl notVar
  | _ => rfl

/-- Two forms are the same up to the types that they hold. -/
structure SameShape (form other : Form) : Prop where
  kind : form.kind = other.kind
  parameters : form.parameters.length = other.parameters.length
  members : form.members?.map Row.labels = other.members?.map Row.labels
  bound : form.bound?.map Row.labels = other.bound?.map Row.labels

end Form

namespace TypeGraph

variable {original graph middle later : TypeGraph} {type ref other target position : Ref}
  {unfolding base : Nat} {steps : List PartStep} {chart extended : Ref → List PartStep}
  {hole left : Option Ref} {node before after : Node}

/-! ## Ways -/

inductive Way (graph : TypeGraph) (type : Ref) : List PartStep → Ref → Prop where
  | start : Way graph type [] type
  | step {steps : List PartStep} {step : PartStep} {ref target part : Ref} {node : Node}
      (way : Way graph type steps ref) (rooted : graph.Rooted ref target node)
      (isPart : node.form.part? step = some part) : Way graph type (step :: steps) part

theorem Way.unique (first : graph.Way type steps ref)
    (second : graph.Way type steps other) :
    ref = other := by
  induction first generalizing other with
  | start =>
      cases second
      rfl
  | step way rooted isPart induction =>
      cases second with
      | step same sameRooted alsoPart =>
          have equal := induction same
          subst equal
          rw [(rooted.unique sameRooted).2, isPart] at alsoPart
          exact Option.some.inj alsoPart

theorem Way.mono (way : graph.Way type steps ref)
    (kept : ∀ ref target node, graph.Rooted ref target node →
      node.form.isPosition = false →
      later.Rooted ref target node) : later.Way type steps ref := by
  induction way with
  | start => exact .start
  | step _ rooted isPart induction =>
      exact .step induction (kept _ _ _ rooted (Form.isPosition_of_part? isPart)) isPart

/-! ## Notes -/

def Extends (graph : TypeGraph) (chart extended : Ref → List PartStep) : Prop :=
  ∀ ref, graph.Has ref → extended ref = chart ref

theorem Extends.refl (graph : TypeGraph) (chart : Ref → List PartStep) :
    graph.Extends chart chart :=
  fun _ _ => rfl

theorem Extends.trans {further : Ref → List PartStep}
    (first : graph.Extends chart extended) (second : middle.Extends extended further)
    (grown : graph.size ≤ middle.size) :
    graph.Extends chart further :=
  fun ref has => (second ref (has.mono grown)).trans (first ref has)

theorem extends_update (graph : TypeGraph) (chart : Ref → List PartStep)
    (steps : List PartStep) :
    graph.Extends chart (Function.update chart ⟨graph.size + 1⟩ steps) := by
  intro ref has
  apply Function.update_of_ne
  rintro rfl
  have small : (graph.size + 1 : Int) ≤ graph.size := has.2
  omega

/-- What a node of a copy is, told by the way under which it is noted. -/
inductive Charts (original graph : TypeGraph) (type : Ref) (unfolding : Nat)
    (chart : Ref → List PartStep) (ref : Ref) (node : Node) : Prop where
  | linked {next part target : Ref} {own : Node} (isLinked : node.link = some next)
      (bare : node.form = .var none) (same : chart next = chart ref)
      (way : original.Way type (chart ref) part)
      (rooted : original.Rooted part target own)
      (notVar : own.form.kind ≠ .var)
  | position {part target : Ref} {own : Node} (unlinked : node.link = none)
      (form : node.form = .var (some ⟨target, unfolding⟩))
      (way : original.Way type (chart ref) part)
      (rooted : original.Rooted part target own)
  | copy {part target : Ref} {own : Node} (unlinked : node.link = none)
      (way : original.Way type (chart ref) part)
      (rooted : original.Rooted part target own)
      (notVar : own.form.kind ≠ .var) (shape : node.form.SameShape own.form)
      (parts : ∀ step next, node.form.part? step = some next →
        chart next = step :: chart ref ∧ graph.Lists unfolding next)

theorem Charts.mono (charts : Charts original graph type unfolding chart ref node)
    (lists : ∀ ref, graph.Lists unfolding ref → later.Lists unfolding ref) :
    Charts original later type unfolding chart ref node := by
  cases charts with
  | linked isLinked bare same way rooted notVar =>
      exact .linked isLinked bare same way rooted notVar
  | position unlinked form way rooted => exact .position unlinked form way rooted
  | copy unlinked way rooted notVar shape parts =>
      exact .copy unlinked way rooted notVar shape fun step next isPart =>
        ⟨(parts step next isPart).1, lists next (parts step next isPart).2⟩

def CopiesVar (original graph : TypeGraph) (unfolding : Nat) (copied position : Ref) :
    Prop :=
  (∃ own, original.node copied = .ok own ∧ own.form.kind = .var) ∧
    ∃ node, graph.node position = .ok node ∧ node.form = .var (some ⟨copied, unfolding⟩)

end TypeGraph

/-- The groups of an unfolding hold the positions that copy the same, each group those of
one type. -/
structure Unfolding.Groups (own : Unfolding) (copies : Ref → Ref → Prop) : Prop where
  keys : (own.copies.map Prod.fst).Nodup
  apart : ∀ copy ∈ own.copies, copy.2.Nodup
  members : ∀ copied position,
    (∃ group, (copied, group) ∈ own.copies ∧ position ∈ group) ↔ copies copied position

namespace Build

theorem fst_mem_addCopy_iff {copied position key : Ref} {copies : List (Ref × List Ref)} :
    key ∈ (addCopy copied position copies).map Prod.fst ↔ key ∈ copies.map Prod.fst ∨
      key = copied := by
  induction copies with
  | nil => simp [addCopy]
  | cons head rest induction =>
      rcases head with ⟨own, positions⟩
      rw [addCopy]
      by_cases equal : own = copied
      · rw [if_pos equal]
        subst equal
        simp only [List.map_cons, List.mem_cons]
        tauto
      · rw [if_neg equal, List.map_cons, List.mem_cons, induction, List.map_cons,
          List.mem_cons, or_assoc]

theorem nodup_addCopy {copied position : Ref} {copies : List (Ref × List Ref)}
    (keys : (copies.map Prod.fst).Nodup) :
    ((addCopy copied position copies).map Prod.fst).Nodup := by
  induction copies with
  | nil => exact List.nodup_singleton copied
  | cons head rest induction =>
      rcases head with ⟨own, positions⟩
      rw [addCopy]
      by_cases equal : own = copied
      · rw [if_pos equal]
        exact keys
      · rw [if_neg equal, List.map_cons, List.nodup_cons]
        rw [List.map_cons, List.nodup_cons] at keys
        refine ⟨fun member => ?_, induction keys.2⟩
        exact (fst_mem_addCopy_iff.1 member).elim keys.1 equal

theorem nodup_group_addCopy {copied position : Ref} {copies : List (Ref × List Ref)}
    (apart : ∀ copy ∈ copies, copy.2.Nodup ∧ position ∉ copy.2) :
    ∀ copy ∈ addCopy copied position copies, copy.2.Nodup := by
  induction copies with
  | nil =>
      intro copy member
      rw [List.mem_singleton.1 member]
      exact List.nodup_singleton position
  | cons head rest induction =>
      have first := apart head List.mem_cons_self
      have others : ∀ copy ∈ rest, copy.2.Nodup ∧ position ∉ copy.2 := fun copy member =>
        apart copy (List.mem_cons_of_mem _ member)
      intro copy member
      rw [addCopy] at member
      split at member
      · rcases List.mem_cons.1 member with rfl | further
        · exact List.nodup_append.2 ⟨first.1, List.nodup_singleton position, by
            rintro own listed _ single rfl
            exact first.2 (List.mem_singleton.1 single ▸ listed)⟩
        · exact (others copy further).1
      · rcases List.mem_cons.1 member with rfl | further
        · exact first.1
        · exact induction others copy further

end Build

theorem Unfolding.Groups.addCopy {own after : Unfolding}
    {copies further : Ref → Ref → Prop} {copied position : Ref}
    (groups : own.Groups copies) (fresh : ∀ copied, ¬ copies copied position)
    (added : after.copies = Build.addCopy copied position own.copies)
    (holds : ∀ key ref, further key ref ↔ copies key ref ∨ key = copied ∧
      ref = position) :
    after.Groups further where
  keys := by
    rw [added]
    exact Build.nodup_addCopy groups.keys
  apart := by
    rw [added]
    apply Build.nodup_group_addCopy
    intro copy listed
    exact ⟨groups.apart copy listed, fun inside =>
      fresh copy.1 ((groups.members _ _).1 ⟨_, listed, inside⟩)⟩
  members key ref := by
    rw [added, Build.exists_mem_addCopy_iff, groups.members, holds]

theorem Unfolding.Groups.mem_iff {own : Unfolding}
    {copies : Ref → Ref → Prop} {key ref : Ref} {group : List Ref}
    (groups : own.Groups copies) (listed : (key, group) ∈ own.copies) :
    ref ∈ group ↔ copies key ref := by
  rw [← groups.members]
  constructor
  · exact fun inside => ⟨group, listed, inside⟩
  · rintro ⟨other, alsoListed, inside⟩
    have same := List.inj_on_of_nodup_map groups.keys listed alsoListed rfl
    rw [Prod.mk.injEq] at same
    rwa [same.2]

namespace TypeGraph

variable {original graph middle later : TypeGraph}
  {type ref other target position copied : Ref} {unfolding base : Nat}
  {steps : List PartStep} {chart extended : Ref → List PartStep} {hole left : Option Ref}
  {node before after : Node}

def Grouped (original graph : TypeGraph) (unfolding : Nat) : Prop :=
  ∃ own, graph.unfoldings[unfolding]? = some own ∧
    own.Groups (CopiesVar original graph unfolding)

/-- A graph in which every new node is noted under the way on which it is met, and the
positions that copy the same type variable stand together. A node that is still to be
filled makes a hole. -/
structure Charted (original : TypeGraph) (type : Ref) (unfolding : Nat)
    (chart : Ref → List PartStep) (hole : Option Ref) (graph : TypeGraph) : Prop where
  nodes : ∀ (ref : Ref) node, original.size < ref.number → hole ≠ some ref →
    graph.node ref = .ok node →
    Charts original graph type unfolding chart ref node
  grouped : Grouped original graph unfolding

/-! ### Groups -/

theorem copiesVar_allocate {added : Node}
    (nodes : later.nodes = (graph.allocate added).2.nodes) :
    CopiesVar original later unfolding copied position ↔
      CopiesVar original graph unfolding copied position ∨
      (∃ own, original.node copied = .ok own ∧ own.form.kind = .var) ∧
        position = ⟨graph.size + 1⟩ ∧ added.form = .var (some ⟨copied, unfolding⟩) := by
  unfold CopiesVar
  rw [node_of_nodes nodes, ← and_or_left]
  apply and_congr_right
  intro _
  constructor
  · rintro ⟨node, found, form⟩
    rcases node_allocate_cases found with old | ⟨rfl, rfl⟩
    · exact .inl ⟨node, old, form⟩
    · exact .inr ⟨rfl, form⟩
  · rintro (⟨node, found, form⟩ | ⟨rfl, form⟩)
    · exact ⟨node, node_allocate_of_ok found added, form⟩
    · exact ⟨added, graph.node_allocate_self added, form⟩

theorem Grouped.congr (grouped : Grouped original graph unfolding)
    (same : later.unfoldings = graph.unfoldings)
    (copies : ∀ copied position, CopiesVar original later unfolding copied position ↔
      CopiesVar original graph unfolding copied position) :
      Grouped original later unfolding := by
  rcases grouped with ⟨own, found, groups⟩
  exact ⟨own, same ▸ found, groups.keys, groups.apart, fun copied position =>
    (groups.members copied position).trans (copies copied position).symm⟩

theorem Grouped.alter (grouped : Grouped original graph unfolding)
    (alters : graph.Alters later ref before after) (plain : after.form.isPosition = false)
    (noCopy : ∀ copied, ¬ CopiesVar original graph unfolding copied ref) :
    Grouped original later unfolding := by
  apply grouped.congr alters.unfoldings
  intro copied position
  by_cases equal : position = ref
  · subst equal
    apply iff_of_false _ (noCopy copied)
    rintro ⟨_, node, found, form⟩
    rw [alters.changed] at found
    cases found
    rw [form] at plain
    cases plain
  · unfold CopiesVar
    rw [alters.others position equal]

/-! ### What keeps notes -/

namespace Charted

theorem change (charted : Charted original type unfolding chart hole graph)
    (lists : ∀ ref, graph.Lists unfolding ref → later.Lists unfolding ref)
    (grouped : Grouped original later unfolding)
    (nodes : ∀ (ref : Ref) node, original.size < ref.number → left ≠ some ref →
      later.node ref = .ok node →
      hole ≠ some ref ∧ graph.node ref = .ok node ∨
        Charts original later type unfolding chart ref node) :
    Charted original type unfolding chart left later where
  nodes ref node high filled found := by
    rcases nodes ref node high filled found with ⟨old, graphFound⟩ | new
    · exact (charted.nodes ref node high old graphFound).mono lists
    · exact new
  grouped := grouped

theorem extend (charted : Charted original type unfolding chart hole graph)
    (wellFormed : graph.WellFormed) (agrees : graph.Extends chart extended) :
    Charted original type unfolding extended hole graph where
  nodes ref node high filled found := by
    have here := agrees ref (has_of_node found)
    cases charted.nodes ref node high filled found with
    | linked isLinked bare same way rooted notVar =>
        have nextHas :=
          wellFormed.stored ref node found _ (node.mem_stored_of_link isLinked)
        exact .linked isLinked bare ((agrees _ nextHas).trans (same.trans here.symm))
          (here ▸ way) rooted
          notVar
    | position unlinked form way rooted =>
        exact .position unlinked form (here ▸ way) rooted
    | copy unlinked way rooted notVar shape parts =>
        refine .copy unlinked (here ▸ way) rooted notVar shape fun step next isPart => ?_
        have nextHas := wellFormed.has_part found (Form.mem_refs_of_part? isPart)
        rw [agrees next nextHas, here]
        exact parts step next isPart
  grouped := charted.grouped

theorem allocate (charted : Charted original type unfolding chart none graph) :
    Charted original type unfolding chart (some ⟨graph.size + 1⟩)
      (graph.allocate { form := .var none }).2 := by
  have same : (graph.allocate { form := .var none }).2.unfoldings =
      graph.unfoldings := rfl
  apply charted.change fun _ => Copying.lists_of_eq same
  · apply charted.grouped.congr same
    intro copied position
    rw [copiesVar_allocate rfl]
    apply or_iff_left
    rintro ⟨_, _, ⟨⟩⟩
  · intro ref node _ filled found
    rcases node_allocate_cases found with old | ⟨rfl, _⟩
    · exact .inl ⟨(Option.some_ne_none ref).symm, old⟩
    · exact absurd rfl filled

theorem alter (charted : Charted original type unfolding chart hole graph)
    (alters : graph.Alters later ref before after)
    (charts : Charts original graph type unfolding chart ref after)
    (plain : after.form.isPosition = false)
    (noCopy : ∀ copied, ¬ CopiesVar original graph unfolding copied ref)
    (only : ∀ other, hole = some other → other = ref) :
    Charted original type unfolding chart none later := by
  have lists : ∀ ref, graph.Lists unfolding ref → later.Lists unfolding ref := fun _ =>
    Copying.lists_of_eq alters.unfoldings
  apply charted.change lists (charted.grouped.alter alters plain noCopy)
  intro own node _ _ found
  rcases alters.node_cases found with ⟨rfl, rfl⟩ | ⟨different, old⟩
  · exact .inr (charts.mono lists)
  · exact .inl ⟨fun isHole => different (only own isHole), old⟩

theorem linkCopy {copy part : Ref} {form : Form} {last : TypeGraph} {own : Node}
    {origin : Origin} (charted : Charted original type unfolding chart (some copy) graph)
    (copies : graph.Alters later copy { form := .var none } { form := form })
    (links : later.Alters last position before
      { before with form := .var none, link := some copy })
    (noPosition : form.isPosition = false) (isPosition : before.form = .var (some origin))
    (same : chart copy = chart position) (way : original.Way type (chart position) part)
    (rooted : original.Rooted part origin.copied own) (notVar : own.form.kind ≠ .var)
    (shape : form.SameShape own.form)
    (parts : ∀ step next, form.part? step = some next →
      chart next = step :: chart position ∧ graph.Lists unfolding next) :
    Charted original type unfolding chart none last := by
  have filled : Charted original type unfolding chart none later := by
    apply charted.alter copies
      (.copy rfl (same.symm ▸ way) rooted notVar shape (same.symm ▸ parts)) noPosition
    · rintro _ ⟨_, bare, isBare, isVar⟩
      rw [copies.found] at isBare
      cases isBare
      cases isVar
    · exact fun other isHole => (Option.some.inj isHole).symm
  apply filled.alter links (.linked rfl rfl same way rooted notVar) rfl
  · rintro _ ⟨⟨var, isNode, isVar⟩, node, isSame, samePosition⟩
    rw [links.found] at isSame
    cases isSame
    rw [isPosition] at samePosition
    cases samePosition
    rw [rooted.found] at isNode
    cases isNode
    exact notVar isVar
  · rintro _ ⟨⟩

end Charted

structure Notes (original : TypeGraph) (type : Ref) (unfolding : Nat)
    (chart : Ref → List PartStep) (hole : Option Ref) (graph later : TypeGraph)
    (extended : Ref → List PartStep) (added : Ref → Prop) : Prop where
  agrees : graph.Extends chart extended
  charted : Charted original type unfolding extended hole later
  lists : ∀ ref, later.Lists unfolding ref ↔ graph.Lists unfolding ref ∨ added ref

namespace Notes

variable {added more : Ref → Prop} {further : Ref → List PartStep} {hole : Option Ref}

theorem refl (charted : Charted original type unfolding chart hole graph)
    (none : ∀ ref, ¬ added ref) :
    Notes original type unfolding chart hole graph graph chart added where
  agrees := .refl graph chart
  charted := charted
  lists ref := (or_iff_left (none ref)).symm

theorem trans {all : Ref → Prop}
    (first : Notes original type unfolding chart hole graph middle extended added)
    (second : Notes original type unfolding extended hole middle later further more)
    (grown : graph.size ≤ middle.size) (either : ∀ ref, all ref ↔ added ref ∨ more ref) :
    Notes original type unfolding chart hole graph later further all where
  agrees := first.agrees.trans second.agrees grown
  charted := second.charted
  lists ref := by rw [second.lists, first.lists, either, or_assoc]

theorem congr
    (notes : Notes original type unfolding chart hole graph later extended added)
    (same : ∀ ref, more ref ↔ added ref) :
    Notes original type unfolding chart hole graph later extended more where
  agrees := notes.agrees
  charted := notes.charted
  lists ref := by rw [notes.lists, same]

end Notes

theorem Charted.addPosition {part : Ref}
    (charted : Charted original type unfolding chart hole graph)
    (wellFormed : graph.WellFormed) (way : original.Way type steps part)
    (rooted : original.Rooted part target node) (nodes : later.nodes =
      (graph.allocate { form := .var (some ⟨target, unfolding⟩) }).2.nodes)
    (unfoldings : later.unfoldings = graph.unfoldings.modify unfolding fun own =>
      { own with
        positions := own.positions ++ [⟨graph.size + 1⟩]
        copies :=
          if node.form.kind = .var then Build.addCopy target ⟨graph.size + 1⟩ own.copies
            else own.copies }) :
    ∃ extended, Notes original type unfolding chart hole graph later extended
    (· = ⟨graph.size + 1⟩) ∧
      extended ⟨graph.size + 1⟩ = steps := by
  rcases charted.grouped with ⟨own, found, groups⟩
  have position : Function.update chart ⟨graph.size + 1⟩ steps ⟨graph.size + 1⟩ = steps :=
    Function.update_self ..
  have agrees := graph.extends_update chart steps
  have foundLater : later.unfoldings[unfolding]? = some { own with
      positions := own.positions ++ [⟨graph.size + 1⟩]
      copies :=
        if node.form.kind = .var then Build.addCopy target ⟨graph.size + 1⟩ own.copies
          else own.copies } := by
    rw [unfoldings, Array.getElem?_modify, if_pos rfl, found]
    rfl
  have lists : ∀ ref, later.Lists unfolding ref ↔ graph.Lists unfolding ref ∨ ref =
      ⟨graph.size + 1⟩ := by
    intro ref
    unfold TypeGraph.Lists
    rw [found, foundLater]
    simp
  refine ⟨_, ⟨agrees, ?_, lists⟩, position⟩
  apply (charted.extend wellFormed agrees).change fun ref listed =>
    (lists ref).2 (.inl listed)
  · have fresh : ∀ copied, ¬ CopiesVar original graph unfolding copied
        ⟨graph.size + 1⟩ := by
      rintro copied ⟨_, node, isNode, _⟩
      have small : (graph.size + 1 : Int) ≤ graph.size := (has_of_node isNode).2
      omega
    refine ⟨_, foundLater, ?_⟩
    split
    next isVar =>
        apply groups.addCopy fresh rfl
        intro copied position
        rw [copiesVar_allocate nodes]
        apply or_congr_right
        constructor
        · rintro ⟨_, isNew, ⟨⟩⟩
          exact ⟨rfl, isNew⟩
        · rintro ⟨rfl, isNew⟩
          exact ⟨⟨node, rooted.found, isVar⟩, isNew, rfl⟩
    next notVar =>
        refine ⟨groups.keys, groups.apart, fun copied position =>
          (groups.members copied position).trans ?_⟩
        rw [copiesVar_allocate nodes]
        symm
        apply or_iff_left
        rintro ⟨⟨var, isNode, isVar⟩, _, ⟨⟩⟩
        rw [rooted.found] at isNode
        cases isNode
        exact notVar isVar
  · intro ref own _ filled isNode
    rw [node_of_nodes nodes] at isNode
    rcases node_allocate_cases isNode with old | ⟨rfl, rfl⟩
    · exact .inl ⟨filled, old⟩
    · exact .inr (.position rfl rfl (position.symm ▸ way) rooted)

end TypeGraph

namespace Build

open TypeGraph

variable {original graph : TypeGraph} {type part target : Ref} {unfolding base : Nat}
  {steps : List PartStep} {chart : Ref → List PartStep} {hole : Option Ref} {own : Node}
  {failed : Failure → TypeGraph → Prop}

/-! ## Positions -/

theorem yields_newPosition_charted (tidy : original.Tidy)
    (copying : Copying original unfolding base graph)
    (charted : Charted original type unfolding chart hole graph) (has : original.Has part)
    (way : original.Way type steps part) :
    (newPosition unfolding part).Yields graph (fun position later => ∃ extended,
      Notes original type unfolding chart hole graph later extended (· = position) ∧
        extended position = steps) failed := by
  rcases tidy.rooted has with ⟨target, node, rooted, plain⟩
  have here := copying.rooted rooted
  apply yields_look_bind here.deref
  apply yields_look_bind here.found
  apply yields_allocate_bind
  apply yields_modify_bind
  apply yields_pure
  exact charted.addPosition copying.wellFormed way rooted rfl rfl

theorem yields_newPositions_charted (tidy : original.Tidy)
    {entries : List (String × Ref)} {known : Row}
    (copying : Copying original unfolding base graph)
    (charted : Charted original type unfolding chart hole graph)
    (named : ∀ entry ∈ entries, original.Has entry.2)
    (ways : ∀ entry ∈ entries, known.get? entry.1 = none →
      original.Way type (.member entry.1 :: steps) entry.2)
    (noted : ∀ name ref, known.get? name = some ref →
      graph.Has ref ∧ graph.Lists unfolding ref ∧ chart ref = .member name :: steps) :
    (newPositions unfolding known entries).Yields graph (fun result later => ∃ extended,
      Notes original type unfolding chart hole graph later extended
        (· ∈ result.1.map Prod.snd) ∧
        ∀ name ref, result.2.get? name = some ref →
          later.Has ref ∧ later.Lists unfolding ref ∧ extended ref = .member name ::
            steps) failed := by
  induction entries generalizing graph known chart with
  | nil => exact yields_pure ⟨chart, .refl charted (by simp), noted⟩
  | cons entry rest induction =>
      rcases entry with ⟨name, copied⟩
      rw [newPositions]
      have restNamed : ∀ entry ∈ rest, original.Has entry.2 := fun entry member =>
        named entry (List.mem_cons_of_mem _ member)
      split
      next position found =>
          have restWays : ∀ entry ∈ rest, known.get? entry.1 = none →
              original.Way type (.member entry.1 :: steps) entry.2 := fun entry member =>
            ways entry (List.mem_cons_of_mem _ member)
          apply (induction copying charted restNamed restWays noted).bind
          rintro ⟨entries, all⟩ later ⟨extended, notes, allNoted⟩
          refine yields_pure
            ⟨extended, ⟨notes.agrees, notes.charted, fun ref => ?_⟩, allNoted⟩
          have listed := (noted name position found).2.1
          rw [notes.lists, List.map_cons, List.mem_cons, or_left_comm]
          refine (or_iff_right_of_imp ?_).symm
          rintro rfl
          exact .inl listed
      next absent =>
          have copiedHas := named _ List.mem_cons_self
          have way := ways _ List.mem_cons_self absent
          apply ((yields_newPosition tidy copying copiedHas).and
            (yields_newPosition_charted tidy copying charted copiedHas way)).bind
          rintro position middle ⟨⟨copyingMiddle, adds, _, positionHas⟩, first,
            notesFirst, atPosition⟩
          have restWays : ∀ entry ∈ rest, (known.put name position).get? entry.1 = none →
              original.Way type (.member entry.1 :: steps) entry.2 := by
            intro entry member unknown
            apply ways entry (List.mem_cons_of_mem _ member)
            by_cases equal : entry.1 = name
            · rw [equal]
              exact absent
            · rwa [known.get?_put_of_ne equal] at unknown
          have notedMiddle : ∀ label ref,
              (known.put name position).get? label = some ref →
              middle.Has ref ∧ middle.Lists unfolding ref ∧ first ref =
              .member label :: steps := by
            intro label ref found
            by_cases equal : label = name
            · subst equal
              rw [Row.get?_put_self] at found
              cases found
              exact ⟨positionHas, (notesFirst.lists position).2 (.inr rfl), atPosition⟩
            · rw [known.get?_put_of_ne equal] at found
              rcases noted label ref found with ⟨has, listed, same⟩
              exact ⟨has.mono adds.grown, (notesFirst.lists ref).2 (.inl listed),
                (notesFirst.agrees ref has).trans same⟩
          apply (induction copyingMiddle notesFirst.charted restNamed restWays
            notedMiddle).bind
          rintro ⟨entries, all⟩ later ⟨extended, notes, allNoted⟩
          refine yields_pure
            ⟨extended, notesFirst.trans notes adds.grown fun ref => ?_, allNoted⟩
          rw [List.map_cons, List.mem_cons]

def CopyNoted (original : TypeGraph) (type : Ref) (unfolding : Nat)
    (steps : List PartStep) (chart : Ref → List PartStep) (hole : Option Ref)
    (graph : TypeGraph) (form copy : Form) (later : TypeGraph) : Prop :=
  ∃ extended, Notes original type unfolding chart hole graph later extended
    (· ∈ copy.refs) ∧
    copy.SameShape form ∧ ∀ step next, copy.part? step = some next →
    extended next = step :: steps

structure Inside (original : TypeGraph) (type : Ref) (steps : List PartStep)
    (form : Form) : Prop where
  named : ∀ ref ∈ form.refs, original.Has ref
  ways : ∀ step next, form.part? step = some next → original.Way type (step :: steps) next
  fair : form.Fair

theorem yields_copyRow_charted (tidy : original.Tidy)
    (copying : Copying original unfolding base graph)
    (charted : Charted original type unfolding chart hole graph)
    {kind : RowKind} {members : Row} {bound : Option Row}
    (inside : Inside original type steps (.row kind members bound)) :
    (copyForm unfolding (.row kind members bound)).Yields graph
      (CopyNoted original type unfolding steps chart hole graph (.row kind members bound))
        failed := by
  have membersNamed : ∀ entry ∈ members.entries, original.Has entry.2 :=
    fun entry member =>
    inside.named entry.2 (List.mem_append_left _ (List.mem_map_of_mem member))
  have nothingKnown : ∀ name (ref : Ref), Row.empty.get? name = some ref →
      ((0 : Nat) : Int) < ref.number ∧ graph.Has ref := by simp
  have membersWays : ∀ entry ∈ members.entries, Row.empty.get? entry.1 = none →
      original.Way type (.member entry.1 :: steps) entry.2 := fun entry member _ =>
    inside.ways (.member entry.1) entry.2
      ((Row.get?_eq_some_iff inside.fair.distinct).2 member)
  apply ((yields_newPositions tidy copying membersNamed nothingKnown (Nat.zero_le _)).and
    (yields_newPositions_charted tidy copying charted membersNamed membersWays
      (by simp))).bind
  rintro ⟨entries, known⟩ middle
    ⟨⟨copyingMiddle, adds, labels, listed, _, isNew⟩, first, notesFirst, knownNoted⟩
  have atMember : ∀ name ref, (Row.mk entries).get? name = some ref → middle.Has ref ∧
      first ref = .member name :: steps := by
    intro name ref found
    rcases knownNoted name ref (listed _ (Row.mem_of_get? found)) with ⟨has, _, same⟩
    exact ⟨has, same⟩
  cases bound with
  | none =>
      refine yields_pure
        ⟨first, notesFirst.congr fun ref => ?_, ⟨rfl, rfl, congrArg some labels, rfl⟩, ?_⟩
      · simp [Form.refs, Row.refs]
      · rintro (_ | name) next isPart
        · cases isPart
        · exact (atMember name next isPart).2
  | some bound =>
      have boundNamed : ∀ entry ∈ bound.entries, original.Has entry.2 :=
        fun entry member =>
        inside.named entry.2 (List.mem_append_right _ (List.mem_map_of_mem member))
      -- Every name of the bound has got its position among the members.
      have noneLeft : ∀ entry ∈ bound.entries, known.get? entry.1 = none →
          original.Way type (.member entry.1 :: steps) entry.2 := by
        intro entry member unknown
        have inBound : bound.contains entry.1 :=
          Row.contains_iff.2 (List.mem_map_of_mem member)
        have inMembers :=
          Row.contains_iff.1 ((inside.fair.agreed bound rfl entry.1).1 inBound)
        rw [Row.labels, ← labels] at inMembers
        rcases List.mem_map.1 inMembers with ⟨own, ownListed, same⟩
        rw [← same, listed own ownListed] at unknown
        cases unknown
      apply ((yields_newPositions tidy copyingMiddle boundNamed isNew (Nat.zero_le _)).and
        (yields_newPositions_charted tidy copyingMiddle notesFirst.charted
          boundNamed noneLeft knownNoted)).bind
      rintro ⟨bounds, all⟩ later ⟨⟨_, _, boundLabels, _, _, _⟩, extended, notes, _⟩
      refine yields_pure ⟨extended, notesFirst.trans notes adds.grown fun ref => ?_,
        ⟨rfl, rfl, congrArg some labels, congrArg some boundLabels⟩, ?_⟩
      · simp [Form.refs, Row.refs]
      · rintro (_ | name) next isPart
        · cases isPart
        · exact (notes.agrees next (atMember name next isPart).1).trans
            (atMember name next isPart).2

theorem yields_copyForm_charted (tidy : original.Tidy)
    (copying : Copying original unfolding base graph)
    (charted : Charted original type unfolding chart hole graph)
    (way : original.Way type steps part) (rooted : original.Rooted part target own) :
    (copyForm unfolding own.form).Yields graph
      (CopyNoted original type unfolding steps chart hole graph own.form) failed := by
  have inside : Inside original type steps own.form :=
    ⟨fun _ => tidy.wellFormed.has_part rooted.found, fun _ _ => .step way rooted,
      tidy.wellFormed.fair target own rooted.found⟩
  cases form : own.form with
  | var origin =>
      refine yields_pure ⟨chart, .refl charted fun _ => List.not_mem_nil,
        ⟨rfl, rfl, rfl, rfl⟩, ?_⟩
      rintro (_ | _) _ ⟨⟩
  | primitive primitive =>
      refine yields_pure ⟨chart, .refl charted fun _ => List.not_mem_nil,
        ⟨rfl, rfl, rfl, rfl⟩, ?_⟩
      rintro (_ | _) _ ⟨⟩
  | function argument result =>
      rw [form] at inside
      have argumentHas := inside.named argument List.mem_cons_self
      have resultHas := inside.named result (List.mem_cons_of_mem _ List.mem_cons_self)
      apply ((yields_newPosition tidy copying argumentHas).and
        (yields_newPosition_charted tidy copying charted argumentHas
          (inside.ways (.parameter 0) argument rfl))).bind
      rintro first middle ⟨⟨copyingMiddle, adds, _, firstHas⟩, earlier,
        notesFirst, atFirst⟩
      apply (yields_newPosition_charted tidy copyingMiddle notesFirst.charted resultHas
        (inside.ways (.parameter 1) result rfl)).bind
      rintro second later ⟨extended, notes, atSecond⟩
      refine yields_pure ⟨extended, notesFirst.trans notes adds.grown fun ref =>
        ?_, ⟨rfl, rfl, rfl, rfl⟩, ?_⟩
      · simp [Form.refs, Form.parameters]
      · rintro ((_ | _ | _) | _) _ ⟨⟩
        · exact (notes.agrees first firstHas).trans atFirst
        · exact atSecond
  | list element =>
      rw [form] at inside
      apply (yields_newPosition_charted tidy copying charted
        (inside.named element List.mem_cons_self)
        (inside.ways (.parameter 0) element rfl)).bind
      rintro position later ⟨extended, notes, atPosition⟩
      refine yields_pure ⟨extended, notes.congr fun ref => ?_, ⟨rfl, rfl, rfl, rfl⟩, ?_⟩
      · simp [Form.refs, Form.parameters]
      · rintro ((_ | _) | _) _ ⟨⟩
        exact atPosition
  | row kind members bound =>
      rw [form] at inside
      exact yields_copyRow_charted tidy copying charted inside

end Build

end Casework
