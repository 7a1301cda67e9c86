import Casework.Proofs.Charts

/-!
Unfoldings separate positions.

Positions of an unfolding are expanded in whatever order. All the time every position that
there is can be reached from the root of the copy, and only on the way under which it is
noted. So different ways lead to different positions, which copy what the same way leads
to in the type that is unfolded.
-/

namespace Casework

theorem Form.exists_part? {form : Form} (fair : form.Fair) (snug : form.Snug) {part : Ref}
    (member : part ∈ form.refs) : ∃ step, form.part? step = some part := by
  cases form with
  | var => cases member
  | primitive => cases member
  | function =>
      rcases List.mem_iff_getElem?.1 member with ⟨index, found⟩
      exact ⟨.parameter index, found⟩
  | list =>
      rcases List.mem_iff_getElem?.1 member with ⟨index, found⟩
      exact ⟨.parameter index, found⟩
  | row kind members bound =>
      rcases List.mem_append.1 member with inside | outside
      · rcases Row.mem_refs_iff.1 inside with ⟨name, stored⟩
        exact ⟨.member name, (Row.get?_eq_some_iff fair.distinct).2 stored⟩
      · cases bound with
        | none => cases outside
        | some whole =>
            rcases Row.mem_refs_iff.1 outside with ⟨name, stored⟩
            refine ⟨.member name, (snug name).symm.trans ?_⟩
            exact (Row.get?_eq_some_iff (fair.bounded whole rfl)).2 stored

namespace TypeGraph

variable {original graph later : TypeGraph}
  {type root ref target position other twin : Ref} {unfolding : Nat}
  {steps further : List PartStep} {chart : Ref → List PartStep} {node own : Node}

structure Mapped (original : TypeGraph) (type : Ref) (unfolding : Nat) (root : Ref)
    (chart : Ref → List PartStep) (graph : TypeGraph) : Prop where
  charted : Charted original type unfolding chart none graph
  start : chart root = []
  listed : graph.Lists unfolding root
  ways : ∀ position, graph.Lists unfolding position →
    graph.Way root (chart position) position

namespace Mapped

theorem charts (mapped : Mapped original type unfolding root chart graph)
    (high : original.size < ref.number) (found : graph.node ref = .ok node) :
    Charts original graph type unfolding chart ref node :=
  mapped.charted.nodes ref node high (Option.some_ne_none ref).symm found

theorem chart_of_leads (mapped : Mapped original type unfolding root chart graph)
    (copying : Copying original unfolding original.size graph)
    (leads : graph.Leads ref target) (high : original.size < ref.number) :
    chart target = chart ref := by
  induction leads with
  | refl => rfl
  | link linked _ induction =>
      rcases linked with ⟨node, found, isLinked⟩
      have nextHigh :=
        copying.above _ node high found _ (node.mem_stored_of_link isLinked)
      refine (induction nextHigh).trans ?_
      cases mapped.charts high found with
      | linked own _ same =>
          rw [isLinked] at own
          cases own
          exact same
      | position unlinked =>
          rw [unlinked] at isLinked
          cases isLinked
      | copy unlinked =>
          rw [unlinked] at isLinked
          cases isLinked

theorem rooted_cases (mapped : Mapped original type unfolding root chart graph)
    (copying : Copying original unfolding original.size graph)
    (rooted : graph.Rooted position target node)
    (high : original.size < position.number) :
    original.size < target.number ∧ chart target = chart position ∧
      ∃ part copied own, original.Way type (chart position) part ∧
        original.Rooted part copied own ∧
        (node.form = .var (some ⟨copied, unfolding⟩) ∨
          own.form.kind ≠ .var ∧ node.form.SameShape own.form ∧
            ∀ step next, node.form.part? step = some next →
              chart next = step :: chart position ∧ graph.Lists unfolding next) := by
  have targetHigh := copying.above_of_leads rooted.leads high
  have same := mapped.chart_of_leads copying rooted.leads high
  refine ⟨targetHigh, same, ?_⟩
  rw [← same]
  cases mapped.charts targetHigh rooted.found with
  | linked isLinked =>
      rw [rooted.unlinked] at isLinked
      cases isLinked
  | position _ form way copiedRooted => exact ⟨_, _, _, way, copiedRooted, .inl form⟩
  | copy _ way copiedRooted notVar shape parts =>
      exact ⟨_, _, _, way, copiedRooted, .inr ⟨notVar, shape, parts⟩⟩

theorem high_of_lists (copying : Copying original unfolding original.size graph)
    (listed : graph.Lists unfolding position) :
    original.size < position.number ∧ graph.Has position := by
  rcases copying.noted with ⟨book, found, names⟩
  rcases listed with ⟨own, ownFound, member⟩
  rw [found] at ownFound
  cases ownFound
  exact names position (.inr (.inl member))

theorem exists_way (mapped : Mapped original type unfolding root chart graph)
    (copying : Copying original unfolding original.size graph)
    (rooted : graph.Rooted position position node) (high : original.size <
      position.number) {origin : Origin} (form : node.form = .var (some origin))
    {own : Node} (copiedRooted : original.Rooted origin.copied target own) :
    ∃ part, original.Way type (chart position) part ∧
      original.Rooted part origin.copied own := by
  rcases (mapped.rooted_cases copying rooted high).2.2 with
    ⟨part, copied, other, way, partRooted, isPosition | ⟨otherVar, shape, _⟩⟩
  · rw [form] at isPosition
    cases isPosition
    have copied := Rooted.self partRooted.found partRooted.unlinked
    rw [(copied.unique copiedRooted).2]
    exact ⟨part, way, partRooted⟩
  · rw [form] at shape
    exact absurd shape.kind.symm otherVar

theorem chart_of_way (mapped : Mapped original type unfolding root chart graph)
    (copying : Copying original unfolding original.size graph)
    (way : graph.Way root steps position) :
    chart position = steps ∧ graph.Lists unfolding position := by
  induction way with
  | start => exact ⟨mapped.start, mapped.listed⟩
  | step _ rooted isPart induction =>
      have high := (high_of_lists copying induction.2).1
      rcases (mapped.rooted_cases copying rooted high).2.2 with
        ⟨_, _, _, _, _, form | ⟨_, _, parts⟩⟩
      · rw [form] at isPart
        exact absurd rfl (Form.kind_ne_var_of_part? isPart)
      · rw [← induction.1]
        exact parts _ _ isPart

theorem expands {extended : Ref → List PartStep} {copied : Form} {middle last : TypeGraph}
    (mapped : Mapped original type unfolding root chart graph)
    (copying : Copying original unfolding original.size graph)
    (agrees : graph.Extends chart extended) (expands : graph.Expands last position)
    (charted : Charted original type unfolding extended none last)
    (lists : ∀ own, last.Lists unfolding own ↔ graph.Lists unfolding own ∨
      own ∈ copied.refs)
    (listed : graph.Lists unfolding position) (rooted : graph.Rooted ref position node)
    (links : later.Alters last position node
      { node with form := .var none, link := some ⟨graph.size + 1⟩ })
    (copies : middle.Alters later ⟨graph.size + 1⟩ { form := .var none }
      { form := copied })
    (parts : ∀ own ∈ copied.refs, ∃ step, copied.part? step = some own ∧
      extended own = step :: extended position) :
      Mapped original type unfolding root extended last where
  charted := charted
  start := (agrees root (high_of_lists copying mapped.listed).2).trans mapped.start
  listed := (lists root).2 (.inl mapped.listed)
  ways own ownListed := by
    have apart : (⟨graph.size + 1⟩ : Ref) ≠ position := by
      rintro rfl
      have small : (graph.size + 1 : Int) ≤ graph.size := rooted.has.2
      omega
    have copyFound := (links.others _ apart).trans copies.changed
    have lastRooted : last.Rooted position ⟨graph.size + 1⟩ { form := copied } :=
      .to_leads (.self copyFound rfl) (.link ⟨_, links.changed, rfl⟩ (.refl _))
    have kept : ∀ own, graph.Lists unfolding own → last.Way root (extended own) own := by
      intro own old
      rw [agrees own (high_of_lists copying old).2]
      exact (mapped.ways own old).mono fun _ _ _ => expands.rooted
    rcases (lists own).1 ownListed with old | new
    · exact kept own old
    · rcases parts own new with ⟨step, isPart, noted⟩
      rw [noted]
      exact .step (kept position listed) lastRooted isPart

end Mapped

end TypeGraph

namespace Build

open TypeGraph

variable {original graph : TypeGraph} {type root ref : Ref} {unfolding : Nat}
  {chart : Ref → List PartStep} {failed : Failure → TypeGraph → Prop}

/-! ## Expanding -/

theorem yields_expand_mapped (tidy : original.Tidy)
    (copying : Copying original unfolding original.size graph)
    (mapped : Mapped original type unfolding root chart graph) (has : graph.Has ref) :
    (expand ref).Yields graph
      (fun _ later => Copying original unfolding original.size later ∧
      ∃ extended, Mapped original type unfolding root extended later) failed := by
  apply yields_expand_of_copy tidy copying has ⟨copying, chart, mapped⟩
  intro position target node own origin rooted form copiedRooted notVar
  rcases copying.origin tidy rooted.found form with
    ⟨positionHigh, _, sameUnfolding, positionListed⟩
  have low := copying.small
  have copyHigh : (original.size : Int) < graph.size + 1 := by omega
  obtain ⟨part, way, partRooted⟩ := mapped.exists_way copying
    (.self rooted.found rooted.unlinked) positionHigh form copiedRooted
  have allocated := copying.allocate (.var none)
    (fun _ member => (List.not_mem_nil member).elim) trivial trivial rfl 0
  have addsCopy : graph.Adds (graph.allocate { form := .var none }).2 := adds_allocate rfl
  have grown := addsCopy.grown
  have copyHas : (graph.allocate { form := .var none }).2.Has ⟨graph.size + 1⟩ :=
    graph.has_allocate _
  have agreesCopy := graph.extends_update chart (chart position)
  have atCopy : Function.update chart ⟨graph.size + 1⟩ (chart position) ⟨graph.size + 1⟩ =
      chart position :=
    Function.update_self ..
  have chartedCopy := (mapped.charted.extend copying.wellFormed agreesCopy).allocate
  generalize Function.update chart ⟨graph.size + 1⟩ (chart position) = first at *
  have fair := tidy.wellFormed.fair origin.copied own partRooted.found
  apply yields_linkCopy rooted.found ((yields_copyForm tidy allocated.copying
    (fun _ => tidy.wellFormed.has_part partRooted.found) fair).and
      (yields_copyForm_charted tidy allocated.copying chartedCopy way partRooted))
      fun _ _ made => made.1.2.1
  rintro copied middle later last
    ⟨⟨copyingMiddle, adds, parts, copiedFair, snug, noPosition⟩, extended, notes, shape,
      noted⟩ copies links
  have expands := copyingMiddle.expands (addsCopy.trans adds) rooted.found
    form rooted.unlinked
    positionHigh copying.small (Int.lt_succ _) rfl copies rfl
    (fun part member =>
      ⟨by have partNew := (parts part member).1; omega, (parts part member).2⟩)
    copiedFair snug noPosition links rfl rfl
  have agrees := agreesCopy.trans notes.agrees grown
  have copyNoted : extended ⟨graph.size + 1⟩ = chart position :=
    (notes.agrees _ copyHas).trans atCopy
  have positionNoted : extended position = chart position := agrees position rooted.has
  have charted : Charted original type unfolding extended none last := by
    apply notes.charted.linkCopy copies links noPosition form
      (copyNoted.trans positionNoted.symm)
      (positionNoted.symm ▸ way) partRooted notVar shape
    intro step next isPart
    rw [positionNoted]
    exact ⟨noted step next isPart,
      (notes.lists next).2 (.inr (Form.mem_refs_of_part? isPart))⟩
  have lists : ∀ own, last.Lists unfolding own ↔ graph.Lists unfolding own ∨
      own ∈ copied.refs := by
    intro own
    unfold TypeGraph.Lists
    rw [links.unfoldings, copies.unfoldings]
    exact notes.lists own
  exact ⟨expands.1, extended, mapped.expands copying agrees expands.2 charted lists
    positionListed rooted links copies fun own new =>
    (Form.exists_part? copiedFair snug new).imp fun step isPart =>
      ⟨isPart, positionNoted.symm ▸ noted step own isPart⟩⟩

end Build

namespace TypeGraph

def InTurn (graph : TypeGraph) : List Ref → Prop
  | [] => True
  | ref :: rest => graph.Has ref ∧ ((Build.expand ref).on graph).2.InTurn rest

def decidableInTurn (graph : TypeGraph) :
    (refs : List Ref) → Decidable (graph.InTurn refs)
  | [] => inferInstanceAs (Decidable True)
  | ref :: rest =>
      have := ((Build.expand ref).on graph).2.decidableInTurn rest
      inferInstanceAs (Decidable (_ ∧ _))

instance (graph : TypeGraph) (refs : List Ref) : Decidable (graph.InTurn refs) :=
  graph.decidableInTurn refs

end TypeGraph

namespace Build

open TypeGraph

variable {original graph : TypeGraph} {type root ref : Ref} {unfolding : Nat}
  {chart : Ref → List PartStep} {failed : Failure → TypeGraph → Prop}

theorem yields_expand_all_mapped (tidy : original.Tidy) {refs : List Ref}
    (copying : Copying original unfolding original.size graph)
    (mapped : Mapped original type unfolding root chart graph)
    (inTurn : graph.InTurn refs) :
    (refs.forM expand).Yields graph
      (fun _ later => Copying original unfolding original.size later ∧
      ∃ extended, Mapped original type unfolding root extended later) failed := by
  induction refs generalizing graph chart with
  | nil => exact yields_pure ⟨copying, chart, mapped⟩
  | cons ref rest induction =>
      rcases inTurn with ⟨has, inTurn⟩
      rcases (yields_expand_mapped tidy copying mapped has).exists_ok with
        ⟨_, middle, ran, copyingMiddle, extended, mappedMiddle⟩
      rw [ran] at inTurn
      exact yields_bind_of_on ran (induction copyingMiddle mappedMiddle inTurn)

theorem grouped_unfold {later : TypeGraph} {target : Ref} {node : Node}
    (tidy : graph.Tidy) (found : graph.node target = .ok node)
    (nodes : later.nodes =
      (graph.allocate { form := .var (some ⟨target, unfolding⟩) }).2.nodes)
    (book : later.unfoldings[unfolding]? = some {
      root := ⟨graph.size + 1⟩
      positions := [⟨graph.size + 1⟩]
      copies := if node.form.kind = .var then [(target, [⟨graph.size + 1⟩])] else [] }) :
    Grouped graph later unfolding := by
  have copies : ∀ copied position, CopiesVar graph later unfolding copied position ↔
      node.form.kind = .var ∧ copied = target ∧ position = ⟨graph.size + 1⟩ := by
    intro copied position
    rw [copiesVar_allocate nodes]
    constructor
    · rintro (⟨_, own, isNode, form⟩ | ⟨⟨own, isNode, isVar⟩, isNew, ⟨⟩⟩)
      · have plain := tidy.folded position own isNode
        rw [form] at plain
        cases plain
      · rw [found] at isNode
        cases isNode
        exact ⟨isVar, rfl, isNew⟩
    · rintro ⟨isVar, rfl, isNew⟩
      exact .inr ⟨⟨node, found, isVar⟩, isNew, rfl⟩
  refine ⟨_, book, ?_, ?_, ?_⟩
  · dsimp only
    split
    · exact List.nodup_singleton target
    · exact List.nodup_nil
  · dsimp only
    split
    · simp
    · exact fun _ member => absurd member List.not_mem_nil
  · intro copied position
    rw [copies]
    dsimp only
    split
    next isVar => simp [isVar]
    next notVar => simp [notVar]

theorem yields_unfold_mapped (tidy : graph.Tidy) (has : graph.Has type) :
    (unfold type).Yields graph
      (fun unfolding later => ∃ own, later.unfoldings[unfolding]? = some own ∧
      Mapped graph type unfolding own.root (fun _ => []) later) failed := by
  apply (yields_unfold_book tidy has).imp
  rintro unfolding later ⟨_, target, node, rooted, nodes, book⟩
  have lists : ∀ ref, later.Lists unfolding ref ↔ ref = ⟨graph.size + 1⟩ := by
    intro ref
    unfold TypeGraph.Lists
    rw [book]
    simp
  refine ⟨_, book, ⟨?_, grouped_unfold tidy rooted.found nodes book⟩, rfl,
    (lists _).2 rfl, ?_⟩
  · intro ref own high _ found
    rw [node_of_nodes nodes] at found
    rcases node_allocate_cases found with old | ⟨rfl, rfl⟩
    · have small := (has_of_node old).2
      omega
    · exact .position rfl rfl .start rooted
  · intro position listed
    rw [(lists position).1 listed]
    exact .start

end Build

/-! ## What is separate -/

namespace TypeGraph

variable {original graph later : TypeGraph}
  {type root ref target position other unbound : Ref} {unfolding : Nat}
  {steps further : List PartStep} {chart : Ref → List PartStep} {node own : Node}

/-- A copy of which positions have been expanded: every way into it is a way into the type
that is unfolded and leads to new nodes, a position that is not expanded or a node that
looks as what it copies, and no two ways lead to the same node. -/
structure Separates (original : TypeGraph) (type : Ref) (graph : TypeGraph)
    (unfolding : Nat) (root : Ref) :
    Prop where
  copies : ∀ steps position, graph.Way root steps position →
    ∃ target node part copied own, graph.Rooted position target node ∧
      original.size < position.number ∧ original.size < target.number ∧
      original.Way type steps part ∧ original.Rooted part copied own ∧
        (node.form = .var (some ⟨copied, unfolding⟩) ∨
          own.form.kind ≠ .var ∧ node.form.SameShape own.form ∧ node.form.Snug)
  apart : ∀ steps further position other, graph.Way root steps position →
    graph.Way root further other →
    graph.Same position other → steps = further

def Meets (original : TypeGraph) (type : Ref) (graph : TypeGraph)
    (root unbound position : Ref) : Prop :=
  ∃ steps part own, graph.Way root steps position ∧ original.Way type steps part ∧
    original.Rooted part unbound own ∧ own.form.kind = .var

/-- Groups of positions: those where there is a type variable which there is elsewhere,
too. -/
structure Shares (original : TypeGraph) (type : Ref) (graph : TypeGraph) (root : Ref)
    (groups : List (List Ref)) : Prop where
  each : ∀ group ∈ groups, ∃ unbound, 1 < group.length ∧ group.Nodup ∧
    ∀ position, position ∈ group ↔ original.Meets type graph root unbound position
  all : ∀ unbound position other, original.Meets type graph root unbound position →
    original.Meets type graph root unbound other → position ≠ other →
      ∃ group ∈ groups, position ∈ group ∧ other ∈ group
  apart : groups.Pairwise List.Disjoint

namespace Mapped

theorem separates (mapped : Mapped original type unfolding root chart graph)
    (copying : Copying original unfolding original.size graph) :
    original.Separates type graph unfolding root where
  copies steps position way := by
    rcases mapped.chart_of_way copying way with ⟨rfl, listed⟩
    rcases high_of_lists copying listed with ⟨high, has⟩
    rcases copying.wellFormed.settles position has with ⟨target, node, rooted⟩
    rcases mapped.rooted_cases copying rooted high with
      ⟨targetHigh, _, part, copied, own, copiedWay, copiedRooted, form⟩
    refine ⟨target, node, part, copied, own, rooted, high, targetHigh, copiedWay,
      copiedRooted, ?_⟩
    apply form.imp_right
    rintro ⟨notVar, shape, _⟩
    exact ⟨notVar, shape, (copying.placed target node targetHigh rooted.found).snug⟩
  apart steps further position other way otherWay same := by
    rcases mapped.chart_of_way copying way with ⟨rfl, listed⟩
    rcases mapped.chart_of_way copying otherWay with ⟨rfl, otherListed⟩
    rcases same with ⟨target, leads, otherLeads⟩
    rw [← mapped.chart_of_leads copying leads (high_of_lists copying listed).1,
      mapped.chart_of_leads copying otherLeads (high_of_lists copying otherListed).1]

theorem meets_iff (mapped : Mapped original type unfolding root chart graph)
    (tidy : original.Tidy) (copying : Copying original unfolding original.size graph) :
    original.Meets type graph root unbound position ↔
      CopiesVar original graph unfolding unbound position := by
  constructor
  · rintro ⟨steps, part, own, way, copiedWay, rooted, isVar⟩
    rcases mapped.chart_of_way copying way with ⟨rfl, listed⟩
    rcases high_of_lists copying listed with ⟨high, has⟩
    rcases has_iff.1 has with ⟨node, found⟩
    have only : ∀ {other copied : Ref} {twin : Node},
        original.Way type (chart position) other →
        original.Rooted other copied twin → copied = unbound ∧ twin = own := by
      intro other copied twin otherWay otherRooted
      rw [← copiedWay.unique otherWay] at otherRooted
      exact rooted.unique otherRooted
    cases mapped.charts high found with
    | linked _ _ _ way rooted notVar =>
        rw [(only way rooted).2] at notVar
        exact absurd isVar notVar
    | position _ form way copied =>
        rw [(only way copied).1] at form
        exact ⟨⟨own, rooted.found, isVar⟩, node, found, form⟩
    | copy _ way rooted notVar =>
        rw [(only way rooted).2] at notVar
        exact absurd isVar notVar
  · rintro ⟨⟨own, ownFound, isVar⟩, node, found, form⟩
    rcases copying.origin tidy found form with ⟨high, _, _, listed⟩
    cases mapped.charts high found with
    | linked _ bare =>
        rw [form] at bare
        cases bare
    | position _ same way rooted =>
        rw [form] at same
        cases same
        rw [rooted.found] at ownFound
        cases ownFound
        exact ⟨_, _, own, mapped.ways position listed, way, rooted, isVar⟩
    | copy _ _ _ notVar shape =>
        rw [form] at shape
        exact absurd shape.kind.symm notVar

theorem shares (mapped : Mapped original type unfolding root chart graph)
    (tidy : original.Tidy) (copying : Copying original unfolding original.size graph) :
    ∃ groups, (Build.sharedPositions unfolding).on graph = (.ok groups, graph) ∧
      original.Shares type graph root groups := by
  rcases mapped.charted.grouped with ⟨own, found, groups⟩
  have meets : ∀ unbound position, original.Meets type graph root unbound position ↔
      CopiesVar original graph unfolding unbound position := fun _ _ =>
      mapped.meets_iff tidy copying
  have inGroup : ∀ {copied group position}, (copied, group) ∈ own.copies →
      (position ∈ group ↔ original.Meets type graph root copied position) := by
    intro copied group position listed
    rw [groups.mem_iff listed, meets]
  refine ⟨(own.copies.map Prod.snd).filter (1 < ·.length), ?_, ⟨?_, ?_, ?_⟩⟩
  · change (Except.ok _, graph) = _
    rw [found]
    rfl
  · intro group member
    rcases List.mem_filter.1 member with ⟨inside, isLong⟩
    rcases List.mem_map.1 inside with ⟨⟨copied, _⟩, listed, rfl⟩
    exact ⟨copied, of_decide_eq_true isLong, groups.apart _ listed,
      fun position => inGroup listed⟩
  · intro unbound position other here there different
    rcases (groups.members unbound position).2 ((meets _ _).1 here) with
      ⟨group, listed, inside⟩
    have alsoInside := (inGroup listed).2 there
    refine ⟨group, List.mem_filter.2 ⟨List.mem_map_of_mem listed, ?_⟩, inside, alsoInside⟩
    apply decide_eq_true
    rcases group with _ | ⟨first, _ | ⟨second, rest⟩⟩
    · cases inside
    · rw [List.mem_singleton] at inside alsoInside
      exact absurd (inside.trans alsoInside.symm) different
    · exact Nat.one_lt_succ_succ _
  · have distinct := List.pairwise_map.1 groups.keys
    apply List.Pairwise.filter
    rw [List.pairwise_map]
    refine distinct.imp_of_mem fun {first second} firstListed secondListed different => ?_
    intro position inside alsoInside
    rcases (groups.mem_iff firstListed).1 inside with ⟨_, node, isNode, form⟩
    rcases (groups.mem_iff secondListed).1 alsoInside with ⟨_, same, isSame, sameForm⟩
    rw [isNode] at isSame
    cases isSame
    rw [form, Form.var.injEq, Option.some.injEq, Origin.mk.injEq] at sameForm
    exact different sameForm.1

end Mapped

end TypeGraph

end Casework
