import Casework.Proofs.CaseIsolation
import Casework.Proofs.Numerals
import Casework.Proofs.TypeTrees

/-!
What patterns leave on the positions of an unfolding.

The type that is unfolded is a tree without variables. A position of the unfolding waits
until a pattern reaches it. Then either some pattern covers it, or it has been expanded
and the patterns are all literals or all tags, and the payloads of those with one tag have
reached the position under the tag.

Every position has nodes of its own. Work at one position replaces its nodes by others and
leaves the nodes of all other positions alone, so what is known of them stays true.
-/

namespace Casework

/-! ## Patterns of one kind -/

def payloads (tag : String) (patterns : List Pattern) : List Pattern :=
  patterns.filterMap fun
    | .variant own payload => if own = tag then some payload else none
    | _ => none

@[simp] theorem payloads_nil (tag : String) : payloads tag [] = [] := rfl

theorem payloads_append (tag : String) (left right : List Pattern) :
    payloads tag (left ++ right) = payloads tag left ++ payloads tag right :=
  List.filterMap_append

@[simp] theorem payloads_same (tag : String) (payload : Pattern) :
    payloads tag [.variant tag payload] = [payload] := by
  simp [payloads]

theorem payloads_of_ne {tag own : String} (different : own ≠ tag) (payload : Pattern) :
    payloads tag [.variant own payload] = [] := by
  simp [payloads, different]

theorem mem_payloads {tag : String} {patterns : List Pattern} {payload : Pattern} :
    payload ∈ payloads tag patterns ↔ .variant tag payload ∈ patterns := by
  constructor
  · intro member
    rcases List.mem_filterMap.1 member with ⟨pattern, listed, isPayload⟩
    split at isPayload
    next own inner =>
        split at isPayload
        next same =>
            cases isPayload
            exact same ▸ listed
        next => cases isPayload
    next => cases isPayload
  · exact fun member => List.mem_filterMap.2 ⟨_, member, if_pos rfl⟩

def Pattern.IsLiteralOf (own : Primitive) (pattern : Pattern) : Prop :=
  match own with
  | .number => ∃ value type, pattern = .literal (.number value) type ∧ value.IsUnsigned
  | .text => ∃ bytes type, pattern = .literal (.text bytes) type
  | _ => False

def Pattern.IsTagged (pattern : Pattern) : Prop :=
  ∃ tag payload, pattern = .variant tag payload

def TypeTree.kind {ν : Type} : TypeTree ν → Kind
  | .var _ => .var
  | .primitive own => .primitive own
  | .function _ _ => .function
  | .list _ => .list
  | .row kind _ _ => kind.kind

abbrev Node.tested (row : Row) (matched : List String) (collecting : Bool) : Node :=
  { form := .row .variant row (some row), matched := matched,
    marks := { collecting := collecting } }

namespace TypeGraph

variable {ν : Type} {original graph middle later : TypeGraph} {unfolding : Nat}
  {tree : TypeTree ν} {position copy copied ref : Ref} {patterns : List Pattern}
  {nodes others inner : List Ref}

/-- A reference names a type without variables that has the shape of a tree. -/
abbrev ShowsPlain (graph : TypeGraph) (tree : TypeTree ν) (ref : Ref) : Prop :=
  graph.Shows (fun _ _ => False) tree ref

abbrev ShowsPlainAll (graph : TypeGraph) (entries : TypeEntries ν)
    (found : List (String × Ref)) : Prop :=
  graph.ShowsAll (fun _ _ => False) entries found

theorem Shows.exists_form (shows : graph.ShowsPlain tree ref) :
    ∃ form : Form, graph.node ref = .ok { form := form } ∧ form.isPosition = false ∧
      form.kind = tree.kind ∧ tree.kind ≠ .var := by
  cases tree with
  | var => exact shows.1.elim
  | primitive own => exact ⟨.primitive own, shows, rfl, rfl, nofun⟩
  | function =>
      rcases shows with ⟨first, second, found, _⟩
      exact ⟨.function first second, found, rfl, rfl, nofun⟩
  | list =>
      rcases shows with ⟨element, found, _⟩
      exact ⟨.list element, found, rfl, rfl, nofun⟩
  | row kind isOpen =>
      rcases shows with ⟨row, found, _⟩
      refine ⟨.row kind row _, found, rfl, rfl, ?_⟩
      cases kind <;> exact nofun

/-! ## Positions -/

/-- What has happened at a position where some patterns have been matched, with its nodes.
What has happened to the copy of the type is a parameter. -/
inductive At (original : TypeGraph) (unfolding : Nat) (graph : TypeGraph)
    (tree : TypeTree ν) (opened : Ref → List Pattern → List Ref → Prop) (position : Ref) :
    List Pattern → List Ref → Prop where
  | waiting {copied : Ref} (shows : original.ShowsPlain tree copied)
      (found : graph.node position = .ok { form := .var (some ⟨copied, unfolding⟩) }) :
      At original unfolding graph tree opened position [] [position]
  | covered {node : Node} {pattern : Pattern} {patterns : List Pattern} {nodes : List Ref}
      (found : graph.node position = .ok node) (any : node.marks.any = true)
      (own : position ∈ nodes)
      (listed : pattern ∈ patterns) (irrefutable : pattern.isIrrefutable = true) :
      At original unfolding graph tree opened position patterns nodes
  | expanded {copy : Ref} {patterns : List Pattern} {inner : List Ref}
      (found : graph.node position = .ok { form := .var none, link := some copy })
      (inside : opened copy patterns inner) :
      At original unfolding graph tree opened position patterns
      (position :: copy :: inner)

/-- The copy of a type of which no pattern matches a part: it has been expanded, and that
is all. -/
def Whole (graph : TypeGraph) (kind : Kind) (copy : Ref) (patterns : List Pattern)
    (inner : List Ref) : Prop :=
  patterns = [] ∧ inner = [] ∧ ∃ form, graph.node copy = .ok { form := form } ∧
    form.kind = kind

mutual

def Opened (original : TypeGraph) (unfolding : Nat) (graph : TypeGraph) :
    TypeTree ν → Ref → List Pattern → List Ref → Prop
  | .var _, _, _, _ => False
  | .primitive own, copy, patterns, inner =>
      inner = [] ∧
        graph.node copy =
          .ok { form := .primitive own, marks := { partly := !patterns.isEmpty } } ∧
        ∀ pattern ∈ patterns, pattern.IsLiteralOf own
  | .row .variant _ entries, copy, patterns, inner =>
      ∃ (row : Row) (matched : List String) (collecting : Bool),
        graph.node copy = .ok (.tested row matched collecting) ∧
        (∀ pattern ∈ patterns, pattern.IsTagged) ∧
        (∀ tag, tag ∈ matched ↔ payloads tag patterns ≠ []) ∧
        OpenedAll original unfolding graph entries row.entries patterns inner
  | .function _ _, copy, patterns, inner => graph.Whole .function copy patterns inner
  | .list _, copy, patterns, inner => graph.Whole .list copy patterns inner
  | .row .struct _ _, copy, patterns, inner => graph.Whole .struct copy patterns inner

def OpenedAll (original : TypeGraph) (unfolding : Nat) (graph : TypeGraph) :
    TypeEntries ν → List (String × Ref) → List Pattern → List Ref → Prop
  | .nil, found, _, inner => found = [] ∧ inner = []
  | .cons label type rest, found, patterns, inner =>
      ∃ position others own more, found = (label, position) :: others ∧
        inner = own ++ more ∧
        At original unfolding graph type (Opened original unfolding graph type) position
          (payloads label patterns) own ∧
        OpenedAll original unfolding graph rest others patterns more

end

abbrev Marked (original : TypeGraph) (unfolding : Nat) (graph : TypeGraph)
    (tree : TypeTree ν) (position : Ref) (patterns : List Pattern) (nodes : List Ref) :
    Prop :=
  At original unfolding graph tree (Opened original unfolding graph tree)
    position patterns nodes

/-! ## Nodes of positions -/

theorem At.own {opened : Ref → List Pattern → List Ref → Prop}
    (marked : At original unfolding graph tree opened position patterns nodes) :
    position ∈ nodes := by
  cases marked with
  | waiting => exact List.mem_singleton_self _
  | covered _ _ own => exact own
  | expanded => exact List.mem_cons_self

theorem At.frame {opened reopened : Ref → List Pattern → List Ref → Prop}
    (marked : At original unfolding graph tree opened position patterns nodes)
    (same : ∀ ref ∈ nodes, later.node ref = graph.node ref)
    (inside : ∀ copy inner, nodes = position :: copy :: inner →
      opened copy patterns inner →
      reopened copy patterns inner) :
    At original unfolding later tree reopened position patterns nodes := by
  have own := same position marked.own
  cases marked with
  | waiting shows found => exact .waiting shows (own.trans found)
  | covered found any mine listed irrefutable =>
      exact .covered (own.trans found) any mine listed irrefutable
  | expanded found opens => exact .expanded (own.trans found) (inside _ _ rfl opens)

mutual

theorem Opened.frame (tree : TypeTree ν) {copy : Ref} {patterns : List Pattern}
    {inner : List Ref} (opened : Opened original unfolding graph tree copy patterns inner)
    (own : later.node copy = graph.node copy)
    (same : ∀ ref ∈ inner, later.node ref = graph.node ref) :
    Opened original unfolding later tree copy patterns inner := by
  match tree with
  | .var _ => exact opened
  | .primitive _ =>
      rcases opened with ⟨isNil, found, literals⟩
      exact ⟨isNil, own.trans found, literals⟩
  | .row .variant _ entries =>
      rcases opened with ⟨row, matched, collecting, found, tagged, tested, all⟩
      exact ⟨row, matched, collecting, own.trans found, tagged, tested,
        all.frame entries same⟩
  | .function _ _ | .list _ | .row .struct _ _ =>
      rcases opened with ⟨unmatched, isNil, form, found, isKind⟩
      exact ⟨unmatched, isNil, form, own.trans found, isKind⟩

theorem OpenedAll.frame (entries : TypeEntries ν) {found : List (String × Ref)}
    {patterns : List Pattern} {inner : List Ref}
    (opened : OpenedAll original unfolding graph entries found patterns inner)
    (same : ∀ ref ∈ inner, later.node ref = graph.node ref) :
    OpenedAll original unfolding later entries found patterns inner := by
  match entries with
  | .nil => exact opened
  | .cons label type rest =>
      rcases opened with ⟨position, others, own, more, isFound, rfl, marked, all⟩
      have sameOwn : ∀ ref ∈ own, later.node ref = graph.node ref :=
        fun ref member => same ref (List.mem_append_left _ member)
      refine ⟨position, others, own, more, isFound, rfl, marked.frame sameOwn ?_,
        all.frame rest ?_⟩
      · rintro copy inside rfl opens
        exact opens.frame type (sameOwn copy (by simp)) fun ref member =>
          sameOwn ref (by simp [member])
      · exact fun ref member => same ref (List.mem_append_right _ member)

end

theorem Opened.exists_node
    (opened : Opened original unfolding graph tree copy patterns inner) :
    ∃ node, graph.node copy = .ok node ∧ node.link = none ∧ node.form.kind = tree.kind ∧
      tree.kind ≠ .var := by
  match tree with
  | .var _ => exact opened.elim
  | .primitive _ => exact ⟨_, opened.2.1, rfl, rfl, nofun⟩
  | .row .variant _ _ =>
      rcases opened with ⟨row, matched, collecting, found, _⟩
      exact ⟨_, found, rfl, rfl, nofun⟩
  | .function _ _ | .list _ | .row .struct _ _ =>
      rcases opened with ⟨_, _, form, found, isKind⟩
      exact ⟨_, found, rfl, isKind, nofun⟩

theorem isPosition_of_kind {form : Form} (notVar : form.kind ≠ .var) :
    form.isPosition = false := by
  cases form with
  | var => exact absurd rfl notVar
  | _ => rfl

theorem OpenedAll.labels {entries : TypeEntries ν} {found : List (String × Ref)}
    {patterns : List Pattern} {inner : List Ref}
    (opened : OpenedAll original unfolding graph entries found patterns inner) :
    found.map Prod.fst = entries.labels := by
  match entries with
  | .nil => rw [opened.1, TypeEntries.labels, List.map_nil]
  | .cons label type rest =>
      rcases opened with ⟨position, others, _, _, rfl, _, _, all⟩
      rw [TypeEntries.labels, List.map_cons, all.labels]

theorem Marked.frame
    (marked : Marked original unfolding graph tree position patterns nodes)
    (same : ∀ ref ∈ nodes, later.node ref = graph.node ref) :
    Marked original unfolding later tree position patterns nodes := by
  refine At.frame marked same ?_
  rintro copy inside rfl opens
  exact opens.frame tree (same copy (by simp)) fun ref member =>
    same ref (by simp [member])

/-! ## Work at a position -/

def copiesOf (graph : TypeGraph) (unfolding : Nat) : List (Ref × List Ref) :=
  (graph.unfoldings[unfolding]?.getD default).copies

structure Owned (base : Nat) (graph : TypeGraph) (nodes : List Ref) : Prop where
  distinct : nodes.Nodup
  within : ∀ ref ∈ nodes, base < ref.number ∧ graph.Has ref

/-- Work on some nodes of the copy that leaves others in their place. Those that were not
there before are new, and no position copies a type variable. -/
structure Replaces (base unfolding : Nat) (nodes others : List Ref)
    (graph later : TypeGraph) : Prop where
  grown : graph.size ≤ later.size
  kept : ∀ ref, graph.Has ref → ref ∉ nodes → later.node ref = graph.node ref
  copies : later.copiesOf unfolding = graph.copiesOf unfolding
  owned : Owned base later others
  new : ∀ ref ∈ others, ref ∈ nodes ∨ graph.size < ref.number

theorem Owned.sublist {base : Nat} (owned : Owned base graph nodes)
    (less : others.Sublist nodes) :
    Owned base graph others :=
  ⟨owned.distinct.sublist less, fun ref member => owned.within ref (less.subset member)⟩

namespace Replaces

variable {base : Nat} {last : List Ref}

theorem refl (owned : Owned base graph nodes) :
    Replaces base unfolding nodes nodes graph graph :=
  ⟨Nat.le_refl _, fun _ _ _ => rfl, rfl, owned, fun _ member => .inl member⟩

theorem trans (first : Replaces base unfolding nodes others graph middle)
    (second : Replaces base unfolding others last middle later) :
    Replaces base unfolding nodes last graph later where
  grown := first.grown.trans second.grown
  kept ref has outside := by
    rw [second.kept ref (has.mono first.grown) fun member =>
      ?_, first.kept ref has outside]
    rcases first.new ref member with inside | new
    · exact outside inside
    · have small := has.2
      omega
  copies := second.copies.trans first.copies
  owned := second.owned
  new ref member := by
    rcases second.new ref member with inside | new
    · exact first.new ref inside
    · have grown := first.grown
      exact .inr (by omega)

theorem sublist (replaces : Replaces base unfolding nodes others graph later)
    (less : last.Sublist others) :
    Replaces base unfolding nodes last graph later :=
  { replaces with
    owned := replaces.owned.sublist less
    new := fun ref member => replaces.new ref (less.subset member) }

theorem keeps (replaces : Replaces base unfolding nodes others graph later)
    (beside : List Ref) (owned : Owned base graph (beside ++ nodes)) :
    ∀ ref ∈ beside, later.node ref = graph.node ref := by
  intro ref member
  refine replaces.kept ref (owned.within ref (List.mem_append_left _ member)).2
    fun inside => ?_
  exact (List.nodup_append.1 owned.distinct).2.2 ref member ref inside rfl

theorem append_left (replaces : Replaces base unfolding nodes others graph later)
    (beside : List Ref) (owned : Owned base graph (beside ++ nodes)) :
    Replaces base unfolding (beside ++ nodes) (beside ++ others) graph later := by
  rcases List.nodup_append.1 owned.distinct with ⟨besideDistinct, _, apart⟩
  have besideOwned : Owned base graph beside :=
    owned.sublist (List.sublist_append_left _ _)
  constructor
  · exact replaces.grown
  · exact fun ref has outside => replaces.kept ref has fun inside =>
      outside (List.mem_append_right _ inside)
  · exact replaces.copies
  · constructor
    · refine List.nodup_append.2 ⟨besideDistinct, replaces.owned.distinct, ?_⟩
      rintro ref member _ inside rfl
      rcases replaces.new ref inside with old | new
      · exact apart ref member ref old rfl
      · have small := (besideOwned.within ref member).2.2
        omega
    · intro ref member
      rcases List.mem_append.1 member with old | inside
      · exact ⟨(besideOwned.within ref old).1,
          (besideOwned.within ref old).2.mono replaces.grown⟩
      · exact replaces.owned.within ref inside
  · intro ref member
    rcases List.mem_append.1 member with old | inside
    · exact .inl (List.mem_append_left _ old)
    · exact (replaces.new ref inside).imp_left (List.mem_append_right _)

theorem perm {again : List Ref}
    (replaces : Replaces base unfolding nodes others graph later)
    (before : nodes.Perm again) (after : others.Perm last) :
    Replaces base unfolding again last graph later where
  grown := replaces.grown
  kept ref has outside := replaces.kept ref has fun inside =>
    outside (before.mem_iff.1 inside)
  copies := replaces.copies
  owned := ⟨after.nodup_iff.1 replaces.owned.distinct,
    fun ref member => replaces.owned.within ref (after.mem_iff.2 member)⟩
  new ref member := (replaces.new ref (after.mem_iff.2 member)).imp_left before.mem_iff.1

theorem append_right (replaces : Replaces base unfolding nodes others graph later)
    (beside : List Ref) (owned : Owned base graph (nodes ++ beside)) :
    Replaces base unfolding (nodes ++ beside) (others ++ beside) graph later := by
  have swapped : Owned base graph (beside ++ nodes) :=
    ⟨List.perm_append_comm.nodup_iff.1 owned.distinct,
      fun ref member => owned.within ref (List.perm_append_comm.mem_iff.1 member)⟩
  exact (replaces.append_left beside swapped).perm List.perm_append_comm
    List.perm_append_comm

theorem of_allocate (node : Node) (small : base ≤ graph.size) :
    Replaces base unfolding [] [(graph.allocate node).1] graph
      (graph.allocate node).2 where
  grown := by
    rw [size_allocate]
    exact Nat.le_succ _
  kept ref has _ := by
    rcases has_iff.1 has with ⟨own, found⟩
    rw [node_allocate_of_ok found, found]
  copies := rfl
  owned := by
    refine ⟨List.nodup_singleton _, fun ref member => ?_⟩
    rw [List.mem_singleton.1 member]
    refine ⟨?_, graph.has_allocate node⟩
    change (base : Int) < graph.size + 1
    omega
  new ref member := by
    rw [List.mem_singleton.1 member]
    exact .inr (by change (graph.size : Int) < graph.size + 1; omega)

theorem of_alters {before after : Node} (alters : graph.Alters later ref before after)
    (member : ref ∈ nodes) (owned : Owned base graph nodes) :
    Replaces base unfolding nodes nodes graph later where
  grown := alters.size.ge
  kept other has outside := alters.others other fun same => outside (same ▸ member)
  copies := by rw [copiesOf, copiesOf, alters.unfoldings]
  owned := ⟨owned.distinct, fun own listed =>
    ⟨(owned.within own listed).1, (owned.within own listed).2.mono alters.size.ge⟩⟩
  new _ listed := .inl listed

end Replaces

def Frozen (original graph : TypeGraph) : Prop :=
  ∀ ref node, original.node ref = .ok node → graph.node ref = .ok node

theorem Replaces.frozen
    (replaces : Replaces original.size unfolding nodes others graph later)
    (owned : Owned original.size graph nodes) (frozen : Frozen original graph) :
    Frozen original later := by
  intro ref node found
  rw [replaces.kept ref (has_of_node (frozen ref node found)) fun member => ?_]
  · exact frozen ref node found
  · have small := (has_of_node found).2
    have large := (owned.within ref member).1
    omega

/-- The nodes of a position that has been reached in a graph by some patterns. -/
structure Tracks (original : TypeGraph) (unfolding : Nat) (graph : TypeGraph)
    (tree : TypeTree ν) (position : Ref) (patterns : List Pattern) (nodes : List Ref) :
    Prop where
  frozen : Frozen original graph
  owned : Owned original.size graph nodes
  marked : Marked original unfolding graph tree position patterns nodes

/-! ## The position under a tag -/

theorem OpenedAll.of_payloads {entries : TypeEntries ν} {found : List (String × Ref)}
    {patterns more : List Pattern} {inner : List Ref}
    (opened : OpenedAll original unfolding graph entries found patterns inner)
    (same : ∀ label ∈ entries.labels, payloads label more = payloads label patterns) :
    OpenedAll original unfolding graph entries found more inner := by
  match entries with
  | .nil => exact opened
  | .cons label type rest =>
      rcases opened with ⟨position, others, own, behind, isFound, isInner, marked, all⟩
      rw [← same label List.mem_cons_self] at marked
      exact ⟨position, others, own, behind, isFound, isInner, marked,
        all.of_payloads fun other member => same other (List.mem_cons_of_mem _ member)⟩

theorem payloads_add_of_ne {tag label : String} (different : tag ≠ label)
    (patterns : List Pattern) (payload : Pattern) :
    payloads label (patterns ++ [.variant tag payload]) = payloads label patterns := by
  rw [payloads_append, payloads_of_ne different, List.append_nil]

theorem OpenedAll.focus {base : Nat} {entries : TypeEntries ν}
    {found : List (String × Ref)} {patterns : List Pattern} {inner : List Ref}
    {tag : String} {position : Ref}
    (opened : OpenedAll original unfolding graph entries found patterns inner)
    (distinct : entries.labels.Nodup) (written : entries.IsWritten False)
    (owned : Owned base graph inner) (listed : Row.findEntry tag found = some position) :
    ∃ (type : TypeTree ν) (own : List Ref), type.IsWritten False ∧ Owned base graph own ∧
      Marked original unfolding graph type position (payloads tag patterns) own ∧
      ∀ later payload others, Replaces base unfolding own others graph later →
        Marked original unfolding later type position
          (payloads tag patterns ++ [payload]) others →
          ∃ made, Replaces base unfolding inner made graph later ∧
            OpenedAll original unfolding later entries found
              (patterns ++ [.variant tag payload]) made := by
  match entries with
  | .nil =>
      rw [opened.1] at listed
      cases listed
  | .cons label type rest =>
      rcases opened with ⟨first, others, own, behind, rfl, rfl, marked, all⟩
      rcases List.nodup_cons.1 distinct with ⟨fresh, restDistinct⟩
      rw [Row.findEntry] at listed
      split at listed
      next same =>
          subst same
          cases listed
          refine ⟨type, own, written.1,
            owned.sublist (List.sublist_append_left _ _), marked, ?_⟩
          intro later payload made replaces markedLater
          have behindKept : ∀ ref ∈ behind, later.node ref = graph.node ref := by
            intro ref member
            refine replaces.kept ref (owned.within ref (List.mem_append_right _ member)).2
              fun inside => ?_
            exact (List.nodup_append.1 owned.distinct).2.2 ref inside ref member rfl
          rw [← payloads_same label payload, ← payloads_append] at markedLater
          refine ⟨made ++ behind, replaces.append_right behind owned, position, others,
            made, behind, rfl, rfl, markedLater,
            (all.frame rest behindKept).of_payloads fun other member => ?_⟩
          have different : label ≠ other := fun same => fresh (same ▸ member)
          exact payloads_add_of_ne different patterns payload
      next different =>
          rcases all.focus restDistinct written.2
            (owned.sublist (List.sublist_append_right _ _)) listed with
            ⟨inside, nodes, insideWritten, nodesOwned, insideMarked, continues⟩
          refine ⟨inside, nodes, insideWritten, nodesOwned, insideMarked, ?_⟩
          intro later payload made replaces markedLater
          rcases continues later payload made replaces markedLater with
            ⟨last, replacesBehind, restOpened⟩
          have head := Marked.frame marked (replacesBehind.keeps own owned)
          rw [← payloads_add_of_ne (Ne.symm different) patterns payload] at head
          exact ⟨own ++ last, replacesBehind.append_left own owned, first, others, own,
            last, rfl, rfl, head, restOpened⟩

end TypeGraph

/-! ## Expanding a position -/

namespace Build

open TypeGraph

variable {ν : Type} {original graph : TypeGraph} {unfolding : Nat}
  {tree : TypeTree ν} {copied : Ref} {failed : Failure → TypeGraph → Prop}

theorem yields_newPosition_plain (frozen : Frozen original graph)
    (small : original.size ≤ graph.size) (shows : original.ShowsPlain tree copied) :
    (newPosition unfolding copied).Yields graph (fun position later =>
      Replaces original.size unfolding [] [position] graph later ∧
        later.node position = .ok { form := .var (some ⟨copied, unfolding⟩) })
          failed := by
  rcases shows.exists_form with ⟨form, found, _, isKind, notVar⟩
  have rooted : graph.Rooted copied copied { form := form } :=
    .self (frozen _ _ found) rfl
  rw [← isKind] at notVar
  apply yields_look_bind rooted.deref
  apply yields_look_bind rooted.found
  apply yields_allocate_bind
  apply yields_modify_bind
  apply yields_pure
  have allocates : Replaces original.size unfolding [] _ graph _ :=
    .of_allocate { form := .var (some ⟨copied, unfolding⟩) } small
  refine ⟨⟨allocates.grown, ?_, ?_, ⟨allocates.owned.distinct, allocates.owned.within⟩,
    allocates.new⟩, ?_⟩
  · exact fun ref has outside =>
      (node_of_nodes rfl ref).trans (allocates.kept ref has outside)
  · change ((graph.unfoldings.modify unfolding _)[unfolding]?.getD default).copies = _
    rw [copiesOf, Array.getElem?_modify, if_pos rfl]
    cases graph.unfoldings[unfolding]? with
    | none => rfl
    | some own => exact if_neg notVar
  · exact (node_of_nodes rfl _).trans (graph.node_allocate_self _)

theorem yields_newPositions_plain {entries : TypeEntries ν}
    {found : List (String × Ref)} {known : Row} (frozen : Frozen original graph)
    (small : original.size ≤ graph.size) (shows : original.ShowsPlainAll entries found)
    (distinct : entries.labels.Nodup)
    (unknown : ∀ label ∈ entries.labels, known.get? label = none) :
    (newPositions unfolding known found).Yields graph (fun result later =>
      Replaces original.size unfolding [] (result.1.map Prod.snd) graph later ∧
        OpenedAll original unfolding later entries result.1 [] (result.1.map Prod.snd) ∧
        (∀ entry ∈ result.1, result.2.get? entry.1 = some entry.2) ∧
        ∀ label, label ∉ entries.labels → result.2.get? label =
          known.get? label) failed := by
  induction found generalizing graph entries known with
  | nil =>
      cases entries with
      | nil =>
          exact yields_pure
            ⟨.refl ⟨List.nodup_nil, nofun⟩, ⟨rfl, rfl⟩, nofun, fun _ _ => rfl⟩
      | cons =>
          rcases shows with ⟨_, _, impossible, _⟩
          cases impossible
  | cons entry found induction =>
      rcases entry with ⟨name, copied⟩
      cases entries with
      | nil => cases shows
      | cons label type rest =>
          rcases shows with ⟨_, _, isEntry, typeShows, restShows⟩
          cases isEntry
          rcases List.nodup_cons.1 distinct with ⟨fresh, restDistinct⟩
          unfold newPositions
          rw [unknown name List.mem_cons_self]
          apply (yields_newPosition_plain frozen small typeShows).bind
          rintro position first ⟨adds, waits⟩
          have stillUnknown : ∀ label ∈ rest.labels,
              (known.put name position).get? label = none := by
            intro label member
            have different : label ≠ name := fun same => fresh (same ▸ member)
            rw [Row.get?_put_of_ne known different]
            exact unknown label (List.mem_cons_of_mem _ member)
          apply (induction (adds.frozen ⟨List.nodup_nil, nofun⟩ frozen)
            (small.trans adds.grown) restShows restDistinct stillUnknown).bind
          rintro ⟨positions, all⟩ later ⟨addsMore, opened, listed, others⟩
          have stillWaits :=
            (addsMore.keeps [position] adds.owned position
              (List.mem_singleton_self _)).trans waits
          apply yields_pure
          refine ⟨adds.trans (addsMore.append_left [position] adds.owned), ?_, ?_,
            fun label outside => ?_⟩
          · exact ⟨position, positions, [position], _, rfl, rfl,
              .waiting typeShows stillWaits, opened⟩
          · refine List.forall_mem_cons.2 ⟨?_, listed⟩
            exact (others name fresh).trans (Row.get?_put_self known name position)
          · rw [TypeEntries.labels, List.mem_cons, not_or] at outside
            rw [others label outside.2, Row.get?_put_of_ne known outside.1]

theorem on_newPositions_known {found entries : List (String × Ref)} {known : Row}
    (labels : entries.map Prod.fst = found.map Prod.fst)
    (listed : ∀ entry ∈ entries, known.get? entry.1 = some entry.2) :
    (newPositions unfolding known found).on graph = (.ok (entries, known), graph) := by
  induction found generalizing entries with
  | nil =>
      cases List.map_eq_nil_iff.1 labels
      rfl
  | cons entry found induction =>
      cases entries with
      | nil => cases labels
      | cons first entries =>
          rcases List.cons.inj labels with ⟨same, rest⟩
          rcases List.forall_mem_cons.1 listed with ⟨firstListed, restListed⟩
          rcases entry with ⟨name, copied⟩
          rcases first with ⟨label, position⟩
          cases same
          unfold newPositions
          rw [firstListed]
          dsimp only
          rw [on_bind, induction rest restListed]
          rfl

theorem yields_copyForm_plain {form : Form} (frozen : Frozen original graph)
    (small : original.size ≤ graph.size) (written : tree.IsWritten False)
    (shows : original.ShowsPlain tree copied)
    (found : original.node copied = .ok { form := form }) :
    (copyForm unfolding form).Yields graph (fun made later => ∃ inner,
      Replaces original.size unfolding [] inner graph later ∧
        ∀ last copy, last.node copy = .ok { form := made } →
          (∀ ref ∈ inner, last.node ref = later.node ref) →
            Opened original unfolding last tree copy [] inner) failed := by
  have start : Owned original.size graph [] := ⟨List.nodup_nil, nofun⟩
  cases tree with
  | var => exact written.elim
  | primitive own =>
      cases shows.symm.trans found
      exact yields_pure ⟨[], .refl start, fun last copy isCopy _ => ⟨rfl, isCopy, nofun⟩⟩
  | function argument result =>
      rcases shows with ⟨first, second, isForm, ⟨_, argumentShows⟩, _, resultShows⟩
      cases isForm.symm.trans found
      apply (yields_newPosition_plain frozen small argumentShows).bind
      rintro position middle ⟨adds, _⟩
      apply (yields_newPosition_plain (adds.frozen start frozen) (small.trans adds.grown)
        resultShows).bind
      rintro other later ⟨addsMore, _⟩
      have all :=
        (adds.sublist (List.nil_sublist _)).trans (addsMore.sublist (List.nil_sublist _))
      exact yields_pure ⟨[], all, fun last copy isCopy _ => ⟨rfl, rfl, _, isCopy, rfl⟩⟩
  | list element =>
      rcases shows with ⟨inner, isForm, _, elementShows⟩
      cases isForm.symm.trans found
      apply (yields_newPosition_plain frozen small elementShows).bind
      rintro position later ⟨adds, _⟩
      exact yields_pure ⟨[], adds.sublist (List.nil_sublist _),
        fun last copy isCopy _ => ⟨rfl, rfl, _, isCopy, rfl⟩⟩
  | row kind isOpen entries =>
      rcases shows with ⟨row, isForm, _, entriesShow⟩
      cases isForm.symm.trans found
      rcases written with ⟨admits, _⟩
      apply (yields_newPositions_plain frozen small entriesShow admits.distinct
        fun _ _ => rfl).bind
      rintro ⟨positions, known⟩ later ⟨adds, opened, listed, _⟩
      have labels := opened.labels.trans entriesShow.labels
      cases kind with
      | struct =>
          have none := adds.sublist (List.nil_sublist _)
          cases isOpen with
          | true =>
              exact yields_pure ⟨[], none, fun last copy isCopy _ =>
                ⟨rfl, rfl, _, isCopy, rfl⟩⟩
          | false =>
              apply yields_bind_of_on (on_newPositions_known labels listed)
              exact yields_pure ⟨[], none, fun last copy isCopy _ =>
                ⟨rfl, rfl, _, isCopy, rfl⟩⟩
      | variant =>
          cases (admits.tags rfl).1
          apply yields_bind_of_on (on_newPositions_known labels listed)
          refine yields_pure ⟨_, adds, fun last copy isCopy same => ?_⟩
          refine ⟨⟨positions⟩, [], false, isCopy, nofun, fun tag =>
            ?_, opened.frame entries same⟩
          simp

/-- The copy is given its form, and the position is linked to it. -/
theorem yields_linkCopy_plain {position copy : Ref} {first : TypeGraph} {form : Form}
    {inner : List Ref} {before after : Node} (copyOutside : copy ∉ inner)
    (outside : position ∉ copy :: inner) (copyFound : graph.node copy = .ok before)
    (found : graph.node position = .ok after)
    (replaces : Replaces original.size unfolding [position] (position :: copy :: inner)
      first graph)
    (opens : ∀ later : TypeGraph, later.node copy = .ok { before with form := form } →
      (∀ ref ∈ inner, later.node ref = graph.node ref) →
        Opened original unfolding later tree copy [] inner) :
    (do
      update copy fun node => { node with form := form }
      update position fun node => { node with form := .var none, link := some copy } :
        Build Unit).Yields graph (fun _ later => ∃ copy inner,
      Replaces original.size unfolding [position] (position :: copy :: inner)
        first later ∧
        later.node position =
          .ok { after with form := .var none, link := some copy } ∧
        Opened original unfolding later tree copy [] inner) failed := by
  have apart : position ≠ copy := fun equal => outside (equal ▸ List.mem_cons_self)
  have copies := alters_update copyFound fun node => { node with form := form }
  have links := alters_update ((copies.others position apart).trans found) fun node =>
    { node with form := .var none, link := some copy }
  apply yields_update_bind (has_of_node copyFound)
  apply yields_update (has_of_node links.found)
  have afterCopy := replaces.trans (.of_alters copies (by simp) replaces.owned)
  refine ⟨copy, inner, afterCopy.trans (.of_alters links (by simp) afterCopy.owned),
    links.changed, ?_⟩
  apply opens
  · exact (links.others copy apart.symm).trans copies.changed
  · intro ref member
    rw [links.others ref, copies.others ref]
    · rintro rfl
      exact copyOutside member
    · rintro rfl
      exact outside (List.mem_cons_of_mem _ member)

/-- A position that has not been expanded gets a copy, whose parts are positions. -/
theorem yields_expand_waiting {position : Ref} (frozen : Frozen original graph)
    (owned : Owned original.size graph [position]) (written : tree.IsWritten False)
    (shows : original.ShowsPlain tree copied)
    (isNode : graph.node position = .ok { form := .var (some ⟨copied, unfolding⟩) }) :
    (expand position).Yields graph (fun _ later => ∃ copy inner,
      Replaces original.size unfolding [position] (position :: copy :: inner)
        graph later ∧
        later.node position = .ok { form := .var none, link := some copy } ∧
        Opened original unfolding later tree copy [] inner) failed := by
  rcases shows.exists_form with ⟨form, isForm, plain, isKind, notVar⟩
  rcases owned.within position (List.mem_singleton_self _) with ⟨high, has⟩
  have rooted : graph.Rooted position position _ := .self isNode rfl
  have copiedRooted : graph.Rooted copied copied { form := form } :=
    .self (frozen _ _ isForm) rfl
  have sizePositive : 0 < graph.size := by
    have positive := has.1
    have small := has.2
    omega
  have inner : (expandWithin graph.size copied).Yields graph
      (fun _ later => graph = later) failed := by
    rw [show graph.size = graph.size - 1 + 1 by omega, expandWithin]
    apply yields_look_bind copiedRooted.deref
    apply yields_look_bind copiedRooted.found
    split
    next again isPosition =>
        rw [show form = _ from isPosition] at plain
        cases plain
    next => exact yields_pure rfl
  apply yields_get_bind
  rw [expandWithin]
  apply yields_look_bind rooted.deref
  apply yields_look_bind rooted.found
  apply inner.bind
  rintro _ _ rfl
  apply yields_look_bind copiedRooted.root
  rw [if_neg (isKind ▸ notVar)]
  have small : original.size ≤ graph.size := by
    have inside := has.2
    omega
  have allocates : Replaces original.size unfolding [] _ graph _ :=
    .of_allocate { form := .var none } small
  have copyFound := graph.node_allocate_self { form := .var none }
  apply yields_allocate_bind
  generalize (graph.allocate { form := .var none }).1 = copy at *
  generalize (graph.allocate { form := .var none }).2 = first at *
  have start : Replaces original.size unfolding [position] [position, copy] graph first :=
    allocates.append_left [position] owned
  apply (yields_copyForm_plain (start.frozen owned frozen) (small.trans start.grown)
    written shows isForm).bind
  rintro made second ⟨inner, adds, opens⟩
  have whole := start.trans (adds.append_left [position, copy] start.owned)
  have kept := adds.keeps [position, copy] start.owned
  have copyStays := (kept copy (by simp)).trans copyFound
  have positionStays := (kept position (by simp)).trans
    ((allocates.keeps [position] owned position (by simp)).trans isNode)
  rcases List.nodup_cons.1 whole.owned.distinct with ⟨outside, distinct⟩
  exact yields_linkCopy_plain (List.nodup_cons.1 distinct).1 outside copyStays
    positionStays whole fun later => opens later copy

theorem yields_expand_plain {position : Ref} {patterns : List Pattern}
    {nodes : List Ref} {node : Node}
    (tracks : Tracks original unfolding graph tree position patterns nodes)
    (written : tree.IsWritten False) (found : graph.node position = .ok node)
    (uncovered : node.marks.any = false) :
    (expand position).Yields graph (fun _ later => ∃ copy inner,
      Replaces original.size unfolding nodes (position :: copy :: inner) graph later ∧
        later.node position = .ok { form := .var none, link := some copy } ∧
        Opened original unfolding later tree copy patterns inner) failed := by
  rcases tracks with ⟨frozen, owned, marked⟩
  cases marked with
  | covered isNode any =>
      cases isNode.symm.trans found
      cases uncovered.symm.trans any
  | @expanded copy _ inner isNode opened =>
      rcases opened.exists_node with ⟨own, isCopy, unlinked, isKind, notVar⟩
      have rooted : graph.Rooted position copy own :=
        (Rooted.self isCopy unlinked).to_leads (.link ⟨_, isNode, rfl⟩ (.refl _))
      have ran := on_expand_of_rooted rooted (isPosition_of_kind (isKind ▸ notVar))
      unfold Yields
      rw [ran]
      exact ⟨copy, inner, .refl owned, isNode, opened⟩
  | waiting shows isNode =>
      exact yields_expand_waiting frozen owned written shows isNode

end Build

end Casework
