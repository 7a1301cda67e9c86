import Casework.Proofs.Lexemes
import Casework.Proofs.Links
import Casework.Proofs.Rows

/-!
Types as trees.

A type that has been written down contains no cycle, so it is a tree, with names for its
variables. A graph shows the tree under a reference: kinds, labels and their order, and
what is open are read off the nodes, and parts have been built before the whole.
-/

namespace Casework

mutual

/-- A type as it is written, over names of some kind for its variables. -/
inductive TypeTree (ν : Type) where
  | var (name : ν)
  | primitive (primitive : Primitive)
  | function (argument result : TypeTree ν)
  | list (element : TypeTree ν)
  | row (kind : RowKind) (isOpen : Bool) (entries : TypeEntries ν)

inductive TypeEntries (ν : Type) where
  | nil
  | cons (label : String) (type : TypeTree ν) (rest : TypeEntries ν)

end

variable {ν : Type}

def TypeEntries.labels : TypeEntries ν → List String
  | .nil => []
  | .cons label _ rest => label :: rest.labels

mutual

def TypeTree.names : TypeTree ν → List ν
  | .var name => [name]
  | .primitive _ => []
  | .function argument result => argument.names ++ result.names
  | .list element => element.names
  | .row _ _ entries => entries.names

def TypeEntries.names : TypeEntries ν → List ν
  | .nil => []
  | .cons _ type rest => type.names ++ rest.names

end

/-! ## What can be written -/

structure RowKind.Admits (kind : RowKind) (isOpen : Bool) (labels : List String) :
    Prop where
  distinct : labels.Nodup
  scanned : ∀ label ∈ labels, (Lexeme.name label).IsScanned
  nonempty : kind = .variant ∨ isOpen = true → labels ≠ []
  tags : kind = .variant → isOpen = false ∧ ∀ label ∈ labels, isTagName label = true

mutual

/-- A type can be written without an open variant, and with variables only if there may be
some. -/
def TypeTree.IsWritten (generic : Prop) : TypeTree ν → Prop
  | .var _ => generic
  | .primitive _ => True
  | .function argument result => argument.IsWritten generic ∧ result.IsWritten generic
  | .list element => element.IsWritten generic
  | .row kind isOpen entries => kind.Admits isOpen entries.labels ∧
      entries.IsWritten generic

def TypeEntries.IsWritten (generic : Prop) : TypeEntries ν → Prop
  | .nil => True
  | .cons _ type rest => type.IsWritten generic ∧ rest.IsWritten generic

end

/-! ## Trees in a graph -/

namespace TypeGraph

variable {graph later : TypeGraph} {place other : ν → Ref → Prop}

mutual

def Shows (graph : TypeGraph) (place : ν → Ref → Prop) : TypeTree ν → Ref → Prop
  | .var name, ref => place name ref ∧ graph.node ref = .ok { form := .var none }
  | .primitive primitive, ref => graph.node ref = .ok { form := .primitive primitive }
  | .function argument result, ref =>
      ∃ first second, graph.node ref = .ok { form := .function first second } ∧
        (first.number < ref.number ∧ graph.Shows place argument first) ∧
        (second.number < ref.number ∧ graph.Shows place result second)
  | .list element, ref =>
      ∃ inner, graph.node ref = .ok { form := .list inner } ∧
        inner.number < ref.number ∧ graph.Shows place element inner
  | .row kind isOpen entries, ref =>
      ∃ row : Row, graph.node ref =
        .ok { form := .row kind row (if isOpen then none else some row) } ∧
        (∀ part ∈ row.refs, part.number < ref.number) ∧
          graph.ShowsAll place entries row.entries

def ShowsAll (graph : TypeGraph) (place : ν → Ref → Prop) :
    TypeEntries ν → List (String × Ref) → Prop
  | .nil, found => found = []
  | .cons label type rest, found =>
      ∃ ref others, found = (label, ref) :: others ∧ graph.Shows place type ref ∧
        graph.ShowsAll place rest others

end

theorem Shows.has {tree : TypeTree ν} {ref : Ref} (shows : graph.Shows place tree ref) :
    graph.Has ref := by
  cases tree with
  | var => exact has_of_node shows.2
  | primitive => exact has_of_node shows
  | function =>
      rcases shows with ⟨_, _, found, _⟩
      exact has_of_node found
  | list =>
      rcases shows with ⟨_, found, _⟩
      exact has_of_node found
  | row =>
      rcases shows with ⟨_, found, _⟩
      exact has_of_node found

theorem ShowsAll.labels {entries : TypeEntries ν} {found : List (String × Ref)}
    (shows : graph.ShowsAll place entries found) :
    entries.labels = found.map Prod.fst := by
  match entries with
  | .nil =>
      cases shows
      rfl
  | .cons label type rest =>
      rcases shows with ⟨ref, others, rfl, _, restShows⟩
      rw [TypeEntries.labels, restShows.labels, List.map_cons]

mutual

theorem Shows.mono {tree : TypeTree ν} {ref : Ref} (shows : graph.Shows place tree ref)
    (nodes : ∀ ref node, graph.node ref = .ok node → later.node ref = .ok node)
    (places : ∀ name ∈ tree.names, ∀ ref, place name ref → other name ref) :
    later.Shows other tree ref := by
  match tree with
  | .var name => exact ⟨places name List.mem_cons_self ref shows.1, nodes _ _ shows.2⟩
  | .primitive primitive => exact nodes _ _ shows
  | .function argument result =>
      rcases shows with
        ⟨first, second, found, ⟨firstBefore, argumentShows⟩, secondBefore, resultShows⟩
      exact ⟨first, second, nodes _ _ found,
        ⟨firstBefore, argumentShows.mono nodes fun name member =>
          places name (List.mem_append_left _ member)⟩,
        secondBefore, resultShows.mono nodes fun name member =>
          places name (List.mem_append_right _ member)⟩
  | .list element =>
      rcases shows with ⟨inner, found, before, elementShows⟩
      exact ⟨inner, nodes _ _ found, before, elementShows.mono nodes places⟩
  | .row kind isOpen entries =>
      rcases shows with ⟨row, found, before, entriesShow⟩
      exact ⟨row, nodes _ _ found, before, entriesShow.mono nodes places⟩

theorem ShowsAll.mono {entries : TypeEntries ν} {found : List (String × Ref)}
    (shows : graph.ShowsAll place entries found)
    (nodes : ∀ ref node, graph.node ref = .ok node → later.node ref = .ok node)
    (places : ∀ name ∈ entries.names, ∀ ref, place name ref → other name ref) :
    later.ShowsAll other entries found := by
  match entries with
  | .nil => exact shows
  | .cons label type rest =>
      rcases shows with ⟨ref, others, rfl, typeShows, restShows⟩
      exact ⟨ref, others, rfl,
        typeShows.mono nodes fun name member =>
        places name (List.mem_append_left _ member),
        restShows.mono nodes fun name member =>
        places name (List.mem_append_right _ member)⟩

end

theorem ShowsAll.has {entries : TypeEntries ν} {found : List (String × Ref)}
    (shows : graph.ShowsAll place entries found) :
    ∀ ref ∈ found.map Prod.snd, graph.Has ref := by
  match entries with
  | .nil =>
      cases shows
      exact nofun
  | .cons label type rest =>
      rcases shows with ⟨ref, others, rfl, typeShows, restShows⟩
      exact List.forall_mem_cons.2 ⟨typeShows.has, restShows.has⟩

theorem exists_showsAll {generic : Prop} {found : List (String × Ref)}
    (each : ∀ entry ∈ found, ∃ tree : TypeTree ν, tree.IsWritten generic ∧
      graph.Shows place tree entry.2) :
    ∃ entries : TypeEntries ν, entries.IsWritten generic ∧
      graph.ShowsAll place entries found := by
  induction found with
  | nil => exact ⟨.nil, trivial, rfl⟩
  | cons entry found induction =>
      rcases each entry List.mem_cons_self with ⟨tree, written, shows⟩
      rcases induction fun own member => each own (List.mem_cons_of_mem _ member) with
        ⟨entries, allWritten, showsAll⟩
      exact ⟨.cons entry.1 tree entries, ⟨written, allWritten⟩, entry.2, found, rfl,
        shows, showsAll⟩

/-! ## Trees on top of trees -/

theorem Has.before {ref : Ref} (has : graph.Has ref) (node : Node) :
    ref.number < (graph.allocate node).1.number := by
  have small := has.2
  change ref.number < (graph.size : Int) + 1
  omega

theorem Shows.allocate {tree : TypeTree ν} {ref : Ref}
    (shows : graph.Shows place tree ref) (node : Node) :
    (graph.allocate node).2.Shows place tree ref :=
  shows.mono (fun _ _ found => node_allocate_of_ok found node) fun _ _ _ placed => placed

theorem shows_allocate_function {left right : TypeTree ν} {argument result : Ref}
    (argumentShows : graph.Shows place left argument)
    (resultShows : graph.Shows place right result) :
    (graph.allocate { form := .function argument result }).2.Shows place
      (.function left right)
      (graph.allocate { form := .function argument result }).1 :=
  ⟨argument, result, node_allocate_self _ _,
    ⟨argumentShows.has.before _, argumentShows.allocate _⟩,
    resultShows.has.before _, resultShows.allocate _⟩

theorem shows_allocate_list {tree : TypeTree ν} {element : Ref}
    (shows : graph.Shows place tree element) :
    (graph.allocate { form := .list element }).2.Shows place (.list tree)
      (graph.allocate { form := .list element }).1 :=
  ⟨element, node_allocate_self _ _, shows.has.before _, shows.allocate _⟩

theorem shows_allocate_row {kind : RowKind} {isOpen : Bool}
    {entries : TypeEntries ν} {row : Row}
    (shows : graph.ShowsAll place entries row.entries) :
    (graph.allocate { form := .row kind row (if isOpen then none else some row) }).2.Shows
      place
      (.row kind isOpen entries)
      (graph.allocate { form := .row kind row (if isOpen then none else some row) }).1 :=
  ⟨row, node_allocate_self _ _, fun part member => (shows.has part member).before _,
    shows.mono (fun _ _ found => node_allocate_of_ok found _) fun _ _ _ placed => placed⟩

end TypeGraph

end Casework
