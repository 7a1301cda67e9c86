import Casework.Proofs.Acceptance
import Casework.Proofs.TypeParsing
import Casework.Proofs.TypeTrees

/-!
Whatever is parsed as a type is a tree.

Parsing a type only adds nodes. Each rule builds its type on top of parts that have been
built before, and a variable that has a name is a node of its own, so the result is a tree
in the graph, made of labels that have been scanned.
-/

namespace Casework

/-! ## Rows -/

theorem Row.mem_foldl_put {entries : List (String × Ref)} {row : Row}
    {entry : String × Ref} (member :
      entry ∈ (entries.foldl (fun row (label, ref) => row.put label ref) row).entries) :
    entry ∈ row.entries ∨ entry ∈ entries := by
  induction entries generalizing row with
  | nil => exact .inl member
  | cons first rest induction =>
      rcases induction member with stored | further
      · rcases Row.mem_putEntry stored with old | rfl
        · exact .inl old
        · exact .inr List.mem_cons_self
      · exact .inr (List.mem_cons_of_mem _ further)

theorem Row.mem_ofList {entries : List (String × Ref)} {entry : String × Ref}
    (member : entry ∈ (Row.ofList entries).entries) : entry ∈ entries :=
  (Row.mem_foldl_put member).resolve_left List.not_mem_nil

theorem Row.foldl_put_ne_nil {entries : List (String × Ref)} {row : Row}
    (nonempty : row.entries ≠ []) :
    (entries.foldl (fun row (label, ref) => row.put label ref) row).entries ≠ [] := by
  induction entries generalizing row with
  | nil => exact nonempty
  | cons first rest induction =>
      apply induction
      rcases row with ⟨_ | ⟨⟨own, old⟩, others⟩⟩
      · exact absurd rfl nonempty
      · change Row.putEntry first.1 first.2 ((own, old) :: others) ≠ []
        rw [Row.putEntry]
        split <;> exact List.cons_ne_nil _ _

theorem Row.ofList_ne_nil {entries : List (String × Ref)} (nonempty : entries ≠ []) :
    (Row.ofList entries).entries ≠ [] := by
  cases entries with
  | nil => exact absurd rfl nonempty
  | cons first rest =>
      have stored : (Row.empty.put first.1 first.2).entries ≠ [] := List.cons_ne_nil _ _
      rw [Row.ofList, List.foldl_cons]
      exact Row.foldl_put_ne_nil stored

namespace TypeGraph

open Casework.Parser Stateful TypeParser

variable {graph middle later : TypeGraph} {state between after : Reading} {generic : Prop}
  {allowed : Token → Prop}

/-! ## Steps -/

def Reading.Names (state : Reading) (name : String) (ref : Ref) : Prop :=
  state.named.get? name = some ref

/-- A token of a type without an open variant, and without a variable unless there may be
some. -/
structure TypeToken (generic : Prop) (token : Token) : Prop where
  scanned : ∀ text, token.lexeme = .name text → (Lexeme.name text).IsScanned
  dotless : token.lexeme.isWord "..." = false
  plain : token.lexeme = .mark "'" → generic

/-- The tokens may be there, and different names stand for different variables. -/
structure Ready (allowed : Token → Prop) (state : Reading) (graph : TypeGraph) :
    Prop where
  tokens : ∀ token ∈ state.tokens, allowed token
  named : ∀ name ref, state.Names name ref → graph.node ref = .ok { form := .var none }
  apart : ∀ name other ref, state.Names name ref → state.Names other ref → name = other

structure Enlarges (allowed : Token → Prop) (state : Reading) (graph : TypeGraph)
    (after : Reading) (later : TypeGraph) : Prop where
  ready : Ready allowed after later
  nodes : ∀ ref node, graph.node ref = .ok node → later.node ref = .ok node
  named : ∀ name ref, state.Names name ref → after.Names name ref

theorem Ready.enlarges (ready : Ready allowed state graph) :
    Enlarges allowed state graph state graph :=
  ⟨ready, fun _ _ found => found, fun _ _ names => names⟩

theorem Ready.tail {token : Token} {rest : List Token} (ready : Ready allowed state graph)
    (same : state.tokens = token :: rest) :
    Ready allowed { state with tokens := rest } graph where
  tokens := fun own member => ready.tokens own (same ▸ List.mem_cons_of_mem token member)
  named := ready.named
  apart := ready.apart

theorem Ready.head {token : Token} {rest : List Token} (ready : Ready allowed state graph)
    (same : state.tokens = token :: rest) : allowed token :=
  ready.tokens token (same ▸ List.mem_cons_self)

theorem Ready.take {token : Token} {rest : List Token} (ready : Ready allowed state graph)
    (same : state.tokens = token :: rest) :
    Enlarges allowed state graph { state with tokens := rest } graph :=
  ⟨ready.tail same, fun _ _ found => found, fun _ _ names => names⟩

theorem Enlarges.trans (first : Enlarges allowed state graph between middle)
    (second : Enlarges allowed between middle after later) :
    Enlarges allowed state graph after later where
  ready := second.ready
  nodes := fun ref node found => second.nodes ref node (first.nodes ref node found)
  named := fun name ref names => second.named name ref (first.named name ref names)

theorem Ready.allocate (ready : Ready allowed state graph) (node : Node) :
    Enlarges allowed state graph state (graph.allocate node).2 where
  ready := ⟨ready.tokens, fun name ref names =>
    node_allocate_of_ok (ready.named name ref names) node, ready.apart⟩
  nodes := fun _ _ found => node_allocate_of_ok found node
  named := fun _ _ names => names

def IsTree (generic : Prop) (state : Reading) (graph : TypeGraph) (ref : Ref) : Prop :=
  ∃ tree, TypeTree.IsWritten generic tree ∧ graph.Shows state.Names tree ref

theorem IsTree.mono {ref : Ref} (isTree : IsTree generic state graph ref)
    (grows : Enlarges (TypeToken generic) state graph after later) :
    IsTree generic after later ref := by
  rcases isTree with ⟨tree, written, shows⟩
  exact ⟨tree, written, shows.mono grows.nodes fun name _ => grows.named name⟩

def AddsTree (generic : Prop) (state : Reading) (graph : TypeGraph) (ref : Ref)
    (after : Reading) (later : TypeGraph) : Prop :=
  Enlarges (TypeToken generic) state graph after later ∧ IsTree generic after later ref

theorem Enlarges.addsTree
    (grows : Enlarges (TypeToken generic) state graph between middle) :
    ∀ ref after later, AddsTree generic between middle ref after later →
      AddsTree generic state graph ref after later :=
  fun _ _ _ adds => ⟨grows.trans adds.1, adds.2⟩

namespace TypeParser

/-! ## Rules for parsers -/

def Trees (generic : Prop) (parser : TypeParser Ref) : Prop :=
  ∀ state graph, Ready (TypeToken generic) state graph →
    Yields parser state graph (AddsTree generic state graph) fun _ _ => True

section Rules

variable {α β : Type} {parser : Parser α} {done : α → List Token → Prop}
  {last : β → Reading → TypeGraph → Prop}

theorem yields_gives_bind {next : α → TypeParser β}
    (gives : parser.Gives state.tokens done) (second : ∀ value rest, done value rest →
      Yields (next value) { state with tokens := rest } graph last fun _ _ => True) :
    Yields (reading parser >>= next) state graph last fun _ _ => True := by
  have first : Yields (reading parser) state graph (fun value after later =>
      graph = later ∧ after = { state with tokens := after.tokens } ∧
        done value after.tokens)
      fun _ _ => True := by
    apply yields_get_bind
    unfold Gives at gives
    rcases ran : parser.run state.tokens with error | ⟨value, rest⟩ <;> rw [ran] at gives
    · exact trivial
    · exact And.intro rfl ⟨rfl, gives⟩
  apply first.bind
  rintro value after _ ⟨rfl, same, holds⟩
  rw [same]
  exact second value after.tokens holds

theorem yields_refused {token : Token} {cause : SyntaxCause}
    {last : α → Reading → TypeGraph → Prop} :
    Yields (reading (refuse token cause) : TypeParser α) state graph last
      fun _ _ => True :=
  trivial

theorem yields_taking_bind {next : Bool → TypeParser β} {text : String}
    (ready : Ready (TypeToken generic) state graph)
    (accepted : ∀ between, Enlarges (TypeToken generic) state graph between graph →
      (∃ token ∈ state.tokens, token.lexeme.isWord text = true) →
      Yields (next true) between graph last fun _ _ => True)
    (refused : Yields (next false) state graph last fun _ _ => True) :
    Yields (accept text >>= next) state graph last fun _ _ => True := by
  apply yields_gives_bind gives_accept
  intro isAccepted rest result
  cases isAccepted with
  | true =>
      rcases result with ⟨token, isWord, same⟩
      exact accepted _ (ready.take same) ⟨token, same ▸ List.mem_cons_self, isWord⟩
  | false =>
      cases result
      exact refused

theorem yields_expecting_bind {next : Unit → TypeParser β} {text : String}
    (ready : Ready (TypeToken generic) state graph)
    (rest : ∀ between, Enlarges (TypeToken generic) state graph between graph →
      Yields (next ()) between graph last fun _ _ => True) :
    Yields (expect text >>= next) state graph last fun _ _ => True := by
  have gives : (Parser.expect text).Gives state.tokens fun _ rest =>
      ∃ token, state.tokens = token :: rest := by
    apply gives_accept.bind
    intro isAccepted rest result
    cases isAccepted with
    | true =>
        rcases result with ⟨token, _, same⟩
        exact gives_pure ⟨token, same⟩
    | false => exact gives_peek.bind fun _ _ _ => gives_refuse
  apply yields_gives_bind gives
  rintro _ remaining ⟨token, same⟩
  exact rest _ (ready.take same)

theorem yields_naming_bind {next : Position × String → TypeParser β}
    {cause : Lexeme → SyntaxCause} (ready : Ready (TypeToken generic) state graph)
    (rest : ∀ place name between, Enlarges (TypeToken generic) state graph between graph →
      (Lexeme.name name).IsScanned → Yields (next (place, name)) between graph last
        fun _ _ => True) :
    Yields (reading (takeName cause) >>= next) state graph last fun _ _ => True := by
  apply yields_gives_bind gives_takeName
  rintro ⟨place, name⟩ remaining same
  exact rest place name _ (ready.take same) ((ready.head same).scanned name rfl)

end Rules

/-! ## Built types -/

variable {type : TypeParser Ref} {failed : Failure → TypeGraph → Prop}

theorem yields_primitive (ready : Ready (TypeToken generic) state graph)
    (primitive : Primitive) :
    Yields (liftM (Build.newPrimitive primitive) : TypeParser Ref) state graph
      (AddsTree generic state graph) fun _ _ => True :=
  ⟨ready.allocate _, .primitive primitive, trivial, node_allocate_self _ _⟩

theorem yields_function {argument result : Ref}
    (ready : Ready (TypeToken generic) state graph)
    (argumentTree : IsTree generic state graph argument)
    (resultTree : IsTree generic state graph result) :
    Yields (liftM (Build.newFunction argument result) : TypeParser Ref) state graph
      (AddsTree generic state graph) fun _ _ => True := by
  rcases argumentTree with ⟨left, leftWritten, leftShows⟩
  rcases resultTree with ⟨right, rightWritten, rightShows⟩
  exact And.intro (ready.allocate _)
    ⟨.function left right, ⟨leftWritten, rightWritten⟩,
      shows_allocate_function leftShows rightShows⟩

theorem yields_list {element : Ref} (ready : Ready (TypeToken generic) state graph)
    (elementTree : IsTree generic state graph element) :
    Yields (liftM (Build.newList element) : TypeParser Ref) state graph
      (AddsTree generic state graph) fun _ _ => True := by
  rcases elementTree with ⟨tree, written, shows⟩
  exact And.intro (ready.allocate _) ⟨.list tree, written, shows_allocate_list shows⟩

/-- The labels of some fields or tags, and the types under them. -/
structure AreEntries (generic : Prop) (state : Reading) (graph : TypeGraph)
    (entries : List (String × Ref)) : Prop where
  scanned : ∀ entry ∈ entries, (Lexeme.name entry.1).IsScanned
  trees : ∀ entry ∈ entries, IsTree generic state graph entry.2

theorem areEntries_nil : AreEntries generic state graph [] := ⟨nofun, nofun⟩

theorem AreEntries.cons {name : String} {ref : Ref} {entries : List (String × Ref)}
    (scanned : (Lexeme.name name).IsScanned) (isTree : IsTree generic state graph ref)
    (areEntries : AreEntries generic state graph entries) :
    AreEntries generic state graph ((name, ref) :: entries) :=
  ⟨List.forall_mem_cons.2 ⟨scanned, areEntries.scanned⟩,
    List.forall_mem_cons.2 ⟨isTree, areEntries.trees⟩⟩

theorem yields_newRow {ν : Type} {place : ν → Ref → Prop} {kind : RowKind} {isOpen : Bool}
    {typeEntries : TypeEntries ν} {entries : List (String × Ref)}
    (ready : Ready allowed state graph)
    (shows : graph.ShowsAll place typeEntries (Row.ofList entries).entries) :
    Yields (if isOpen then Build.newOpen kind entries else
      Build.newClosed kind entries : TypeParser Ref)
      state graph
        (fun ref after later => after = state ∧ Enlarges allowed state graph after later ∧
        later.Shows place (.row kind isOpen typeEntries) ref) failed := by
  let bound : Option Row := if isOpen then none else some (.ofList entries)
  have added (node : Node) (same : node = { form := .row kind (.ofList entries) bound }) :
      Yields (liftM (Build.allocate node) : TypeParser Ref) state graph
      (fun ref after later =>
        after = state ∧ Enlarges allowed state graph after later ∧
          later.Shows place (.row kind isOpen typeEntries) ref) failed := by
    subst same
    exact And.intro rfl ⟨ready.allocate _, shows_allocate_row shows⟩
  cases isOpen with
  | true => exact added _ rfl
  | false => exact added _ rfl

theorem yields_row {kind : RowKind} {isOpen : Bool} {entries : List (String × Ref)}
    (ready : Ready (TypeToken generic) state graph)
    (areEntries : AreEntries generic state graph entries)
    (nonempty : kind = .variant ∨ isOpen = true → entries ≠ [])
    (tags : kind = .variant → isOpen = false ∧ ∀ entry ∈ entries,
      isTagName entry.1 = true) :
    Yields (if isOpen then Build.newOpen kind entries else
      Build.newClosed kind entries : TypeParser Ref)
      state graph (AddsTree generic state graph) fun _ _ => True := by
  have labelled {label : String} (member : label ∈ (Row.ofList entries).labels) :
      ∃ entry ∈ entries, entry.1 = label := by
    rcases List.mem_map.1 member with ⟨entry, isEntry, rfl⟩
    exact ⟨entry, Row.mem_ofList isEntry, rfl⟩
  have admits : kind.Admits isOpen (Row.ofList entries).labels := by
    constructor
    · exact (Row.ofList_spec entries).1
    · intro label member
      rcases labelled member with ⟨entry, isEntry, rfl⟩
      exact areEntries.scanned entry isEntry
    · intro needed isEmpty
      exact Row.ofList_ne_nil (nonempty needed) (List.map_eq_nil_iff.1 isEmpty)
    · intro isVariant
      refine ⟨(tags isVariant).1, fun label member => ?_⟩
      rcases labelled member with ⟨entry, isEntry, rfl⟩
      exact (tags isVariant).2 entry isEntry
  have trees : ∀ entry ∈ (Row.ofList entries).entries,
      IsTree generic state graph entry.2 :=
    fun entry member => areEntries.trees entry (Row.mem_ofList member)
  rcases exists_showsAll trees with ⟨typeEntries, written, shows⟩
  have admitted : kind.Admits isOpen typeEntries.labels := shows.labels ▸ admits
  apply (yields_newRow ready shows).imp
  rintro ref after later ⟨rfl, enlarges, rowShows⟩
  exact ⟨enlarges, .row kind isOpen typeEntries, ⟨admitted, written⟩, rowShows⟩

/-! ## Type variables -/

theorem yields_variable (ready : Ready allowed state graph) (name : String) :
    Yields (typeVariable name) state graph (fun ref after later =>
      after.tokens = state.tokens ∧ Enlarges allowed state graph after later ∧
        after.Names name ref)
      failed := by
  apply yields_get_bind
  split
  next ref found => exact yields_pure ⟨rfl, ready.enlarges, found⟩
  next absent =>
      let node : Node := { form := .var none }
      let ref := (graph.allocate node).1
      let named : Reading := { state with named := state.named.put name ref }
      have isNew (own : String) (names : state.Names own ref) : False := by
        have small := (has_of_node (ready.named own ref names)).2
        change (graph.size : Int) + 1 ≤ graph.size at small
        omega
      have cases_of_names (own : String) (other : Ref) (names : named.Names own other) :
          own = name ∧ other = ref ∨ state.Names own other := by
        by_cases isName : own = name
        · subst isName
          have same : some ref = some other := (Row.get?_put_self _ _ _).symm.trans names
          cases same
          exact .inl ⟨rfl, rfl⟩
        · exact .inr ((Row.get?_put_of_ne _ isName _).symm.trans names)
      have enlarges : Enlarges allowed state graph named (graph.allocate node).2 := by
        refine ⟨⟨ready.tokens, ?_, ?_⟩, fun _ _ found =>
          node_allocate_of_ok found node, ?_⟩
        · intro own other names
          rcases cases_of_names own other names with ⟨_, rfl⟩ | old
          · exact node_allocate_self graph node
          · exact node_allocate_of_ok (ready.named own other old) node
        · intro left right other leftNames rightNames
          rcases cases_of_names left other leftNames with ⟨leftSame, isRef⟩ | leftOld <;>
            rcases cases_of_names right other rightNames with
              ⟨rightSame, isRefToo⟩ | rightOld
          · rw [leftSame, rightSame]
          · exact (isNew right (isRef ▸ rightOld)).elim
          · exact (isNew left (isRefToo ▸ leftOld)).elim
          · exact ready.apart left right other leftOld rightOld
        · intro own other names
          refine (Row.get?_put_of_ne _ ?_ _).trans names
          rintro rfl
          cases absent.symm.trans names
      exact And.intro rfl ⟨enlarges, Row.get?_put_self _ _ _⟩

/-! ## Repetitions -/

/-- Some fields have been added. One of them has a point before it only if there are
any. -/
def AddsFields (generic : Prop) (state : Reading) (graph : TypeGraph)
    (fields : List (String × Ref) × Bool) (after : Reading) (later : TypeGraph) : Prop :=
  Enlarges (TypeToken generic) state graph after later ∧
    AreEntries generic after later fields.1 ∧
    (fields.2 = true → fields.1 ≠ [])

theorem yields_fieldEntries (trees : Trees generic type) {fuel : Nat}
    (following : ∀ state graph, Ready (TypeToken generic) state graph →
      Yields (parseFields type fuel false) state graph (AddsFields generic state graph)
        fun _ _ => True)
    (ready : Ready (TypeToken generic) state graph) :
    Yields (do
      let pointed ← accept "."
      let (_, name) ← reading (takeName .expectedField)
      expect "is"
      let field ← type
      let (fields, someLaterPointed) ← parseFields type fuel false
      return ((name, field) :: fields, pointed || someLaterPointed)) state graph
      (AddsFields generic state graph) fun _ _ => True := by
  have named (pointed : Bool) (point : Reading)
      (pointGrows : Enlarges (TypeToken generic) state graph point graph) :
      Yields (do
        let (_, name) ← reading (takeName .expectedField)
        expect "is"
        let field ← type
        let (fields, someLaterPointed) ← parseFields type fuel false
        return ((name, field) :: fields, pointed || someLaterPointed)) point graph
        (AddsFields generic state graph) fun _ _ => True := by
    apply yields_naming_bind pointGrows.ready
    intro place name second nameGrows scanned
    apply yields_expecting_bind nameGrows.ready
    intro third wordGrows
    apply (trees third graph wordGrows.ready).bind
    rintro field fourth middle ⟨fieldGrows, fieldTree⟩
    apply (following fourth middle fieldGrows.ready).bind
    rintro ⟨fields, someLaterPointed⟩ after later ⟨restGrows, areEntries, _⟩
    have grows := ((pointGrows.trans nameGrows).trans wordGrows).trans
      (fieldGrows.trans restGrows)
    exact yields_pure
      ⟨grows, areEntries.cons scanned (fieldTree.mono restGrows), fun _ =>
        List.cons_ne_nil _ _⟩
  exact yields_taking_bind ready (fun point grows _ => named true point grows)
    (named false state ready.enlarges)

theorem yields_fields (trees : Trees generic type) (fuel : Nat) (first : Bool)
    (ready : Ready (TypeToken generic) state graph) :
    Yields (parseFields type fuel first) state graph (AddsFields generic state graph)
      fun _ _ => True := by
  induction fuel generalizing state graph first with
  | zero => exact trivial
  | succ fuel induction =>
      have field {comma : Reading} (ready : Ready (TypeToken generic) comma graph) :=
        yields_fieldEntries trees (fun _ _ => induction false) ready
      apply yields_taking_bind ready
      · exact fun between grows _ => yields_pure ⟨grows, areEntries_nil, nofun⟩
      · cases first with
        | true => exact field ready
        | false =>
            apply yields_expecting_bind ready
            intro comma grows
            exact (field grows.ready).imp fun _ _ _ done => ⟨grows.trans done.1, done.2⟩

theorem yields_tag (ready : Ready (TypeToken generic) state graph) :
    Yields takeTag state graph (fun tag after later =>
      graph = later ∧ Enlarges (TypeToken generic) state graph after graph ∧
        (Lexeme.name tag).IsScanned ∧ isTagName tag = true) fun _ _ => True := by
  apply yields_gives_bind gives_take
  rintro ⟨lexeme, position⟩ rest taken
  dsimp only
  split
  next name =>
      rcases taken with isFinish | same
      · cases isFinish
      split
      next isTag =>
          exact yields_pure
            ⟨rfl, ready.take same, (ready.head same).scanned name rfl, isTag⟩
      next => exact yields_refused
  next => exact yields_refused

/-! ## Rules -/

theorem trees_parseNamed (trees : Trees generic type) (token : Token) (name : String) :
    Trees generic (parseNamed type token name) := by
  intro state graph ready
  unfold parseNamed
  split
  · exact yields_primitive ready _
  · exact yields_primitive ready _
  · exact yields_primitive ready _
  · exact yields_primitive ready _
  · apply yields_expecting_bind ready
    intro opened openGrows
    apply (trees opened graph openGrows.ready).bind
    rintro element between middle ⟨elementGrows, elementTree⟩
    apply yields_expecting_bind elementGrows.ready
    intro closed closeGrows
    exact (yields_list closeGrows.ready (elementTree.mono closeGrows)).imp
      ((openGrows.trans elementGrows).trans closeGrows).addsTree
  · exact yields_refused

theorem trees_parseAtom (trees : Trees generic type) :
    Trees generic (parseAtom type) := by
  intro state graph ready
  apply yields_gives_bind gives_take
  rintro ⟨lexeme, position⟩ rest taken
  rcases taken with isFinish | same
  · dsimp only at isFinish
    rw [isFinish]
    exact yields_refused
  have head := ready.head same
  have takes := ready.take same
  dsimp only
  split
  · exact (trees_parseNamed trees _ _ _ graph takes.ready).imp takes.addsTree
  · apply yields_naming_bind takes.ready
    intro place name named nameGrows _
    apply (yields_variable nameGrows.ready name).imp
    rintro ref after later ⟨_, grows, names⟩
    exact ⟨(takes.trans nameGrows).trans grows, .var name, head.plain rfl, names,
      grows.ready.named name ref names⟩
  · apply yields_taking_bind takes.ready
    · intro closed closeGrows _
      exact (yields_primitive closeGrows.ready .unit).imp
        (takes.trans closeGrows).addsTree
    · apply (trees _ graph takes.ready).bind
      rintro inner between middle ⟨innerGrows, innerTree⟩
      apply yields_expecting_bind innerGrows.ready
      intro closed closeGrows
      exact yields_pure
        ⟨(takes.trans innerGrows).trans closeGrows, innerTree.mono closeGrows⟩
  · apply yields_get_bind
    apply (yields_fields trees _ true takes.ready).bind
    rintro ⟨fields, pointed⟩ between middle ⟨fieldsGrow, areEntries, nonempty⟩
    have struct : RowKind.struct = .variant ∨ pointed = true → fields ≠ [] :=
      fun needed => nonempty (needed.resolve_left nofun)
    exact (yields_row fieldsGrow.ready areEntries struct fun isVariant =>
      nomatch isVariant).imp
      (takes.trans fieldsGrow).addsTree
  · exact yields_refused

theorem yields_tags (trees : Trees generic type) (fuel : Nat)
    (ready : Ready (TypeToken generic) state graph) :
    Yields (parseTags type fuel) state graph (fun tags after later =>
      Enlarges (TypeToken generic) state graph after later ∧
        AreEntries generic after later tags.1 ∧
        tags.1 ≠ [] ∧ tags.2 = false ∧ ∀ entry ∈ tags.1, isTagName entry.1 = true)
          fun _ _ => True := by
  induction fuel generalizing state graph with
  | zero => exact trivial
  | succ fuel induction =>
      apply (yields_tag ready).bind
      rintro tag first _ ⟨rfl, tagGrows, scanned, isTag⟩
      apply (trees_parseAtom trees first graph tagGrows.ready).bind
      rintro payload second middle ⟨payloadGrows, payloadTree⟩
      have grows := tagGrows.trans payloadGrows
      apply yields_taking_bind grows.ready
      · intro third barGrows _
        apply yields_taking_bind barGrows.ready
        · rintro fourth _ ⟨token, member, isDots⟩
          rw [(barGrows.ready.tokens token member).dotless] at isDots
          cases isDots
        · apply (induction barGrows.ready).bind
          rintro ⟨tags, isOpen⟩ after later ⟨restGrows, areEntries, _, closed, areTags⟩
          exact yields_pure ⟨(grows.trans barGrows).trans restGrows,
            areEntries.cons scanned (payloadTree.mono (barGrows.trans restGrows)),
            List.cons_ne_nil _ _,
            closed, List.forall_mem_cons.2 ⟨isTag, areTags⟩⟩
      · exact yields_pure ⟨grows, areEntries_nil.cons scanned payloadTree,
          List.cons_ne_nil _ _, rfl, List.forall_mem_cons.2 ⟨isTag, nofun⟩⟩

theorem trees_parseAlternatives (trees : Trees generic type) :
    Trees generic (parseAlternatives type) := by
  intro state graph ready
  apply yields_gives_bind gives_peek
  rintro token _ ⟨rfl, _⟩
  split
  · apply yields_get_bind
    apply (yields_tags trees _ ready).bind
    rintro ⟨tags, isOpen⟩ between middle ⟨tagsGrow, areEntries, nonempty, closed, areTags⟩
    exact (yields_row tagsGrow.ready areEntries (fun _ => nonempty) fun _ =>
      ⟨closed, areTags⟩).imp
      tagsGrow.addsTree
  · exact trees_parseAtom trees state graph ready

theorem trees_parseWith (trees : Trees generic type) :
    Trees generic (parseWith type) := by
  intro state graph ready
  apply (trees_parseAlternatives trees state graph ready).bind
  rintro argument first middle ⟨argumentGrows, argumentTree⟩
  apply yields_taking_bind argumentGrows.ready
  · intro second arrowGrows _
    apply (trees second middle arrowGrows.ready).bind
    rintro result third last ⟨resultGrows, resultTree⟩
    have argumentKept := argumentTree.mono (arrowGrows.trans resultGrows)
    exact (yields_function resultGrows.ready argumentKept resultTree).imp
      ((argumentGrows.trans arrowGrows).trans resultGrows).addsTree
  · exact yields_pure ⟨argumentGrows, argumentTree⟩

theorem trees_parseNested (fuel : Nat) : Trees generic (parseNested fuel) := by
  induction fuel with
  | zero => exact fun _ _ _ => trivial
  | succ fuel induction => exact trees_parseWith induction

end TypeParser

/-! ## Sources -/

theorem typeToken_of_scan {source : Source} {tokens : List Token}
    (scanned : Token.scan source = .ok tokens)
    (closed : ∀ token ∈ tokens, token.lexeme ≠ .mark "...")
    (plain : ∀ token ∈ tokens, token.lexeme = .mark "'" → generic) :
    ∀ token ∈ tokens, TypeToken generic token := by
  intro token member
  have isName (text : String) (same : token.lexeme = .name text) :
      (Lexeme.name text).IsScanned := by
    rcases Token.isScanned_of_scan scanned with ⟨front, rfl, all⟩
    rcases List.mem_append.1 member with isFront | isLast
    · exact same ▸ all token isFront
    · rw [List.mem_singleton.1 isLast] at same
      cases same
  refine ⟨isName, ?_, plain token member⟩
  rw [Bool.eq_false_iff]
  intro isDots
  cases same : token.lexeme with
  | name text =>
      rw [same] at isDots
      exact (isName text same).isDistinct (beq_iff_eq.1 isDots ▸ by decide)
  | mark text =>
      rw [same] at isDots
      exact closed token member (same.trans (congrArg Lexeme.mark (beq_iff_eq.1 isDots)))
  | _ => simp [same, Lexeme.isWord] at isDots

theorem exists_tree_of_parseType {source : Source} {tokens : List Token} {type : Ref}
    (scanned : Token.scan source = .ok tokens)
    (closed : ∀ token ∈ tokens, token.lexeme ≠ .mark "...")
    (plain : ∀ token ∈ tokens, token.lexeme = .mark "'" → generic)
    (parsed : (Build.parseType source).on graph = (.ok type, later)) :
    ∃ (state : Reading) (tree : TypeTree String), Ready (TypeToken generic) state later ∧
      tree.IsWritten generic ∧ later.Shows state.Names tree type ∧
      ∀ ref node, graph.node ref = .ok node → later.node ref = .ok node := by
  have ready : Ready (TypeToken generic) { tokens := tokens } graph :=
    ⟨typeToken_of_scan scanned closed plain, nofun, nofun⟩
  have whole : Yields (parseWhole (tokens.length + 1)) { tokens := tokens } graph
      (AddsTree generic { tokens := tokens } graph) fun _ _ => True := by
    apply (trees_parseNested _ _ graph ready).bind
    rintro ref between middle done
    apply yields_gives_bind gives_peek
    rintro token _ ⟨rfl, _⟩
    split
    · exact yields_pure done
    · exact yields_refused
  have yields : (Build.parseType source).Yields graph (fun ref later =>
      ∃ state, AddsTree generic { tokens := tokens } graph ref state later)
        fun _ _ => True := by
    unfold Build.parseType
    rw [scanned]
    apply Build.Yields.bind whole
    exact fun result middle done => Build.yields_pure ⟨result.2, done⟩
  rcases yields.of_ok parsed with ⟨state, grows, tree, written, shows⟩
  exact ⟨state, tree, grows.ready, written, shows, grows.nodes⟩

end TypeGraph

end Casework
