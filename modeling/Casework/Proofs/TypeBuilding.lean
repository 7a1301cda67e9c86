import Casework.Proofs.TypeGrammar
import Casework.Proofs.TypeRecognition

/-!
Whatever the grammar of types derives is built.

A derivation stands for nodes of a graph: one for each type constructor that is written,
and one for each name of a variable. A parser that is given the tokens of a derivation
takes just these, if no type goes on after them, and what it adds to the graph are these
nodes. Since the bounds on nesting and on repetitions are known to suffice, a parser that
reaches one of them may give up here.
-/

namespace Casework

def Form.ofEntries (kind : RowKind) (isOpen : Bool) (entries : List (String × Ref)) :
    Form :=
  .row kind (.ofList entries) (if isOpen then none else some (.ofList entries))

/-- The references to the nodes that have been added to a graph. -/
def TypeGraph.added (graph later : TypeGraph) : List Ref :=
  (List.range' (graph.size + 1) (later.size - graph.size)).map
    fun (number : Nat) => ⟨number⟩

namespace TypeGrammar

open Grammar

/-! ## What a derivation stands for -/

section Builds

variable (graph : TypeGraph) (place : String → Ref → Prop)

mutual

/-- A derivation stands for a type. The nodes are those of its type constructors, each of
them once; names that have a place are variables. -/
def Written.Builds : Written → Ref → List Ref → Prop
  | .plain left, ref, nodes => left.Builds ref nodes
  | .function left _ right, ref, nodes =>
      ∃ argument result first second, left.Builds argument first ∧
        right.Builds result second ∧
        graph.node ref = .ok { form := .function argument result } ∧ nodes =
          first ++ second ++ [ref]

def Alternatives.Builds : Alternatives → Ref → List Ref → Prop
  | .atom atom, ref, nodes => atom.Builds ref nodes
  | .variant tags, ref, nodes =>
      ∃ entries inner, tags.Builds entries inner ∧
        graph.node ref = .ok { form := .ofEntries .variant tags.isOpen entries } ∧
          nodes = inner ++ [ref]

def Tags.Builds : Tags → List (String × Ref) → List Ref → Prop
  | .last _ tag payload, entries, nodes =>
      ∃ ref, payload.Builds ref nodes ∧ entries = [(tag.name.text, ref)]
  | .dots _ tag payload _ _, entries, nodes =>
      ∃ ref, payload.Builds ref nodes ∧ entries = [(tag.name.text, ref)]
  | .next _ tag payload _ rest, entries, nodes =>
      ∃ ref others first second, payload.Builds ref first ∧ rest.Builds others second ∧
        entries = (tag.name.text, ref) :: others ∧ nodes = first ++ second

def Atom.Builds : Atom → Ref → List Ref → Prop
  | .primitive _ own, ref, nodes => graph.node ref =
      .ok { form := .primitive own.primitive } ∧ nodes = [ref]
  | .unit _ _, ref, nodes => graph.node ref =
      .ok { form := .primitive .unit } ∧ nodes = [ref]
  | .variable _ _ name, ref, nodes =>
      place name.text ref ∧ graph.node ref = .ok { form := .var none } ∧ nodes = []
  | .list _ _ element _, ref, nodes =>
      ∃ part inner, element.Builds part inner ∧ graph.node ref =
        .ok { form := .list part } ∧
        nodes = inner ++ [ref]
  | .emptyStruct _ _, ref, nodes =>
      graph.node ref = .ok { form := .ofEntries .struct false [] } ∧ nodes = [ref]
  | .struct _ fields, ref, nodes =>
      ∃ entries inner, fields.Builds entries inner ∧
        graph.node ref = .ok { form := .ofEntries .struct fields.isOpen entries } ∧
          nodes = inner ++ [ref]
  | .parenthesized _ inner _, ref, nodes => inner.Builds ref nodes

def Field.Builds : Field → String × Ref → List Ref → Prop
  | .plain _ name _ type, entry, nodes => entry.1 = name.text ∧ type.Builds entry.2 nodes
  | .pointed _ _ name _ type, entry, nodes => entry.1 = name.text ∧
      type.Builds entry.2 nodes

def Fields.Builds : Fields → List (String × Ref) → List Ref → Prop
  | .last field _, entries, nodes => ∃ entry, field.Builds entry nodes ∧ entries = [entry]
  | .next field _ rest, entries, nodes =>
      ∃ entry others first second, field.Builds entry first ∧ rest.Builds others second ∧
        entries = entry :: others ∧ nodes = first ++ second

end

end Builds

section Mono

variable {graph later : TypeGraph} {place other : String → Ref → Prop}

mutual

theorem Written.Builds.mono {type : Written} {ref : Ref} {nodes : List Ref}
    (builds : type.Builds graph place ref nodes)
    (kept : ∀ ref node, graph.node ref = .ok node → later.node ref = .ok node)
    (placed : ∀ name ref, place name ref → other name ref) :
    type.Builds later other ref nodes := by
  match type with
  | .plain left =>
      have inner : left.Builds graph place ref nodes := builds
      exact inner.mono kept placed
  | .function left arrow right =>
      rcases builds with
        ⟨argument, result, first, second, leftBuilds, rightBuilds, found, all⟩
      exact ⟨argument, result, first, second, leftBuilds.mono kept placed,
        rightBuilds.mono kept placed, kept _ _ found, all⟩

theorem Alternatives.Builds.mono {alternatives : Alternatives} {ref : Ref}
    {nodes : List Ref} (builds : alternatives.Builds graph place ref nodes)
    (kept : ∀ ref node, graph.node ref = .ok node → later.node ref = .ok node)
    (placed : ∀ name ref, place name ref → other name ref) :
    alternatives.Builds later other ref nodes := by
  match alternatives with
  | .atom atom =>
      have inner : atom.Builds graph place ref nodes := builds
      exact inner.mono kept placed
  | .variant tags =>
      rcases builds with ⟨entries, inner, tagsBuild, found, all⟩
      exact ⟨entries, inner, tagsBuild.mono kept placed, kept _ _ found, all⟩

theorem Tags.Builds.mono {tags : Tags} {entries : List (String × Ref)} {nodes : List Ref}
    (builds : tags.Builds graph place entries nodes)
    (kept : ∀ ref node, graph.node ref = .ok node → later.node ref = .ok node)
    (placed : ∀ name ref, place name ref → other name ref) :
    tags.Builds later other entries nodes := by
  match tags with
  | .last own tag payload | .dots own tag payload bar dots =>
      rcases builds with ⟨ref, payloadBuilds, all⟩
      exact ⟨ref, payloadBuilds.mono kept placed, all⟩
  | .next own tag payload bar rest =>
      rcases builds with ⟨ref, others, first, second, payloadBuilds, restBuilds, all⟩
      exact ⟨ref, others, first, second, payloadBuilds.mono kept placed,
        restBuilds.mono kept placed, all⟩

theorem Atom.Builds.mono {atom : Atom} {ref : Ref} {nodes : List Ref}
    (builds : atom.Builds graph place ref nodes)
    (kept : ∀ ref node, graph.node ref = .ok node → later.node ref = .ok node)
    (placed : ∀ name ref, place name ref → other name ref) :
    atom.Builds later other ref nodes := by
  match atom with
  | .primitive own word | .unit opening closing | .emptyStruct opening closing =>
      exact ⟨kept _ _ builds.1, builds.2⟩
  | .variable sign own name =>
      exact ⟨placed _ _ builds.1, kept _ _ builds.2.1, builds.2.2⟩
  | .list own opening element closing =>
      rcases builds with ⟨part, inner, elementBuilds, found, all⟩
      exact ⟨part, inner, elementBuilds.mono kept placed, kept _ _ found, all⟩
  | .struct opening fields =>
      rcases builds with ⟨entries, inner, fieldsBuild, found, all⟩
      exact ⟨entries, inner, fieldsBuild.mono kept placed, kept _ _ found, all⟩
  | .parenthesized opening inner closing =>
      have inside : inner.Builds graph place ref nodes := builds
      exact inside.mono kept placed

theorem Field.Builds.mono {field : Field} {entry : String × Ref} {nodes : List Ref}
    (builds : field.Builds graph place entry nodes)
    (kept : ∀ ref node, graph.node ref = .ok node → later.node ref = .ok node)
    (placed : ∀ name ref, place name ref → other name ref) :
    field.Builds later other entry nodes := by
  match field with
  | .plain own name sign type | .pointed point own name sign type =>
      exact ⟨builds.1, builds.2.mono kept placed⟩

theorem Fields.Builds.mono {fields : Fields} {entries : List (String × Ref)}
    {nodes : List Ref} (builds : fields.Builds graph place entries nodes)
    (kept : ∀ ref node, graph.node ref = .ok node → later.node ref = .ok node)
    (placed : ∀ name ref, place name ref → other name ref) :
    fields.Builds later other entries nodes := by
  match fields with
  | .last field closing =>
      rcases builds with ⟨entry, fieldBuilds, all⟩
      exact ⟨entry, fieldBuilds.mono kept placed, all⟩
  | .next field comma rest =>
      rcases builds with ⟨entry, others, first, second, fieldBuilds, restBuilds, all⟩
      exact ⟨entry, others, first, second, fieldBuilds.mono kept placed,
        restBuilds.mono kept placed, all⟩

end

end Mono

end TypeGrammar

namespace TypeGraph

open Casework.Parser Stateful TypeGrammar TypeParser
open Grammar (Follow Name mark word)

variable {graph middle later : TypeGraph} {state between after : Reading}
  {nodes more : List Ref} {labels further : List String} {rest : List Token}

/-! ## Adding nodes -/

theorem added_self (graph : TypeGraph) : graph.added graph = [] := by
  rw [added, Nat.sub_self]
  rfl

theorem added_trans (first : graph.size ≤ middle.size)
    (second : middle.size ≤ later.size) :
    graph.added later = graph.added middle ++ middle.added later := by
  have start : middle.size + 1 = graph.size + 1 + 1 * (middle.size - graph.size) := by
    omega
  have total : later.size - graph.size = middle.size - graph.size +
      (later.size - middle.size) := by omega
  rw [added, added, added, ← List.map_append, start, List.range'_append, total]

theorem added_allocate (graph : TypeGraph) (node : Node) :
    graph.added (graph.allocate node).2 = [(graph.allocate node).1] := by
  rw [added, size_allocate, Nat.add_sub_cancel_left]
  rfl

/-- The names that have been met are different variables. -/
structure Knows (state : Reading) (graph : TypeGraph) : Prop where
  found : ∀ entry ∈ state.named.entries, graph.node entry.2 = .ok { form := .var none }
  distinct : state.named.labels.Nodup

theorem Knows.reads (knows : Knows state graph) (tokens : List Token) :
    Knows { state with tokens := tokens } graph :=
  ⟨knows.found, knows.distinct⟩

/-- Some nodes have been added, and a variable for each of some names that had not been
met before. -/
structure AddsNodes (state : Reading) (graph : TypeGraph) (nodes : List Ref)
    (names : List String) (after : Reading) (later : TypeGraph) : Prop where
  knows : Knows after later
  size : graph.size ≤ later.size
  kept : ∀ ref node, graph.node ref = .ok node → later.node ref = .ok node
  added : ∃ fresh, after.named.entries = state.named.entries ++ fresh ∧
    (nodes ++ fresh.map Prod.snd).Perm (graph.added later)
  met : ∀ name, name ∈ after.named.labels ↔ name ∈ state.named.labels ∨ name ∈ names

theorem Knows.addsNothing (knows : Knows state graph) :
    AddsNodes state graph [] [] state graph where
  knows := knows
  size := Nat.le_refl _
  kept := fun _ _ found => found
  added := ⟨[], (List.append_nil _).symm, by rw [added_self]; exact .nil⟩
  met := fun name => by simp

theorem AddsNodes.reads (adds : AddsNodes state graph nodes labels after later)
    (tokens : List Token) :
    AddsNodes { state with tokens := tokens } graph nodes labels after later :=
  ⟨adds.knows, adds.size, adds.kept, adds.added, adds.met⟩

theorem AddsNodes.read (adds : AddsNodes state graph nodes labels after later)
    (tokens : List Token) :
    AddsNodes state graph nodes labels { after with tokens := tokens } later :=
  ⟨adds.knows.reads tokens, adds.size, adds.kept, adds.added, adds.met⟩

theorem AddsNodes.trans (first : AddsNodes state graph nodes labels between middle)
    (second : AddsNodes between middle more further after later) :
    AddsNodes state graph (nodes ++ more) (labels ++ further) after later where
  knows := second.knows
  size := first.size.trans second.size
  kept := fun ref node found => second.kept ref node (first.kept ref node found)
  added := by
    rcases first.added with ⟨fresh, named, firstAdded⟩
    rcases second.added with ⟨others, namedAfter, secondAdded⟩
    refine ⟨fresh ++ others, by rw [namedAfter, named, List.append_assoc], ?_⟩
    rw [added_trans first.size second.size, List.map_append]
    have regrouped : (nodes ++ more ++ (fresh.map Prod.snd ++ others.map Prod.snd)).Perm
        (nodes ++ fresh.map Prod.snd ++ (more ++ others.map Prod.snd)) := by
      simp only [List.append_assoc]
      refine List.Perm.append_left nodes ?_
      simp only [← List.append_assoc]
      exact List.Perm.append_right _ List.perm_append_comm
    exact regrouped.trans (firstAdded.append secondAdded)
  met := fun name => by
    rw [second.met, first.met, List.mem_append, or_assoc]

theorem AddsNodes.allocate
    (adds : AddsNodes state graph nodes labels after later) (node : Node) :
    AddsNodes state graph (nodes ++ [(later.allocate node).1]) labels after
      (later.allocate node).2 where
  knows := ⟨fun entry member => node_allocate_of_ok (adds.knows.found entry member) node,
    adds.knows.distinct⟩
  size := by
    rw [size_allocate]
    exact Nat.le_succ_of_le adds.size
  kept := fun ref own found => node_allocate_of_ok (adds.kept ref own found) node
  added := by
    rcases adds.added with ⟨fresh, named, before⟩
    refine ⟨fresh, named, ?_⟩
    have larger : later.size ≤ (later.allocate node).2.size := by
      rw [size_allocate]
      exact Nat.le_succ _
    rw [added_trans adds.size larger, added_allocate]
    have moved : (nodes ++ [(later.allocate node).1] ++ fresh.map Prod.snd).Perm
        (nodes ++ fresh.map Prod.snd ++ [(later.allocate node).1]) := by
      simp only [List.append_assoc]
      exact List.Perm.append_left nodes List.perm_append_comm
    exact moved.trans (before.append_right _)
  met := adds.met

theorem AddsNodes.names (adds : AddsNodes state graph nodes labels after later)
    (name : String) (ref : Ref) (isName : state.Names name ref) :
    after.Names name ref := by
  rcases adds.added with ⟨fresh, named, _⟩
  have member : (name, ref) ∈ after.named.entries :=
    named ▸ List.mem_append_left fresh (Row.mem_of_get? isName)
  exact Row.findEntry_of_mem adds.knows.distinct member

/-- The tokens of a derivation have been taken, and what it stands for has been built. -/
def Rebuilt {α : Type} (builds : TypeGraph → (String → Ref → Prop) → α → List Ref → Prop)
    (names : List String) (rest : List Token) (state : Reading)
    (graph : TypeGraph) (value : α) (after : Reading) (later : TypeGraph) : Prop :=
  after.tokens = rest ∧ ∃ nodes, builds later after.Names value nodes ∧
    AddsNodes state graph nodes names after later

namespace TypeParser

/-! ## Steps -/

section Steps

variable {β : Type} {last : β → Reading → TypeGraph → Prop} {text : String}
  {place : Position}

theorem yields_mark_bind {next : Bool → TypeParser β}
    (spelled : state.tokens = mark text place :: rest)
    (second : Yields (next true) { state with tokens := rest } graph last GivesUp) :
    Yields (accept text >>= next) state graph last GivesUp := by
  have settles : (Parser.accept text).Settles state.tokens true rest := by
    rw [spelled]
    exact settles_accept (beq_self_eq_true text)
  exact yields_settles_bind settles second

theorem yields_unmarked_bind {next : Bool → TypeParser β} {token : Token}
    {following : List Token} (spelled : state.tokens = token :: following)
    (isOther : token.lexeme.isWord text = false)
    (second : Yields (next false) state graph last GivesUp) :
    Yields (accept text >>= next) state graph last GivesUp := by
  have settles : (Parser.accept text).Settles state.tokens false state.tokens := by
    rw [spelled]
    exact settles_accept_other isOther
  exact yields_settles_bind settles second

theorem yields_sign_bind {next : Unit → TypeParser β} {token : Token}
    (spelled : state.tokens = token :: rest) (isWord : token.lexeme.isWord text = true)
    (second : Yields (next ()) { state with tokens := rest } graph last GivesUp) :
    Yields (expect text >>= next) state graph last GivesUp := by
  have settles : (Parser.expect text).Settles state.tokens () rest := by
    rw [spelled]
    exact settles_expect isWord
  exact yields_settles_bind settles second

theorem yields_name_bind {next : Position × String → TypeParser β} {name : Name}
    {cause : Lexeme → SyntaxCause} (spelled : state.tokens = name.token place :: rest)
    (second : Yields (next (place, name.text)) { state with tokens := rest }
      graph last GivesUp) :
    Yields (reading (takeName cause) >>= next) state graph last GivesUp := by
  have settles : (takeName cause).Settles state.tokens (place, name.text) rest := by
    rw [spelled]
    exact settles_takeName
  exact yields_settles_bind settles second

theorem yields_take_bind {next : Token → TypeParser β} {token : Token}
    (spelled : state.tokens = token :: rest) (isGoing : token.lexeme ≠ .finish)
    (second : Yields (next token) { state with tokens := rest } graph last GivesUp) :
    Yields (reading take >>= next) state graph last GivesUp := by
  have settles : take.Settles state.tokens token rest := by
    rw [spelled]
    rcases token with ⟨lexeme, position⟩
    cases lexeme with
    | finish => exact absurd rfl isGoing
    | _ => exact rfl
  exact yields_settles_bind settles second

theorem yields_peek_bind {next : Token → TypeParser β} {token : Token}
    (spelled : state.tokens = token :: rest)
    (second : Yields (next token) state graph last GivesUp) :
    Yields (reading peek >>= next) state graph last GivesUp := by
  have settles : peek.Settles state.tokens token state.tokens := by
    rw [spelled]
    exact settles_peek
  exact yields_settles_bind settles second

theorem yields_tag_bind {next : String → TypeParser β} {tag : Tag}
    (spelled : state.tokens = tag.name.token place :: rest)
    (second : Yields (next tag.name.text) { state with tokens := rest }
      graph last GivesUp) :
    Yields (takeTag >>= next) state graph last GivesUp := by
  have takes : Yields takeTag state graph (fun text after later =>
      text = tag.name.text ∧ after = { state with tokens := rest } ∧ later =
        graph) GivesUp := by
    apply yields_take_bind spelled nofun
    change Yields (if isTagName tag.name.text then pure tag.name.text else _) _ _ _ _
    rw [if_pos tag.isTag]
    exact yields_pure ⟨rfl, rfl, rfl⟩
  apply takes.bind
  rintro _ _ _ ⟨rfl, rfl, rfl⟩
  exact second

theorem yields_make {failed : Failure → TypeGraph → Prop} {node : Node}
    {done : Ref → Reading → TypeGraph → Prop}
    (made : done (graph.allocate node).1 state (graph.allocate node).2) :
    Yields (liftM (Build.allocate node) : TypeParser Ref) state graph done failed := by
  have allocates : (Build.allocate node).Yields graph
      (fun ref later => ref = (graph.allocate node).1 ∧ later =
        (graph.allocate node).2) failed :=
    Build.yields_allocate ⟨rfl, rfl⟩
  apply (yields_lift allocates).imp
  rintro _ _ _ ⟨rfl, rfl, rfl⟩
  exact made

theorem yields_makeRow {failed : Failure → TypeGraph → Prop}
    {kind : RowKind} {isOpen : Bool} {entries : List (String × Ref)}
    {done : Ref → Reading → TypeGraph → Prop}
    (made : done (graph.allocate { form := .ofEntries kind isOpen entries }).1 state
      (graph.allocate { form := .ofEntries kind isOpen entries }).2) :
    Yields (if isOpen then Build.newOpen kind entries else
      Build.newClosed kind entries : TypeParser Ref)
      state graph done failed := by
  cases isOpen with
  | true => exact yields_make made
  | false => exact yields_make made

end Steps

theorem yields_typeVariable_builds (knows : Knows state graph) (name : String) :
    Yields (typeVariable name) state graph
      (fun ref after later => after.tokens = state.tokens ∧
      after.Names name ref ∧ later.node ref = .ok { form := .var none } ∧
      AddsNodes state graph [] [name] after later) GivesUp := by
  apply yields_get_bind
  split
  next ref found =>
      have entry := Row.mem_of_get? found
      have listed : name ∈ state.named.labels := List.mem_map_of_mem (f := Prod.fst) entry
      refine yields_pure ⟨rfl, found, knows.found _ entry, ?_⟩
      refine { knows.addsNothing with met := fun other => ?_ }
      rw [List.mem_singleton]
      exact ⟨.inl, fun met => met.elim id fun same => same ▸ listed⟩
  next absent =>
      let node : Node := { form := .var none }
      let named := state.named.put name (graph.allocate node).1
      have stored : named.entries = state.named.entries ++
          [(name, (graph.allocate node).1)] :=
        Row.entries_put_of_absent absent
      have larger : graph.size ≤ (graph.allocate node).2.size := by
        rw [size_allocate]
        exact Nat.le_succ _
      have knowsNew : Knows { state with named := named } (graph.allocate node).2 := by
        refine ⟨fun entry member => ?_, Row.nodup_labels_put knows.distinct⟩
        rw [stored] at member
        rcases List.mem_append.1 member with old | same
        · exact node_allocate_of_ok (knows.found entry old) node
        · rw [List.mem_singleton.1 same]
          exact node_allocate_self graph node
      have adds : AddsNodes state graph [] [name] { state with named := named }
          (graph.allocate node).2 := by
        refine ⟨knowsNew, larger, fun _ _ found => node_allocate_of_ok found node,
          ⟨_, stored, ?_⟩, ?_⟩
        · rw [added_allocate]
          exact .refl _
        · intro other
          rw [Row.labels, stored, List.map_append, List.mem_append]
          rfl
      exact And.intro rfl ⟨Row.get?_put_self _ _ _, node_allocate_self graph node, adds⟩

/-! ## Rules -/

def parseEntry (type : TypeParser Ref) : TypeParser (Bool × String × Ref) := do
  let pointed ← accept "."
  let (_, name) ← reading (takeName .expectedField)
  expect "is"
  return (pointed, name, ← type)

def parseEntries (type : TypeParser Ref) (fuel : Nat) :
    TypeParser (List (String × Ref) × Bool) := do
  let (pointed, entry) ← parseEntry type
  let (fields, someLaterPointed) ← parseFields type fuel false
  return (entry :: fields, pointed || someLaterPointed)

theorem parseFields_succ (type : TypeParser Ref) (fuel : Nat) (first : Bool) :
    parseFields type (fuel + 1) first = (do
      if ← accept "\x7d" then return ([], false)
      unless first do expect ","
      parseEntries type fuel) := by
  simp only [parseFields, parseEntries, parseEntry, bind_assoc, pure_bind]

section Entries

variable {type : TypeParser Ref} {fuel : Nat} {place : Position}
  {last : List (String × Ref) × Bool → Reading → TypeGraph → Prop}

theorem yields_parseFields_closing (first : Bool)
    (spelled : state.tokens = mark "\x7d" place :: rest) :
    Yields (parseFields type (fuel + 1) first) state graph (fun built after later =>
      built = ([], false) ∧ after = { state with tokens := rest } ∧ later =
        graph) GivesUp :=
  yields_mark_bind spelled (yields_pure ⟨rfl, rfl, rfl⟩)

theorem yields_parseFields_first {token : Token} (spelled : state.tokens = token :: rest)
    (noClosing : token.lexeme.isWord "\x7d" = false)
    (entries : Yields (parseEntries type fuel) state graph last GivesUp) :
    Yields (parseFields type (fuel + 1) true) state graph last GivesUp := by
  rw [parseFields_succ]
  exact yields_unmarked_bind spelled noClosing entries

theorem yields_parseFields_comma (spelled : state.tokens = mark "," place :: rest)
    (entries : Yields (parseEntries type fuel) { state with tokens := rest }
      graph last GivesUp) :
    Yields (parseFields type (fuel + 1) false) state graph last GivesUp := by
  rw [parseFields_succ]
  exact yields_unmarked_bind spelled rfl (yields_sign_bind spelled rfl entries)

end Entries

def FieldBuilt (field : Field) (graph : TypeGraph) (place : String → Ref → Prop)
    (built : Bool × String × Ref) (nodes : List Ref) : Prop :=
  field.Builds graph place built.2 nodes ∧ built.1 = field.isPointed

def FieldsBuilt (fields : TypeGrammar.Fields) (graph : TypeGraph)
    (place : String → Ref → Prop) (built : List (String × Ref) × Bool)
    (nodes : List Ref) : Prop :=
  fields.Builds graph place built.1 nodes ∧ built.2 = fields.isOpen

def TagsBuilt (tags : Tags) (graph : TypeGraph) (place : String → Ref → Prop)
    (built : List (String × Ref) × Bool) (nodes : List Ref) : Prop :=
  tags.Builds graph place built.1 nodes ∧ built.2 = tags.isOpen

mutual

theorem builds_written (type : Written) (fuel : Nat) {state : Reading} {graph : TypeGraph}
    {rest : List Token} (knows : Knows state graph) (follow : Follow endsWritten rest)
    (spelled : state.tokens = type.tokens ++ rest) :
    Yields (parseNested fuel) state graph
      (Rebuilt (fun graph place => type.Builds graph place) type.names rest state graph)
        GivesUp := by
  cases fuel with
  | zero => exact rfl
  | succ fuel =>
      match type with
      | .plain left =>
          apply (builds_alternatives left fuel knows
            (follow_alternatives follow) spelled).bind
          rintro ref between middle ⟨left, built⟩
          rcases follow with ⟨token, more, rfl, ends⟩
          have noArrow : token.lexeme.isWord "->" = false := by
            simpa using (Bool.and_eq_true_iff.1 ends).2
          exact yields_unmarked_bind left noArrow (yields_pure ⟨left, built⟩)
      | .function left arrow right =>
          rw [Written.tokens, List.append_assoc] at spelled
          apply (builds_alternatives left fuel knows (.cons rfl _) spelled).bind
          rintro argument between middle ⟨remaining, first, argumentBuilds, argumentAdds⟩
          apply yields_mark_bind remaining
          have onward := argumentAdds.read (right.tokens ++ rest)
          apply (builds_written right fuel onward.knows follow rfl).bind
          rintro result after last ⟨ended, second, resultBuilds, resultAdds⟩
          have adds := onward.trans resultAdds
          apply yields_make
          refine ⟨ended, _, ?_, adds.allocate _⟩
          have kept := fun ref own found =>
            node_allocate_of_ok (resultAdds.kept ref own found)
              { form := .function argument result }
          exact ⟨argument, result, first, second,
            argumentBuilds.mono kept resultAdds.names, resultBuilds.mono
            (fun _ _ found => node_allocate_of_ok found _) (fun _ _ => id),
            node_allocate_self _ _, rfl⟩
termination_by structural type

theorem builds_alternatives (alternatives : Alternatives) (fuel : Nat) {state : Reading}
    {graph : TypeGraph} {rest : List Token} (knows : Knows state graph)
    (follow : Follow endsAlternatives rest)
    (spelled : state.tokens = alternatives.tokens ++ rest) :
    Yields (parseAlternatives (parseNested fuel)) state graph
      (Rebuilt (fun graph place => alternatives.Builds graph place) alternatives.names
        rest state graph)
      GivesUp := by
  match alternatives with
  | .atom atom =>
      rcases atom.exists_tokens with ⟨token, following, starts, isAtom, _⟩
      have begins : state.tokens = token :: (following ++ rest) := by
        rw [spelled, Alternatives.tokens, starts, List.cons_append]
      have noVariant : startsVariant token.lexeme = false := by
        cases same : token.lexeme with
        | name text => simpa [same, startsAtom, startsVariant] using isAtom
        | _ => rfl
      apply yields_peek_bind begins
      rw [noVariant]
      exact builds_atom atom fuel knows spelled
  | .variant tags =>
      rcases tags.exists_tokens with ⟨place, tag, following, starts⟩
      have begins : state.tokens = tag.name.token place :: (following ++ rest) := by
        rw [spelled, Alternatives.tokens, starts, List.cons_append]
      have isVariant : startsVariant (tag.name.token place).lexeme = true := tag.isTag
      apply yields_peek_bind begins
      rw [isVariant]
      apply yields_get_bind
      apply (builds_tags tags fuel _ knows follow spelled).bind
      rintro ⟨entries, isOpen⟩ between middle ⟨remaining, inner, ⟨tagsBuild, rfl⟩, adds⟩
      apply yields_makeRow
      exact ⟨remaining, _, ⟨entries, inner,
        tagsBuild.mono (fun _ _ found => node_allocate_of_ok found _) (fun _ _ => id),
        node_allocate_self _ _, rfl⟩, adds.allocate _⟩
termination_by structural alternatives

theorem builds_tags (tags : Tags) (fuel count : Nat) {state : Reading} {graph : TypeGraph}
    {rest : List Token} (knows : Knows state graph)
    (follow : Follow endsAlternatives rest)
    (spelled : state.tokens = tags.tokens ++ rest) :
    Yields (parseTags (parseNested fuel) count) state graph
      (Rebuilt (TagsBuilt tags) tags.names rest state graph) GivesUp := by
  cases count with
  | zero => exact rfl
  | succ count =>
      match tags with
      | .last place tag payload =>
          apply yields_tag_bind spelled
          apply (builds_atom payload fuel (knows.reads (payload.tokens ++ rest)) rfl).bind
          rintro ref between middle ⟨remaining, nodes, payloadBuilds, adds⟩
          rcases follow with ⟨token, more, rfl, ends⟩
          have noBar : token.lexeme.isWord "|" = false := by
            simpa [endsAlternatives] using ends
          apply yields_unmarked_bind remaining noBar
          exact yields_pure
            ⟨remaining, nodes, ⟨⟨ref, payloadBuilds, rfl⟩, rfl⟩, adds.reads _⟩
      | .dots place tag payload bar dots =>
          rw [Tags.tokens, List.cons_append, List.append_assoc] at spelled
          apply yields_tag_bind spelled
          apply (builds_atom payload fuel (knows.reads
            (payload.tokens ++ ([mark "|" bar, mark "..." dots] ++ rest))) rfl).bind
          rintro ref between middle ⟨remaining, nodes, payloadBuilds, adds⟩
          apply yields_mark_bind remaining
          apply yields_mark_bind rfl
          exact yields_pure ⟨rfl, nodes, ⟨⟨ref, payloadBuilds, rfl⟩, rfl⟩,
            (adds.reads _).read _⟩
      | .next place tag payload bar later =>
          rw [Tags.tokens, List.cons_append, List.append_assoc] at spelled
          apply yields_tag_bind spelled
          apply (builds_atom payload fuel (knows.reads
            (payload.tokens ++ (mark "|" bar :: later.tokens ++ rest))) rfl).bind
          rintro ref between middle ⟨remaining, first, payloadBuilds, adds⟩
          apply yields_mark_bind remaining
          rcases later.exists_tokens with ⟨next, own, following, starts⟩
          have begins : later.tokens ++ rest = own.name.token next ::
              (following ++ rest) := by
            rw [starts, List.cons_append]
          have noDots : (own.name.token next).lexeme.isWord "..." = false :=
            own.name.isWord_eq_false (by decide)
          apply yields_unmarked_bind begins noDots
          have onward := (adds.reads state.tokens).read (later.tokens ++ rest)
          apply (builds_tags later fuel count onward.knows follow rfl).bind
          rintro ⟨others, isOpen⟩ after last ⟨ended, second, ⟨restBuilds, rfl⟩, restAdds⟩
          have kept := payloadBuilds.mono restAdds.kept restAdds.names
          exact yields_pure
            ⟨ended, _, ⟨⟨ref, others, first, second, kept, restBuilds, rfl, rfl⟩, rfl⟩,
              onward.trans restAdds⟩
termination_by structural tags

theorem builds_atom (atom : Atom) (fuel : Nat) {state : Reading} {graph : TypeGraph}
    {rest : List Token} (knows : Knows state graph)
    (spelled : state.tokens = atom.tokens ++ rest) :
    Yields (parseAtom (parseNested fuel)) state graph
      (Rebuilt (fun graph place => atom.Builds graph place) atom.names rest state graph)
        GivesUp := by
  have taken (tokens : List Token) : AddsNodes state graph [] []
      { state with tokens := tokens } graph :=
    knows.addsNothing.read tokens
  match atom with
  | .primitive place own =>
      have makes : Yields (Build.newPrimitive own.primitive : TypeParser Ref)
          { state with tokens := rest }
          graph (Rebuilt (fun graph place =>
            (Atom.primitive default own).Builds graph place) [] rest state graph)
            GivesUp :=
        yields_make ⟨rfl, _, ⟨node_allocate_self _ _, rfl⟩, (taken rest).allocate _⟩
      apply yields_take_bind spelled nofun
      cases own with
      | _ => exact makes
  | .unit opening closing =>
      apply yields_take_bind spelled nofun
      apply yields_mark_bind rfl
      exact yields_make ⟨rfl, _, ⟨node_allocate_self _ _, rfl⟩, (taken _).allocate _⟩
  | .variable sign place name =>
      apply yields_take_bind spelled nofun
      apply yields_name_bind rfl
      apply (yields_typeVariable_builds (taken rest).knows name.text).imp
      rintro ref after later ⟨ended, isName, found, adds⟩
      exact ⟨ended, [], ⟨isName, found, rfl⟩, adds.reads _⟩
  | .list place opening element closing =>
      rw [Atom.tokens, List.cons_append, List.cons_append, List.append_assoc] at spelled
      apply yields_take_bind spelled nofun
      apply yields_sign_bind rfl rfl
      apply (builds_written element fuel (taken _).knows (.cons rfl _) rfl).bind
      rintro part between middle ⟨remaining, inner, elementBuilds, adds⟩
      apply yields_sign_bind remaining rfl
      apply yields_make
      exact ⟨rfl, _,
        ⟨part, inner, elementBuilds.mono (fun _ _ found => node_allocate_of_ok found _)
          (fun _ _ => id), node_allocate_self _ _, rfl⟩,
          ((adds.reads _).read rest).allocate _⟩
  | .emptyStruct opening closing =>
      apply yields_take_bind spelled nofun
      apply yields_get_bind
      refine Yields.bind (yields_parseFields_closing true rfl) ?_
      rintro _ _ _ ⟨rfl, rfl, rfl⟩
      apply yields_makeRow
      exact ⟨rfl, _, ⟨node_allocate_self _ _, rfl⟩, (taken rest).allocate _⟩
  | .struct opening fields =>
      apply yields_take_bind spelled nofun
      apply yields_get_bind
      rcases fields.exists_tokens with ⟨token, following, starts, noClosing⟩
      have begins : fields.tokens ++ rest = token :: (following ++ rest) := by
        rw [starts, List.cons_append]
      apply (yields_parseFields_first begins noClosing
        (builds_entries fields fuel _ (taken (fields.tokens ++ rest)).knows rfl)).bind
      rintro ⟨entries, isOpen⟩ between middle ⟨remaining, inner, ⟨fieldsBuild, rfl⟩, adds⟩
      apply yields_makeRow
      exact ⟨remaining, _, ⟨entries, inner,
        fieldsBuild.mono (fun _ _ found => node_allocate_of_ok found _) (fun _ _ => id),
        node_allocate_self _ _, rfl⟩, (adds.reads state.tokens).allocate _⟩
  | .parenthesized opening inner closing =>
      rw [Atom.tokens, List.cons_append, List.append_assoc] at spelled
      apply yields_take_bind spelled nofun
      rcases inner.exists_tokens with ⟨token, following, starts, noClosing⟩
      have begins : inner.tokens ++ ([mark ")" closing] ++ rest) =
          token :: (following ++ ([mark ")" closing] ++ rest)) := by
        rw [starts, List.cons_append]
      apply yields_unmarked_bind begins noClosing
      apply (builds_written inner fuel (taken _).knows (.cons rfl _) rfl).bind
      rintro ref between middle ⟨remaining, nodes, innerBuilds, adds⟩
      apply yields_sign_bind remaining rfl
      exact yields_pure ⟨rfl, nodes, innerBuilds, (adds.reads _).read rest⟩
termination_by structural atom

theorem builds_entry (field : Field) (fuel : Nat) {state : Reading} {graph : TypeGraph}
    {rest : List Token} (knows : Knows state graph) (follow : Follow endsWritten rest)
    (spelled : state.tokens = field.tokens ++ rest) :
    Yields (parseEntry (parseNested fuel)) state graph
      (Rebuilt (FieldBuilt field) field.names rest state graph) GivesUp := by
  match field with
  | .plain place name sign type =>
      have noPoint : (name.token place).lexeme.isWord "." = false :=
        name.isWord_eq_false (by decide)
      apply yields_unmarked_bind spelled noPoint
      apply yields_name_bind spelled
      apply yields_sign_bind rfl rfl
      apply (builds_written type fuel (knows.reads (type.tokens ++ rest)) follow rfl).bind
      rintro ref after later ⟨ended, nodes, builds, adds⟩
      exact yields_pure ⟨ended, nodes, ⟨⟨rfl, builds⟩, rfl⟩, adds.reads state.tokens⟩
  | .pointed point place name sign type =>
      apply yields_mark_bind spelled
      apply yields_name_bind rfl
      apply yields_sign_bind rfl rfl
      apply (builds_written type fuel (knows.reads (type.tokens ++ rest)) follow rfl).bind
      rintro ref after later ⟨ended, nodes, builds, adds⟩
      exact yields_pure ⟨ended, nodes, ⟨⟨rfl, builds⟩, rfl⟩, adds.reads state.tokens⟩
termination_by structural field

theorem builds_entries (fields : TypeGrammar.Fields) (fuel count : Nat) {state : Reading}
    {graph : TypeGraph} {rest : List Token} (knows : Knows state graph)
    (spelled : state.tokens = fields.tokens ++ rest) :
    Yields (parseEntries (parseNested fuel) count) state graph
      (Rebuilt (FieldsBuilt fields) fields.names rest state graph) GivesUp := by
  match fields with
  | .last field closing =>
      rw [TypeGrammar.Fields.tokens, List.append_assoc] at spelled
      apply (builds_entry field fuel knows (.cons rfl _) spelled).bind
      rintro ⟨pointed, entry⟩ between middle ⟨remaining, nodes, ⟨builds, rfl⟩, adds⟩
      cases count with
      | zero => exact rfl
      | succ count =>
          apply (yields_parseFields_closing false remaining).bind
          rintro _ _ _ ⟨rfl, rfl, rfl⟩
          exact yields_pure
            ⟨rfl, nodes, ⟨⟨entry, builds, rfl⟩, Bool.or_false _⟩, adds.read rest⟩
  | .next field comma later =>
      rw [TypeGrammar.Fields.tokens, List.append_assoc] at spelled
      apply (builds_entry field fuel knows (.cons rfl _) spelled).bind
      rintro ⟨pointed, entry⟩ between middle ⟨remaining, first, ⟨builds, rfl⟩, adds⟩
      cases count with
      | zero => exact rfl
      | succ count =>
          have onward := adds.read (later.tokens ++ rest)
          apply (yields_parseFields_comma remaining
            (builds_entries later fuel count onward.knows rfl)).bind
          rintro ⟨others, isOpen⟩ after last ⟨ended, second, ⟨restBuilds, rfl⟩, restAdds⟩
          have kept := builds.mono restAdds.kept restAdds.names
          exact yields_pure
            ⟨ended, _, ⟨⟨entry, others, first, second, kept, restBuilds, rfl, rfl⟩, rfl⟩,
              onward.trans restAdds⟩
termination_by structural fields

end

end TypeParser

end TypeGraph

end Casework
