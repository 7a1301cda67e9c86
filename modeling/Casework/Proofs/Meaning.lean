import Casework.Proofs.Value
import Casework.TypeGraph.Lemmas

/-!
What the types of a graph mean.

A meaning gives each type its values. The nodes of a graph are equations for it: a linked
type has the values of the type that stands for it, and a type with parts has values whose
parts are values of these. A meaning that satisfies them all is a model of the graph. Type
variables are free in a model, and so are the tags that a variant does not name.

A graph has models. Once it is said what the type variables stand for, the values that fit
each type are built up from their parts. The main statement is that they are a model.
-/

namespace Casework

abbrev Meaning := Ref → Value → Prop

def Primitive.Has : Primitive → Value → Prop
  | unit, value => value = .null
  | text, value => ∃ bytes, value = .text bytes
  | number, value => ∃ own, value = .number own
  | boolean, value => ∃ own, value = .boolean own

def Value.IsListOf (items : Value → Prop) (value : Value) : Prop :=
  ∃ values, value.items? = some values ∧ ∀ item ∈ values.toList, items item

theorem Value.isListOf_null (items : Value → Prop) : Value.null.IsListOf items :=
  ⟨.nil, rfl, nofun⟩

theorem Value.isListOf_nil (items : Value → Prop) : (Value.list .nil).IsListOf items :=
  ⟨.nil, rfl, nofun⟩

theorem Value.isListOf_cons {items : Value → Prop} {head : Value} {tail : Values} :
    (Value.list (.cons head tail)).IsListOf items ↔
      items head ∧ (Value.list tail).IsListOf items := by
  simp [IsListOf, Values.toList]

def Value.HasFields (meaning : Meaning) (fields : Row) (value : Value) : Prop :=
  ∃ members, value = .struct members ∧
    ∀ name type, fields.get? name = some type →
      ∃ part, members.get? name = some part ∧ meaning type part

/-- A variant may carry a tag: it lists the tag, or it has no bound, or the bound has the
tag. -/
def Row.Permits (members : Row) (bound : Option Row) (tag : String) : Prop :=
  ∀ row ∈ bound, members.contains tag ∨ row.contains tag

/-- The values of a type are what its node says. A struct may have more fields than are
listed, and a variant more tags up to its bound. -/
def Form.Holds (meaning : Meaning) (values : Value → Prop) : Form → Prop
  | var _ => True
  | primitive own => ∀ value, values value ↔ own.Has value
  | function _ _ => ∀ value, values value ↔ ∃ number, value = .function number
  | list element => ∀ value, values value ↔ value.IsListOf (meaning element)
  | row .struct members _ => ∀ value, values value → value.HasFields meaning members
  | row .variant members bound =>
      (∀ value, values value → ∃ tag payload, value = .tagged tag payload ∧
        members.Permits bound tag) ∧
        ∀ tag type, members.get? tag = some type →
          ∀ payload, values (.tagged tag payload) ↔ meaning type payload

theorem Form.Holds.payload {meaning : Meaning} {values : Value → Prop} {form : Form}
    (holds : form.Holds meaning values) {tag : String} {type : Ref} {payload : Value}
    (listed : (form.members?.getD .empty).get? tag = some type)
    (has : values (.tagged tag payload)) : meaning type payload := by
  cases form with
  | row kind members bound =>
      cases kind with
      | struct =>
          rcases holds _ has with ⟨fields, impossible, _⟩
          cases impossible
      | variant => exact (holds.2 tag type listed payload).1 has
  | _ => cases listed

theorem Form.Holds.list_or_var {meaning : Meaning} {values : Value → Prop} {form : Form}
    (holds : form.Holds meaning values) (null : values .null)
    (nil : values (.list .nil)) :
    (∃ element, form = .list element) ∨ ∃ origin, form = .var origin := by
  cases form with
  | var origin => exact .inr ⟨origin, rfl⟩
  | list element => exact .inl ⟨element, rfl⟩
  | primitive own =>
      have hasNull := (holds _).1 null
      have hasNil := (holds _).1 nil
      cases own with
      | unit => cases hasNil
      | text | number | boolean =>
          rcases hasNull with ⟨_, impossible⟩
          cases impossible
  | function argument result =>
      rcases (holds _).1 null with ⟨_, impossible⟩
      cases impossible
  | row kind members bound =>
      cases kind with
      | struct =>
          rcases holds _ null with ⟨_, impossible, _⟩
          cases impossible
      | variant =>
          rcases holds.1 _ null with ⟨_, _, impossible, _⟩
          cases impossible

theorem Form.Holds.row {meaning : Meaning} {values : Value → Prop} {kind : RowKind}
    {members more : Row} {bound other : Option Row}
    (holds : (Form.row kind more other).Holds meaning values)
    (listed : ∀ name type, members.get? name = some type →
      ∃ same, more.get? name = some same ∧ meaning same = meaning type)
    (permitted : ∀ tag, more.Permits other tag → members.Permits bound tag) :
    (Form.row kind members bound).Holds meaning values := by
  cases kind with
  | struct =>
      intro value has
      rcases holds value has with ⟨fields, equal, parts⟩
      refine ⟨fields, equal, fun name type found => ?_⟩
      rcases listed name type found with ⟨same, sameFound, sameMeaning⟩
      rw [← sameMeaning]
      exact parts name same sameFound
  | variant =>
      refine ⟨fun value has => ?_, fun tag type found => ?_⟩
      · rcases holds.1 value has with ⟨tag, payload, equal, permits⟩
        exact ⟨tag, payload, equal, permitted tag permits⟩
      rcases listed tag type found with ⟨same, sameFound, sameMeaning⟩
      rw [← sameMeaning]
      exact holds.2 tag same sameFound

def Node.Holds (meaning : Meaning) (ref : Ref) (node : Node) : Prop :=
  match node.link with
  | some target => meaning ref = meaning target
  | none => node.form.Holds meaning (meaning ref)

def Meaning.Models (meaning : Meaning) (graph : TypeGraph) : Prop :=
  ∀ ref node, graph.node ref = .ok node → node.Holds meaning ref

namespace Meaning.Models

variable {meaning : Meaning} {graph : TypeGraph} {ref target : Ref} {node : Node}

theorem link (models : meaning.Models graph) (found : graph.node ref = .ok node)
    (linked : node.link = some target) : meaning ref = meaning target := by
  have holds := models ref node found
  rw [Node.Holds, linked] at holds
  exact holds

theorem form (models : meaning.Models graph) (found : graph.node ref = .ok node)
    (unlinked : node.link = none) : node.form.Holds meaning (meaning ref) := by
  have holds := models ref node found
  rw [Node.Holds, unlinked] at holds
  exact holds

end Meaning.Models

/-! ## Links -/

namespace TypeGraph

variable {graph : TypeGraph}

theorem follow_succ (fuel : Nat) (ref : Ref) :
    graph.follow (fuel + 1) ref = (graph.node ref).bind fun node =>
      match node.link with
      | none => .ok ref
      | some next => graph.follow fuel next := rfl

theorem exists_of_root {ref : Ref} {node : Node} (found : graph.root ref = .ok node) :
    ∃ target, graph.deref ref = .ok target ∧ graph.node target = .ok node := by
  rw [root] at found
  cases followed : graph.deref ref with
  | error fault =>
      rw [followed] at found
      cases found
  | ok target =>
      rw [followed] at found
      exact ⟨target, rfl, found⟩

theorem follow_allocate {fuel : Nat} {ref target : Ref}
    (followed : graph.follow fuel ref = .ok target) (node : Node) :
    (graph.allocate node).2.follow (fuel + 1) ref = .ok target := by
  induction fuel generalizing ref with
  | zero => cases followed
  | succ fuel induction =>
      rw [follow_succ] at followed
      cases found : graph.node ref with
      | error fault =>
          rw [found] at followed
          cases followed
      | ok own =>
          rw [found, Except.bind] at followed
          rw [follow_succ, node_allocate_of_ok found, Except.bind]
          cases linked : own.link with
          | none =>
              simp only [linked] at followed ⊢
              exact followed
          | some next =>
              simp only [linked] at followed ⊢
              exact induction followed

theorem root_allocate {ref : Ref} {old : Node}
    (found : graph.root ref = .ok old) (node : Node) :
    (graph.allocate node).2.root ref = .ok old := by
  rcases exists_of_root found with ⟨target, followed, nodeFound⟩
  have same : (graph.allocate node).2.deref ref = .ok target := by
    rw [deref, size_allocate]
    exact follow_allocate followed node
  rw [root, same]
  exact node_allocate_of_ok nodeFound node

theorem follow_remark (target : Ref) (change : Marks → Marks) (fuel : Nat) (ref : Ref) :
    (graph.update target fun node => { node with marks := change node.marks }).follow
      fuel ref = graph.follow fuel ref := by
  induction fuel generalizing ref with
  | zero => rfl
  | succ fuel induction =>
      rw [follow_succ, follow_succ]
      by_cases equal : ref = target
      · subst equal
        cases found : graph.node ref with
        | error fault => simp only [node_update_of_error found, Except.bind]
        | ok node =>
            rw [node_update_self found, Except.bind, Except.bind]
            cases linked : node.link with
            | none => rfl
            | some next => exact induction next
      · rw [node_update_of_ne graph equal]
        cases found : graph.node ref with
        | error fault => rfl
        | ok node =>
            rw [Except.bind, Except.bind]
            cases linked : node.link with
            | none => rfl
            | some next => exact induction next

theorem root_remark {ref : Ref} {node : Node}
    (found : graph.root ref = .ok node) (target : Ref) (change : Marks → Marks) :
    ∃ other, (graph.update target fun node =>
      { node with marks := change node.marks }).root ref = .ok other ∧
        other.form = node.form := by
  rcases exists_of_root found with ⟨own, followed, nodeFound⟩
  rw [root, deref, size_update, follow_remark, ← deref, followed]
  by_cases equal : own = target
  · subst equal
    exact ⟨_, node_update_self nodeFound _, rfl⟩
  · exact ⟨node, (node_update_of_ne graph equal _).trans nodeFound, rfl⟩

theorem of_follow {fuel : Nat} {ref target : Ref}
    (followed : graph.follow fuel ref = .ok target) :
    (∃ node, graph.node target = .ok node ∧ node.link = none) ∧
      ∀ meaning : Meaning, meaning.Models graph → meaning ref = meaning target := by
  induction fuel generalizing ref with
  | zero => cases followed
  | succ fuel induction =>
      rw [follow_succ] at followed
      cases found : graph.node ref with
      | error fault =>
          rw [found] at followed
          cases followed
      | ok node =>
          rw [found, Except.bind] at followed
          cases linked : node.link with
          | none =>
              simp only [linked] at followed
              cases followed
              exact ⟨⟨node, found, linked⟩, fun _ _ => rfl⟩
          | some next =>
              simp only [linked] at followed
              have later := induction followed
              refine ⟨later.1, fun meaning models => ?_⟩
              rw [models.link found linked]
              exact later.2 meaning models

theorem of_deref {ref target : Ref} (found : graph.deref ref = .ok target) :
    (∃ node, graph.node target = .ok node ∧ node.link = none) ∧
      ∀ meaning : Meaning, meaning.Models graph → meaning ref = meaning target :=
  of_follow found

theorem of_root {ref : Ref} {node : Node} (found : graph.root ref = .ok node) :
    node.link = none ∧
      ∀ meaning : Meaning, meaning.Models graph → node.form.Holds meaning
        (meaning ref) := by
  rcases exists_of_root found with ⟨target, followed, nodeFound⟩
  rcases of_deref followed with ⟨⟨own, ownFound, unlinked⟩, same⟩
  rw [nodeFound] at ownFound
  cases ownFound
  refine ⟨unlinked, fun meaning models => ?_⟩
  rw [same meaning models]
  exact models.form nodeFound unlinked

end TypeGraph

/-! ## Values that fit a type -/

/-- What is left open in a graph: the values of type variables, and what else an open
variant may carry. -/
structure Instantiation where
  values : Ref → Value → Prop
  others : Ref → String → Value → Prop

namespace TypeGraph

def Is (graph : TypeGraph) (ref : Ref) (form : Form) : Prop :=
  ∃ node, graph.node ref = .ok node ∧ node.link = none ∧ node.form = form

def LinksTo (graph : TypeGraph) (ref target : Ref) : Prop :=
  ∃ node, graph.node ref = .ok node ∧ node.link = some target

/-- A value fits a type. Records have exactly the fields of their bound, and sealed
variants only the tags of theirs. -/
inductive Fits (graph : TypeGraph) (instantiation : Instantiation) :
    Ref → Value → Prop where
  | link {ref target : Ref} {value : Value} (linked : graph.LinksTo ref target)
      (fits : Fits graph instantiation target value) : Fits graph instantiation ref value
  | var {ref : Ref} {value : Value} {origin : Option Origin}
    (is : graph.Is ref (.var origin))
      (chosen : instantiation.values ref value) : Fits graph instantiation ref value
  | primitive {ref : Ref} {value : Value} {own : Primitive}
      (is : graph.Is ref (.primitive own)) (has : own.Has value) :
      Fits graph instantiation ref value
  | function {ref argument result : Ref} {number : Nat}
      (is : graph.Is ref (.function argument result)) :
      Fits graph instantiation ref (.function number)
  | list {ref element : Ref} {value : Value} {items : Values}
    (is : graph.Is ref (.list element))
      (list : value.items? = some items)
      (fits : ∀ item ∈ items.toList, Fits graph instantiation element item) :
      Fits graph instantiation ref value
  | struct {ref : Ref} {members : Row} {bound : Option Row} {fields : Members}
      (is : graph.Is ref (.row .struct members bound))
      (present : ∀ row ∈ members :: bound.toList, ∀ name, row.contains name →
        (fields.get? name).isSome)
      (exact : ∀ row ∈ bound, ∀ name ∈ fields.names, row.contains name)
      (fits : ∀ row ∈ members :: bound.toList, ∀ name type part,
        row.get? name = some type → fields.get? name = some part →
        Fits graph instantiation type part) :
      Fits graph instantiation ref (.struct fields)
  | member {ref type : Ref} {members : Row} {bound : Option Row} {tag : String}
    {payload : Value}
      (is : graph.Is ref (.row .variant members bound))
      (named : members.get? tag = some type)
      (fits : Fits graph instantiation type payload) :
      Fits graph instantiation ref (.tagged tag payload)
  | allowed {ref type : Ref} {members bound : Row} {tag : String} {payload : Value}
      (is : graph.Is ref (.row .variant members (some bound)))
      (unnamed : members.get? tag = none)
      (named : bound.get? tag = some type)
      (fits : Fits graph instantiation type payload) :
      Fits graph instantiation ref (.tagged tag payload)
  | other {ref : Ref} {members : Row} {tag : String} {payload : Value}
      (is : graph.Is ref (.row .variant members none)) (unnamed : members.get? tag = none)
      (chosen : instantiation.others ref tag payload) :
      Fits graph instantiation ref (.tagged tag payload)

variable {graph : TypeGraph} {instantiation : Instantiation} {ref target : Ref}
  {form other : Form}

theorem Is.unique (left : graph.Is ref form) (right : graph.Is ref other) :
    form = other := by
  rcases left with ⟨node, found, _, rfl⟩
  rcases right with ⟨same, sameFound, _, rfl⟩
  rw [found] at sameFound
  cases sameFound
  rfl

theorem Is.not_linksTo (is : graph.Is ref form) : ¬ graph.LinksTo ref target := by
  rcases is with ⟨node, found, unlinked, _⟩
  rintro ⟨same, sameFound, linked⟩
  rw [found] at sameFound
  cases sameFound
  rw [unlinked] at linked
  cases linked

theorem LinksTo.unique {others : Ref} (left : graph.LinksTo ref target)
    (right : graph.LinksTo ref others) : target = others := by
  rcases left with ⟨node, found, linked⟩
  rcases right with ⟨same, sameFound, sameLinked⟩
  rw [found] at sameFound
  cases sameFound
  rw [linked] at sameLinked
  cases sameLinked
  rfl

namespace Fits

variable {value : Value}

theorem of_linksTo (linked : graph.LinksTo ref target)
    (fits : graph.Fits instantiation ref value) :
    graph.Fits instantiation target value := by
  cases fits with
  | link own fits =>
      rw [linked.unique own]
      exact fits
  | var is | primitive is | function is | list is | struct is | member is
  | allowed is | other is =>
      exact absurd linked is.not_linksTo

theorem of_var {origin : Option Origin} (is : graph.Is ref (.var origin))
    (fits : graph.Fits instantiation ref value) : instantiation.values ref value := by
  cases fits with
  | link linked => exact absurd linked is.not_linksTo
  | var same chosen => exact chosen
  | primitive same | function same | list same | struct same | member same
  | allowed same | other same => cases is.unique same

theorem of_primitive {own : Primitive} (is : graph.Is ref (.primitive own))
    (fits : graph.Fits instantiation ref value) : own.Has value := by
  cases fits with
  | link linked => exact absurd linked is.not_linksTo
  | primitive same has =>
      cases is.unique same
      exact has
  | var same | function same | list same | struct same | member same
  | allowed same | other same =>
      cases is.unique same

theorem of_function {argument result : Ref}
    (is : graph.Is ref (.function argument result))
    (fits : graph.Fits instantiation ref value) : ∃ number, value = .function number := by
  cases fits with
  | link linked => exact absurd linked is.not_linksTo
  | function same => exact ⟨_, rfl⟩
  | var same | primitive same | list same | struct same | member same
  | allowed same | other same =>
      cases is.unique same

theorem of_list {element : Ref} (is : graph.Is ref (.list element))
    (fits : graph.Fits instantiation ref value) :
    value.IsListOf (graph.Fits instantiation element) := by
  cases fits with
  | link linked => exact absurd linked is.not_linksTo
  | list same list items =>
      cases is.unique same
      exact ⟨_, list, items⟩
  | var same | primitive same | function same | struct same | member same
  | allowed same | other same => cases is.unique same

theorem of_struct {members : Row} {bound : Option Row}
    (is : graph.Is ref (.row .struct members bound))
    (fits : graph.Fits instantiation ref value) :
    value.HasFields (graph.Fits instantiation) members := by
  cases fits with
  | link linked => exact absurd linked is.not_linksTo
  | struct same present _ parts =>
      cases is.unique same
      refine ⟨_, rfl, fun name type found => ?_⟩
      have listed : members ∈ members :: bound.toList := List.mem_cons_self
      have has := present members listed name (by simp [Row.contains, found])
      rcases Option.isSome_iff_exists.1 has with ⟨part, partFound⟩
      exact ⟨part, partFound, parts members listed name type part found partFound⟩
  | var same | primitive same | function same | list same | member same
  | allowed same | other same => cases is.unique same

theorem of_variant {members : Row} {bound : Option Row}
    (is : graph.Is ref (.row .variant members bound))
    (fits : graph.Fits instantiation ref value) :
    ∃ tag payload, value = .tagged tag payload ∧ members.Permits bound tag ∧
      ∀ type, members.get? tag = some type → graph.Fits instantiation type payload := by
  cases fits with
  | link linked => exact absurd linked is.not_linksTo
  | member same named fits =>
      cases is.unique same
      refine ⟨_, _, rfl, fun row _ => .inl (by simp [Row.contains, named]),
        fun type found => ?_⟩
      rw [named] at found
      cases found
      exact fits
  | allowed same unnamed named =>
      cases is.unique same
      refine ⟨_, _, rfl, ?_, fun type found => by simp [unnamed] at found⟩
      rintro row ⟨⟩
      exact .inr (by simp [Row.contains, named])
  | other same unnamed =>
      cases is.unique same
      exact ⟨_, _, rfl, nofun, fun type found => by simp [unnamed] at found⟩
  | var same | primitive same | function same | list same | struct same =>
      cases is.unique same

end Fits

theorem models_fits (graph : TypeGraph) (instantiation : Instantiation) :
    Meaning.Models (graph.Fits instantiation) graph := by
  intro ref node found
  rw [Node.Holds]
  cases linked : node.link with
  | some target =>
      have linksTo : graph.LinksTo ref target := ⟨node, found, linked⟩
      funext value
      exact propext ⟨Fits.of_linksTo linksTo, .link linksTo⟩
  | none =>
      have is : graph.Is ref node.form := ⟨node, found, linked, rfl⟩
      simp only
      cases form : node.form with
      | var origin => trivial
      | primitive own =>
          rw [form] at is
          exact fun value => ⟨Fits.of_primitive is, .primitive is⟩
      | function argument result =>
          rw [form] at is
          refine fun value => ⟨Fits.of_function is, ?_⟩
          rintro ⟨number, rfl⟩
          exact .function is
      | list element =>
          rw [form] at is
          refine fun value => ⟨Fits.of_list is, ?_⟩
          rintro ⟨items, list, fits⟩
          exact .list is list fits
      | row kind members bound =>
          rw [form] at is
          cases kind with
          | struct => exact fun value => Fits.of_struct is
          | variant =>
              refine ⟨fun value fits => ?_, fun tag type named payload =>
                ⟨fun fits => ?_, ?_⟩⟩
              · rcases Fits.of_variant is fits with ⟨tag, payload, equal, permits, _⟩
                exact ⟨tag, payload, equal, permits⟩
              · rcases Fits.of_variant is fits with ⟨own, inner, equal, _, parts⟩
                cases equal
                exact parts type named
              · exact .member is named

end TypeGraph

end Casework
