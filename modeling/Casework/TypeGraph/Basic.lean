import Casework.Failure
import Casework.TypeGraph.Marks
import Casework.TypeGraph.Row

/-!
Type graphs: types that share parts and may contain themselves.

A type is a node, named by a reference. A type variable that has been bound, and a type
that has been found equal to another, are linked to the type that stands for them. Links
are never shortened, so marks on the nodes along the way stay visible.
-/

namespace Casework

/-- Structs and variants: a row read as "and" or as "or". -/
inductive RowKind where
  | struct
  | variant
deriving DecidableEq, Repr, Inhabited

def RowKind.kind : RowKind → Kind
  | struct => .struct
  | variant => .variant

/-- The type that a position of an unfolding copies, and the number of the unfolding. -/
structure Origin where
  copied : Ref
  unfolding : Nat
deriving DecidableEq, Repr

inductive Form where
  | var (origin : Option Origin)
  | primitive (primitive : Primitive)
  | function (argument result : Ref)
  | list (element : Ref)
  /-- The members are the fields a struct must have, or the tags a variant may carry. A
  bound lists all fields a record has, or all tags a sealed variant accepts. -/
  | row (kind : RowKind) (members : Row) (bound : Option Row)
deriving DecidableEq, Repr, Inhabited

namespace Form

def kind : Form → Kind
  | var _ => .var
  | primitive own => .primitive own
  | function _ _ => .function
  | list _ => .list
  | row rowKind _ _ => rowKind.kind

def parameters : Form → List Ref
  | function argument result => [argument, result]
  | list element => [element]
  | _ => []

def members? : Form → Option Row
  | row _ members _ => some members
  | _ => none

def bound? : Form → Option Row
  | row _ _ bound => bound
  | _ => none

def refs : Form → List Ref
  | row _ members bound => members.refs ++ (bound.map Row.refs).getD []
  | form => form.parameters

end Form

/-- A node may be linked to the node that stands for it. It remembers the tags that
patterns have tested, the marks that they have left, and whether it is being walked. -/
structure Node where
  form : Form
  link : Option Ref := none
  matched : List String := []
  marks : Marks := {}
  walked : Bool := false
deriving DecidableEq, Repr, Inhabited

/-- The copy of a type that is unfolded, the positions that have not been folded, and for
each type variable the positions that copy it, in order of first appearance. -/
structure Unfolding where
  root : Ref
  positions : List Ref := []
  copies : List (Ref × List Ref) := []
deriving DecidableEq, Repr, Inhabited

/-- All types of one compilation. -/
structure TypeGraph where
  nodes : Array Node := #[]
  unfoldings : Array Unfolding := #[]
deriving DecidableEq, Repr, Inhabited

namespace TypeGraph

def size (graph : TypeGraph) : Nat := graph.nodes.size

def index? (graph : TypeGraph) (ref : Ref) : Option Nat :=
  if 0 < ref.number && ref.number ≤ graph.size then some (ref.number.toNat - 1) else none

def node (graph : TypeGraph) (ref : Ref) : Except Fault Node :=
  match (graph.index? ref).bind (graph.nodes[·]?) with
  | some node => .ok node
  | none => .error (.invalidRef ref.number)

def update (graph : TypeGraph) (ref : Ref) (change : Node → Node) : TypeGraph :=
  match graph.index? ref with
  | some index => { graph with nodes := graph.nodes.modify index change }
  | none => graph

def allocate (graph : TypeGraph) (node : Node) : Ref × TypeGraph :=
  (⟨graph.size + 1⟩, { graph with nodes := graph.nodes.push node })

def follow (graph : TypeGraph) : (fuel : Nat) → Ref → Except Fault Ref
  | 0, _ => .error .endless
  | fuel + 1, ref => do
      let node ← graph.node ref
      match node.link with
      | none => return ref
      | some next => follow graph fuel next

/-- The type that stands for a type. A chain of links that ends visits no node twice. -/
def deref (graph : TypeGraph) (ref : Ref) : Except Fault Ref :=
  graph.follow (graph.size + 1) ref

def root (graph : TypeGraph) (ref : Ref) : Except Fault Node := do
  graph.node (← graph.deref ref)

end TypeGraph

/-! ## Computations on a type graph -/

/-- Computations that change a type graph and may fail. What was changed before a failure
stays changed. -/
abbrev Build := ExceptT Failure (StateM TypeGraph)

namespace Build

def on {α : Type} (graph : TypeGraph) (build : Build α) : Except Failure α × TypeGraph :=
  (ExceptT.run build).run graph

def look {α : Type} (query : TypeGraph → Except Fault α) : Build α := do
  match query (← get) with
  | .ok value => return value
  | .error fault => throw (.fault fault)

def node (ref : Ref) : Build Node := look (·.node ref)

def deref (ref : Ref) : Build Ref := look (·.deref ref)

def root (ref : Ref) : Build Node := look (·.root ref)

def allocate (node : Node) : Build Ref :=
  modifyGet (·.allocate node)

def update (ref : Ref) (change : Node → Node) : Build Unit := do
  let _ ← node ref
  modify (·.update ref change)

def updateRoot (ref : Ref) (change : Node → Node) : Build Unit := do
  update (← deref ref) change

/-! ## New types -/

def newVar : Build Ref := allocate { form := .var none }

/-- A new node for each use of a primitive, so that marks on it stay local. -/
def newPrimitive (primitive : Primitive) : Build Ref :=
  allocate { form := .primitive primitive }

def newOfKind (kind : Kind) : Build Ref :=
  match kind with
  | .primitive primitive => newPrimitive primitive
  | kind => throw (.fault (.notPrimitive kind))

def newFunction (argument result : Ref) : Build Ref :=
  allocate { form := .function argument result }

def newList (element : Ref) : Build Ref := allocate { form := .list element }

/-- A struct that has at least the given fields, or a variant that may carry the given
tags. -/
def newOpen (kind : RowKind) (entries : List (String × Ref)) : Build Ref :=
  allocate { form := .row kind (.ofList entries) none }

/-- A record of exactly the given fields, or a variant sealed to the given tags. -/
def newClosed (kind : RowKind) (entries : List (String × Ref)) : Build Ref :=
  allocate { form := .row kind (.ofList entries) (some (.ofList entries)) }

/-! ## Reading -/

def kind (ref : Ref) : Build Kind := do
  return (← root ref).form.kind

def isUnbound (ref : Ref) : Build Bool := do
  let node ← node ref
  return node.form.kind == .var && node.link.isNone

def parameters (ref : Ref) : Build (List Ref) := do
  return (← root ref).form.parameters

def parameter (ref : Ref) : Build Ref := do
  let node ← root ref
  match node.form.parameters with
  | first :: _ => return first
  | [] => throw (.fault (.noParameters node.form.kind))

def members (ref : Ref) : Build Row := do
  return (← root ref).form.members?.getD .empty

def member? (ref : Ref) (name : String) : Build (Option Ref) := do
  return (← members ref).get? name

def bound? (ref : Ref) : Build (Option Row) := do
  return (← root ref).form.bound?

def allows (ref : Ref) (name : String) : Build Bool := do
  return (← bound? ref).all (·.contains name)

def isSealed (ref : Ref) : Build Bool := do
  match (← root ref).form with
  | .row .variant _ (some _) => return true
  | _ => return false

def marks (ref : Ref) : Build Marks := do
  return (← node ref).marks

def hasAny (ref : Ref) : Build Bool := do
  return (← marks ref).any

def hasMatched (ref : Ref) (tag : String) : Build Bool := do
  return (← root ref).matched.contains tag

/-! ## Walking -/

def enter (ref : Ref) : Build Bool := do
  if (← node ref).walked then return false
  update ref fun node => { node with walked := true }
  return true

def leave (ref : Ref) : Build Unit :=
  update ref fun node => { node with walked := false }

/-! ## Writing -/

/-- Binds a type variable. A variable bound to no reference at all stays unbound. -/
def bind (ref target : Ref) : Build Unit := do
  unless ← isUnbound ref do
    throw (.fault (.notUnbound ref.number))
  update ref fun node =>
    { node with link := if target.number = 0 then none else some target }

def remark (ref : Ref) (change : Marks → Marks) : Build Unit :=
  update ref fun node => { node with marks := change node.marks }

def setAny (ref : Ref) : Build Unit := remark ref fun marks => { marks with any := true }

def clearAny (ref : Ref) : Build Unit :=
  remark ref fun marks => { marks with any := false }

def putAny (ref : Ref) (any : Bool) : Build Unit :=
  remark ref fun marks => { marks with any := any }

def putMember (ref : Ref) (name : String) (type : Ref) : Build Unit := do
  match (← root ref).form with
  | .row kind members bound =>
      updateRoot ref fun node =>
        { node with form := .row kind (members.put name type) bound }
  | form => throw (.fault (.noMembers form.kind))

/-- Seals an open variant to the tags it has. Tells whether there was anything to seal. -/
def sealVariant (ref : Ref) : Build Bool := do
  match (← root ref).form with
  | .row .variant members none =>
      updateRoot ref fun node =>
        { node with
          form := .row .variant members (some members)
          marks := { node.marks with collecting := false } }
      return true
  | _ => return false

def noteMatched (ref : Ref) (tag : String) : Build Unit :=
  updateRoot ref fun node => { node with matched := node.matched.insert tag }

def noteForms (ref : Ref) (forms : Marks) : Build Unit := do
  remark (← deref ref) fun marks => (marks.union forms.forms).settleForms

def listForms (ref : Ref) : Build Marks := do
  return (← root ref).marks.forms

def restoreForms (ref : Ref) (forms : Marks) : Build Unit := do
  remark (← deref ref) fun marks => (marks.withoutForms.union forms.forms).settleForms

end Build

end Casework
