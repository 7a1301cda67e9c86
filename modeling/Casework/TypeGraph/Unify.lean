import Casework.TypeGraph.Printer
import Casework.TypeGraph.Unfolding

/-!
Unification: making two types the same.

A type variable is bound to the other type, with no check whether it occurs inside, so
unification may tie a type to itself. Of two types with parts, the second is linked to the
first before their parts are unified: every pair that is looked at either is already the
same or costs the graph one unlinked node, which keeps unification of types that contain
themselves finite. Positions of an unfolding are expanded before they are looked at.
-/

namespace Casework.Build

def refuse {α : Type} (left right : Ref) (reason : String) : Build α := do
  let left ← text left
  let right ← text right
  throw (.mismatch ⟨left, right, reason⟩)

def forward (ref target : Ref) : Build Unit := do
  let moving := (← node ref).marks.moving
  let isList := (← node target).form.kind = .list
  update ref fun node => { node with link := some target, marks := node.marks.staying }
  remark target fun marks =>
    let marks := marks.union moving
    if isList then marks.settleForms else marks

/-! ## Rows -/

def jointBound : Option Row → Option Row → Option (List String)
  | none, none => none
  | some bound, none => some bound.labels
  | none, some bound => some bound.labels
  | some left, some right => some (left.within right).labels

def firstOutside (allowed : List String) (names : List String) : Option String :=
  names.find? fun name => !allowed.contains name

structure Merged where
  members : Row
  bound : Option Row
  pairs : List (Ref × Ref)

def mergeRows (leftMembers : Row) (leftBound : Option Row) (rightMembers : Row)
    (rightBound : Option Row) : Merged :=
  let members := rightMembers.entries.foldl
    (fun row (name, type) => if row.contains name then row else
      row.put name type) leftMembers
  let memberPairs := rightMembers.entries.filterMap fun (name, right) =>
    (leftMembers.get? name).map (·, right)
  let bound := match leftBound, rightBound with
    | some left, some right => some (left.within right)
    | some left, none => some left
    | none, right => right
  let boundPairs := match leftBound, rightBound with
    | some left, some right =>
        left.entries.filterMap fun (name, own) => (right.get? name).map (own, ·)
    | _, _ => []
  let crossPairs := members.entries.filterMap fun (name, type) =>
    match (bound.bind (·.get? name)) with
    | some other => if other = type then none else some (type, other)
    | none => none
  ⟨members, bound, memberPairs ++ boundPairs ++ crossPairs⟩

def outsideReason (kind : RowKind) (name : String) : String :=
  match kind with
  | .variant => "tag " ++ name ++ " is not allowed"
  | .struct => "field " ++ name ++ " is missing"

def unifyRows (kind : RowKind) (left right : Ref) (leftMembers : Row)
    (leftBound : Option Row) (rightMembers : Row) (rightBound : Option Row) :
    Build (List (Ref × Ref)) := do
  match jointBound leftBound rightBound with
  | none => pure ()
  | some allowed =>
      if leftBound.isSome && rightBound.isSome && allowed.isEmpty then
        refuse left right ""
      match firstOutside allowed (leftMembers.labels ++ rightMembers.labels) with
      | some name => refuse left right (outsideReason kind name)
      | none => pure ()
  let merged := mergeRows leftMembers leftBound rightMembers rightBound
  let matched := (← node right).matched
  update left fun node =>
    { node with
      form := .row kind merged.members merged.bound
      matched := matched.foldl (fun own tag => own.insert tag) node.matched }
  forward right left
  return merged.pairs

/-! ## Types -/

def unifyStep (left right : Ref) : Build (List (Ref × Ref)) := do
  expand left
  expand right
  let left ← deref left
  let right ← deref right
  if left = right then return []
  match (← node left).form, (← node right).form with
  | .var _, _ =>
      update left fun node => { node with link := some right }
      return []
  | _, .var _ =>
      update right fun node => { node with link := some left }
      return []
  | .primitive own, .primitive other =>
      if own = other then
        forward right left
        return []
      else refuse left right ""
  | .function argument result, .function otherArgument otherResult =>
      forward right left
      return [(argument, otherArgument), (result, otherResult)]
  | .list element, .list otherElement =>
      forward right left
      return [(element, otherElement)]
  | .row kind members bound, .row otherKind otherMembers otherBound =>
      if kind = otherKind then
        unifyRows kind left right members bound otherMembers otherBound
      else refuse left right ""
  | _, _ => refuse left right ""

/-- Unifies pairs of types, the pairs that come up before those that wait. -/
def unifyPairs : (fuel : Nat) → List (Ref × Ref) → Build Unit
  | _, [] => return
  | 0, _ :: _ => throw (.fault .endless)
  | fuel + 1, (left, right) :: waiting => do
      let pairs ← unifyStep left right
      unifyPairs fuel (pairs ++ waiting)

/-- How many pairs a unification may look at. A path through a graph that does not come
back to a node is settled by the references it follows, so there are no more paths than
sets of references. -/
def unifyFuel (graph : TypeGraph) : Nat :=
  Nat.pow 2 (4 + graph.nodes.foldl (fun sum node => sum + 1 + node.form.refs.length) 0)

def unify (left right : Ref) : Build Unit := do
  unifyPairs (unifyFuel (← get)) [(left, right)]

end Casework.Build
