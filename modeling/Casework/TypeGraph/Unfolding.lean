import Casework.TypeGraph.Basic

/-!
Unfoldings: copies of a type made one level at a time.

Every position reached through an unfolding gets a node of its own, so marks written at
one position never show at another, even where the copied type shares parts or contains
itself. A position starts as a type variable that remembers what it copies. Expanding it
makes the copied node, whose parts are positions again. Folding ends an unfolding:
positions that were never expanded are linked to what they copy.
-/

namespace Casework.Build

def addCopy (copied position : Ref) : List (Ref × List Ref) → List (Ref × List Ref)
  | [] => [(copied, [position])]
  | (own, positions) :: rest =>
      if own = copied then (own, positions ++ [position]) :: rest
      else (own, positions) :: addCopy copied position rest

def updateUnfolding (unfolding : Nat) (change : Unfolding → Unfolding) : Build Unit :=
  modify fun graph =>
    { graph with unfoldings := graph.unfoldings.modify unfolding change }

def newPosition (unfolding : Nat) (copied : Ref) : Build Ref := do
  let copied ← deref copied
  let kind := (← node copied).form.kind
  let position ← allocate { form := .var (some ⟨copied, unfolding⟩) }
  updateUnfolding unfolding fun own =>
    { own with
      positions := own.positions ++ [position]
      copies := if kind = .var then addCopy copied position own.copies else own.copies }
  return position

/-- Starts an unfolding of a type and gives its number. -/
def unfold (ref : Ref) : Build Nat := do
  let copied ← deref ref
  let unfolding := (← get).unfoldings.size
  modify fun graph =>
    { graph with unfoldings := graph.unfoldings.push { root := copied } }
  let root ← newPosition unfolding copied
  updateUnfolding unfolding fun own => { own with root := root }
  return unfolding

def unfoldingRoot (unfolding : Nat) : Build Ref := do
  return ((← get).unfoldings[unfolding]?.getD default).root

def sharedPositions (unfolding : Nat) : Build (List (List Ref)) := do
  let copies := ((← get).unfoldings[unfolding]?.getD default).copies
  return (copies.map Prod.snd).filter (1 < ·.length)

def newPositions (unfolding : Nat) (known : Row) :
    List (String × Ref) → Build (List (String × Ref) × Row)
  | [] => return ([], known)
  | (name, copied) :: rest => do
      match known.get? name with
      | some position =>
          let (entries, known) ← newPositions unfolding known rest
          return ((name, position) :: entries, known)
      | none =>
          let position ← newPosition unfolding copied
          let (entries, known) ← newPositions unfolding (known.put name position) rest
          return ((name, position) :: entries, known)

def copyForm (unfolding : Nat) : Form → Build Form
  | .var _ => return .var none
  | .primitive primitive => return .primitive primitive
  | .function argument result => do
      let argument ← newPosition unfolding argument
      return .function argument (← newPosition unfolding result)
  | .list element => do
      return .list (← newPosition unfolding element)
  | .row kind members bound => do
      let (entries, known) ← newPositions unfolding .empty members.entries
      match bound with
      | none => return .row kind ⟨entries⟩ none
      | some bound =>
          let (bounds, _) ← newPositions unfolding known bound.entries
          return .row kind ⟨entries⟩ (some ⟨bounds⟩)

def expandWithin : (fuel : Nat) → Ref → Build Unit
  | 0, _ => throw (.fault .endless)
  | fuel + 1, ref => do
      let ref ← deref ref
      match (← node ref).form with
      | .var (some origin) => do
          expandWithin fuel origin.copied
          let form := (← root origin.copied).form
          if form.kind = .var then return
          let copy ← allocate { form := .var none }
          let form ← copyForm origin.unfolding form
          update copy fun node => { node with form := form }
          update ref fun node => { node with form := .var none, link := some copy }
      | _ => return

/-- Makes the node a position stands for. Nothing happens to a type that is no position,
or that copies a type variable. -/
def expand (ref : Ref) : Build Unit := do
  expandWithin ((← get).size + 1) ref

def foldPosition (position : Ref) : Build Unit :=
  update position fun node =>
    match node.form with
    | .var (some origin) =>
        { node with form := .var none, link := node.link.or (some origin.copied) }
    | _ => node

def fold (unfolding : Nat) : Build Unit := do
  let positions := ((← get).unfoldings[unfolding]?.getD default).positions
  positions.forM foldPosition
  updateUnfolding unfolding fun own => { own with positions := [] }

end Casework.Build
