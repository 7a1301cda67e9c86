/-!
Rows: labelled types in the order in which the labels first appeared.
-/

namespace Casework

/-- Names a node of a type graph by its number, counted from one. A reference that names
no node can be stored and passed around; only following it is a fault. -/
structure Ref where
  number : Int
deriving DecidableEq, Repr, Inhabited

/-- Labelled types in order of first appearance. -/
structure Row where
  entries : List (String × Ref)
deriving DecidableEq, Repr, Inhabited

namespace Row

def empty : Row := ⟨[]⟩

def findEntry (label : String) : List (String × Ref) → Option Ref
  | [] => none
  | (own, ref) :: rest => if own = label then some ref else findEntry label rest

def get? (row : Row) (label : String) : Option Ref :=
  findEntry label row.entries

def contains (row : Row) (label : String) : Bool :=
  (row.get? label).isSome

def labels (row : Row) : List String :=
  row.entries.map Prod.fst

def refs (row : Row) : List Ref :=
  row.entries.map Prod.snd

def putEntry (label : String) (ref : Ref) : List (String × Ref) → List (String × Ref)
  | [] => [(label, ref)]
  | (own, old) :: rest =>
      if own = label then (label, ref) :: rest else (own, old) :: putEntry label ref rest

def put (row : Row) (label : String) (ref : Ref) : Row :=
  ⟨putEntry label ref row.entries⟩

/-- A row of the given entries, the last one counting for each label. -/
def ofList (entries : List (String × Ref)) : Row :=
  entries.foldl (fun row (label, ref) => row.put label ref) empty

def within (row other : Row) : Row :=
  ⟨row.entries.filter fun (label, _) => other.contains label⟩

example :
    (ofList [("a", ⟨1⟩), ("b", ⟨2⟩), ("a", ⟨3⟩)]).entries = [("a", ⟨3⟩), ("b", ⟨2⟩)] := by
  decide

@[simp] theorem get?_empty (label : String) : empty.get? label = none := rfl

theorem findEntry_putEntry_self (label : String) (ref : Ref)
    (entries : List (String × Ref)) :
    findEntry label (putEntry label ref entries) = some ref := by
  induction entries with
  | nil => simp [putEntry, findEntry]
  | cons entry rest induction =>
      obtain ⟨own, old⟩ := entry
      by_cases equal : own = label <;> simp [putEntry, findEntry, equal, induction]

@[simp] theorem get?_put_self (row : Row) (label : String) (ref : Ref) :
    (row.put label ref).get? label = some ref :=
  findEntry_putEntry_self label ref row.entries

theorem findEntry_putEntry_of_ne {label other : String}
    (different : other ≠ label) (ref : Ref) (entries : List (String × Ref)) :
    findEntry other (putEntry label ref entries) = findEntry other entries := by
  induction entries with
  | nil => simp [putEntry, findEntry, different.symm]
  | cons entry rest induction =>
      obtain ⟨own, old⟩ := entry
      by_cases equal : own = label
      · subst equal
        simp [putEntry, findEntry, different.symm]
      · simp [putEntry, findEntry, equal, induction]

theorem get?_put_of_ne (row : Row) {label other : String}
    (different : other ≠ label) (ref : Ref) :
    (row.put label ref).get? other = row.get? other :=
  findEntry_putEntry_of_ne different ref row.entries

end Row

end Casework
