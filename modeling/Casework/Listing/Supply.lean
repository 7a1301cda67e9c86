import Casework.Listing.Instruction

/-!
Supplies: labels and slots that code being written has not used yet.
-/

namespace Casework

/-- The numbers of the next label and the next slot. -/
structure Supply where
  label : Nat := 0
  slot : Int := 0
deriving DecidableEq, Repr, Inhabited

abbrev Emit := StateM Supply

namespace Emit

def newLabel : Emit Label :=
  modifyGet fun supply => (⟨supply.label⟩, { supply with label := supply.label + 1 })

def reserve (count : Nat) : Emit Int :=
  modifyGet fun supply => (supply.slot, { supply with slot := supply.slot + count })

end Emit

/-- Where a value is kept: in a slot of its own, or among the bindings of a case, which
come after all slots taken before. Cases are counted from the outermost one whose bindings
are in scope. -/
inductive Slot where
  | absolute (number : Int)
  | inCase (level index : Nat)
deriving DecidableEq, Repr, Inhabited

namespace Slot

def number (bases : List Int) : Slot → Int
  | absolute number => number
  | inCase level index => bases[level]?.getD 0 + index

def index : Slot → Int
  | absolute number => number
  | inCase _ index => index

end Slot

end Casework
