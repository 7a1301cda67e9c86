import Casework.Listing.Instruction

/-!
The target's library: what its routines and classes are called in a listing.
-/

namespace Casework

/-- The names of the routines and classes that compiled code uses. -/
structure Target where
  isEmpty : String
  first : String
  rest : String
  cons : String
  noMatch : String
  add : String
  subtract : String
  multiply : String
  listClass : String
  structClass : String
  tagClass : String
deriving DecidableEq, Repr

namespace Target

def standard : Target where
  isEmpty := "yeti/lang/AList.isEmpty"
  first := "yeti/lang/AList.first"
  rest := "yeti/lang/AList.rest"
  cons := "yeti/lang/LList.<init>"
  noMatch := "yeti/lang/Core.badMatch"
  add := "yeti/lang/Num.add"
  subtract := "yeti/lang/Num.sub"
  multiply := "yeti/lang/Num.mul"
  listClass := "yeti/lang/AList"
  structClass := "yeti/lang/Struct"
  tagClass := "yeti/lang/Tag"

instance : Inhabited Target := ⟨standard⟩

def choose (name fallback : String) : String :=
  if name.isEmpty then fallback else name

def orElse (target fallback : Target) : Target where
  isEmpty := choose target.isEmpty fallback.isEmpty
  first := choose target.first fallback.first
  rest := choose target.rest fallback.rest
  cons := choose target.cons fallback.cons
  noMatch := choose target.noMatch fallback.noMatch
  add := choose target.add fallback.add
  subtract := choose target.subtract fallback.subtract
  multiply := choose target.multiply fallback.multiply
  listClass := choose target.listClass fallback.listClass
  structClass := choose target.structClass fallback.structClass
  tagClass := choose target.tagClass fallback.tagClass

def routineName (target : Target) : Routine → String
  | .isEmpty => target.isEmpty
  | .first => target.first
  | .rest => target.rest
  | .cons => target.cons
  | .noMatch => target.noMatch
  | .add => target.add
  | .subtract => target.subtract
  | .multiply => target.multiply
  | .unknown code => "capability(" ++ toString code.toNat ++ ")"

def className (target : Target) : Shape → String
  | .list => target.listClass
  | .struct => target.structClass
  | .tag => target.tagClass
  | .unknown code => "shape(" ++ toString code.toNat ++ ")"

/-- What follows the word of an instruction, empty if nothing does. -/
def argument (target : Target) : Instruction → String
  | .label label => label.name
  | .store slot => toString slot
  | .load slot => toString slot
  | .constant value => value.written
  | .cast shape => target.className shape
  | .branch _ label => label.name
  | .jump label => label.name
  | .field name => name
  | .newTag tag => tag
  | .invoke routine operands _ => target.routineName routine ++ "/" ++ toString operands
  | .static owner name => owner ++ "." ++ name
  | _ => ""

def line (target : Target) (instruction : Instruction) : String :=
  let argument := target.argument instruction
  match instruction with
  | .label _ => argument ++ ":"
  | _ => "\t" ++ instruction.word ++ (if argument.isEmpty then "" else " " ++ argument)

def lines (target : Target) (code : List Instruction) : List String :=
  code.map target.line

end Target

end Casework
