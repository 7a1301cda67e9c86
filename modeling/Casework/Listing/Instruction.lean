import Casework.Listing.Constant

/-!
Instructions of the stack machine that compiled code runs on.

Operands are on a stack of values. Names of routines and classes of the target's library
are not part of an instruction; they come in when it is written.
-/

namespace Casework

/-- A place in the code to jump to. Labels that are given out count from zero; code that
cannot be reached may name any other. -/
structure Label where
  number : Int
deriving DecidableEq, Repr, Inhabited

def Label.name (label : Label) : String := "L" ++ toString label.number

inductive Condition where
  | same
  | different
  | holds
  | fails
  | null
  | notNull
deriving DecidableEq, Repr, Inhabited

namespace Condition

def name : Condition → String
  | same => "ifsame"
  | different => "ifnotsame"
  | holds => "iftrue"
  | fails => "iffalse"
  | null => "ifnull"
  | notNull => "ifnonnull"

def operands : Condition → Nat
  | same => 2
  | different => 2
  | _ => 1

def ofCode (code : UInt8) : Condition :=
  match code.toNat with
  | 1 => different
  | 2 => holds
  | 3 => fails
  | 4 => null
  | 5 => notNull
  | _ => same

end Condition

inductive Shape where
  | list
  | struct
  | tag
  | unknown (code : UInt8)
deriving DecidableEq, Repr, Inhabited

def Shape.ofCode (code : UInt8) : Shape :=
  match code.toNat with
  | 0 => .list
  | 1 => .struct
  | 2 => .tag
  | _ => .unknown code

inductive Routine where
  | isEmpty
  | first
  | rest
  | cons
  | noMatch
  | add
  | subtract
  | multiply
  | unknown (code : UInt8)
deriving DecidableEq, Repr, Inhabited

def Routine.ofCode (code : UInt8) : Routine :=
  match code.toNat with
  | 0 => .isEmpty
  | 1 => .first
  | 2 => .rest
  | 3 => .cons
  | 4 => .noMatch
  | 5 => .add
  | 6 => .subtract
  | 7 => .multiply
  | _ => .unknown code

/-- An instruction. -/
inductive Instruction where
  | label (label : Label)
  | dup
  | dupBelow
  | swap
  | pop
  | store (slot : Int)
  | load (slot : Int)
  | constant (value : Constant)
  | cast (shape : Shape)
  | equals
  | branch (condition : Condition) (target : Label)
  | jump (target : Label)
  | field (name : String)
  | tagName
  | tagPayload
  | newTag (tag : String)
  | invoke (routine : Routine) (operands : Int) (hasResult : Bool)
  | static (owner name : String)
deriving DecidableEq, Repr, Inhabited

namespace Instruction

/-- How many values an instruction takes from the stack. -/
def pops : Instruction → Int
  | label _ => 0
  | dup => 1
  | dupBelow => 2
  | swap => 2
  | pop => 1
  | store _ => 1
  | load _ => 0
  | constant _ => 0
  | cast _ => 1
  | equals => 2
  | branch condition _ => condition.operands
  | jump _ => 0
  | field _ => 1
  | tagName => 1
  | tagPayload => 1
  | newTag _ => 1
  | invoke _ operands _ => operands
  | static _ _ => 0

def pushes : Instruction → Int
  | label _ => 0
  | dup => 2
  | dupBelow => 3
  | swap => 2
  | pop => 0
  | store _ => 0
  | load _ => 1
  | constant _ => 1
  | cast _ => 1
  | equals => 1
  | branch _ _ => 0
  | jump _ => 0
  | field _ => 1
  | tagName => 1
  | tagPayload => 1
  | newTag _ => 1
  | invoke _ _ hasResult => if hasResult then 1 else 0
  | static _ _ => 1

-- The equations are worked out once, here, and not by each proof about heights of the
-- stack.
attribute [grind =] pops pushes

def word : Instruction → String
  | label _ => ""
  | dup => "dup"
  | dupBelow => "dup_x1"
  | swap => "swap"
  | pop => "pop"
  | store _ => "store"
  | load _ => "load"
  | constant _ => "const"
  | cast _ => "checkcast"
  | equals => "equals"
  | branch condition _ => condition.name
  | jump _ => "goto"
  | field _ => "field"
  | tagName => "tagname"
  | tagPayload => "tagpayload"
  | newTag _ => "newtag"
  | invoke _ _ _ => "invoke"
  | static _ _ => "getstatic"

end Instruction

def popMany (count : Nat) : List Instruction := List.replicate count .pop

end Casework
