import Casework.Listing.Supply
import Casework.TypeGraph.Row

/-!
Patterns, as they are once a case has been checked.
-/

namespace Casework

/-- A name bound to a value. -/
structure Binding where
  name : String
  slot : Slot
  type : Ref
deriving DecidableEq, Repr, Inhabited

mutual

/-- Patterns, of structs field by field: a field that is not named is never read. -/
inductive Pattern where
  | wildcard
  | bind (binding : Binding)
  | literal (value : Constant) (type : Ref)
  | cons (head tail : Pattern)
  | emptyList
  | fixedList (items : Patterns)
  | record (fields : PatternFields)
  | variant (tag : String) (payload : Pattern)

inductive Patterns where
  | nil
  | cons (head : Pattern) (tail : Patterns)

inductive PatternFields where
  | nil
  | cons (name : String) (pattern : Pattern) (tail : PatternFields)

end

deriving instance DecidableEq for Pattern
deriving instance DecidableEq for Patterns
deriving instance DecidableEq for PatternFields
deriving instance Repr for Pattern
deriving instance Repr for Patterns
deriving instance Repr for PatternFields

instance : Inhabited Pattern := ⟨.wildcard⟩

namespace Patterns

def toList : Patterns → List Pattern
  | nil => []
  | cons head tail => head :: tail.toList

def ofList : List Pattern → Patterns
  | [] => nil
  | head :: tail => cons head (ofList tail)

end Patterns

namespace PatternFields

def toList : PatternFields → List (String × Pattern)
  | nil => []
  | cons name pattern tail => (name, pattern) :: tail.toList

def ofList : List (String × Pattern) → PatternFields
  | [] => nil
  | (name, pattern) :: tail => cons name pattern (ofList tail)

end PatternFields

namespace Pattern

def isWildcard : Pattern → Bool
  | wildcard => true
  | _ => false

/-- Whether a pattern is written to match every value. -/
def isIrrefutable : Pattern → Bool
  | wildcard => true
  | bind _ => true
  | _ => false

inductive Outline where
  | wildcard
  | bind
  | literal
  | cons
  | emptyList
  | fixedList
  | record
  | variant
deriving DecidableEq, Repr

def outline : Pattern → Outline
  | wildcard => .wildcard
  | bind _ => .bind
  | literal _ _ => .literal
  | cons _ _ => .cons
  | emptyList => .emptyList
  | fixedList _ => .fixedList
  | record _ => .record
  | variant _ _ => .variant

end Pattern

def PatternFields.readCount : PatternFields → Nat
  | .nil => 0
  | .cons _ pattern tail => (if pattern.isWildcard then 0 else 1) + tail.readCount

end Casework
