import Casework.Pattern.Basic
import Casework.Source

/-!
Compiled expressions: expressions with their types, in a form that can be written as code.
-/

namespace Casework

/-- What compiling a case has found out about it. -/
structure CaseReport where
  position : Position
  type : Ref
  slotCount : Nat
  sealed : List Ref
  matchedType : String
  sealedTypes : List String
deriving DecidableEq, Repr, Inhabited

mutual

/-- A compiled expression. -/
inductive Code where
  | constant (value : Constant) (type : Ref)
  | static (owner name : String) (type : Ref)
  | name (binding : Binding)
  | tag (name : String) (payload : Code) (type : Ref)
  | call (routine : Routine) (left right : Code) (type : Ref)
  | list (items : Codes) (type : Ref)
  | select (record : Code) (field : String) (type : Ref)
  | caseOf (report : CaseReport) (value : Code) (arms : Arms)

inductive Codes where
  | nil
  | cons (head : Code) (tail : Codes)

inductive Arms where
  | nil
  | cons (pattern : Pattern) (body : Code) (tail : Arms)
  | rest (pattern : Pattern) (tail : Arms)

end

deriving instance DecidableEq for Code
deriving instance DecidableEq for Codes
deriving instance DecidableEq for Arms
deriving instance Repr for Code
deriving instance Repr for Codes
deriving instance Repr for Arms

instance : Inhabited Code := ⟨.constant .unit default⟩

namespace Code

def type : Code → Ref
  | constant _ type => type
  | static _ _ type => type
  | name binding => binding.type
  | tag _ _ type => type
  | call _ _ _ type => type
  | list _ type => type
  | select _ _ type => type
  | caseOf report _ _ => report.type

def isConstant : Code → Bool
  | constant _ _ => true
  | _ => false

end Code

def Codes.length : Codes → Nat
  | .nil => 0
  | .cons _ tail => tail.length + 1

namespace Arms

def patterns : Arms → List Pattern
  | nil => []
  | cons pattern _ tail => pattern :: tail.patterns
  | rest pattern tail => pattern :: tail.patterns

end Arms

end Casework
