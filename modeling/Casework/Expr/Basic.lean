import Casework.Number.Basic
import Casework.Source
import Casework.Text.Uppercase

/-!
Expressions of the surface language. Patterns are expressions too: which expressions are
patterns is decided when a case is compiled.
-/

namespace Casework

/-- The operators that stand between two expressions. -/
inductive Operator where
  | cons
  | add
  | subtract
  | multiply
deriving DecidableEq, Repr, Inhabited

def Operator.text : Operator → String
  | cons => "::"
  | add => "+"
  | subtract => "-"
  | multiply => "*"

mutual

inductive Expr where
  | symbol (position : Position) (name : String)
  | number (position : Position) (text : String) (value : Number)
  | string (position : Position) (value : List UInt8)
  | unit (position : Position)
  | static (position : Position) (owner field : String)
  | list (position : Position) (items : Exprs)
  | apply (position : Position) (name : String) (argument : Expr)
  | binary (position : Position) (operator : Operator) (left right : Expr)
  | record (position : Position) (fields : Fields)
  | select (position : Position) (record : Expr) (field : String)
  | caseOf (position : Position) (value : Expr) (choices : Choices)

inductive Exprs where
  | nil
  | cons (head : Expr) (tail : Exprs)

inductive Fields where
  | nil
  | cons (position : Position) (name : String) (value : Expr) (tail : Fields)

inductive Choices where
  | nil
  | cons (position : Position) (pattern body : Expr) (tail : Choices)
  | rest (position : Position) (tail : Choices)

end

deriving instance DecidableEq for Expr
deriving instance DecidableEq for Exprs
deriving instance DecidableEq for Fields
deriving instance DecidableEq for Choices
deriving instance Repr for Expr
deriving instance Repr for Exprs
deriving instance Repr for Fields
deriving instance Repr for Choices

instance : Inhabited Expr := ⟨.unit .first⟩

namespace Exprs

def toList : Exprs → List Expr
  | nil => []
  | cons head tail => head :: tail.toList

def ofList : List Expr → Exprs
  | [] => nil
  | head :: tail => cons head (ofList tail)

end Exprs

/-- One choice of a case, apart from the others. -/
structure Choice where
  position : Position
  pattern : Expr
  body? : Option Expr

namespace Choices

/-- The choices one by one. A catch-all without a body has the pattern that matches
everything. -/
def toList : Choices → List Choice
  | nil => []
  | cons position pattern body tail => ⟨position, pattern, some body⟩ :: tail.toList
  | rest position tail => ⟨position, .symbol position "...", none⟩ :: tail.toList

def isEmpty : Choices → Bool
  | nil => true
  | _ => false

end Choices

namespace Expr

def position : Expr → Position
  | symbol position _ => position
  | number position _ _ => position
  | string position _ => position
  | unit position => position
  | static position _ _ => position
  | list position _ => position
  | apply position _ _ => position
  | binary position _ _ _ => position
  | record position _ => position
  | select position _ _ => position
  | caseOf position _ _ => position

end Expr

def isWildcardName (name : String) : Bool :=
  name == "_" || name == "..."

def isTagName (name : String) : Bool :=
  match name.toList with
  | first :: _ => Text.isUppercase first
  | [] => false

end Casework
