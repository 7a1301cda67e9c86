import Casework.Code.Basic
import Casework.Expr.Printer
import Casework.TypeGraph.Unify

/-!
What expressions are compiled in: the names in scope and the fields of foreign classes.
-/

namespace Casework

/-- A field of a foreign class. Constant ones are known at compile time. -/
structure StaticField where
  kind : Kind
  value : Constant
  isConstant : Bool
deriving DecidableEq, Repr, Inhabited

/-- What does not change while an expression is compiled. -/
structure Setting where
  statics : List (String × StaticField) := []
  hasCases : Bool := true
deriving DecidableEq, Repr, Inhabited

def Setting.static? (setting : Setting) (name : String) : Option StaticField :=
  (setting.statics.reverse.find? (·.1 == name)).map Prod.snd

abbrev Scope := List Binding

def Scope.find? (scope : Scope) (name : String) : Option Binding :=
  List.find? (·.name == name) scope

namespace Build

def reject {α : Type} (place : Position) (cause : CompileCause) : Build α :=
  throw (.compile { place := some place, cause := cause })

def unifyOr (left right : Ref) (report : Mismatch → Build Unit) : Build Unit :=
  tryCatch (unify left right) fun
    | .mismatch mismatch => report mismatch
    | failure => throw failure

def unifyAt (place : Position) (left right : Ref) : Build Unit :=
  unifyOr left right fun mismatch => reject place (.mismatch mismatch)

/-! ## Expressions without parts -/

def constant (value : Constant) (primitive : Primitive) : Build Code := do
  return .constant value (← newPrimitive primitive)

def staticField (setting : Setting) (place : Position) (owner field : String) :
    Build Code := do
  let name := owner ++ "#" ++ field
  match setting.static? name with
  | none => reject place (.unknownStatic name)
  | some static =>
      let type ← newOfKind static.kind
      return if static.isConstant then .constant static.value type else
        .static owner field type

end Build

end Casework
