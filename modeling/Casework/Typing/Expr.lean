import Casework.Coverage
import Casework.Typing.Sealing

/-!
Compiling expressions: names are resolved, types are inferred, and cases are checked.

A case is compiled in this order. Its value is compiled and its type is unfolded. All
patterns are checked against the unfolding, tags are shared, and the patterns must cover
every value. Variants that they enumerate are sealed and the unfolding is folded. Then the
bodies are compiled, which must have one type, and at last the type of the value becomes
what the patterns have made of its copy.
-/

namespace Casework

def elaborateChoices (setting : Setting) (level : Nat) (scope : Scope) (type : Ref) :
    List Choice → Elaborate (List (Pattern × Scope))
  | [] => return []
  | choice :: rest => do
      Elaborate.startChoice scope
      let pattern ← choice.pattern.elaborate setting level false type
      let bound := (← get).scope
      let others ← elaborateChoices setting level scope type rest
      return (pattern, bound) :: others

structure Checked where
  root : Ref
  choices : List (Pattern × Scope)
  slotCount : Nat
  sealed : List Ref
  matchedType : String
  sealedTypes : List String

namespace Build

/-- Checks the patterns of a case against an unfolding of the type of its value: they must
cover every value, and the variants they enumerate are sealed. -/
def checkUnfolded (setting : Setting) (level : Nat) (scope : Scope) (place : Position)
    (choices : List Choice) (unfolding : Nat) : Build Checked := do
  let root ← unfoldingRoot unfolding
  let (patterns, state) ← (elaborateChoices setting level scope root choices).run {}
  let matchedType ← text root
  shareTags unfolding
  if let some path ← gap? root then
    reject place (.partialMatch path)
  let sealed ← sealAll state.registered
  let sealedTypes ← sealed.mapM text
  return ⟨root, patterns, state.slotCount, sealed, matchedType, sortTexts sealedTypes⟩

def checkChoices (setting : Setting) (level : Nat) (scope : Scope) (place : Position)
    (choices : List Choice) (type : Ref) : Build Checked := do
  let unfolding ← unfold type
  let checked ← checkUnfolded setting level scope place choices unfolding
  fold unfolding
  return checked

def joinBody (place : Position) (result : Option Ref) (type : Ref) : Build Ref := do
  match result with
  | none => return type
  | some result =>
      let own ← text type
      let previous ← text result
      unifyOr result type fun _ => reject place (.bodyMismatch own previous)
      return result

def joinArgument (place : Position) (given inferred : Ref) : Build Unit := do
  let givenText ← text given
  let inferredText ← text inferred
  unifyOr given inferred fun _ => reject place (.argumentMismatch inferredText givenText)

end Build

def Operator.routine : Operator → Routine
  | cons => .cons
  | add => .add
  | subtract => .subtract
  | multiply => .multiply

namespace Build

/-- The type and the code of two operands joined by an operator at a place. -/
def operation (place : Position) (operator : Operator) (leftPlace rightPlace : Position)
    (left right : Code) : Build Code := do
  match operator with
  | .cons =>
      let type ← newList left.type
      unifyAt place type right.type
      return .call .cons left right type
  | operator =>
      unifyAt leftPlace left.type (← newPrimitive .number)
      unifyAt rightPlace right.type (← newPrimitive .number)
      return .call operator.routine left right (← newPrimitive .number)

def selection (place : Position) (record : Code) (field : String) : Build Code := do
  let type ← newVar
  unifyAt place record.type (← newOpen .struct [(field, type)])
  return .select record field type

end Build

mutual

def Expr.compile (setting : Setting) :
    Expr → (level : Nat) → (scope : Scope) → Build Code
  | .number _ _ value, _, _ => Build.constant (.number value) .number
  | .string _ value, _, _ => Build.constant (.text value) .text
  | .unit _, _, _ => Build.constant .unit .unit
  | .static place owner field, _, _ => Build.staticField setting place owner field
  | .symbol place name, _, scope => do
      if isWildcardName name then Build.reject place (.notExpression name)
      match scope.find? name with
      | some binding => return .name binding
      | none => Build.reject place (.unknownName name)
  | .apply place name argument, level, scope => do
      unless isTagName name do
        Build.reject place (.unsupportedApplication (Expr.apply place name argument).text)
      let payload ← argument.compile setting level scope
      return .tag name payload (← Build.newOpen .variant [(name, payload.type)])
  | .binary place operator left right, level, scope => do
      let leftCode ← left.compile setting level scope
      let rightCode ← right.compile setting level scope
      Build.operation place operator left.position right.position leftCode rightCode
  | .list _ items, level, scope => do
      let element ← Build.newVar
      let type ← Build.newList element
      return .list (← items.compile setting level scope element) type
  | .select place record field, level, scope => do
      Build.selection place (← record.compile setting level scope) field
  | .record place fields, _, _ =>
      Build.reject place (.unsupportedExpression (Expr.record place fields).text)
  | .caseOf place value choices, level, scope => do
      unless setting.hasCases do Build.reject place .noCases
      if choices.isEmpty then Build.reject place .noChoices
      let valueCode ← value.compile setting level scope
      let checked ← Build.checkChoices setting level scope place
        choices.toList valueCode.type
      let (arms, result) ← choices.compile setting level checked.choices none
      let type ← match result with
        | some type => pure type
        | none => Build.newVar
      Build.joinArgument value.position valueCode.type checked.root
      return .caseOf
        { position := place, type := type, slotCount := checked.slotCount,
          sealed := checked.sealed,
          matchedType := checked.matchedType, sealedTypes := checked.sealedTypes }
        valueCode arms
termination_by structural expression => expression

def Exprs.compile (setting : Setting) :
    Exprs → (level : Nat) → (scope : Scope) → (element : Ref) → Build Codes
  | .nil, _, _, _ => return .nil
  | .cons head tail, level, scope, element => do
      let code ← head.compile setting level scope
      Build.unifyAt head.position element code.type
      return .cons code (← tail.compile setting level scope element)
termination_by structural items => items

def Choices.compile (setting : Setting) :
    Choices → (level : Nat) → List (Pattern × Scope) → (result : Option Ref) →
      Build (Arms × Option Ref)
  | .cons _ _ body tail, level, (pattern, scope) :: checked, result => do
      let code ← body.compile setting (level + 1) scope
      let type ← Build.joinBody body.position result code.type
      let (arms, result) ← tail.compile setting level checked (some type)
      return (.cons pattern code arms, result)
  | .rest _ tail, level, (pattern, _) :: checked, result => do
      let (arms, result) ← tail.compile setting level checked result
      return (.rest pattern arms, result)
  | _, _, _, result => return (.nil, result)
termination_by structural choices => choices

end

end Casework
