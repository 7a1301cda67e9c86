import Casework.Proofs.PatternTyping
import Casework.Typing.Expr

/-!
Orders of sets.

Checking the patterns of a case keeps sets of types: the variants to be sealed, and the
type variables met in the items of a list. A set may be gone through in any order, and in
another one each time. Here the order is left open: the compilation below does what the
other one does, except that every loop over a set is told its order. Loops are told apart
by where in a run they are.
-/

namespace Casework

/-- The orders in which the loops of a run go through their sets. -/
structure SetOrder where
  arrange : (place : List Nat) → List Ref → List Ref
  perm : ∀ place refs, (arrange place refs).Perm refs

namespace SetOrder

def under (order : SetOrder) (part : Nat) : SetOrder where
  arrange place := order.arrange (part :: place)
  perm place := order.perm (part :: place)

/-- The order of a loop that is the whole part of a run. -/
def list (order : SetOrder) (refs : List Ref) : List Ref := order.arrange [] refs

theorem perm_list (order : SetOrder) (refs : List Ref) : (order.list refs).Perm refs :=
  order.perm [] refs

theorem mem_list {order : SetOrder} {refs : List Ref} {ref : Ref} :
    ref ∈ order.list refs ↔ ref ∈ refs := (order.perm_list refs).mem_iff

def asFound : SetOrder := ⟨fun _ refs => refs, fun _ refs => .refl refs⟩

def lastFirst : SetOrder := ⟨fun _ refs => refs.reverse, fun _ refs => refs.reverse_perm⟩

end SetOrder

/-! ## Patterns -/

namespace Elaborate

def startItemIn (order : SetOrder) (itemType : Ref) (cover : ItemCover) :
    Elaborate Unit := do
  Build.clearAny itemType
  (order.list cover.met).forM (Build.clearAny ·)
  modify fun state => { state with gathered := some [] }

def finishItemIn (order : SetOrder) (itemType : Ref) (cover : ItemCover) :
    Elaborate ItemCover := do
  let met := mergeRefs cover.met ((← get).gathered.getD [])
  let candidates := cover.covered.getD met
  let found ← (order.list candidates).filterM (Build.hasAny ·)
  let any ← Build.hasAny itemType
  return {
    met := met
    covered := some (candidates.filter found.contains)
    any := cover.any && any }

def settleItemsIn (order : SetOrder) (itemType : Ref) (cover : ItemCover) :
    Build Unit := do
  let covered := cover.covered.getD []
  (order.list cover.met).forM fun ref => Build.putAny ref (covered.contains ref)
  Build.putAny itemType cover.any

end Elaborate

open Elaborate

mutual

def Expr.elaborateIn (setting : Setting) (level : Nat) :
    Expr → (order : SetOrder) → (inside : Bool) → (type : Ref) → Elaborate Pattern
  | .list place .nil, _, inside, type =>
      (Expr.list place .nil).elaborate setting level inside type
  | .list place items, order, _, type =>
      (Expr.list place items).entering type do
        let itemType ← Build.newVar
        let outer := (← get).gathered
        let (patterns, cover) ← items.elaborateIn setting level
            (order.under 0) itemType {}
        modify fun state => { state with gathered := outer.map (mergeRefs · cover.met) }
        settleItemsIn (order.under 1) itemType cover
        finishFixedList place type itemType
        return .fixedList patterns
  | .apply place tag argument, order, inside, type =>
      (Expr.apply place tag argument).entering type do
        let payload ← enterTag inside place tag type
        return .variant tag (← argument.elaborateIn setting level order inside payload)
  | .binary place .cons head tail, order, _, type =>
      (Expr.binary place .cons head tail).entering type do
        let element ← elementType place type
        let headType ← Build.newVar
        let headPattern ← head.elaborateIn setting level (order.under 0) true headType
        joinHead head.position element headType
        let before ← Build.marks type
        let forms ← Build.listForms type
        let tailPattern ← tail.elaborateIn setting level (order.under 1) true type
        finishCons type before forms tailPattern
        return .cons headPattern tailPattern
  | .record place .nil, _, inside, type =>
      (Expr.record place .nil).elaborate setting level inside type
  | .record place fields, order, inside, type =>
      (Expr.record place fields).entering type do
        let (patterns, covered) ← fields.elaborateIn setting level order inside type []
        settleFields type covered
        return .record patterns
  | pattern, _, inside, type => pattern.elaborate setting level inside type
termination_by structural pattern => pattern

def Exprs.elaborateIn (setting : Setting) (level : Nat) :
    Exprs → (order : SetOrder) → (itemType : Ref) → ItemCover →
      Elaborate (Patterns × ItemCover)
  | .nil, _, _, cover => return (.nil, cover)
  | .cons head tail, order, itemType, cover => do
      startItemIn (order.under 0) itemType cover
      let pattern ← head.elaborateIn setting level (order.under 1) true itemType
      let cover ← finishItemIn (order.under 2) itemType cover
      let (patterns, cover) ← tail.elaborateIn setting level
        (order.under 3) itemType cover
      return (.cons pattern patterns, cover)
termination_by structural items => items

def Fields.elaborateIn (setting : Setting) (level : Nat) :
    Fields → (order : SetOrder) → (inside : Bool) → (type : Ref) → (seen : List String) →
      Elaborate (PatternFields × Bool)
  | .nil, _, _, _, _ => return (.nil, true)
  | .cons _ name value tail, order, inside, type, seen => do
      if seen.contains name then
        Build.reject value.position (.duplicateField name)
      let field ← enterField value.position name type
      let pattern ← value.elaborateIn setting level (order.under 0) inside field
      let covered ← Build.hasAny field
      let (patterns, others) ← tail.elaborateIn setting level
        (order.under 1) inside type (name :: seen)
      return (.cons name pattern patterns, covered && others)
termination_by structural fields => fields

end

/-! ## Cases -/

def elaborateChoicesIn (setting : Setting) (level : Nat) (scope : Scope) (type : Ref) :
    SetOrder → List Choice → Elaborate (List (Pattern × Scope))
  | _, [] => return []
  | order, choice :: rest => do
      Elaborate.startChoice scope
      let pattern ← choice.pattern.elaborateIn setting level (order.under 0) false type
      let bound := (← get).scope
      let others ← elaborateChoicesIn setting level scope type (order.under 1) rest
      return (pattern, bound) :: others

namespace Build

def checkUnfoldedIn (order : SetOrder) (setting : Setting) (level : Nat) (scope : Scope)
    (place : Position) (choices : List Choice) (unfolding : Nat) : Build Checked := do
  let root ← unfoldingRoot unfolding
  let (patterns, state) ←
    (elaborateChoicesIn setting level scope root (order.under 0) choices).run {}
  let matchedType ← text root
  shareTags unfolding
  if let some path ← gap? root then
    reject place (.partialMatch path)
  let sealed ← sealAll ((order.under 1).list state.registered)
  let sealedTypes ← sealed.mapM text
  return ⟨root, patterns, state.slotCount, sealed, matchedType, sortTexts sealedTypes⟩

def checkChoicesIn (order : SetOrder) (setting : Setting) (level : Nat) (scope : Scope)
    (place : Position) (choices : List Choice) (type : Ref) : Build Checked := do
  let unfolding ← unfold type
  let checked ← checkUnfoldedIn order setting level scope place choices unfolding
  fold unfolding
  return checked

end Build

mutual

def Expr.compileIn (setting : Setting) :
    Expr → (order : SetOrder) → (level : Nat) → (scope : Scope) → Build Code
  | .apply place name argument, order, level, scope => do
      unless isTagName name do
        Build.reject place (.unsupportedApplication (Expr.apply place name argument).text)
      let payload ← argument.compileIn setting order level scope
      return .tag name payload (← Build.newOpen .variant [(name, payload.type)])
  | .binary place operator left right, order, level, scope => do
      let leftCode ← left.compileIn setting (order.under 0) level scope
      let rightCode ← right.compileIn setting (order.under 1) level scope
      Build.operation place operator left.position right.position leftCode rightCode
  | .list _ items, order, level, scope => do
      let element ← Build.newVar
      let type ← Build.newList element
      return .list (← items.compileIn setting order level scope element) type
  | .select place record field, order, level, scope => do
      Build.selection place (← record.compileIn setting order level scope) field
  | .caseOf place value choices, order, level, scope => do
      unless setting.hasCases do Build.reject place .noCases
      if choices.isEmpty then Build.reject place .noChoices
      let valueCode ← value.compileIn setting (order.under 0) level scope
      let checked ← Build.checkChoicesIn (order.under 1) setting level scope
        place choices.toList
        valueCode.type
      let (arms, result) ← choices.compileIn setting
        (order.under 2) level checked.choices none
      let type ← match result with
        | some type => pure type
        | none => Build.newVar
      Build.joinArgument value.position valueCode.type checked.root
      return .caseOf
        { position := place, type := type, slotCount := checked.slotCount,
          sealed := checked.sealed,
          matchedType := checked.matchedType, sealedTypes := checked.sealedTypes }
        valueCode arms
  | expression, _, level, scope => expression.compile setting level scope
termination_by structural expression => expression

def Exprs.compileIn (setting : Setting) :
    Exprs → (order : SetOrder) → (level : Nat) → (scope : Scope) →
      (element : Ref) → Build Codes
  | .nil, _, _, _, _ => return .nil
  | .cons head tail, order, level, scope, element => do
      let code ← head.compileIn setting (order.under 0) level scope
      Build.unifyAt head.position element code.type
      return .cons code (← tail.compileIn setting (order.under 1) level scope element)
termination_by structural items => items

def Choices.compileIn (setting : Setting) :
    Choices → (order : SetOrder) → (level : Nat) → List (Pattern × Scope) →
      (result : Option Ref) →
      Build (Arms × Option Ref)
  | .cons _ _ body tail, order, level, (pattern, scope) :: checked, result => do
      let code ← body.compileIn setting (order.under 0) (level + 1) scope
      let type ← Build.joinBody body.position result code.type
      let (arms, result) ← tail.compileIn setting
        (order.under 1) level checked (some type)
      return (.cons pattern code arms, result)
  | .rest _ tail, order, level, (pattern, _) :: checked, result => do
      let (arms, result) ← tail.compileIn setting order level checked result
      return (.rest pattern arms, result)
  | _, _, _, _, result => return (.nil, result)
termination_by structural choices => choices

end

attribute [grind =] Expr.compileIn Exprs.compileIn Choices.compileIn

end Casework
