import Casework.Typing.Setting

/-!
Checking patterns against the type of the value they will be matched with.

Checking a pattern makes the type fit it and leaves marks of what the pattern covers, for
the check of coverage. A pattern at a position that an earlier pattern covers entirely is
useless.

The marks say what is covered at one position. Where a pattern has several parts, a part
alone does not cover its position: marks are cleared, restored and set again so that only
what the whole pattern covers counts for the patterns after it.
-/

namespace Casework

/-- What checking the patterns of a case keeps track of: the names in scope, the next slot
of the current choice and the slots that the largest choice needs, the variants to be
sealed among those met so far, and inside a list the unbound type variables met in the
current item. -/
structure Elaboration where
  scope : Scope := []
  nextSlot : Nat := 0
  slotCount : Nat := 0
  registered : List Ref := []
  touched : List Ref := []
  gathered : Option (List Ref) := none
deriving DecidableEq, Repr, Inhabited

/-- Checking patterns changes types and keeps track. -/
abbrev Elaborate := StateT Elaboration Build

def mergeRefs (left right : List Ref) : List Ref :=
  right.foldl (fun refs ref => if refs.contains ref then refs else refs ++ [ref]) left

namespace Elaborate

def bindName (level : Nat) (name : String) (type : Ref) : Elaborate Binding := do
  let state ← get
  let binding : Binding := ⟨name, .inCase level state.nextSlot, type⟩
  set { state with
    scope := binding :: state.scope
    nextSlot := state.nextSlot + 1
    slotCount := max state.slotCount (state.nextSlot + 1) }
  return binding

def startChoice (scope : Scope) : Elaborate Unit :=
  modify fun state => { state with scope := scope, nextSlot := 0 }

/-! ## Patterns without parts -/

def gather (type : Ref) : Elaborate Unit := do
  match (← get).gathered with
  | none => return
  | some refs =>
      if ← Build.isUnbound type then
        modify fun state => { state with gathered := some (mergeRefs refs [type]) }

def coverAll (type : Ref) : Build Unit := do
  Build.setAny type
  let root ← Build.deref type
  if (← Build.kind root) = .variant then Build.setAny root

def symbol (level : Nat) (name : String) (type : Ref) : Elaborate Pattern := do
  coverAll type
  if isWildcardName name then return .wildcard
  return .bind (← bindName level name type)

/-- There is only one unit value, so its pattern covers its position. -/
def unit (place : Position) (type : Ref) : Build Pattern := do
  Build.unifyAt place type (← Build.newPrimitive .unit)
  Build.setAny type
  return .wildcard

/-- A constant covers its position only partly. -/
def literal (pattern : Expr) (code : Code) (type : Ref) : Build Pattern := do
  match code with
  | .constant value constantType =>
      let kind ← Build.kind constantType
      let root ← Build.deref type
      let rootKind ← Build.kind root
      let covered ←
        if rootKind = .var then do
          let primitive ← Build.newOfKind kind
          Build.bind root primitive
          pure primitive
        else if rootKind = kind then pure root
        else
          let own ← Build.text constantType
          let expected ← Build.text root
          Build.reject pattern.position (.literalMismatch own expected)
      Build.remark covered fun marks => { marks with partly := true }
      return .literal value constantType
  | _ => Build.reject pattern.position (.badPattern pattern.text)

def emptyList (place : Position) (type : Ref) : Build Pattern := do
  Build.unifyAt place type (← Build.newList (← Build.newVar))
  Build.noteForms type { emptyForm := true }
  return .emptyList

/-! ## Variants -/

def variantRoot (place : Position) (tag : String) (type : Ref) : Build Ref := do
  let root ← Build.deref type
  match ← Build.kind root with
  | .var =>
      let variant ← Build.newOpen .variant []
      Build.bind root variant
      return variant
  | .variant => return root
  | _ => Build.reject place (.variantMismatch tag (← Build.text root))

def touch (inside : Bool) (variant : Ref) : Elaborate Unit := do
  let state ← get
  unless state.touched.contains variant do
    Build.remark variant fun marks => { marks with collecting := true }
    set { state with
      touched := state.touched ++ [variant]
      registered :=
        if inside || state.registered.contains variant then state.registered
        else state.registered ++ [variant] }

def payloadType (variant : Ref) (tag : String) : Build Ref := do
  match ← Build.member? variant tag with
  | some type => return type
  | none =>
      let type ← match (← Build.bound? variant).bind (·.get? tag) with
        | some type => pure type
        | none => Build.newVar
      Build.putMember variant tag type
      return type

def enterTag (inside : Bool) (place : Position) (tag : String) (type : Ref) :
    Elaborate Ref := do
  unless isTagName tag do
    Build.reject place (.lowercaseTag tag)
  let variant ← variantRoot place tag type
  unless ← Build.allows variant tag do
    Build.reject place (.variantMismatch tag (← Build.text variant))
  touch inside variant
  let payload ← payloadType variant tag
  Build.noteMatched variant tag
  return payload

/-! ## Lists -/

/-- What the items of a list pattern cover: the type variables met in some item, those of
them that every item so far covers, and whether every item covers the type of the
items. -/
structure ItemCover where
  met : List Ref := []
  covered : Option (List Ref) := none
  any : Bool := true

def startItem (itemType : Ref) (cover : ItemCover) : Elaborate Unit := do
  Build.clearAny itemType
  cover.met.forM (Build.clearAny ·)
  modify fun state => { state with gathered := some [] }

def finishItem (itemType : Ref) (cover : ItemCover) : Elaborate ItemCover := do
  let met := mergeRefs cover.met ((← get).gathered.getD [])
  let covered ← (cover.covered.getD met).filterM (Build.hasAny ·)
  let any ← Build.hasAny itemType
  return { met := met, covered := some covered, any := cover.any && any }

def settleItems (itemType : Ref) (cover : ItemCover) : Build Unit := do
  let covered := cover.covered.getD []
  cover.met.forM fun ref => Build.putAny ref (covered.contains ref)
  Build.putAny itemType cover.any

def finishFixedList (place : Position) (type itemType : Ref) : Build Unit := do
  Build.unifyAt place type (← Build.newList itemType)
  Build.noteForms type { fixedForm := true }

def elementType (place : Position) (type : Ref) : Build Ref := do
  Build.unifyAt place type (← Build.newList (← Build.newVar))
  Build.parameter type

def joinHead (place : Position) (element headType : Ref) : Build Unit := do
  Build.unifyAt place element headType
  if ← Build.hasAny headType then Build.setAny element

/-- Goes back to what was known of a list before its tail, and adds what the whole pattern
covers: all lists with a head if the tail can be anything. -/
def finishCons (type : Ref) (before : Marks) (forms : Marks) (tail : Pattern) :
    Build Unit := do
  Build.remark type fun _ => before
  Build.restoreForms type forms
  Build.noteForms type
    (if tail.isIrrefutable then { consForm := true } else { fixedForm := true })

/-! ## Structs -/

def enterField (place : Position) (name : String) (type : Ref) : Build Ref := do
  let field ← Build.newVar
  Build.unifyAt place type (← Build.newOpen .struct [(name, field)])
  return field

def settleFields (type : Ref) (covered : Bool) : Build Unit := do
  for field in (← Build.members type).refs do
    Build.putAny (← Build.deref field) covered

end Elaborate

open Elaborate

mutual

/-- Checks a pattern of a case at the given level. `inside` tells whether it is inside a
list. -/
def Expr.elaborate (setting : Setting) (level : Nat) :
    Expr → (inside : Bool) → (type : Ref) → Elaborate Pattern
  | pattern, inside, type => do
      if ← Build.hasAny type then
        Build.reject pattern.position (.useless pattern.text)
      Build.expand type
      gather type
      match pattern with
      | .symbol _ name => symbol level name type
      | .unit place => unit place type
      | .number _ _ value => do
          literal pattern (← Build.constant (.number value) .number) type
      | .string _ value => do
          literal pattern (← Build.constant (.text value) .text) type
      | .static place owner field => do
          literal pattern (← Build.staticField setting place owner field) type
      | .list place .nil => emptyList place type
      | .list place items => do
          let itemType ← Build.newVar
          let outer := (← get).gathered
          let (patterns, cover) ← items.elaborate setting level itemType {}
          modify fun state => { state with gathered := outer.map (mergeRefs · cover.met) }
          settleItems itemType cover
          finishFixedList place type itemType
          return .fixedList patterns
      | .apply place tag argument => do
          let payload ← enterTag inside place tag type
          return .variant tag (← argument.elaborate setting level inside payload)
      | .binary place .cons head tail => do
          let element ← elementType place type
          let headType ← Build.newVar
          let headPattern ← head.elaborate setting level true headType
          joinHead head.position element headType
          let before ← Build.marks type
          let forms ← Build.listForms type
          let tailPattern ← tail.elaborate setting level true type
          finishCons type before forms tailPattern
          return .cons headPattern tailPattern
      | .record place .nil => Build.reject place .emptyRecord
      | .record _ fields => do
          let (patterns, covered) ← fields.elaborate setting level inside type []
          settleFields type covered
          return .record patterns
      | _ => Build.reject pattern.position (.badPattern pattern.text)
termination_by structural pattern => pattern

def Exprs.elaborate (setting : Setting) (level : Nat) :
    Exprs → (itemType : Ref) → ItemCover → Elaborate (Patterns × ItemCover)
  | .nil, _, cover => return (.nil, cover)
  | .cons head tail, itemType, cover => do
      startItem itemType cover
      let pattern ← head.elaborate setting level true itemType
      let cover ← finishItem itemType cover
      let (patterns, cover) ← tail.elaborate setting level itemType cover
      return (.cons pattern patterns, cover)
termination_by structural items => items

def Fields.elaborate (setting : Setting) (level : Nat) :
    Fields → (inside : Bool) → (type : Ref) → (seen : List String) →
      Elaborate (PatternFields × Bool)
  | .nil, _, _, _ => return (.nil, true)
  | .cons _ name value tail, inside, type, seen => do
      if seen.contains name then
        Build.reject value.position (.duplicateField name)
      let field ← enterField value.position name type
      let pattern ← value.elaborate setting level inside field
      let covered ← Build.hasAny field
      let (patterns, others) ← tail.elaborate setting level inside type (name :: seen)
      return (.cons name pattern patterns, covered && others)
termination_by structural fields => fields

end

end Casework
