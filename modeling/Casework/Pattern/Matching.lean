import Casework.Pattern.Basic

/-!
Code that matches a value against a pattern.

Matching has two parts. Preparing looks at the value as what the pattern takes it for;
patterns of the same outline in a row share one preparation. Testing then compares, binds
what is to be bound and jumps away if the value does not match. Testing can keep the
prepared values or use them up, on both of its ways out alike.
-/

namespace Casework

namespace Pattern

/-! ## Preparing -/

/-- Looks at the value on top of the stack as what the pattern takes it for. -/
def preparation : Pattern → List Instruction
  | variant _ _ => [.cast .tag, .dup, .tagName]
  | record _ => [.cast .struct]
  | cons _ _ => [.cast .list]
  | fixedList _ => [.cast .list]
  | emptyList => [.cast .list]
  | _ => []

/-- How many values preparing leaves where the value was: a tagged value brings its tag
along. -/
def preparedCount : Pattern → Nat
  | variant _ _ => 2
  | _ => 1

end Pattern

/-! ## Pieces of tests -/

def keeping (keep : Bool) : List Instruction :=
  if keep then [.dup] else []

def nonEmptyTest (onFail : Label) : List Instruction :=
  [.dup, .branch .null onFail, .dup, .invoke .isEmpty 1 true, .branch .holds onFail]

def emptyListTest (onFail : Label) : Emit (List Instruction) := do
  let isNull ← Emit.newLabel
  let done ← Emit.newLabel
  return [.dup, .branch .null isNull, .invoke .isEmpty 1 true,
    .branch .fails onFail, .jump done, .label isNull, .pop, .label done]

def discard (label onFail : Label) : List Instruction :=
  [.label label, .pop, .jump onFail]

namespace Pattern

def nested (pattern : Pattern) (test : List Instruction) : List Instruction :=
  pattern.preparation ++ test

def onHead (pattern : Pattern) (test : List Instruction) : List Instruction :=
  if pattern.isWildcard then [] else [.dup, .invoke .first 1 true] ++ pattern.nested test

def onTail (pattern : Pattern) (test : List Instruction) : List Instruction :=
  if pattern.isWildcard then [.pop] else .invoke .rest 1 true :: pattern.nested test

end Pattern

/-! ## Testing -/

mutual

def Pattern.test (bases : List Int) :
    Pattern → (onFail : Label) → (keep : Bool) → Emit (List Instruction)
  | .wildcard, _, keep => return if keep then [] else [.pop]
  | .bind binding, _, keep => return keeping keep ++ [.store (binding.slot.number bases)]
  | .literal value _, onFail, keep =>
      return keeping keep ++ [.constant value, .equals, .branch .fails onFail]
  | .variant tag payload, onFail, true => do
      let inner ← payload.test bases onFail false
      return [.dup, .constant (.ofString tag), .branch .different onFail,
        .swap, .dupBelow,
        .tagPayload] ++ payload.nested inner
  | .variant tag payload, onFail, false => do
      let next ← Emit.newLabel
      let inner ← payload.test bases onFail false
      return [.constant (.ofString tag), .branch .same next, .pop,
        .jump onFail, .label next,
        .tagPayload] ++ payload.nested inner
  | .emptyList, onFail, keep => do
      return keeping keep ++ (← emptyListTest onFail)
  | .cons head tail, onFail, keep => do
      let fail ← Emit.newLabel
      let done ← Emit.newLabel
      let headTest ← head.test bases fail false
      let tailTest ← tail.test bases onFail false
      return keeping keep ++ nonEmptyTest fail ++ head.onHead headTest ++
        tail.onTail tailTest ++
        [.jump done] ++ discard fail onFail ++ [.label done]
  | .fixedList items, onFail, keep => do
      let fail ← Emit.newLabel
      let finish ← Emit.newLabel
      let done ← Emit.newLabel
      let itemTests ← items.test bases fail
      return keeping keep ++ itemTests ++
        [.dup, .branch .null finish, .invoke .isEmpty 1 true,
          .branch .fails onFail, .jump done,
          .label finish, .pop, .jump done] ++ discard fail onFail ++ [.label done]
  | .record fields, onFail, keep => do
      if fields.readCount = 0 then return keeping keep ++ [.pop]
      else if fields.readCount = 1 then
        return keeping keep ++ (← fields.test bases onFail onFail)
      else
        let fail ← Emit.newLabel
        let fieldTests ← fields.test bases fail onFail
        let done ← Emit.newLabel
        return keeping keep ++ fieldTests ++ [.jump done] ++
          discard fail onFail ++ [.label done]
termination_by structural pattern => pattern

def Patterns.test (bases : List Int) :
    Patterns → (onFail : Label) → Emit (List Instruction)
  | .nil, _ => return []
  | .cons head tail, onFail => do
      let headTest ← head.test bases onFail false
      let tailTest ← tail.test bases onFail
      return nonEmptyTest onFail ++ head.onHead headTest ++
        [.invoke .rest 1 true] ++ tailTest
termination_by structural items => items

def PatternFields.test (bases : List Int) :
    PatternFields → (onFail onLastFail : Label) → Emit (List Instruction)
  | .nil, _, _ => return []
  | .cons name pattern tail, onFail, onLastFail => do
      if pattern.isWildcard then tail.test bases onFail onLastFail
      else if tail.readCount = 0 then
        let inner ← pattern.test bases onLastFail false
        return .field name :: pattern.nested inner
      else
        let inner ← pattern.test bases onFail false
        let others ← tail.test bases onFail onLastFail
        return [.dup, .field name] ++ pattern.nested inner ++ others
termination_by structural fields => fields

end

end Casework
