import Casework.Code.Basic
import Casework.Listing.Recorder
import Casework.Pattern.Matching

/-!
Writing compiled expressions as code.

The code of a case computes the value and tests it against the patterns in order. Choices
in a row whose patterns have the same outline share one preparation, and the values it
leaves stay on the stack until the outline changes. A choice without a body is no code at
all: its values are left to the call that reports that nothing matched, which ends every
case.
-/

namespace Casework

structure Prepared where
  outline : Option Pattern.Outline
  count : Nat

namespace Prepared

def start : Prepared := ⟨none, 1⟩

def switch (prepared : Prepared) (pattern : Pattern) : List Instruction × Prepared :=
  if prepared.outline = some pattern.outline then ([], prepared)
  else
    (popMany (prepared.count - 1) ++ pattern.preparation,
      ⟨some pattern.outline, pattern.preparedCount⟩)

end Prepared

mutual

/-- The code of an expression, given the first slot of each enclosing case. -/
def Code.emit (bases : List Int) : Code → Emit (List Instruction)
  | .constant value _ => return [.constant value]
  | .static owner name _ => return [.static owner name]
  | .name binding => return [.load (binding.slot.number bases)]
  | .tag name payload _ => do
      return (← payload.emit bases) ++ [.newTag name]
  | .call routine left right _ => do
      let left ← left.emit bases
      let right ← right.emit bases
      return left ++ right ++ [.invoke routine 2 true]
  | .list items _ => do
      let pushed ← items.emit bases
      return pushed ++ [.constant .unit] ++ List.replicate items.length
        (.invoke .cons 2 true)
  | .select record field _ => do
      return (← record.emit bases) ++ [.cast .struct, .field field]
  | .caseOf report value arms => do
      let valueCode ← value.emit bases
      let base ← Emit.reserve report.slotCount
      let finish ← Emit.newLabel
      let (armCode, prepared) ← arms.emit (bases ++ [base]) finish .start
      return valueCode ++ armCode ++ popMany (prepared.count - 1) ++
        [.invoke .noMatch 1 true, .label finish]
termination_by structural code => code

def Codes.emit (bases : List Int) : Codes → Emit (List Instruction)
  | .nil => return []
  | .cons head tail => do
      let head ← head.emit bases
      let tail ← tail.emit bases
      return head ++ tail
termination_by structural codes => codes

def Arms.emit (bases : List Int) :
    Arms → (finish : Label) → Prepared → Emit (List Instruction × Prepared)
  | .nil, _, prepared => return ([], prepared)
  | .rest _ tail, finish, prepared => tail.emit bases finish prepared
  | .cons pattern body tail, finish, prepared => do
      let (switching, prepared) := prepared.switch pattern
      let next ← Emit.newLabel
      let test ← pattern.test bases next true
      let bodyCode ← body.emit bases
      let (others, last) ← tail.emit bases finish prepared
      return (switching ++ test ++ popMany prepared.count ++ bodyCode ++
        [.jump finish, .label next] ++ others, last)
termination_by structural arms => arms

end

def Code.slotBase (value : Code) (slots : Int) : Int :=
  ((value.emit []).run { slot := slots }).2.slot

structure Program where
  code : List Instruction
  labels : Nat

/-- The code of an expression, when slots below the given one are taken. -/
def Code.program (code : Code) (slots : Int) : Program :=
  let (instructions, supply) := (code.emit []).run { slot := slots }
  ⟨instructions, supply.label⟩

def Program.record (program : Program) : Recorder :=
  let labels := Array.replicate program.labels ({} : LabelState)
  ({ labels := labels } : Recorder).recordAll program.code

theorem Program.code_record (program : Program) :
    program.record.code.toList = program.code := by
  simp [Program.record, Recorder.code_recordAll]

end Casework
