import Casework.Listing.Instruction

/-!
Recording: keeping code together with the depth of its stack.

The recorder follows the code in the order in which it is written and works out how many
values are on the stack. It checks that there are enough for every instruction, and that
all ways to a label arrive with the same number. After a jump the code cannot be reached
until a label that some jump leads to.
-/

namespace Casework

inductive Finding where
  | underflow (count : Nat) (word : String) (needed depth : Int)
  | depthClash (count : Nat) (label : Label) (depth expected : Int)
  | markedTwice (count : Nat) (label : Label)
  | unmarked (label : Label)
deriving DecidableEq, Repr

def Finding.message : Finding → String
  | underflow count word needed depth =>
      "instruction " ++ toString count ++ ": " ++ word ++ " needs " ++ toString needed ++
        " operands, stack has " ++ toString depth
  | depthClash count label depth expected =>
      "instruction " ++ toString count ++ ": " ++ label.name ++ " reached with depth " ++
        toString depth ++ ", expected " ++ toString expected
  | markedTwice count label =>
      "instruction " ++ toString count ++ ": " ++ label.name ++ " marked twice"
  | unmarked label => label.name ++ " is a jump target but never marked"

structure LabelState where
  depth : Option Int := none
  marked : Bool := false
deriving DecidableEq, Repr, Inhabited

structure Recorder where
  code : Array Instruction := #[]
  labels : Array LabelState := #[]
  depth : Int := 0
  maxDepth : Int := 0
  reachable : Bool := true
  slots : Int := 0
  finding : Option Finding := none
deriving DecidableEq, Repr, Inhabited

namespace Recorder

def newLabel (recorder : Recorder) : Label × Recorder :=
  (⟨recorder.labels.size⟩, { recorder with labels := recorder.labels.push {} })

def reserve (recorder : Recorder) (count : Int) : Int × Recorder :=
  (recorder.slots,
    { recorder with slots := Int.bmod (recorder.slots + count) 18446744073709551616 })

/-- What is known of a label. Nothing is known of one that was not given out. -/
def labelState (recorder : Recorder) (label : Label) : LabelState :=
  if label.number < 0 then {} else recorder.labels[label.number.toNat]?.getD {}

def updateLabel (recorder : Recorder) (label : Label) (change : LabelState → LabelState) :
    Recorder :=
  if label.number < 0 then recorder
  else { recorder with labels := recorder.labels.modify label.number.toNat change }

def note (recorder : Recorder) (finding : Finding) : Recorder :=
  { recorder with finding := recorder.finding.or (some finding) }

def reach (recorder : Recorder) (label : Label) : Recorder :=
  match (recorder.labelState label).depth with
  | none =>
      recorder.updateLabel label fun state => { state with depth := some recorder.depth }
  | some expected =>
      if expected = recorder.depth then recorder
      else recorder.note (.depthClash recorder.code.size label recorder.depth expected)

/-- The effect of an instruction on the depth. What an instruction lacks is taken for
granted afterwards. -/
def shift (recorder : Recorder) (instruction : Instruction) : Recorder :=
  let short := recorder.depth < instruction.pops
  let recorder :=
    if short then
      recorder.note
        (.underflow recorder.code.size instruction.word instruction.pops recorder.depth)
    else recorder
  let before := if short then instruction.pops else recorder.depth
  let depth := before + (instruction.pushes - instruction.pops)
  { recorder with depth := depth, maxDepth := max recorder.maxDepth depth }

/-- Defines a label. Code after it can be reached from before it or by a jump. -/
def mark (recorder : Recorder) (label : Label) : Recorder :=
  let state := recorder.labelState label
  let recorder :=
    if state.marked then
      recorder.note (.markedTwice recorder.code.size label) else recorder
  let recorder := recorder.updateLabel label fun state => { state with marked := true }
  if recorder.reachable then recorder.reach label
  else match state.depth with
    | some depth => { recorder with depth := depth, reachable := true }
    | none => recorder

def record (recorder : Recorder) (instruction : Instruction) : Recorder :=
  let recorder := { recorder with code := recorder.code.push instruction }
  match instruction with
  | .label label => recorder.mark label
  | instruction =>
      let recorder := if recorder.reachable then recorder.shift instruction else recorder
      match instruction with
      | .branch _ label => if recorder.reachable then recorder.reach label else recorder
      | .jump label =>
          let recorder := if recorder.reachable then recorder.reach label else recorder
          { recorder with reachable := false }
      | _ => recorder

def recordAll (recorder : Recorder) (code : List Instruction) : Recorder :=
  code.foldl record recorder

/-- The first label, from a number on, that is reached and not defined. -/
def firstUnmarked : (number : Nat) → List LabelState → Option Label
  | _, [] => none
  | number, state :: rest =>
      if state.depth.isSome && !state.marked then some ⟨number⟩
      else firstUnmarked (number + 1) rest

/-- What is wrong with the code, if anything is. -/
def verdict (recorder : Recorder) : Option Finding :=
  recorder.finding.or ((firstUnmarked 0 recorder.labels.toList).map .unmarked)

/-! ## Recording keeps the code -/

@[simp] theorem code_note (recorder : Recorder) (finding : Finding) :
    (recorder.note finding).code = recorder.code := rfl

@[simp] theorem code_updateLabel (recorder : Recorder) (label : Label)
    (change : LabelState → LabelState) :
    (recorder.updateLabel label change).code = recorder.code := by
  unfold updateLabel
  split <;> rfl

@[simp] theorem code_reach (recorder : Recorder) (label : Label) :
    (recorder.reach label).code = recorder.code := by
  unfold reach
  split
  · simp
  · split <;> rfl

@[simp] theorem code_shift (recorder : Recorder) (instruction : Instruction) :
    (recorder.shift instruction).code = recorder.code := by
  simp only [shift]
  split <;> rfl

@[simp] theorem code_mark (recorder : Recorder) (label : Label) :
    (recorder.mark label).code = recorder.code := by
  simp only [mark]
  repeat' split
  all_goals simp

@[simp] theorem code_record (recorder : Recorder) (instruction : Instruction) :
    (recorder.record instruction).code = recorder.code.push instruction := by
  cases instruction <;> simp only [record] <;> repeat' split
  all_goals simp

theorem recordAll_append (recorder : Recorder) (first second : List Instruction) :
    recorder.recordAll (first ++ second) = (recorder.recordAll first).recordAll second :=
  List.foldl_append

theorem code_recordAll (recorder : Recorder) (code : List Instruction) :
    (recorder.recordAll code).code.toList = recorder.code.toList ++ code := by
  induction code generalizing recorder with
  | nil => simp [recordAll]
  | cons instruction rest induction =>
      have tail := induction (recorder.record instruction)
      simp only [recordAll, List.foldl_cons] at tail ⊢
      rw [tail]
      simp

end Recorder

end Casework
