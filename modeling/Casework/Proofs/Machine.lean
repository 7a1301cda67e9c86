import Mathlib.Logic.Relation
import Casework.Listing.Instruction
import Casework.Proofs.Value

/-!
The stack machine that listings run on.

The machine has a place in the listing, a stack of operands and numbered slots. An
instruction works on operands of the right shape only: a struct is asked for a field it
has, a list for its head only if it has one, and numbers alone are added up. Anything else
is wrong, and the machine stops there. The call that reports that nothing matched also
stops it.

Listings jump forwards. For such a listing the machine can be followed from instruction to
instruction in the order of the listing, where a jump passes over what stands before its
label. This is the course of the code, and it composes: the course through two pieces of
code is the course through the second one after the first. The main statement here is that
the machine does what the course says.
-/

namespace Casework

/-- What code can ask of the target that the language leaves open: how numbers are
computed with, and the fields of foreign classes. -/
structure Library where
  add : Number → Number → Number
  subtract : Number → Number → Number
  multiply : Number → Number → Number
  static : (owner name : String) → Value

/-- The values kept in slots. Nothing is in a slot before the first value is stored
there. -/
abbrev Slots := Int → Option Value

def Slots.put (slots : Slots) (slot : Int) (value : Value) : Slots :=
  fun other => if other = slot then some value else slots other

@[simp] theorem Slots.put_self (slots : Slots) (slot : Int) (value : Value) :
    slots.put slot value slot = some value := if_pos rfl

theorem Slots.put_of_ne (slots : Slots) {slot other : Int} (different : other ≠ slot)
    (value : Value) : slots.put slot value other = slots other := if_neg different

/-! ## Instructions -/

inductive Course where
  | running (stack : List Value) (slots : Slots)
  | seeking (target : Label) (stack : List Value) (slots : Slots)
  | unmatched (value : Value) (below : List Value)
  | wrong

def Condition.test? : Condition → List Value → Option (Bool × List Value)
  | same, .text right :: .text left :: stack => some (decide (left = right), stack)
  | different, .text right :: .text left :: stack => some (decide (left ≠ right), stack)
  | holds, .boolean value :: stack => some (value, stack)
  | fails, .boolean value :: stack => some (!value, stack)
  | null, value :: stack => some (decide (value = .null), stack)
  | notNull, value :: stack => some (decide (value ≠ .null), stack)
  | _, _ => none

def Routine.result? (library : Library) : Routine → List Value → Option Value
  | isEmpty, [.list items] => some (.boolean (decide (items = .nil)))
  | first, [.list (.cons head _)] => some head
  | rest, [.list (.cons _ tail)] => some (.list tail)
  | cons, [tail, head] => tail.items?.map fun items => .list (.cons head items)
  | add, [.number right, .number left] => some (.number (library.add left right))
  | subtract, [.number right, .number left] =>
      some (.number (library.subtract left right))
  | multiply, [.number right, .number left] =>
      some (.number (library.multiply left right))
  | _, _ => none

def Shape.admits : Shape → Value → Bool
  | list, value => value.items?.isSome
  | struct, .struct _ => true
  | tag, .tagged _ _ => true
  | _, _ => false

def Instruction.effect (library : Library) : Instruction → List Value → Slots → Course
  | label _, stack, slots => .running stack slots
  | dup, value :: stack, slots => .running (value :: value :: stack) slots
  | dupBelow, top :: value :: stack, slots =>
      .running (top :: value :: top :: stack) slots
  | swap, top :: value :: stack, slots => .running (value :: top :: stack) slots
  | pop, _ :: stack, slots => .running stack slots
  | store slot, value :: stack, slots => .running stack (slots.put slot value)
  | load slot, stack, slots =>
      match slots slot with
      | some value => .running (value :: stack) slots
      | none => .wrong
  | constant value, stack, slots => .running (.ofConstant value :: stack) slots
  | cast shape, value :: stack, slots =>
      if shape.admits value then .running (value :: stack) slots else .wrong
  | equals, right :: left :: stack, slots =>
      .running (.boolean (decide (left = right)) :: stack) slots
  | branch condition target, stack, slots =>
      match condition.test? stack with
      | some (true, stack) => .seeking target stack slots
      | some (false, stack) => .running stack slots
      | none => .wrong
  | jump target, stack, slots => .seeking target stack slots
  | field name, .struct fields :: stack, slots =>
      match fields.get? name with
      | some value => .running (value :: stack) slots
      | none => .wrong
  | tagName, .tagged tag _ :: stack, slots => .running (.ofString tag :: stack) slots
  | tagPayload, .tagged _ payload :: stack, slots => .running (payload :: stack) slots
  | newTag tag, payload :: stack, slots => .running (.tagged tag payload :: stack) slots
  | invoke .noMatch 1 true, value :: stack, _ => .unmatched value stack
  | invoke routine operands true, stack, slots =>
      match routine.result? library (stack.take operands.toNat) with
      | some result => .running (result :: stack.drop operands.toNat) slots
      | none => .wrong
  | static owner name, stack, slots => .running (library.static owner name :: stack) slots
  | _, _, _ => .wrong

/-! ## The machine -/

/-- A machine about to run the instruction at a place. -/
structure Machine where
  place : Nat
  stack : List Value
  slots : Slots

inductive Halt where
  | finished
  | unmatched (value : Value) (below : List Value)
  | wrong

def labelPlace? (code : List Instruction) (label : Label) : Option Nat :=
  code.findIdx? (· = .label label)

def Machine.step (library : Library) (code : List Instruction) (machine : Machine) :
    Except Halt Machine :=
  match code[machine.place]? with
  | none => .error .finished
  | some instruction =>
      match instruction.effect library machine.stack machine.slots with
      | .running stack slots => .ok ⟨machine.place + 1, stack, slots⟩
      | .seeking target stack slots =>
          match labelPlace? code target with
          | some place => .ok ⟨place, stack, slots⟩
          | none => .error .wrong
      | .unmatched value below => .error (.unmatched value below)
      | .wrong => .error .wrong

/-- One machine becomes another by running a listing for a while. -/
def Machine.Reaches (library : Library) (code : List Instruction) :
    Machine → Machine → Prop :=
  Relation.ReflTransGen fun before after => before.step library code = .ok after

@[simp] def Instruction.label? : Instruction → Option Label
  | label own => some own
  | _ => none

def Instruction.target? : Instruction → Option Label
  | branch _ target => some target
  | jump target => some target
  | _ => none

-- The equations are worked out once, here, and not by each proof about a run.
attribute [grind =] Condition.test? Routine.result? Shape.admits Instruction.effect
  Instruction.target?

def definedLabels (code : List Instruction) : List Label :=
  code.filterMap Instruction.label?

@[simp] theorem definedLabels_nil : definedLabels [] = [] := rfl

@[simp] theorem definedLabels_append (first second : List Instruction) :
    definedLabels (first ++ second) = definedLabels first ++ definedLabels second :=
  List.filterMap_append

@[simp] theorem definedLabels_cons (instruction : Instruction) (code : List Instruction) :
    definedLabels (instruction :: code) = instruction.label?.toList ++
      definedLabels code := by
  cases instruction <;> rfl

theorem mem_definedLabels {label : Label} {code : List Instruction} :
    label ∈ definedLabels code ↔ .label label ∈ code := by
  induction code with
  | nil => simp
  | cons instruction rest induction =>
      cases instruction <;> simp_all [definedLabels, Instruction.label?]

/-! ## The course of code -/

namespace Course

def advance (library : Library) : Course → Instruction → Course
  | running stack slots, instruction => instruction.effect library stack slots
  | seeking target stack slots, .label label =>
      if label = target then running stack slots else seeking target stack slots
  | course, _ => course

attribute [grind =] advance

def through (library : Library) (course : Course) (code : List Instruction) : Course :=
  code.foldl (advance library) course

variable {library : Library}

@[simp] theorem through_nil (course : Course) : course.through library [] = course := rfl

@[simp] theorem through_cons (course : Course) (instruction : Instruction)
    (code : List Instruction) :
    course.through library (instruction :: code) =
      (course.advance library instruction).through library code := rfl

theorem through_append (course : Course) (first second : List Instruction) :
    course.through library (first ++ second) =
      (course.through library first).through library second :=
  List.foldl_append

@[simp] theorem through_unmatched (value : Value) (below : List Value)
    (code : List Instruction) :
    (unmatched value below).through library code = unmatched value below := by
  induction code with
  | nil => rfl
  | cons instruction rest induction => simpa [advance] using induction

theorem through_seeking {target : Label} {code : List Instruction}
    (absent : target ∉ definedLabels code) (stack : List Value) (slots : Slots) :
    (seeking target stack slots).through library code = seeking target stack slots := by
  induction code with
  | nil => rfl
  | cons instruction rest induction =>
      cases instruction with
      | label label =>
          simp only [definedLabels_cons, Instruction.label?, Option.toList_some,
            List.singleton_append, List.mem_cons, not_or] at absent
          simpa [advance, Ne.symm absent.1] using induction absent.2
      | _ => simpa [advance] using induction absent

end Course

/-! ## The machine follows the course -/

def Placed (listing : List Instruction) (place : Nat) (code : List Instruction) : Prop :=
  code <+: listing.drop place

namespace Placed

variable {listing : List Instruction} {place : Nat}

theorem left {first second : List Instruction}
    (placed : Placed listing place (first ++ second)) :
    Placed listing place first :=
  (List.prefix_append first second).trans placed

theorem right {first second : List Instruction}
    (placed : Placed listing place (first ++ second)) :
    Placed listing (place + first.length) second := by
  obtain ⟨after, equal⟩ := placed
  refine ⟨after, ?_⟩
  rw [← List.drop_drop, ← equal]
  simp

theorem head {instruction : Instruction} {code : List Instruction}
    (placed : Placed listing place (instruction :: code)) :
    listing[place]? = some instruction := by
  obtain ⟨after, equal⟩ := placed
  have first := congrArg (·[0]?) equal
  simpa using first.symm

theorem tail {instruction : Instruction} {code : List Instruction}
    (placed : Placed listing place (instruction :: code)) :
    Placed listing (place + 1) code :=
  @right _ _ [instruction] code placed

end Placed

theorem labelPlace?_eq_some {listing : List Instruction}
    (unique : (definedLabels listing).Nodup) {place : Nat} {label : Label}
    (found : listing[place]? = some (.label label)) :
    labelPlace? listing label = some place := by
  induction listing generalizing place with
  | nil => simp at found
  | cons instruction rest induction =>
      cases place with
      | zero =>
          have equal : instruction = .label label := by simpa using found
          simp [labelPlace?, List.findIdx?_cons, equal]
      | succ place =>
          have later : rest[place]? = some (.label label) := by simpa using found
          have member : label ∈ definedLabels rest :=
            mem_definedLabels.2 (List.mem_of_getElem? later)
          have different : instruction ≠ .label label := by
            rintro rfl
            exact (List.nodup_cons.1 unique).1 member
          have restUnique : (definedLabels rest).Nodup :=
            unique.sublist ((List.sublist_cons_self instruction rest).filterMap _)
          have place := induction restUnique later
          simp only [labelPlace?] at place
          simp [labelPlace?, List.findIdx?_cons, different, place]

namespace Course

variable {library : Library} {listing : List Instruction}

def Describes (library : Library) (listing : List Instruction)
    (start : Machine) (place : Nat) :
    Course → Prop
  | running stack slots => start.Reaches library listing ⟨place, stack, slots⟩
  | seeking target stack slots =>
      ∃ machine instruction, start.Reaches library listing machine ∧
        listing[machine.place]? = some instruction ∧
        instruction.effect library machine.stack machine.slots =
          .seeking target stack slots
  | unmatched value below =>
      ∃ machine, start.Reaches library listing machine ∧
        machine.step library listing = .error (.unmatched value below)
  | wrong =>
      ∃ machine, start.Reaches library listing machine ∧
        machine.step library listing = .error .wrong

theorem Describes.arrive {start : Machine} {place target : Nat} {label : Label}
    {stack : List Value} {slots : Slots}
    (unique : (definedLabels listing).Nodup)
    (describes : (seeking label stack slots).Describes library listing start place)
    (found : listing[target]? = some (.label label)) :
    start.Reaches library listing ⟨target, stack, slots⟩ := by
  obtain ⟨machine, instruction, reached, current, effect⟩ := describes
  refine reached.tail ?_
  simp [Machine.step, current, effect, labelPlace?_eq_some unique found]

theorem Describes.advance {start : Machine} {place : Nat} {course : Course}
    {instruction : Instruction} (unique : (definedLabels listing).Nodup)
    (describes : course.Describes library listing start place)
    (current : listing[place]? = some instruction) :
    (course.advance library instruction).Describes library listing start (place + 1) := by
  cases course with
  | running stack slots =>
      simp only [Course.advance]
      cases effect : instruction.effect library stack slots with
      | running stack slots =>
          exact Relation.ReflTransGen.tail describes
            (by simp [Machine.step, current, effect])
      | seeking target stack slots =>
          exact ⟨_, instruction, describes, current, effect⟩
      | unmatched value below =>
          exact ⟨_, describes, by simp [Machine.step, current, effect]⟩
      | wrong =>
          exact ⟨_, describes, by simp [Machine.step, current, effect]⟩
  | seeking target stack slots =>
      cases instruction with
      | label label =>
          by_cases equal : label = target
          · subst equal
            simp only [Course.advance, if_true]
            refine (describes.arrive unique current).tail ?_
            simp [Machine.step, current, Instruction.effect]
          · rw [Course.advance, if_neg equal]
            exact describes
      | _ => exact describes
  | unmatched value below => exact describes
  | wrong => exact describes

theorem Describes.through {start : Machine} {place : Nat} {course : Course}
    {code : List Instruction} (unique : (definedLabels listing).Nodup)
    (describes : course.Describes library listing start place)
    (placed : Placed listing place code) :
    (course.through library code).Describes library listing start
      (place + code.length) := by
  induction code generalizing place course with
  | nil => exact describes
  | cons instruction rest induction =>
      have advanced := describes.advance unique placed.head
      have followed := induction advanced placed.tail
      rw [List.length_cons, Nat.add_comm rest.length 1, ← Nat.add_assoc]
      exact followed

variable (library) in
theorem describes_through (unique : (definedLabels listing).Nodup) {place : Nat}
    {code : List Instruction} (placed : Placed listing place code) (stack : List Value)
    (slots : Slots) :
    ((running stack slots).through library code).Describes library listing
      ⟨place, stack, slots⟩ (place + code.length) := by
  have start : (running stack slots).Describes library listing
      ⟨place, stack, slots⟩ place :=
    Relation.ReflTransGen.refl
  exact start.through unique placed

end Course

end Casework
