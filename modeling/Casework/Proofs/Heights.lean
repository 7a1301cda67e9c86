import Casework.Proofs.Machine

/-!
Heights: how many values code finds on the stack, place by place.

Every label has one height at which it is reached. Given these, the height at each place
of the code follows from the instruction before it, whether the place is reached or not:
after a jump there is no height until the next label. Code whose instructions all find
enough values, and arrive at labels at the right heights, is recorded without a finding.
The machine that runs it leaves the values below alone.
-/

namespace Casework

abbrev Heights := Label → Int

namespace Instruction

def heightAfter (heights : Heights) : Instruction → Option Int → Option Int
  | label own, none => some (heights own)
  | label _, some height => some height
  | jump _, _ => none
  | instruction, before => before.map (· - instruction.pops + instruction.pushes)

/-- An instruction has the values it needs and arrives at labels at their heights. -/
def Fits (heights : Heights) : Instruction → Option Int → Prop
  | _, none => True
  | label own, some height => heights own = height
  | instruction, some height =>
      instruction.pops ≤ height ∧
        ∀ target ∈ instruction.target?, heights target = height - instruction.pops

end Instruction

def Flows (heights : Heights) : Option Int → List Instruction → Option Int → Prop
  | before, [], after => before = after
  | before, instruction :: rest, after =>
      instruction.Fits heights before ∧
        Flows heights (instruction.heightAfter heights before) rest after

theorem Flows.append {heights : Heights} {before middle after : Option Int}
    {first second : List Instruction} (left : Flows heights before first middle)
    (right : Flows heights middle second after) :
    Flows heights before (first ++ second) after := by
  induction first generalizing before with
  | nil =>
      cases left
      exact right
  | cons instruction rest induction => exact ⟨left.1, induction left.2⟩

/-! ## Code with labels of its own -/

def Balanced (low high : Nat) (outer : List (Label × Int)) (before : Option Int)
    (code : List Instruction) (after : Option Int) : Prop :=
  low ≤ high ∧ ∃ own : Heights, ∀ heights : Heights,
    (∀ label : Label, low ≤ label.number → label.number < high →
      heights label = own label) →
    (∀ entry ∈ outer, heights entry.1 = entry.2) →
    Flows heights before code after

namespace Balanced

variable {low middle high : Nat} {outer : List (Label × Int)}
  {before between after : Option Int} {code first second : List Instruction}

theorem ofFlows
    (flows : ∀ heights : Heights, (∀ entry ∈ outer, heights entry.1 = entry.2) →
    Flows heights before code after) : Balanced low low outer before code after :=
  ⟨Nat.le_refl low, fun _ => 0, fun heights _ expected => flows heights expected⟩

theorem append (left : Balanced low middle outer before first between)
    (right : Balanced middle high outer between second after) :
    Balanced low high outer before (first ++ second) after := by
  obtain ⟨leftRange, leftOwn, leftFlows⟩ := left
  obtain ⟨rightRange, rightOwn, rightFlows⟩ := right
  refine ⟨by omega, fun label => if label.number < middle then leftOwn label else
    rightOwn label, ?_⟩
  intro heights own expected
  refine (leftFlows heights ?_ expected).append (rightFlows heights ?_ expected)
  · intro label atLeast below
    exact (own label atLeast (by omega)).trans (if_pos below)
  · intro label atLeast below
    exact (own label (by omega) below).trans (if_neg (by omega))

theorem hide (height : Int)
    (balanced : Balanced (low + 1) high ((⟨low⟩, height) :: outer) before code after) :
    Balanced low high outer before code after := by
  obtain ⟨range, inner, flows⟩ := balanced
  refine ⟨by omega, fun label => if label.number = low then height else inner label, ?_⟩
  intro heights own expected
  refine flows heights ?_ ?_
  · intro label atLeast below
    exact (own label (by omega) below).trans (if_neg (by omega))
  · intro entry member
    rcases List.mem_cons.1 member with rfl | later
    · exact (own ⟨low⟩ (Int.le_refl _) (Int.ofNat_lt.2 range)).trans (if_pos rfl)
    · exact expected entry later

end Balanced

end Casework
