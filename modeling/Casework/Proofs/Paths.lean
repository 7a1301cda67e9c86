import Casework.Proofs.Machine

/-!
Paths through code.

A path starts at the first instruction with an empty stack. A branch may go either way,
whatever it looks at, so there are more paths than runs of the machine. Of the stack a
path knows only how many values are on it; where an instruction takes values that are not
there, the number falls below zero.

Code is written from its start to its end and jumps forwards. So an instruction that is
added at the end is entered from the instruction before it or, if it defines a label, by
the jumps to that label, and everything else about paths stays as it was.
-/

namespace Casework

namespace Instruction

def depthAfter (instruction : Instruction) (depth : Int) : Int :=
  depth - instruction.pops + instruction.pushes

/-- Whether the place after an instruction can follow on it. -/
def goesOn : Instruction → Bool
  | jump _ => false
  | _ => true

theorem depthAfter_label {label : Label} {instruction : Instruction}
    (defines : instruction.label? = some label) (depth : Int) :
    instruction.depthAfter depth = depth := by
  cases instruction <;> simp_all [depthAfter, pops, pushes]

theorem depthAfter_of_not_goesOn {instruction : Instruction}
    (ends : ¬ instruction.goesOn = true) (depth : Int) :
    instruction.depthAfter depth = depth := by
  cases instruction <;> simp_all [goesOn, depthAfter, pops, pushes]

theorem pushes_nonneg (instruction : Instruction) : 0 ≤ instruction.pushes := by
  cases instruction <;> simp only [pushes] <;> omega

theorem depthAfter_nonneg {instruction : Instruction} {depth : Int}
    (enough : instruction.pops ≤ depth) : 0 ≤ instruction.depthAfter depth := by
  have pushes := instruction.pushes_nonneg
  rw [depthAfter]
  omega

theorem eq_label {label : Label} {instruction : Instruction}
    (defines : instruction.label? = some label) : instruction = .label label := by
  cases instruction <;> simp_all

end Instruction

/-- Some path arrives at a place with so many values on the stack. -/
inductive Arrives (code : List Instruction) : (place : Nat) → (depth : Int) → Prop where
  | start : Arrives code 0 0
  | next {place : Nat} {depth : Int} {instruction : Instruction}
    (arrives : Arrives code place depth)
      (current : code[place]? = some instruction) (goesOn : instruction.goesOn = true) :
      Arrives code (place + 1) (instruction.depthAfter depth)
  | jump {place goal : Nat} {depth : Int} {instruction : Instruction} {target : Label}
      (arrives : Arrives code place depth) (current : code[place]? = some instruction)
      (leads : instruction.target? = some target)
      (lands : code[goal]? = some (.label target)) :
      Arrives code goal (instruction.depthAfter depth)

def JumpsTo (code : List Instruction) (label : Label) (depth : Int) : Prop :=
  ∃ place before instruction, Arrives code place before ∧ code[place]? =
    some instruction ∧
    instruction.target? = some label ∧ instruction.depthAfter before = depth

def Enters (code : List Instruction) (instruction : Instruction) (depth : Int) : Prop :=
  Arrives code code.length depth ∨
    ∃ label, instruction.label? = some label ∧ JumpsTo code label depth

variable {code : List Instruction} {instruction : Instruction} {place : Nat} {depth : Int}

theorem Arrives.place_le (arrives : Arrives code place depth) : place ≤ code.length := by
  cases arrives with
  | start => exact Nat.zero_le _
  | next _ current => exact (List.getElem?_eq_some_iff.1 current).1
  | jump _ _ _ lands => exact Nat.le_of_lt (List.getElem?_eq_some_iff.1 lands).1

theorem Arrives.nil (arrives : Arrives [] place depth) : depth = 0 := by
  cases arrives with
  | start => rfl
  | next _ current => cases current
  | jump _ current => cases current

theorem Arrives.exists_arrives_after (arrives : Arrives code place depth)
    (current : code[place]? = some instruction) :
    ∃ goal, Arrives code goal (instruction.depthAfter depth) := by
  by_cases goesOn : instruction.goesOn = true
  · exact ⟨place + 1, arrives.next current goesOn⟩
  · refine ⟨place, ?_⟩
    rw [Instruction.depthAfter_of_not_goesOn goesOn]
    exact arrives

theorem JumpsTo.exists_arrives {label : Label} (jumps : JumpsTo code label depth) :
    ∃ place, Arrives code place depth := by
  obtain ⟨place, before, instruction, arrives, current, _, rfl⟩ := jumps
  exact arrives.exists_arrives_after current

theorem Enters.exists_arrives (enters : Enters code instruction depth) :
    ∃ place, Arrives code place depth := by
  rcases enters with arrives | ⟨label, _, jumps⟩
  · exact ⟨code.length, arrives⟩
  · exact jumps.exists_arrives

/-! ## One more instruction -/

theorem getElem?_append_single {added current : Instruction}
    (found : (code ++ [added])[place]? = some current) :
    code[place]? = some current ∧ place < code.length ∨ place = code.length ∧
      current = added := by
  rw [List.getElem?_append] at found
  split at found
  next small => exact .inl ⟨found, small⟩
  next large =>
      rw [List.getElem?_singleton] at found
      split at found
      next zero => exact .inr ⟨by omega, (Option.some.inj found).symm⟩
      next => cases found

theorem getElem?_append_of_some {current : Instruction}
    (found : code[place]? = some current) (more : List Instruction) :
    (code ++ more)[place]? = some current := by
  rw [List.getElem?_append_left (List.getElem?_eq_some_iff.1 found).1]
  exact found

theorem Arrives.append (arrives : Arrives code place depth) (more : List Instruction) :
    Arrives (code ++ more) place depth := by
  induction arrives with
  | start => exact .start
  | next _ current goesOn induction =>
      exact induction.next (getElem?_append_of_some current more) goesOn
  | jump _ current leads lands induction =>
      exact induction.jump (getElem?_append_of_some current more) leads
        (getElem?_append_of_some lands more)

theorem Enters.arrives (enters : Enters code instruction depth) :
    Arrives (code ++ [instruction]) code.length depth := by
  rcases enters with
    arrives | ⟨label, defines, place, before, jump, arrives, current, leads, rfl⟩
  · exact arrives.append _
  · have lands : (code ++ [instruction])[code.length]? = some (.label label) := by
      rw [List.getElem?_concat_length, Instruction.eq_label defines]
    exact (arrives.append _).jump (getElem?_append_of_some current _) leads lands

theorem Enters.next (enters : Enters code instruction depth)
    (goesOn : instruction.goesOn = true) :
    Arrives (code ++ [instruction]) (code.length + 1) (instruction.depthAfter depth) :=
  enters.arrives.next List.getElem?_concat_length goesOn

theorem Arrives.append_cases
    (ahead : ∀ target, instruction.target? = some target → .label target ∉ code)
    (arrives : Arrives (code ++ [instruction]) place depth) :
    place < code.length ∧ Arrives code place depth ∨
    place = code.length ∧ Enters code instruction depth ∨
    place = code.length + 1 ∧ instruction.goesOn = true ∧
      ∃ before, Enters code instruction before ∧
        instruction.depthAfter before = depth := by
  have within : ∀ {place depth}, Arrives code place depth →
      place < code.length ∧ Arrives code place depth ∨
        place = code.length ∧ Enters code instruction depth := by
    intro place depth arrives
    rcases Nat.lt_or_eq_of_le arrives.place_le with small | rfl
    · exact .inl ⟨small, arrives⟩
    · exact .inr ⟨rfl, .inl arrives⟩
  induction arrives with
  | start => exact (within .start).imp id .inl
  | @next from_ before current _ found goesOn induction =>
      rcases induction with ⟨small, arrives⟩ | ⟨rfl, enters⟩ | ⟨rfl, _⟩
      · rw [List.getElem?_append_left small] at found
        exact (within (arrives.next found goesOn)).imp id .inl
      · rw [List.getElem?_concat_length] at found
        cases found
        exact .inr (.inr ⟨rfl, goesOn, before, enters, rfl⟩)
      · simp at found
  | @jump from_ goal before current target _ found leads lands induction =>
      rcases induction with ⟨small, arrives⟩ | ⟨rfl, enters⟩ | ⟨rfl, _⟩
      · rw [List.getElem?_append_left small] at found
        rcases getElem?_append_single lands with ⟨inside, _⟩ | ⟨rfl, equal⟩
        · exact (within (arrives.jump found leads inside)).imp id .inl
        · have defines : instruction.label? = some target := by rw [← equal]; rfl
          exact .inr (.inl
            ⟨rfl,
              .inr ⟨target, defines, from_, before, current, arrives, found, leads, rfl⟩⟩)
      · -- The instruction itself jumps, but its target is neither in the code nor itself.
        rw [List.getElem?_concat_length] at found
        cases found
        rcases getElem?_append_single lands with ⟨inside, _⟩ | ⟨_, equal⟩
        · exact absurd (List.mem_of_getElem? inside) (ahead target leads)
        · rw [← equal] at leads
          cases leads
      · simp at found

theorem JumpsTo.append {label : Label} (jumps : JumpsTo code label depth)
    (more : List Instruction) :
    JumpsTo (code ++ more) label depth := by
  obtain ⟨place, before, current, arrives, found, leads, after⟩ := jumps
  exact ⟨place, before, current, arrives.append more,
    getElem?_append_of_some found more, leads, after⟩

theorem jumpsTo_append_iff
    (ahead : ∀ target, instruction.target? = some target → .label target ∉ code)
    {label : Label} :
    JumpsTo (code ++ [instruction]) label depth ↔
      JumpsTo code label depth ∨ instruction.target? = some label ∧
        ∃ before, Enters code instruction before ∧
          instruction.depthAfter before = depth := by
  constructor
  · rintro ⟨place, before, current, arrives, found, leads, after⟩
    rcases arrives.append_cases ahead with ⟨small, inside⟩ | ⟨rfl, enters⟩ | ⟨rfl, _⟩
    · rw [List.getElem?_append_left small] at found
      exact .inl ⟨place, before, current, inside, found, leads, after⟩
    · rw [List.getElem?_concat_length] at found
      cases found
      exact .inr ⟨leads, before, enters, after⟩
    · simp at found
  · rintro (jumps | ⟨leads, before, enters, after⟩)
    · exact jumps.append _
    · exact ⟨code.length, before, instruction, enters.arrives,
        List.getElem?_concat_length, leads, after⟩

end Casework
