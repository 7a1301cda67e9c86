import Casework.Proofs.Balance

/-!
Running the code of an expression.

Heights are not only what the recorder finds. A machine that runs balanced code never
touches the values that were on the stack before. So the code of an expression, if it gets
to its end at all, leaves one value more.
-/

namespace Casework

namespace Instruction

variable {library : Library} {instruction : Instruction} {stack later : List Value}
  {slots laterSlots : Slots}

theorem exists_taken_of_test? {condition : Condition} {jumps : Bool}
    (tested : condition.test? stack = some (jumps, later)) :
    ∃ taken, stack = taken ++ later ∧ taken.length = condition.operands := by
  unfold Condition.test? at tested
  split at tested
  all_goals cases tested
  all_goals first | exact ⟨[_, _], rfl, rfl⟩ | exact ⟨[_], rfl, rfl⟩

theorem result?_nil (routine : Routine) : routine.result? library [] = none := by
  cases routine <;> rfl

theorem exists_taken_of_running (enough : instruction.pops ≤ stack.length)
    (effect : instruction.effect library stack slots = .running later laterSlots) :
    ∃ taken given rest, stack = taken ++ rest ∧ later = given ++ rest ∧
      (taken.length : Int) = instruction.pops ∧ (given.length : Int) =
        instruction.pushes := by
  unfold Instruction.effect at effect
  split at effect
  case h_7 =>
      -- A slot may be empty.
      split at effect
      · cases effect
        exact ⟨[], [_], _, rfl, rfl, rfl, rfl⟩
      · cases effect
  case h_9 =>
      -- A cast may fail.
      split at effect
      · cases effect
        exact ⟨[_], [_], _, rfl, rfl, rfl, rfl⟩
      · cases effect
  case h_11 condition target =>
      split at effect
      · cases effect
      next rest tested =>
          cases effect
          obtain ⟨taken, split, length⟩ := exists_taken_of_test? tested
          exact ⟨taken, [], later, split, rfl, by simp [length, pops], rfl⟩
      · cases effect
  case h_13 =>
      -- A field may be missing.
      split at effect
      · cases effect
        exact ⟨[_], [_], _, rfl, rfl, rfl, rfl⟩
      · cases effect
  case h_18 routine operands _ =>
      split at effect
      next result found =>
          cases effect
          have positive : 0 ≤ operands := by
            refine Int.not_lt.1 fun negative => ?_
            rw [Int.toNat_of_nonpos (by omega), List.take_zero, result?_nil] at found
            cases found
          refine ⟨_, [result], _,
            (List.take_append_drop operands.toNat _).symm, rfl, ?_, rfl⟩
          simp only [pops] at enough ⊢
          rw [List.length_take]
          omega
      · cases effect
  all_goals cases effect
  all_goals first
    | exact ⟨[], [], _, rfl, rfl, rfl, rfl⟩
    | exact ⟨[], [_], _, rfl, rfl, rfl, rfl⟩
    | exact ⟨[_], [], _, rfl, rfl, rfl, rfl⟩
    | exact ⟨[_], [_], _, rfl, rfl, rfl, rfl⟩
    | exact ⟨[_], [_, _], _, rfl, rfl, rfl, rfl⟩
    | exact ⟨[_, _], [_], _, rfl, rfl, rfl, rfl⟩
    | exact ⟨[_, _], [_, _], _, rfl, rfl, rfl, rfl⟩
    | exact ⟨[_, _], [_, _, _], _, rfl, rfl, rfl, rfl⟩

theorem exists_taken_of_seeking {target : Label}
    (effect : instruction.effect library stack slots = .seeking target later laterSlots) :
    ∃ taken, stack = taken ++ later ∧ (taken.length : Int) = instruction.pops := by
  unfold Instruction.effect at effect
  split at effect
  case h_11 condition _ =>
      split at effect
      next rest tested =>
          cases effect
          obtain ⟨taken, split, length⟩ := exists_taken_of_test? tested
          exact ⟨taken, split, by simp [length, pops]⟩
      · cases effect
      · cases effect
  case h_12 =>
      cases effect
      exact ⟨[], rfl, rfl⟩
  case h_7 => split at effect <;> cases effect
  case h_9 => split at effect <;> cases effect
  case h_13 => split at effect <;> cases effect
  case h_18 => split at effect <;> cases effect
  all_goals cases effect

theorem heightAfter_of_running {heights : Heights} {height : Int}
    (effect : instruction.effect library stack slots = .running later laterSlots) :
    instruction.heightAfter heights (some height) =
      some (height - instruction.pops + instruction.pushes) := by
  cases instruction with
  | jump target => cases effect
  | label own => simp [heightAfter, pops, pushes]
  | _ => rfl

theorem Fits.enough {heights : Heights} {height : Int}
    (fits : instruction.Fits heights (some height)) (nonnegative : 0 ≤ height) :
    instruction.pops ≤ height := by
  cases instruction with
  | label own => exact nonnegative
  | _ => exact fits.1

theorem Fits.target {heights : Heights} {height : Int}
    (fits : instruction.Fits heights (some height)) {target : Label}
    (jumps : instruction.target? = some target) :
    heights target = height - instruction.pops := by
  cases instruction with
  | label own => cases jumps
  | _ => exact fits.2 target jumps

end Instruction

namespace Course

variable {library : Library} {heights : Heights} {height : Option Int}
  {below : List Value}

/-- The machine is at the height that is expected, and has left alone the values below. -/
def Levelled (heights : Heights) (below : List Value) (height : Option Int) :
    Course → Prop
  | running stack _ => ∃ top, stack = top ++ below ∧ height = some (top.length : Int)
  | seeking target stack _ => ∃ top, stack = top ++ below ∧ heights target =
      (top.length : Int)
  | unmatched _ _ => True
  | wrong => True

theorem exists_top_of_taken {top taken rest : List Value}
    (split : top ++ below = taken ++ rest) (enough : taken.length ≤ top.length) :
    ∃ left, rest = left ++ below ∧ top.length = taken.length + left.length := by
  refine ⟨top.drop taken.length, ?_, by rw [List.length_drop]; omega⟩
  calc
    rest = (taken ++ rest).drop taken.length := by rw [List.drop_left]
    _ = (top ++ below).drop taken.length := by rw [split]
    _ = top.drop taken.length ++ below := List.drop_append_of_le_length enough

theorem levelled_effect {instruction : Instruction} {top : List Value} {slots : Slots}
    (fits : instruction.Fits heights (some (top.length : Int))) :
    (instruction.effect library (top ++ below) slots).Levelled heights below
      (instruction.heightAfter heights (some (top.length : Int))) := by
  cases effect : instruction.effect library (top ++ below) slots with
  | running later laterSlots =>
      have enough := fits.enough (Int.natCast_nonneg _)
      have room : instruction.pops ≤ (top ++ below).length := by
        rw [List.length_append]
        omega
      obtain ⟨taken, given, rest, split, rfl, takenLength, givenLength⟩ :=
        Instruction.exists_taken_of_running room effect
      obtain ⟨left, rfl, topLength⟩ := exists_top_of_taken split (by omega)
      refine ⟨given ++ left, (List.append_assoc ..).symm, ?_⟩
      rw [Instruction.heightAfter_of_running effect, List.length_append,
        Option.some.injEq]
      omega
  | seeking target later laterSlots =>
      have enough := fits.enough (Int.natCast_nonneg _)
      obtain ⟨taken, split, takenLength⟩ := Instruction.exists_taken_of_seeking effect
      obtain ⟨left, rfl, topLength⟩ := exists_top_of_taken split (by omega)
      refine ⟨left, rfl, ?_⟩
      rw [fits.target (instruction.target?_of_seeking effect)]
      omega
  | unmatched value rest => trivial
  | wrong => trivial

theorem Levelled.advance {course : Course}
    (levelled : course.Levelled heights below height) {instruction : Instruction}
    (fits : instruction.Fits heights height) :
    (course.advance library instruction).Levelled heights below
      (instruction.heightAfter heights height) := by
  cases course with
  | running stack slots =>
      obtain ⟨top, rfl, rfl⟩ := levelled
      exact levelled_effect fits
  | seeking target stack slots =>
      obtain ⟨top, rfl, expected⟩ := levelled
      cases instruction with
      | label own =>
          by_cases equal : own = target
          · subst equal
            simp only [Course.advance, if_true]
            refine ⟨top, rfl, ?_⟩
            cases height with
            | none => exact congrArg some expected
            | some height => exact congrArg some (Eq.trans (Eq.symm fits) expected)
          · simp only [Course.advance, if_neg equal]
            exact ⟨top, rfl, expected⟩
      | _ => exact ⟨top, rfl, expected⟩
  | unmatched value rest => trivial
  | wrong => trivial

theorem Levelled.through {course : Course}
    (levelled : course.Levelled heights below height) {code : List Instruction}
    {after : Option Int} (flows : Flows heights height code after) :
    (course.through library code).Levelled heights below after := by
  induction code generalizing course height with
  | nil =>
      cases flows
      exact levelled
  | cons instruction rest induction => exact induction (levelled.advance flows.1) flows.2

theorem escapes_of_seeking {code : List Instruction} {course : Course} {target : Label}
    {stack : List Value} {slots : Slots}
    (left : course.through library code = .seeking target stack slots) :
    target ∈ escapes code ∨
      ∃ stack slots, course = .seeking target stack slots ∧
        target ∉ definedLabels code := by
  induction code generalizing course with
  | nil => exact .inr ⟨stack, slots, left, by simp⟩
  | cons instruction rest induction =>
      rcases induction left with later | ⟨laterStack, laterSlots, advanced, absent⟩
      · exact .inl (mem_escapes_cons.2 (.inr later))
      · cases course with
        | running stack slots =>
            have jumps := instruction.target?_of_seeking advanced
            exact .inl (mem_escapes_cons.2 (.inl ⟨jumps, absent⟩))
        | seeking label stack slots =>
            cases instruction with
            | label own =>
                by_cases equal : own = label
                · simp [Course.advance, equal] at advanced
                · rw [Course.advance, if_neg equal] at advanced
                  cases advanced
                  refine .inr ⟨_, _, rfl, ?_⟩
                  simp [absent, Ne.symm equal]
            | _ =>
                cases advanced
                exact .inr ⟨_, _, rfl, by simpa using absent⟩
        | unmatched value below => cases advanced
        | wrong => cases advanced

end Course

theorem Code.through_emit (library : Library) (code : Code) (bases : List Int)
    (supply : Supply) (below : List Value) (slots : Slots) :
    (∃ result later, (Course.running below slots).through library
      ((code.emit bases).run supply).1 =
      .running (result :: below) later) ∨
    (∃ value rest, (Course.running below slots).through library
      ((code.emit bases).run supply).1 =
      .unmatched value rest) ∨
    (Course.running below slots).through library
      ((code.emit bases).run supply).1 = .wrong := by
  obtain ⟨_, own, flows⟩ := code.balanced_emit bases supply 0 [] (Int.le_refl 0)
  have flow : Flows own (some 0) ((code.emit bases).run supply).1 (some (0 + 1)) :=
    flows own (fun _ _ _ => rfl) (fun _ member => by cases member)
  have start : (Course.running below slots).Levelled own below (some 0) := ⟨[], rfl, rfl⟩
  have levelled : ((Course.running below slots).through library
      ((code.emit bases).run supply).1).Levelled own below (some (0 + 1)) :=
      start.through flow
  cases course : (Course.running below slots).through library
    ((code.emit bases).run supply).1 with
  | running stack later =>
      rw [course] at levelled
      obtain ⟨top, rfl, height⟩ := levelled
      obtain ⟨result, rfl⟩ : ∃ result, top = [result] := by
        refine List.length_eq_one_iff.1 ?_
        have length := Option.some.inj height
        omega
      exact .inl ⟨result, later, rfl⟩
  | seeking target stack later =>
      rcases Course.escapes_of_seeking course with escape | ⟨_, _, impossible, _⟩
      · rw [code.escapes_emit bases supply] at escape
        cases escape
      · cases impossible
  | unmatched value rest => exact .inr (.inl ⟨value, rest, rfl⟩)
  | wrong => exact .inr (.inr rfl)

end Casework
