import Casework.Proofs.Paths
import Casework.Proofs.Recording

/-!
What recording one instruction does to depths.

The depth before an instruction is the depth at the end of the code so far. A label can be
reached by jumps as well, which then have told its depth. The main statement here is that
an instruction with which nothing is wrong is recorded as its effect on the stack says:
the depth after it is known at the place after it and at the label it jumps to.
-/

namespace Casework

namespace Recorder

/-- The depth at the end of the code, if the end can be reached. -/
def height (recorder : Recorder) : Option Int :=
  if recorder.reachable then some recorder.depth else none

/-- The depth before an instruction that comes next, if it can be reached. -/
def entry (recorder : Recorder) (instruction : Instruction) : Option Int :=
  recorder.height.or (instruction.label?.bind fun label =>
    (recorder.labelState label).depth)

def exit (recorder : Recorder) (instruction : Instruction) : Option Int :=
  (recorder.entry instruction).map instruction.depthAfter

variable {recorder : Recorder} {instruction : Instruction} {label : Label}

theorem height_of_reachable (live : recorder.reachable = true) :
    recorder.height = some recorder.depth := if_pos live

theorem height_of_not_reachable (dead : recorder.reachable = false) :
    recorder.height = none := by
  simp [height, dead]

theorem labelState_start (label : Label) : ({} : Recorder).labelState label = {} := by
  simp [labelState]

theorem labelState_newLabel (recorder : Recorder) (label : Label) :
    recorder.newLabel.2.labelState label = recorder.labelState label := by
  simp only [labelState, newLabel, Array.getElem?_push]
  split
  · rfl
  · split
    next equal => simp [equal]
    next => rfl

/-! ## What is found wrong stays found -/

theorem finding_note_ne_none (finding : Finding) :
    (recorder.note finding).finding ≠ none := by
  cases known : recorder.finding <;> simp [note, known]

theorem of_finding_reach (quiet : (recorder.reach label).finding = none) :
    recorder.finding = none ∧
      ∀ expected, (recorder.labelState label).depth = some expected → expected =
        recorder.depth := by
  unfold reach at quiet
  split at quiet
  next unreached =>
      refine ⟨?_, fun expected reached => ?_⟩
      · unfold updateLabel at quiet
        split at quiet <;> exact quiet
      · rw [unreached] at reached
        cases reached
  next expected reached =>
      split at quiet
      next equal =>
          refine ⟨quiet, fun other same => ?_⟩
          rw [reached] at same
          cases same
          exact equal
      next => exact absurd quiet (finding_note_ne_none _)

theorem of_finding_shift (quiet : (recorder.shift instruction).finding = none) :
    recorder.finding = none ∧ instruction.pops ≤ recorder.depth := by
  simp only [shift] at quiet
  split at quiet
  next => exact absurd quiet (finding_note_ne_none _)
  next enough => exact ⟨quiet, Int.not_lt.1 enough⟩

theorem of_finding_mark (quiet : (recorder.mark label).finding = none) :
    (recorder.labelState label).marked = false := by
  cases marked : (recorder.labelState label).marked with
  | false => rfl
  | true =>
      let noted := recorder.note (.markedTwice recorder.code.size label)
      have found : (noted.define label).finding = none := by
        simp only [mark, marked, if_true, reachable_updateLabel, reachable_note] at quiet
        split at quiet
        · exact (of_finding_reach quiet).1
        · split at quiet <;> exact quiet
      rw [finding_define] at found
      exact absurd found (finding_note_ne_none _)

/-! ## What one instruction does -/

theorem depth_reach (recorder : Recorder) (label : Label) :
    (recorder.reach label).depth = recorder.depth := by
  unfold reach updateLabel
  repeat' split
  all_goals rfl

theorem maxDepth_reach (recorder : Recorder) (label : Label) :
    (recorder.reach label).maxDepth = recorder.maxDepth := by
  unfold reach updateLabel
  repeat' split
  all_goals rfl

theorem maxDepth_define (recorder : Recorder) (label : Label) :
    (recorder.define label).maxDepth = recorder.maxDepth := by
  unfold define updateLabel
  split <;> rfl

theorem height_reach (recorder : Recorder) (label : Label) :
    (recorder.reach label).height = recorder.height := by
  rw [height, reachable_reach, depth_reach, height]

theorem height_define (recorder : Recorder) (label : Label) :
    (recorder.define label).height = recorder.height := by
  rw [height, depth_define, define, reachable_updateLabel, height]

theorem depth_shift (enough : instruction.pops ≤ recorder.depth) :
    (recorder.shift instruction).depth = instruction.depthAfter recorder.depth :=
  depth_shift_of_le enough

theorem maxDepth_shift (enough : instruction.pops ≤ recorder.depth) :
    (recorder.shift instruction).maxDepth =
      max recorder.maxDepth (instruction.depthAfter recorder.depth) := by
  simp only [shift, Int.not_lt.2 enough, if_false, Instruction.depthAfter]
  congr 1
  omega

def resume (recorder : Recorder) : Option Int → Recorder
  | some depth => { recorder with depth := depth, reachable := true }
  | none => recorder

theorem finding_resume (recorder : Recorder) (arrived : Option Int) :
    (recorder.resume arrived).finding = recorder.finding := by
  cases arrived <;> rfl

theorem labelState_resume (recorder : Recorder) (arrived : Option Int) (label : Label) :
    (recorder.resume arrived).labelState label = recorder.labelState label := by
  cases arrived <;> rfl

theorem maxDepth_resume (recorder : Recorder) (arrived : Option Int) :
    (recorder.resume arrived).maxDepth = recorder.maxDepth := by
  cases arrived <;> rfl

theorem height_resume (dead : recorder.height = none) (arrived : Option Int) :
    (recorder.resume arrived).height = arrived := by
  cases arrived with
  | none => exact dead
  | some depth => rfl

/-! ## Instructions that are recorded without a finding -/

/-- An instruction is recorded without a finding. -/
structure Follows (recorder later : Recorder) (instruction : Instruction) : Prop where
  finding : recorder.finding = none
  unmarked : ∀ label, instruction.label? = some label →
    (recorder.labelState label).marked = false
  enough : instruction.label? = none → ∀ depth, recorder.entry instruction = some depth →
    instruction.pops ≤ depth
  agreed : ∀ label depth other, instruction.label? = some label ∨
    instruction.target? = some label →
    (recorder.labelState label).depth = some depth →
    recorder.exit instruction = some other →
      other = depth
  height : later.height = if instruction.goesOn then recorder.exit instruction else none
  reached : ∀ label, instruction.label? = some label ∨ instruction.target? = some label →
    (later.labelState label).depth = (recorder.labelState label).depth.or
    (recorder.exit instruction)
  others : ∀ label, instruction.label? ≠ some label → instruction.target? ≠ some label →
    (later.labelState label).depth = (recorder.labelState label).depth
  grown : recorder.maxDepth ≤ later.maxDepth
  noted : instruction.label? = none → ∀ depth, recorder.exit instruction = some depth →
    depth ≤ later.maxDepth
  attained : later.maxDepth = recorder.maxDepth ∨ recorder.exit instruction =
    some later.maxDepth

theorem entry_of_no_label (noLabel : instruction.label? = none) :
    recorder.entry instruction = recorder.height := by
  rw [entry, noLabel, Option.bind_none, Option.or_none]

theorem exit_of_reachable (live : recorder.reachable = true) :
    recorder.exit instruction = some (instruction.depthAfter recorder.depth) := by
  rw [exit, entry, height_of_reachable live]
  rfl

theorem exit_label (label : Label) :
    recorder.exit (.label label) = recorder.entry (.label label) := by
  have defines : (Instruction.label label).label? = some label := rfl
  have same : (Instruction.label label).depthAfter = id :=
    funext (Instruction.depthAfter_label defines)
  rw [exit, same, Option.map_id]
  rfl

theorem follows_of_dead (dead : recorder.reachable = false)
    (noLabel : instruction.label? = none)
    (quiet : (recorder.record instruction).finding = none) :
    recorder.Follows (recorder.record instruction) instruction := by
  have unreached : recorder.entry instruction = none := by
    rw [entry_of_no_label noLabel, height_of_not_reachable dead]
  have noExit : recorder.exit instruction = none := by
    rw [exit, unreached, Option.map_none]
  rw [record_dead dead noLabel] at quiet ⊢
  refine ⟨quiet, ?_, ?_, ?_, ?_, ?_, fun _ _ _ => rfl, Int.le_refl _, ?_, .inl rfl⟩
  · intro label defines
    rw [noLabel] at defines
    cases defines
  · simp [unreached]
  · simp [noExit]
  · rw [noExit, ite_self]
    exact height_of_not_reachable dead
  · intro label _
    rw [noExit, Option.or_none, labelState_push]
  · simp [noExit]

theorem follows_of_shift (live : recorder.reachable = true)
    (noLabel : instruction.label? = none) (enough : instruction.pops ≤ recorder.depth)
    (quiet : recorder.finding = none) {later : Recorder}
    (agreed : ∀ label depth, instruction.target? = some label →
      (recorder.labelState label).depth = some depth →
        instruction.depthAfter recorder.depth = depth)
    (height : later.height =
      if instruction.goesOn then some (instruction.depthAfter recorder.depth) else none)
    (jumps : ∀ label, instruction.target? = some label → (later.labelState label).depth =
      (recorder.labelState label).depth.or (some (instruction.depthAfter recorder.depth)))
    (others : ∀ label, instruction.target? ≠ some label →
      (later.labelState label).depth = (recorder.labelState label).depth)
    (maxDepth : later.maxDepth = max recorder.maxDepth
      (instruction.depthAfter recorder.depth)) :
    recorder.Follows later instruction := by
  have exit : recorder.exit instruction = some (instruction.depthAfter recorder.depth) :=
    exit_of_reachable live
  refine ⟨quiet, ?_, ?_, ?_, ?_, ?_, fun label _ => others label, ?_, ?_, ?_⟩
  · intro label defines
    rw [noLabel] at defines
    cases defines
  · rw [entry_of_no_label noLabel, height_of_reachable live]
    rintro _ depth ⟨⟩
    exact enough
  · rw [noLabel, exit]
    rintro label depth other (impossible | leads) known ⟨⟩
    · cases impossible
    · exact agreed label depth leads known
  · rw [exit]
    exact height
  · rw [noLabel, exit]
    rintro label (impossible | leads)
    · cases impossible
    · exact jumps label leads
  · rw [maxDepth]
    exact Int.le_max_left _ _
  · rw [exit, maxDepth]
    rintro _ depth ⟨⟩
    exact Int.le_max_right _ _
  · rw [exit, maxDepth]
    rcases Int.le_total (instruction.depthAfter recorder.depth) recorder.maxDepth
      with less | more
    · exact .inl (Int.max_eq_left less)
    · exact .inr (congrArg some (Int.max_eq_right more).symm)

theorem follows_of_target (live : recorder.reachable = true) {target : Label}
    (leads : instruction.target? = some target) (known : recorder.Knows target)
    (quiet : (((recorder.push instruction).shift instruction).reach target).finding =
      none)
    {later : Recorder}
    (height : later.height =
      if instruction.goesOn then some (instruction.depthAfter recorder.depth) else none)
    (labels : ∀ label, later.labelState label =
      (((recorder.push instruction).shift instruction).reach target).labelState label)
    (maxDepth : later.maxDepth =
      (((recorder.push instruction).shift instruction).reach target).maxDepth) :
    recorder.Follows later instruction := by
  have noLabel : instruction.label? = none := by
    cases instruction <;> first | rfl | cases leads
  obtain ⟨shifted, expected⟩ := of_finding_reach quiet
  obtain ⟨fine, enough⟩ := of_finding_shift shifted
  have depth : ((recorder.push instruction).shift instruction).depth =
      instruction.depthAfter recorder.depth := depth_shift enough
  have knownShifted : ((recorder.push instruction).shift instruction).Knows target := by
    rw [Knows, size_labels_shift, size_labels_push]
    exact known
  apply follows_of_shift live noLabel enough fine _ height
  · intro label isTarget
    rw [leads] at isTarget
    cases isTarget
    rw [labels, labelState_reach, labelState_shift, labelState_push, depth]
    cases reached : (recorder.labelState target).depth with
    | none => simp [knownShifted]
    | some own => simp [reached]
  · intro label isOther
    have apart : label ≠ target := by
      rintro rfl
      exact isOther leads
    rw [labels, labelState_reach, if_neg fun both => apart both.1, labelState_shift,
      labelState_push]
  · rw [maxDepth, maxDepth_reach]
    exact maxDepth_shift enough
  · intro label own isTarget reached
    rw [leads] at isTarget
    cases isTarget
    rw [← depth]
    apply Eq.symm
    apply expected
    rw [labelState_shift, labelState_push]
    exact reached

/-! ## Labels -/

theorem follows_of_define {later : Recorder} (quiet : recorder.finding = none)
    (unmarked : (recorder.labelState label).marked = false)
    (agreed : ∀ depth, (recorder.labelState label).depth = some depth →
      recorder.reachable = true →
      recorder.depth = depth)
    (height : later.height = recorder.entry (.label label))
    (reached : (later.labelState label).depth =
      (recorder.labelState label).depth.or (recorder.entry (.label label)))
    (others : ∀ other, other ≠ label →
      (later.labelState other).depth = (recorder.labelState other).depth)
    (maxDepth : later.maxDepth = recorder.maxDepth) :
    recorder.Follows later (.label label) := by
  refine ⟨quiet, ?_, fun impossible => (nomatch impossible), ?_, ?_, ?_, ?_,
    Int.le_of_eq maxDepth.symm,
    fun impossible => (nomatch impossible), .inl maxDepth⟩
  · rintro other ⟨⟩
    exact unmarked
  · rintro other depth found (⟨⟨⟩⟩ | impossible) known entered
    · rw [exit_label, entry] at entered
      by_cases live : recorder.reachable = true
      · rw [height_of_reachable live] at entered
        cases entered
        exact agreed depth known live
      · rw [height_of_not_reachable (by simpa using live)] at entered
        exact Option.some.inj (entered.symm.trans known)
    · cases impossible
  · rw [exit_label]
    exact height
  · rintro other (⟨⟨⟩⟩ | impossible)
    · rw [exit_label]
      exact reached
    · cases impossible
  · intro other different _
    apply others
    rintro rfl
    exact different rfl

/-- The recorder that has written the definition of a label, whether it is reached or
not. -/
def labelled (recorder : Recorder) (label : Label) : Recorder :=
  (recorder.push (.label label)).define label

theorem finding_labelled (recorder : Recorder) (label : Label) :
    (recorder.labelled label).finding = recorder.finding := finding_define _ label

theorem depth_labelled (recorder : Recorder) (label : Label) :
    (recorder.labelled label).depth = recorder.depth := depth_define _ label

theorem height_labelled (recorder : Recorder) (label : Label) :
    (recorder.labelled label).height = recorder.height := height_define _ label

theorem maxDepth_labelled (recorder : Recorder) (label : Label) :
    (recorder.labelled label).maxDepth = recorder.maxDepth := maxDepth_define _ label

theorem depth_labelState_labelled (recorder : Recorder) (label other : Label) :
    ((recorder.labelled label).labelState other).depth =
      (recorder.labelState other).depth :=
  depth_labelState_define _ label other

theorem knows_labelled (known : recorder.Knows label) :
    (recorder.labelled label).Knows label := by
  rw [Knows, labelled, define, size_labels_updateLabel, size_labels_push]
  exact known

theorem record_label_of_unmarked (unmarked : (recorder.labelState label).marked = false) :
    recorder.record (.label label) =
      if recorder.reachable then (recorder.labelled label).reach label
      else (recorder.labelled label).resume (recorder.labelState label).depth := by
  have unmarkedPushed : ((recorder.push (.label label)).labelState label).marked =
      false := unmarked
  rw [record_label, mark_of_unmarked unmarkedPushed]
  rfl

theorem follows_reach (live : recorder.reachable = true) (known : recorder.Knows label)
    (unmarked : (recorder.labelState label).marked = false)
    (quiet : ((recorder.labelled label).reach label).finding = none) :
    recorder.Follows ((recorder.labelled label).reach label) (.label label) := by
  have entry : recorder.entry (.label label) = some recorder.depth := by
    rw [Recorder.entry, height_of_reachable live, Option.some_or]
  obtain ⟨fine, expected⟩ := of_finding_reach quiet
  rw [finding_labelled] at fine
  apply follows_of_define fine unmarked
  · intro own reached _
    rw [← depth_labelled recorder label]
    exact (expected own
      ((depth_labelState_labelled recorder label label).trans reached)).symm
  · rw [height_reach, height_labelled, entry, height_of_reachable live]
  · rw [entry, labelState_reach]
    cases reached : (recorder.labelState label).depth with
    | none =>
        simp [depth_labelState_labelled, reached, knows_labelled known, depth_labelled]
    | some own => simp [depth_labelState_labelled, reached]
  · intro other different
    rw [labelState_reach, if_neg fun both => different both.1, depth_labelState_labelled]
  · rw [maxDepth_reach, maxDepth_labelled]

theorem follows_resume (dead : recorder.reachable = false)
    (unmarked : (recorder.labelState label).marked = false)
    (quiet : ((recorder.labelled label).resume
      (recorder.labelState label).depth).finding = none) :
    recorder.Follows ((recorder.labelled label).resume (recorder.labelState label).depth)
      (.label label) := by
  have noHeight := height_of_not_reachable dead
  have entry : recorder.entry (.label label) = (recorder.labelState label).depth := by
    rw [Recorder.entry, noHeight, Option.none_or]
    rfl
  rw [finding_resume, finding_labelled] at quiet
  apply follows_of_define quiet unmarked
  · simp [dead]
  · rw [entry]
    exact height_resume ((height_labelled recorder label).trans noHeight) _
  · rw [entry, Option.or_self, labelState_resume, depth_labelState_labelled]
  · intro other _
    rw [labelState_resume, depth_labelState_labelled]
  · rw [maxDepth_resume, maxDepth_labelled]

theorem follows_label (known : recorder.Knows label)
    (quiet : (recorder.record (.label label)).finding = none) :
    recorder.Follows (recorder.record (.label label)) (.label label) := by
  have unmarked : (recorder.labelState label).marked = false := by
    rw [record_label] at quiet
    have pushed := of_finding_mark quiet
    rwa [labelState_push] at pushed
  rw [record_label_of_unmarked unmarked] at quiet ⊢
  by_cases live : recorder.reachable = true
  · rw [if_pos live] at quiet ⊢
    exact follows_reach live known unmarked quiet
  · rw [if_neg live] at quiet ⊢
    exact follows_resume (by simpa using live) unmarked quiet

/-! ## All instructions -/

theorem follows_record (known : ∀ label, instruction.label? = some label ∨
      instruction.target? = some label → recorder.Knows label)
    (quiet : (recorder.record instruction).finding = none) :
    recorder.Follows (recorder.record instruction) instruction := by
  cases kind : instruction.label? with
  | some label =>
      rw [Instruction.eq_label kind] at quiet ⊢
      exact follows_label (known label (.inl kind)) quiet
  | none =>
      by_cases live : recorder.reachable = true
      · cases instruction with
        | label own => cases kind
        | branch condition target =>
            rw [record_branch live] at quiet ⊢
            have enough := (of_finding_shift (of_finding_reach quiet).1).2
            refine follows_of_target live rfl (known target (.inr rfl)) quiet ?_
              (fun _ => rfl) rfl
            rw [height_reach, height, reachable_shift, depth_shift enough]
            exact if_pos live
        | jump target =>
            rw [record_jump live] at quiet ⊢
            exact follows_of_target live rfl (known target (.inr rfl)) quiet rfl
              (fun _ => rfl) rfl
        | _ =>
            rw [record_plain live rfl rfl] at quiet ⊢
            obtain ⟨fine, enough⟩ := of_finding_shift quiet
            refine follows_of_shift live rfl enough fine (by rintro _ _ ⟨⟩) ?_
              (by rintro _ ⟨⟩) ?_
              (maxDepth_shift enough)
            · rw [height, reachable_shift, depth_shift enough]
              exact if_pos live
            · intro label _
              rw [labelState_shift, labelState_push]
      · exact follows_of_dead (by simpa using live) kind quiet

end Recorder

end Casework
