import Casework.Proofs.Depths

/-!
Labels that are given out while code is recorded.

Whoever writes code asks the recorder for labels whenever one is needed, in between
instructions. The main statement here is that it makes no difference when that happens, as
long as a label is given out before it is used: the recorder ends up the same as if all
labels had been given out first.
-/

namespace Casework

namespace Recorder

/-! ## Labels given out while code is recorded -/

/-- The recorder after it has given out so many labels. -/
def giveOut (recorder : Recorder) : Nat → Recorder
  | 0 => recorder
  | count + 1 => recorder.newLabel.2.giveOut count

/-- Code is recorded and so many labels are given out meanwhile, each before it is
used. -/
inductive Writes : Recorder → Nat → List Instruction → Recorder → Prop where
  | done (recorder : Recorder) : Writes recorder 0 [] recorder
  | newLabel {recorder later : Recorder} {labels : Nat} {code : List Instruction}
      (rest : Writes recorder.newLabel.2 labels code later) :
      Writes recorder (labels + 1) code later
  | record {recorder later : Recorder} {labels : Nat} {instruction : Instruction}
      {code : List Instruction}
      (known : ∀ label, instruction.label? = some label ∨
        instruction.target? = some label → recorder.Knows label)
      (rest : Writes (recorder.record instruction) labels code later) :
      Writes recorder labels (instruction :: code) later

attribute [grind =] giveOut

variable {recorder later : Recorder} {instruction : Instruction} {label : Label}
  {code : List Instruction}

theorem giveOut_eq (recorder : Recorder) (count : Nat) :
    recorder.giveOut count =
      { recorder with labels := (recorder.giveOut count).labels } := by
  induction count generalizing recorder with
  | zero => rfl
  | succ count induction => exact induction recorder.newLabel.2

theorem finding_giveOut (recorder : Recorder) (count : Nat) :
    (recorder.giveOut count).finding = recorder.finding := by rw [giveOut_eq]

theorem reachable_giveOut (recorder : Recorder) (count : Nat) :
    (recorder.giveOut count).reachable = recorder.reachable := by rw [giveOut_eq]

theorem depth_giveOut (recorder : Recorder) (count : Nat) :
    (recorder.giveOut count).depth = recorder.depth := by rw [giveOut_eq]

theorem code_giveOut (recorder : Recorder) (count : Nat) :
    (recorder.giveOut count).code = recorder.code := by rw [giveOut_eq]

theorem size_labels_giveOut (recorder : Recorder) (count : Nat) :
    (recorder.giveOut count).labels.size = recorder.labels.size + count := by
  induction count generalizing recorder with
  | zero => rfl
  | succ count induction =>
      rw [giveOut, induction, newLabel, Array.size_push]
      omega

theorem labelState_giveOut (recorder : Recorder) (count : Nat) (label : Label) :
    (recorder.giveOut count).labelState label = recorder.labelState label := by
  induction count generalizing recorder with
  | zero => rfl
  | succ count induction => rw [giveOut, induction, labelState_newLabel]

theorem knows_giveOut (recorder : Recorder) (count : Nat) (label : Label) :
    (recorder.giveOut count).Knows label ↔
      0 ≤ label.number ∧ label.number < recorder.labels.size + count := by
  rw [Knows, size_labels_giveOut]
  omega

theorem Knows.giveOut (known : recorder.Knows label) (count : Nat) :
    (recorder.giveOut count).Knows label := by
  rw [knows_giveOut]
  rw [Knows] at known
  omega

/-! ## Giving out labels first -/

theorem newLabel_updateLabel (known : recorder.Knows label)
    (change : LabelState → LabelState) :
    (recorder.updateLabel label change).newLabel.2 =
      recorder.newLabel.2.updateLabel label change := by
  obtain ⟨natural, bound⟩ := known
  have index : label.number.toNat < recorder.labels.size := by omega
  have labels : (recorder.labels.modify label.number.toNat change).push {} =
      (recorder.labels.push {}).modify label.number.toNat change := by
    apply Array.ext
    · simp
    · intro place _ _
      grind
  simp only [updateLabel, if_neg (Int.not_lt.2 natural), newLabel, labels]

theorem newLabel_reach (known : recorder.Knows label) :
    (recorder.reach label).newLabel.2 = recorder.newLabel.2.reach label := by
  unfold reach
  rw [labelState_newLabel]
  split
  · exact newLabel_updateLabel known _
  next expected _ =>
      by_cases equal : expected = recorder.depth
      · have equalLater : expected = recorder.newLabel.2.depth := equal
        rw [if_pos equal, if_pos equalLater]
      · have apartLater : ¬ expected = recorder.newLabel.2.depth := equal
        rw [if_neg equal, if_neg apartLater]
        rfl

theorem newLabel_shift (recorder : Recorder) (instruction : Instruction) :
    (recorder.shift instruction).newLabel.2 = recorder.newLabel.2.shift instruction := by
  unfold shift
  by_cases short : recorder.depth < instruction.pops <;> simp [newLabel, note, short]

theorem newLabel_labelled (known : recorder.Knows label) :
    (recorder.labelled label).newLabel.2 = recorder.newLabel.2.labelled label := by
  have knownPushed : (recorder.push (.label label)).Knows label := known
  exact newLabel_updateLabel knownPushed _

theorem newLabel_record_label (known : recorder.Knows label)
    (unmarked : (recorder.labelState label).marked = false) :
    (recorder.record (.label label)).newLabel.2 = recorder.newLabel.2.record
      (.label label) := by
  have unmarkedLater : (recorder.newLabel.2.labelState label).marked = false := by
    rw [labelState_newLabel]
    exact unmarked
  rw [record_label_of_unmarked unmarked, record_label_of_unmarked unmarkedLater,
    labelState_newLabel, ← newLabel_labelled known]
  by_cases live : recorder.reachable = true
  · have liveLater : recorder.newLabel.2.reachable = true := live
    rw [if_pos live, if_pos liveLater, newLabel_reach (knows_labelled known)]
  · have deadLater : ¬ recorder.newLabel.2.reachable = true := live
    rw [if_neg live, if_neg deadLater]
    cases (recorder.labelState label).depth <;> rfl

theorem newLabel_record
    (known : ∀ label, instruction.label? = some label ∨ instruction.target? = some label →
      recorder.Knows label)
    (unmarked : ∀ label ∈ instruction.label?,
      (recorder.labelState label).marked = false) :
    (recorder.record instruction).newLabel.2 =
      recorder.newLabel.2.record instruction := by
  cases kind : instruction.label? with
  | some label =>
      rw [Instruction.eq_label kind]
      exact newLabel_record_label (known label (.inl kind)) (unmarked label kind)
  | none =>
      by_cases live : recorder.reachable = true
      · have liveLater : recorder.newLabel.2.reachable = true := live
        have shifted := newLabel_shift (recorder.push instruction) instruction
        have knownShifted (target : Label) (leads : instruction.target? = some target) :
            ((recorder.push instruction).shift instruction).Knows target := by
          rw [Knows, size_labels_shift, size_labels_push]
          exact known target (.inr leads)
        cases instruction with
        | label own => cases kind
        | branch condition target =>
            rw [record_branch live, record_branch liveLater,
              newLabel_reach (knownShifted target rfl), shifted]
            rfl
        | jump target =>
            have reached := newLabel_reach (knownShifted target rfl)
            rw [shifted] at reached
            rw [record_jump live, record_jump liveLater]
            exact congrArg stop reached
        | _ =>
            rw [record_plain live kind rfl, record_plain liveLater kind rfl]
            exact shifted
      · have dead : recorder.reachable = false := by simpa using live
        have deadLater : recorder.newLabel.2.reachable = false := dead
        rw [record_dead dead kind, record_dead deadLater kind]
        rfl

theorem giveOut_record
    (known : ∀ label, instruction.label? = some label ∨ instruction.target? = some label →
      recorder.Knows label)
    (unmarked : ∀ label ∈ instruction.label?, (recorder.labelState label).marked = false)
    (count : Nat) :
    (recorder.record instruction).giveOut count =
      (recorder.giveOut count).record instruction := by
  induction count generalizing recorder with
  | zero => rfl
  | succ count induction =>
      rw [giveOut, giveOut, newLabel_record known unmarked]
      refine induction (fun label used => (known label used).giveOut 1)
        fun label own => ?_
      rw [labelState_newLabel]
      exact unmarked label own

theorem Writes.eq {labels : Nat} (writes : recorder.Writes labels code later)
    (fresh : (recorder.giveOut labels).Fresh code) :
    later = (recorder.giveOut labels).recordAll code := by
  induction writes with
  | done recorder => rfl
  | newLabel rest induction => exact induction fresh
  | @record recorder later labels instruction code known rest induction =>
      have unmarked : ∀ label ∈ instruction.label?,
          (recorder.labelState label).marked = false := by
        intro label own
        rw [← labelState_giveOut recorder labels label]
        exact fresh.head label own
      have moved := giveOut_record known unmarked labels
      have rewritten := induction (by
        rw [moved]
        exact fresh.tail)
      rw [moved] at rewritten
      exact rewritten

theorem writes_recordAll
    (known : ∀ instruction ∈ code, ∀ label,
      instruction.label? = some label ∨ instruction.target? = some label →
        recorder.Knows label) :
    recorder.Writes 0 code (recorder.recordAll code) := by
  induction code generalizing recorder with
  | nil => exact .done recorder
  | cons instruction rest induction =>
      refine .record (known instruction List.mem_cons_self)
        (induction fun other member label used => ?_)
      rw [Knows, size_labels_record]
      exact known other (List.mem_cons_of_mem _ member) label used

theorem writes_giveOut (labels : Nat)
    (known : ∀ instruction ∈ code, ∀ label,
      instruction.label? = some label ∨ instruction.target? = some label →
        (recorder.giveOut labels).Knows label) :
    recorder.Writes labels code ((recorder.giveOut labels).recordAll code) := by
  induction labels generalizing recorder with
  | zero => exact writes_recordAll known
  | succ labels induction => exact .newLabel (induction known)

end Recorder

end Casework
