import Casework.Proofs.Heights
import Casework.Proofs.Jumps

/-!
Recording finds nothing wrong with balanced code.

The recorder only follows code that is reached. The heights that are expected at places
that are not reached do not matter to it, so it is enough that it agrees with them where
it does.
-/

namespace Casework

namespace Recorder

def Knows (recorder : Recorder) (label : Label) : Prop :=
  0 ≤ label.number ∧ label.number < recorder.labels.size

instance (recorder : Recorder) (label : Label) : Decidable (recorder.Knows label) :=
  inferInstanceAs (Decidable (_ ∧ _))

theorem labelState_updateLabel (recorder : Recorder) (label other : Label)
    (change : LabelState → LabelState) :
    (recorder.updateLabel label change).labelState other =
      if other = label ∧ recorder.Knows label then change (recorder.labelState label)
      else recorder.labelState other := by
  obtain ⟨label⟩ := label
  obtain ⟨other⟩ := other
  simp only [labelState, updateLabel, Knows, Label.mk.injEq]
  by_cases negative : label < 0
  · have unknown : ¬ (other = label ∧ 0 ≤ label ∧ label < recorder.labels.size) := by
      omega
    rw [if_pos negative, if_neg unknown]
  · rw [if_neg negative, if_neg negative]
    by_cases otherNegative : other < 0
    · rw [if_pos otherNegative, if_neg (by omega), if_pos otherNegative]
    · rw [if_neg otherNegative, if_neg otherNegative]
      by_cases equal : other = label
      · subst equal
        by_cases known : other < recorder.labels.size
        · have index : other.toNat < recorder.labels.size := by omega
          rw [if_pos ⟨rfl, by omega, known⟩]
          simp [index, Array.getElem_modify_self]
        · have index : recorder.labels.size ≤ other.toNat := by omega
          rw [if_neg (by omega)]
          simp [index]
      · have apart : label.toNat ≠ other.toNat := by omega
        rw [if_neg (by omega)]
        simp [Array.getElem?_modify, apart]

@[simp] theorem reachable_note (recorder : Recorder) (finding : Finding) :
    (recorder.note finding).reachable = recorder.reachable := rfl

@[simp] theorem reachable_updateLabel (recorder : Recorder) (label : Label)
    (change : LabelState → LabelState) :
    (recorder.updateLabel label change).reachable = recorder.reachable := by
  unfold updateLabel
  split <;> rfl

@[simp] theorem reachable_reach (recorder : Recorder) (label : Label) :
    (recorder.reach label).reachable = recorder.reachable := by
  unfold reach
  split
  · simp
  · split <;> rfl

@[simp] theorem reachable_shift (recorder : Recorder) (instruction : Instruction) :
    (recorder.shift instruction).reachable = recorder.reachable := by
  simp only [shift]
  split <;> rfl

theorem depth_shift_of_le {recorder : Recorder} {instruction : Instruction}
    (enough : instruction.pops ≤ recorder.depth) :
    (recorder.shift instruction).depth =
      recorder.depth - instruction.pops + instruction.pushes := by
  simp only [shift, Int.not_lt.2 enough, if_false]
  omega

@[simp] theorem labelState_note (recorder : Recorder) (finding : Finding)
    (label : Label) :
    (recorder.note finding).labelState label = recorder.labelState label := rfl

@[simp] theorem labelState_shift (recorder : Recorder) (instruction : Instruction)
    (label : Label) :
    (recorder.shift instruction).labelState label = recorder.labelState label := by
  simp only [shift]
  split <;> rfl

theorem labelState_reach (recorder : Recorder) (label other : Label) :
    (recorder.reach label).labelState other =
      if other = label ∧ recorder.Knows label ∧
        (recorder.labelState label).depth = none then
        { recorder.labelState label with depth := some recorder.depth }
      else recorder.labelState other := by
  unfold reach
  split
  next unreached =>
      rw [labelState_updateLabel]
      simp [unreached]
  next expected reached =>
      have known : ¬ (other = label ∧ recorder.Knows label ∧
          (recorder.labelState label).depth = none) := by simp [reached]
      rw [if_neg known]
      split <;> rfl

def push (recorder : Recorder) (instruction : Instruction) : Recorder :=
  { recorder with code := recorder.code.push instruction }

/-- The recorder at a place that is not reached. -/
def stop (recorder : Recorder) : Recorder := { recorder with reachable := false }

@[simp] theorem labelState_push (recorder : Recorder) (instruction : Instruction)
    (label : Label) :
    (recorder.push instruction).labelState label = recorder.labelState label := rfl

@[simp] theorem labelState_stop (recorder : Recorder) (label : Label) :
    recorder.stop.labelState label = recorder.labelState label := rfl

@[simp] theorem size_labels_push (recorder : Recorder) (instruction : Instruction) :
    (recorder.push instruction).labels.size = recorder.labels.size := rfl

/-! ## What recording does, by the kind of instruction -/

theorem record_label (recorder : Recorder) (label : Label) :
    recorder.record (.label label) = (recorder.push (.label label)).mark label := rfl

theorem record_plain {recorder : Recorder} (live : recorder.reachable = true)
    {instruction : Instruction} (noLabel : instruction.label? = none)
    (noTarget : instruction.target? = none) :
    recorder.record instruction = (recorder.push instruction).shift instruction := by
  cases instruction with
  | label own => cases noLabel
  | branch condition target => cases noTarget
  | jump target => cases noTarget
  | _ => simp [record, push, live]

theorem record_branch {recorder : Recorder} (live : recorder.reachable = true)
    (condition : Condition) (target : Label) :
    recorder.record (.branch condition target) =
      ((recorder.push (.branch condition target)).shift (.branch condition target)).reach
        target := by
  simp [record, push, live]

theorem record_jump {recorder : Recorder} (live : recorder.reachable = true)
    (target : Label) :
    recorder.record (.jump target) =
      (((recorder.push (.jump target)).shift (.jump target)).reach target).stop := by
  simp [record, push, live, stop]

theorem record_dead {recorder : Recorder} (dead : recorder.reachable = false)
    {instruction : Instruction} (noLabel : instruction.label? = none) :
    recorder.record instruction = recorder.push instruction := by
  cases instruction with
  | label own => cases noLabel
  | _ => simp [record, push, dead]

def define (recorder : Recorder) (label : Label) : Recorder :=
  recorder.updateLabel label fun state => { state with marked := true }

theorem mark_of_unmarked {recorder : Recorder} {label : Label}
    (unmarked : (recorder.labelState label).marked = false) :
    recorder.mark label =
      if recorder.reachable then (recorder.define label).reach label
      else match (recorder.labelState label).depth with
        | some depth => { recorder.define label with depth := depth, reachable := true }
        | none => recorder.define label := by
  simp only [mark, unmarked, Bool.false_eq_true, if_false, reachable_updateLabel]
  rfl

theorem depth_labelState_define (recorder : Recorder) (label other : Label) :
    ((recorder.define label).labelState other).depth =
      (recorder.labelState other).depth := by
  rw [define, labelState_updateLabel]
  split
  next at_label => rw [at_label.1]
  next => rfl

theorem depth_define (recorder : Recorder) (label : Label) :
    (recorder.define label).depth = recorder.depth := by
  unfold define updateLabel
  split <;> rfl

theorem finding_define (recorder : Recorder) (label : Label) :
    (recorder.define label).finding = recorder.finding := by
  unfold define updateLabel
  split <;> rfl

/-! ## Heights are found as expected -/

/-- What code that was recorded so far says about heights. -/
structure Agrees (heights : Heights) (before : Option Int) (recorder : Recorder) :
    Prop where
  finding : recorder.finding = none
  height : recorder.reachable = true → before = some recorder.depth
  depth : ∀ label depth, (recorder.labelState label).depth = some depth →
    depth = heights label

namespace Agrees

variable {heights : Heights} {before : Option Int} {recorder : Recorder}

theorem push (agrees : recorder.Agrees heights before) (instruction : Instruction) :
    (recorder.push instruction).Agrees heights before :=
  ⟨agrees.finding, agrees.height, agrees.depth⟩

theorem stop (agrees : recorder.Agrees heights before) :
    recorder.stop.Agrees heights none :=
  ⟨agrees.finding, fun impossible => absurd impossible Bool.false_ne_true, agrees.depth⟩

theorem shift {height : Int} (agrees : recorder.Agrees heights (some height))
    (depth : recorder.depth = height) {instruction : Instruction}
    (enough : instruction.pops ≤ height) :
    (recorder.shift instruction).Agrees heights
      (some (height - instruction.pops + instruction.pushes)) where
  finding := by
    rw [Recorder.shift, if_neg (by omega)]
    exact agrees.finding
  height _ := by rw [depth_shift_of_le (by omega), depth]
  depth label depth found := by
    rw [labelState_shift] at found
    exact agrees.depth label depth found

theorem reach (agrees : recorder.Agrees heights before) {label : Label}
    (expected : heights label = recorder.depth) :
    (recorder.reach label).Agrees heights before := by
  have depths : ∀ other depth,
      ((recorder.reach label).labelState other).depth = some depth →
      depth = heights other := by
    intro other depth found
    rw [labelState_reach] at found
    split at found
    next at_label =>
        rw [at_label.1, expected]
        exact (Option.some.inj found).symm
    next => exact agrees.depth other depth found
  unfold Recorder.reach at depths ⊢
  split
  next unreached =>
      rw [unreached] at depths
      refine ⟨?_, ?_, depths⟩
      · unfold updateLabel
        split <;> exact agrees.finding
      · unfold updateLabel
        split <;> exact agrees.height
  next other reached =>
      have equal := (agrees.depth label other reached).trans expected
      rw [if_pos equal]
      exact agrees

theorem define (agrees : recorder.Agrees heights before) (label : Label) :
    (recorder.define label).Agrees heights before where
  finding := by rw [finding_define, agrees.finding]
  height live := by
    rw [depth_define]
    refine agrees.height ?_
    rw [Recorder.define, reachable_updateLabel] at live
    exact live
  depth other depth found := by
    rw [depth_labelState_define] at found
    exact agrees.depth other depth found

theorem mark (agrees : recorder.Agrees heights before) {label : Label}
    (unmarked : (recorder.labelState label).marked = false)
    (fits : (Instruction.label label).Fits heights before) :
    (recorder.mark label).Agrees heights
      ((Instruction.label label).heightAfter heights before) := by
  rw [mark_of_unmarked unmarked]
  by_cases live : recorder.reachable = true
  · rw [if_pos live]
    have height := agrees.height live
    subst height
    refine (agrees.define label).reach ?_
    rw [depth_define]
    exact fits
  · rw [if_neg live]
    have defined := agrees.define label
    have dead : ¬ (recorder.define label).reachable = true := by
      rw [Recorder.define, reachable_updateLabel]
      exact live
    split
    next depth found =>
        have expected := agrees.depth label depth found
        refine ⟨defined.finding, fun _ => ?_, defined.depth⟩
        cases before with
        | none => exact congrArg some expected.symm
        | some height => exact congrArg some (Eq.trans (Eq.symm fits) expected.symm)
    next =>
        exact ⟨defined.finding, fun impossible => absurd impossible dead, defined.depth⟩

/-- One instruction further on, heights are still as expected. -/
theorem record (agrees : recorder.Agrees heights before) {instruction : Instruction}
    (fits : instruction.Fits heights before)
    (unmarked : ∀ label ∈ instruction.label?,
      (recorder.labelState label).marked = false) :
    (recorder.record instruction).Agrees heights
      (instruction.heightAfter heights before) := by
  cases kind : instruction.label? with
  | some label =>
      cases instruction with
      | label own =>
          rw [record_label]
          exact (agrees.push _).mark (unmarked own rfl) fits
      | _ => cases kind
  | none =>
      by_cases live : recorder.reachable = true
      · have height := agrees.height live
        subst height
        have pushed := agrees.push instruction
        cases instruction with
        | label own => cases kind
        | branch condition target =>
            rw [record_branch live]
            refine (pushed.shift rfl fits.1).reach ?_
            rw [depth_shift_of_le, fits.2 target rfl]
            · exact (Int.add_zero _).symm
            · exact fits.1
        | jump target =>
            rw [record_jump live]
            refine ((pushed.shift rfl fits.1).reach ?_).stop
            rw [depth_shift_of_le, fits.2 target rfl]
            · exact (Int.add_zero _).symm
            · exact fits.1
        | _ =>
            rw [record_plain live kind rfl]
            exact pushed.shift rfl fits.1
      · rw [record_dead (by simpa using live) kind]
        refine ⟨agrees.finding, fun impossible => absurd impossible live, agrees.depth⟩

end Agrees

/-! ## Labels are defined once and reached -/

@[simp] theorem size_labels_updateLabel (recorder : Recorder) (label : Label)
    (change : LabelState → LabelState) :
    (recorder.updateLabel label change).labels.size = recorder.labels.size := by
  unfold updateLabel
  split <;> simp

@[simp] theorem size_labels_reach (recorder : Recorder) (label : Label) :
    (recorder.reach label).labels.size = recorder.labels.size := by
  unfold reach
  split
  · simp
  · split <;> rfl

@[simp] theorem size_labels_shift (recorder : Recorder) (instruction : Instruction) :
    (recorder.shift instruction).labels.size = recorder.labels.size := by
  simp only [shift]
  split <;> rfl

@[simp] theorem size_labels_mark (recorder : Recorder) (label : Label) :
    (recorder.mark label).labels.size = recorder.labels.size := by
  simp only [mark]
  repeat' split
  all_goals simp [note]

@[simp] theorem size_labels_record (recorder : Recorder) (instruction : Instruction) :
    (recorder.record instruction).labels.size = recorder.labels.size := by
  cases instruction <;> simp only [record] <;> repeat' split
  all_goals simp

theorem marked_reach (recorder : Recorder) (label other : Label) :
    ((recorder.reach label).labelState other).marked =
      (recorder.labelState other).marked := by
  rw [labelState_reach]
  split
  next at_label => rw [at_label.1]
  next => rfl

theorem marked_define (recorder : Recorder) (label other : Label) :
    ((recorder.define label).labelState other).marked =
      (decide (other = label ∧ recorder.Knows label) ||
        (recorder.labelState other).marked) := by
  rw [define, labelState_updateLabel]
  split <;> simp_all

theorem marked_mark {recorder : Recorder} {label : Label}
    (unmarked : (recorder.labelState label).marked = false) (other : Label) :
    ((recorder.mark label).labelState other).marked =
      ((recorder.define label).labelState other).marked := by
  rw [mark_of_unmarked unmarked]
  split
  · rw [marked_reach]
  · split <;> rfl

theorem labelState_record {recorder : Recorder} {instruction : Instruction}
    (noLabel : instruction.label? = none) :
    (∀ other, (recorder.record instruction).labelState other =
      recorder.labelState other) ∨
      ∃ (target : Label) (moved : Recorder), instruction.target? = some target ∧
        (∀ other, moved.labelState other = recorder.labelState other) ∧
        moved.labels.size = recorder.labels.size ∧
        ∀ other, (recorder.record instruction).labelState other =
          (moved.reach target).labelState other := by
  by_cases live : recorder.reachable = true
  · cases instruction with
    | label own => cases noLabel
    | branch condition target =>
        let branch := Instruction.branch condition target
        refine .inr ⟨target, (recorder.push branch).shift branch, rfl, ?_, ?_, ?_⟩
        · simp
        · simp
        · intro other
          rw [record_branch live]
    | jump target =>
        let jump := Instruction.jump target
        refine .inr ⟨target, (recorder.push jump).shift jump, rfl, ?_, ?_, ?_⟩
        · simp
        · simp
        · intro other
          rw [record_jump live, labelState_stop]
    | _ =>
        left
        intro other
        rw [record_plain live noLabel rfl, labelState_shift, labelState_push]
  · left
    intro other
    rw [record_dead (by simpa using live) noLabel, labelState_push]

theorem marked_record {recorder : Recorder} {instruction : Instruction}
    (unmarked : ∀ label ∈ instruction.label?, (recorder.labelState label).marked = false)
    (other : Label) :
    ((recorder.record instruction).labelState other).marked =
      (decide (instruction.label? = some other ∧ recorder.Knows other) ||
        (recorder.labelState other).marked) := by
  cases kind : instruction.label? with
  | some label =>
      cases instruction with
      | label own =>
          cases kind
          have unmarkedPushed :
              ((recorder.push (.label label)).labelState label).marked = false :=
            unmarked label rfl
          rw [record_label, marked_mark unmarkedPushed, marked_define]
          by_cases equal : other = label
          · subst equal
            simp [push, Knows, labelState]
          · have apart : label ≠ other := Ne.symm equal
            simp [equal, apart, push, labelState]
      | _ => cases kind
  | none =>
      rcases labelState_record kind with same | ⟨target, moved, _, before, _, after⟩
      · rw [same other]
        simp
      · rw [after other, marked_reach, before other]
        simp

theorem reached_reach {recorder : Recorder} {other : Label} (label : Label)
    (reached : (recorder.labelState other).depth.isSome) :
    ((recorder.reach label).labelState other).depth.isSome := by
  rw [labelState_reach]
  split
  · rfl
  · exact reached

theorem reached_reach_self {recorder : Recorder} {label : Label}
    (known : recorder.Knows label) :
    ((recorder.reach label).labelState label).depth.isSome := by
  rw [labelState_reach]
  split
  · rfl
  next unchanged =>
      cases found : (recorder.labelState label).depth with
      | none => exact absurd ⟨rfl, known, found⟩ unchanged
      | some depth => rfl

theorem reached_record {recorder : Recorder} {instruction : Instruction}
    (unmarked : ∀ label ∈ instruction.label?, (recorder.labelState label).marked = false)
    {other : Label} (reached : (recorder.labelState other).depth.isSome) :
    ((recorder.record instruction).labelState other).depth.isSome := by
  cases kind : instruction.label? with
  | some label =>
      cases instruction with
      | label own =>
          have unmarkedPushed :
              ((recorder.push (.label own)).labelState own).marked = false :=
            unmarked own rfl
          have defined : (((recorder.push (.label own)).define own).labelState
              other).depth.isSome := by
            rw [depth_labelState_define]
            exact reached
          rw [record_label, mark_of_unmarked unmarkedPushed]
          split
          · exact reached_reach own defined
          · split <;> exact defined
      | _ => cases kind
  | none =>
      rcases labelState_record kind with same | ⟨target, moved, _, before, _, after⟩
      · rw [same other]
        exact reached
      · rw [after other]
        refine reached_reach target ?_
        rw [before other]
        exact reached

/-- Code is about to be recorded whose labels were given out and are not defined yet. -/
structure Fresh (recorder : Recorder) (code : List Instruction) : Prop where
  unique : (definedLabels code).Nodup
  unmarked : ∀ label ∈ definedLabels code, (recorder.labelState label).marked = false
  known : ∀ label ∈ definedLabels code, recorder.Knows label

namespace Fresh

variable {recorder : Recorder} {instruction : Instruction} {code : List Instruction}

theorem head (fresh : recorder.Fresh (instruction :: code)) :
    ∀ label ∈ instruction.label?, (recorder.labelState label).marked = false := by
  intro label own
  refine fresh.unmarked label ?_
  rw [definedLabels_cons]
  exact List.mem_append_left _ (Option.mem_toList.2 own)

theorem tail (fresh : recorder.Fresh (instruction :: code)) :
    (recorder.record instruction).Fresh code where
  unique := by
    have unique := fresh.unique
    rw [definedLabels_cons] at unique
    exact (List.nodup_append.1 unique).2.1
  unmarked label member := by
    have unmarked := fresh.unmarked label (by simp [member])
    have unique := fresh.unique
    rw [definedLabels_cons, List.nodup_append] at unique
    have other : instruction.label? ≠ some label := fun own =>
      unique.2.2 label (Option.mem_toList.2 own) label member rfl
    rw [marked_record fresh.head, unmarked, decide_eq_false fun both => other both.1]
    rfl
  known label member := by
    have known := fresh.known label (by simp [member])
    unfold Knows at known ⊢
    rw [size_labels_record]
    exact known

end Fresh

theorem Agrees.recordAll {heights : Heights} {code : List Instruction}
    {before after : Option Int} {recorder : Recorder}
    (agrees : recorder.Agrees heights before) (flows : Flows heights before code after)
    (fresh : recorder.Fresh code) :
    (recorder.recordAll code).Agrees heights after := by
  induction code generalizing recorder before with
  | nil =>
      cases flows
      exact agrees
  | cons instruction rest induction =>
      exact induction (agrees.record flows.1 fresh.head) flows.2 fresh.tail

theorem marked_recordAll_of_marked {code : List Instruction} {recorder : Recorder}
    (fresh : recorder.Fresh code) {label : Label}
    (marked : (recorder.labelState label).marked = true) :
    ((recorder.recordAll code).labelState label).marked = true := by
  induction code generalizing recorder with
  | nil => exact marked
  | cons instruction rest induction =>
      refine induction fresh.tail ?_
      rw [marked_record fresh.head, marked, Bool.or_true]

theorem marked_recordAll {code : List Instruction} {recorder : Recorder}
    (fresh : recorder.Fresh code) {label : Label} (member : label ∈ definedLabels code) :
    ((recorder.recordAll code).labelState label).marked = true := by
  induction code generalizing recorder with
  | nil => simp at member
  | cons instruction rest induction =>
      rw [definedLabels_cons, List.mem_append, Option.mem_toList] at member
      rcases member with own | later
      · refine marked_recordAll_of_marked fresh.tail ?_
        have known : recorder.Knows label := by
          refine fresh.known label ?_
          rw [definedLabels_cons]
          exact List.mem_append_left _ (Option.mem_toList.2 own)
        rw [marked_record fresh.head, decide_eq_true ⟨own, known⟩, Bool.true_or]
      · exact induction fresh.tail later

theorem reachable_record {recorder : Recorder} {instruction : Instruction}
    (unmarked : ∀ label ∈ instruction.label?, (recorder.labelState label).marked = false)
    (live : recorder.reachable = true) (noJump : ∀ target, instruction ≠ .jump target) :
    (recorder.record instruction).reachable = true := by
  cases instruction with
  | label own =>
      have unmarkedPushed :
          ((recorder.push (.label own)).labelState own).marked = false :=
        unmarked own rfl
      have livePushed : (recorder.push (.label own)).reachable = true := live
      rw [record_label, mark_of_unmarked unmarkedPushed, if_pos livePushed,
        reachable_reach, define, reachable_updateLabel, livePushed]
  | branch condition target =>
      rw [record_branch live, reachable_reach, reachable_shift]
      exact live
  | jump target => exact absurd rfl (noJump target)
  | _ =>
      rw [record_plain live rfl rfl, reachable_shift]
      exact live

theorem reachable_record_label {recorder : Recorder} {label : Label}
    (unmarked : (recorder.labelState label).marked = false)
    (reached : (recorder.labelState label).depth.isSome) :
    (recorder.record (.label label)).reachable = true := by
  have unmarkedPushed : ((recorder.push (.label label)).labelState label).marked =
      false := unmarked
  by_cases live : recorder.reachable = true
  · refine reachable_record ?_ live (by simp)
    rintro other ⟨⟩
    exact unmarked
  · have dead : ¬ (recorder.push (.label label)).reachable = true := live
    obtain ⟨depth, found⟩ := Option.isSome_iff_exists.1 reached
    rw [record_label, mark_of_unmarked unmarkedPushed, if_neg dead,
      labelState_push, found]

theorem reached_record_jump {recorder : Recorder} {target : Label}
    (live : recorder.reachable = true) (known : recorder.Knows target) :
    ((recorder.record (.jump target)).labelState target).depth.isSome := by
  rw [record_jump live, labelState_stop]
  refine reached_reach_self ?_
  unfold Knows at known ⊢
  rw [size_labels_shift, size_labels_push]
  exact known

/-- If no jump leaves code, then its end is reached if its start is. In between, the place
is reached or the label of a jump that is under way. -/
theorem reachable_recordAll {code : List Instruction} {recorder : Recorder}
    (fresh : recorder.Fresh code) (closed : escapes code = [])
    (live : recorder.reachable = true ∨
      ∃ label ∈ definedLabels code, (recorder.labelState label).depth.isSome) :
    (recorder.recordAll code).reachable = true := by
  induction code generalizing recorder with
  | nil =>
      rcases live with live | ⟨label, member, _⟩
      · exact live
      · cases member
  | cons instruction rest induction =>
      have restClosed : escapes rest = [] := (List.append_eq_nil_iff.1 closed).2
      refine induction fresh.tail restClosed ?_
      rcases live with live | ⟨label, member, reached⟩
      · by_cases jumps : ∃ target, instruction = .jump target
        · obtain ⟨target, rfl⟩ := jumps
          have member : target ∈ definedLabels rest := target_of_closed closed rfl
          have known := fresh.known target (by simp [member])
          exact .inr ⟨target, member, reached_record_jump live known⟩
        · left
          exact reachable_record fresh.head live fun target equal => jumps ⟨target, equal⟩
      · rw [definedLabels_cons, List.mem_append, Option.mem_toList] at member
        rcases member with own | later
        · left
          cases instruction with
          | label other =>
              cases own
              exact reachable_record_label (fresh.head label rfl) reached
          | _ => cases own
        · exact .inr ⟨label, later, reached_record fresh.head reached⟩

/-! ## The verdict -/

theorem firstUnmarked_eq_none {states : List LabelState}
    (marked : ∀ state ∈ states, state.depth.isSome → state.marked = true) (number : Nat) :
    firstUnmarked number states = none := by
  induction states generalizing number with
  | nil => rfl
  | cons state rest induction =>
      have own := marked state (List.mem_cons_self ..)
      rw [firstUnmarked, if_neg (by simpa using own)]
      exact induction (fun other member => marked other (List.mem_cons_of_mem _ member))
        (number + 1)

theorem verdict_eq_none {recorder : Recorder} (nothing : recorder.finding = none)
    (marked : ∀ label, recorder.Knows label → (recorder.labelState label).marked = true) :
    recorder.verdict = none := by
  have allMarked : ∀ state ∈ recorder.labels.toList, state.marked = true := by
    intro state member
    obtain ⟨index, found⟩ := List.getElem?_of_mem member
    have bound : index < recorder.labels.size := by
      have inside := (List.getElem?_eq_some_iff.1 found).1
      simpa using inside
    have known : recorder.Knows ⟨index⟩ := ⟨by simp, by simpa using bound⟩
    have markedAt := marked ⟨index⟩ known
    have same : recorder.labelState ⟨index⟩ = state := by
      have atIndex : recorder.labels[index]? = some state := by simpa using found
      have natural : ¬ (index : Int) < 0 := by omega
      simp [labelState, atIndex, natural]
    rw [same] at markedAt
    exact markedAt
  rw [verdict, nothing, firstUnmarked_eq_none fun state member _ =>
    allMarked state member]
  rfl

/-- A recorder that has not recorded anything, with some labels given out. -/
def blank (labels : Nat) : Recorder := { labels := Array.replicate labels {} }

theorem labelState_blank (labels : Nat) (label : Label) :
    (blank labels).labelState label = {} := by
  simp only [labelState, blank, Array.getElem?_replicate]
  split
  · rfl
  · split <;> rfl

theorem knows_blank {labels : Nat} {label : Label} :
    (blank labels).Knows label ↔ 0 ≤ label.number ∧ label.number < labels := by
  simp [Knows, blank]

theorem agrees_blank (heights : Heights) (labels : Nat) :
    (blank labels).Agrees heights (some 0) where
  finding := rfl
  height _ := rfl
  depth label depth found := by
    rw [labelState_blank] at found
    cases found

theorem size_labels_recordAll (recorder : Recorder) (code : List Instruction) :
    (recorder.recordAll code).labels.size = recorder.labels.size := by
  induction code generalizing recorder with
  | nil => rfl
  | cons instruction rest induction =>
      exact (induction (recorder.record instruction)).trans
        (size_labels_record recorder instruction)

end Recorder

end Casework
