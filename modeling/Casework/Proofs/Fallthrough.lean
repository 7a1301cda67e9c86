import Casework.Proofs.Balance
import Casework.Proofs.LateLabels
import Casework.Proofs.Verdict

/-!
A single match is balanced, wherever it is written.

A recorder knows nothing of the code that comes later, and may have recorded anything
before. So what it finds at a match must not depend on that: whatever pattern is matched,
at any place that is reached, the end of the match is reached as well, and both ways out
of it arrive with the depth that is expected. Code after a jump is reached again since the
jump only leads over a part of the test; this is what the statements about passable code
are for.
-/

namespace Casework

namespace Recorder

variable {recorder : Recorder} {instruction : Instruction} {label : Label}
  {code first second : List Instruction}

/-! ## What recording leaves alone -/

theorem labelState_record_of_ne (noDefinition : instruction.label? ≠ some label)
    (noJump : instruction.target? ≠ some label)
    (unmarked : ∀ own ∈ instruction.label?, (recorder.labelState own).marked = false) :
    (recorder.record instruction).labelState label = recorder.labelState label := by
  cases kind : instruction.label? with
  | some own =>
      have apart : label ≠ own := by
        rintro rfl
        exact noDefinition kind
      have defined : (recorder.labelled own).labelState label =
          recorder.labelState label := by
        rw [labelled, define, labelState_updateLabel, if_neg fun both => apart both.1,
          labelState_push]
      rw [Instruction.eq_label kind, record_label_of_unmarked (unmarked own kind)]
      split
      · rw [labelState_reach, if_neg fun both => apart both.1, defined]
      · rw [labelState_resume, defined]
  | none =>
      rcases labelState_record kind with same | ⟨target, moved, leads, before, _, after⟩
      · exact same label
      · have apart : label ≠ target := by
          rintro rfl
          exact noJump leads
        rw [after, labelState_reach, if_neg fun both => apart both.1, before]

theorem Fresh.drop (fresh : recorder.Fresh (first ++ second)) :
    (recorder.recordAll first).Fresh second := by
  induction first generalizing recorder with
  | nil => exact fresh
  | cons instruction rest induction => exact induction fresh.tail

theorem Fresh.take (fresh : recorder.Fresh (first ++ second)) : recorder.Fresh first where
  unique := by
    have unique := fresh.unique
    rw [definedLabels_append] at unique
    exact (List.nodup_append.1 unique).1
  unmarked label member := fresh.unmarked label (by simp [member])
  known label member := fresh.known label (by simp [member])

theorem labelState_recordAll_of_not_mem (fresh : recorder.Fresh code)
    (noDefinition : label ∉ definedLabels code) (noJump : label ∉ escapes code) :
    (recorder.recordAll code).labelState label = recorder.labelState label := by
  induction code generalizing recorder with
  | nil => rfl
  | cons instruction rest induction =>
      rw [definedLabels_cons, List.mem_append, Option.mem_toList, not_or] at noDefinition
      rw [mem_escapes_cons, not_or] at noJump
      have noTarget : instruction.target? ≠ some label := fun leads =>
        noJump.1 ⟨leads, noDefinition.2⟩
      exact (induction fresh.tail noDefinition.2 noJump.2).trans
        (labelState_record_of_ne noDefinition.1 noTarget fresh.head)

theorem marked_recordAll_of_not_mem (fresh : recorder.Fresh code)
    (noDefinition : label ∉ definedLabels code) :
    ((recorder.recordAll code).labelState label).marked =
      (recorder.labelState label).marked := by
  induction code generalizing recorder with
  | nil => rfl
  | cons instruction rest induction =>
      rw [definedLabels_cons, List.mem_append, Option.mem_toList, not_or] at noDefinition
      refine (induction fresh.tail noDefinition.2).trans ?_
      rw [marked_record fresh.head, decide_eq_false fun both =>
        noDefinition.1 both.1, Bool.false_or]

theorem reached_recordAll (fresh : recorder.Fresh code)
    (reached : (recorder.labelState label).depth.isSome) :
    ((recorder.recordAll code).labelState label).depth.isSome := by
  induction code generalizing recorder with
  | nil => exact reached
  | cons instruction rest induction =>
      exact induction fresh.tail (reached_record fresh.head reached)

theorem reached_record_target {target : Label} (live : recorder.reachable = true)
    (known : recorder.Knows target) (leads : instruction.target? = some target) :
    ((recorder.record instruction).labelState target).depth.isSome := by
  cases instruction with
  | branch condition own =>
      cases leads
      rw [record_branch live]
      refine reached_reach_self ?_
      rw [Knows, size_labels_shift, size_labels_push]
      exact known
  | jump own =>
      cases leads
      exact reached_record_jump live known
  | _ => cases leads

end Recorder

/-! ## Passing code -/

inductive Passable : List Instruction → Prop where
  | nil : Passable []
  | next {instruction : Instruction} {rest : List Instruction}
    (goesOn : instruction.goesOn = true)
      (passable : Passable rest) : Passable (instruction :: rest)
  | leap {instruction : Instruction} {target : Label} (skipped : List Instruction)
      {rest : List Instruction} (leads : instruction.target? = some target)
      (passable : Passable rest) :
      Passable (instruction :: (skipped ++ .label target :: rest))

namespace Passable

variable {code first second : List Instruction}

theorem append (left : Passable first) (right : Passable second) :
    Passable (first ++ second) := by
  induction left with
  | nil => exact right
  | next goesOn _ induction => exact .next goesOn induction
  | leap skipped leads _ induction =>
      rw [List.cons_append, List.append_assoc, List.cons_append]
      exact .leap skipped leads induction

theorem ofGoesOn (goesOn : ∀ instruction ∈ code, instruction.goesOn = true) :
    Passable code := by
  induction code with
  | nil => exact .nil
  | cons instruction rest induction =>
      exact .next (goesOn instruction List.mem_cons_self)
        (induction fun other member => goesOn other (List.mem_cons_of_mem _ member))

theorem reachable_recordAll (passable : Passable code) {recorder : Recorder}
    (fresh : recorder.Fresh code) (live : recorder.reachable = true) :
    (recorder.recordAll code).reachable = true := by
  induction passable generalizing recorder with
  | nil => exact live
  | @next instruction rest goesOn _ induction =>
      refine induction fresh.tail
        (Recorder.reachable_record fresh.head live fun target jumps => ?_)
      rw [jumps] at goesOn
      cases goesOn
  | @leap instruction target skipped rest leads _ induction =>
      have known : recorder.Knows target := fresh.known target (by simp)
      have reached := Recorder.reached_recordAll fresh.tail.take
        (Recorder.reached_record_target live known leads)
      have atLabel := fresh.tail.drop
      change ((recorder.record instruction).recordAll
        (skipped ++ .label target :: rest)).reachable = true
      rw [Recorder.recordAll_append]
      exact induction atLabel.tail
        (Recorder.reachable_record_label (atLabel.head target rfl) reached)

theorem keeping (keep : Bool) : Passable (keeping keep) := by
  cases keep <;> exact .ofGoesOn (by simp [Casework.keeping, Instruction.goesOn])

theorem nonEmptyTest (onFail : Label) : Passable (nonEmptyTest onFail) :=
  .ofGoesOn (by simp [Casework.nonEmptyTest, Instruction.goesOn])

theorem close (fail onFail done : Label) :
    Passable ([.jump done] ++ discard fail onFail ++ [.label done]) :=
  .leap (discard fail onFail) rfl .nil

theorem preparation (pattern : Pattern) : Passable pattern.preparation := by
  cases pattern <;> exact .ofGoesOn (by simp [Pattern.preparation, Instruction.goesOn])

variable {test : List Instruction}

theorem nested (pattern : Pattern) (passable : Passable test) :
    Passable (pattern.nested test) :=
  (preparation pattern).append passable

theorem onHead (pattern : Pattern) (passable : Passable test) :
    Passable (pattern.onHead test) := by
  unfold Pattern.onHead
  split
  · exact .nil
  · exact .next rfl (.next rfl (nested pattern passable))

theorem onTail (pattern : Pattern) (passable : Passable test) :
    Passable (pattern.onTail test) := by
  unfold Pattern.onTail
  split
  · exact .next rfl .nil
  · exact .next rfl (nested pattern passable)

end Passable

mutual

theorem Pattern.passable_test (bases : List Int) :
    ∀ (pattern : Pattern) (onFail : Label) (keep : Bool) (supply : Supply),
      Passable ((pattern.test bases onFail keep).run supply).1
  | .wildcard, onFail, keep, supply => by
      rw [Pattern.run_test_wildcard]
      cases keep <;> exact .ofGoesOn (by simp [Instruction.goesOn])
  | .bind binding, onFail, keep, supply => by
      rw [Pattern.run_test_bind]
      exact (Passable.keeping keep).append (.next rfl .nil)
  | .literal value type, onFail, keep, supply => by
      rw [Pattern.run_test_literal]
      exact (Passable.keeping keep).append (.ofGoesOn (by simp [Instruction.goesOn]))
  | .variant tag payload, onFail, true, supply => by
      have inner := payload.passable_test bases onFail false supply
      rw [Pattern.run_test_variant_keep]
      exact Passable.append (.ofGoesOn (by simp [Instruction.goesOn]))
        (.nested payload inner)
  | .variant tag payload, onFail, false, supply => by
      have inner := payload.passable_test bases onFail false (supply.take 1)
      rw [Pattern.run_test_variant_consume]
      refine Passable.append ?_ (.nested payload inner)
      exact .next rfl (.leap [.pop, .jump onFail] rfl (.next rfl .nil))
  | .emptyList, onFail, keep, supply => by
      rw [Pattern.run_test_emptyList]
      refine (Passable.keeping keep).append ?_
      exact .next rfl
        (.next rfl (.next rfl (.next rfl (.leap [.label _, .pop] rfl .nil))))
  | .cons head tail, onFail, keep, supply => by
      have headPart :=
        head.passable_test bases (supply.labelAfter 0) false (supply.take 2)
      have tailPart := tail.passable_test bases onFail false
        ((head.test bases (supply.labelAfter 0) false).run (supply.take 2)).2
      rw [Pattern.run_test_cons]
      simp only [List.append_assoc]
      refine (Passable.keeping keep).append ((Passable.nonEmptyTest _).append
        ((Passable.onHead head headPart).append
          ((Passable.onTail tail tailPart).append ?_)))
      exact .close _ _ _
  | .fixedList items, onFail, keep, supply => by
      have itemsPart := items.passable_test bases (supply.labelAfter 0) (supply.take 3)
      rw [Pattern.run_test_fixedList]
      simp only [List.append_assoc]
      refine (Passable.keeping keep).append (itemsPart.append ?_)
      exact .next rfl (.next rfl (.next rfl (.next rfl
        (.leap [.label _, .pop, .jump _, .label _, .pop, .jump onFail] rfl .nil))))
  | .record fields, onFail, keep, supply => by
      obtain none | one | many : fields.readCount = 0 ∨ fields.readCount = 1 ∨
        2 ≤ fields.readCount := by omega
      · rw [Pattern.run_test_record_none _ _ _ _ none]
        exact (Passable.keeping keep).append (.next rfl .nil)
      · rw [Pattern.run_test_record_one _ _ _ _ one]
        exact (Passable.keeping keep).append
          (fields.passable_test bases onFail onFail supply)
      · have fieldsPart :=
          fields.passable_test bases (supply.labelAfter 0) onFail (supply.take 1)
        rw [Pattern.run_test_record_many _ _ _ _ many]
        simp only [List.append_assoc]
        exact (Passable.keeping keep).append (fieldsPart.append (.close _ _ _))
termination_by structural pattern => pattern

theorem Patterns.passable_test (bases : List Int) :
    ∀ (items : Patterns) (onFail : Label) (supply : Supply),
      Passable ((items.test bases onFail).run supply).1
  | .nil, _, _ => .nil
  | .cons head tail, onFail, supply => by
      have headPart := head.passable_test bases onFail false supply
      have tailPart :=
        tail.passable_test bases onFail ((head.test bases onFail false).run supply).2
      rw [Patterns.run_test_cons]
      simp only [List.append_assoc]
      exact (Passable.nonEmptyTest _).append
        ((Passable.onHead head headPart).append (.next rfl tailPart))
termination_by structural items => items

theorem PatternFields.passable_test (bases : List Int) :
    ∀ (fields : PatternFields) (onFail onLastFail : Label) (supply : Supply),
      Passable ((fields.test bases onFail onLastFail).run supply).1
  | .nil, _, _, _ => .nil
  | .cons name pattern tail, onFail, onLastFail, supply => by
      by_cases skipped : pattern.isWildcard
      · rw [PatternFields.run_test_skip _ _ _ _ name tail skipped]
        exact tail.passable_test bases onFail onLastFail supply
      · have read : pattern.isWildcard = false := by simpa using skipped
        by_cases count : tail.readCount = 0
        · rw [PatternFields.run_test_last _ _ _ _ name read count]
          exact .next rfl
            (.nested pattern (pattern.passable_test bases onLastFail false supply))
        · have inner := pattern.passable_test bases onFail false supply
          have others := tail.passable_test bases onFail onLastFail
            ((pattern.test bases onFail false).run supply).2
          rw [PatternFields.run_test_next _ _ _ _ name read count]
          simp only [List.append_assoc]
          exact .next rfl (.next rfl ((Passable.nested pattern inner).append others))
termination_by structural fields => fields

end

/-! ## A match as a whole -/

theorem mem_definedLabels_or_escapes {code : List Instruction} {instruction : Instruction}
    (member : instruction ∈ code) {label : Label}
    (leads : instruction.target? = some label) :
    label ∈ definedLabels code ∨ label ∈ escapes code := by
  induction code with
  | nil => cases member
  | cons head rest induction =>
      rw [definedLabels_cons, List.mem_append, mem_escapes_cons]
      rcases List.mem_cons.1 member with rfl | later
      · by_cases defined : label ∈ definedLabels rest
        · exact .inl (.inr defined)
        · exact .inr (.inl ⟨leads, defined⟩)
      · exact (induction later).imp .inr .inr

namespace Recorder

variable {recorder : Recorder} {label : Label}

/-- The recorder is at a place that is reached with a depth, and has found nothing
wrong. -/
structure At (recorder : Recorder) (depth : Int) : Prop where
  finding : recorder.finding = none
  reachable : recorder.reachable = true
  depth : recorder.depth = depth

instance (recorder : Recorder) (depth : Int) : Decidable (recorder.At depth) :=
  decidable_of_iff (recorder.finding = none ∧ recorder.reachable = true ∧
    recorder.depth = depth)
    ⟨fun ⟨finding, reachable, depth⟩ => ⟨finding, reachable, depth⟩,
      fun ⟨finding, reachable, depth⟩ => ⟨finding, reachable, depth⟩⟩

theorem At.giveOut {depth : Int} (start : recorder.At depth) (count : Nat) :
    (recorder.giveOut count).At depth where
  finding := (finding_giveOut recorder count).trans start.finding
  reachable := (reachable_giveOut recorder count).trans start.reachable
  depth := (depth_giveOut recorder count).trans start.depth

def supply (recorder : Recorder) : Supply :=
  { label := recorder.labels.size, slot := recorder.slots }

theorem labelState_of_not_knows (unknown : ¬ recorder.Knows label) :
    recorder.labelState label = {} := by
  unfold labelState
  unfold Knows at unknown
  split
  · rfl
  next natural =>
      have outside : recorder.labels.size ≤ label.number.toNat := by omega
      simp [outside]

theorem At.flows {low high : Nat} {outer : List (Label × Int)} {code : List Instruction}
    {before : Int} {after : Option Int} (start : recorder.At before) (kept : Int)
    (balanced : Balanced low high outer (some before) code after)
    (unreached : ∀ label : Label, low ≤ label.number →
      (recorder.labelState label).depth = none)
    (outside : ∀ entry ∈ outer, entry.1.number < low ∧
      (recorder.labelState entry.1).depth = none ∧
      entry.2 = kept) :
    ∃ heights : Heights, recorder.Agrees heights (some before) ∧
      Flows heights (some before) code after ∧
      ∀ entry ∈ outer, heights entry.1 = entry.2 := by
  obtain ⟨_, own, flows⟩ := balanced
  let heights : Heights := fun label =>
    if low ≤ label.number then own label else (recorder.labelState label).depth.getD kept
  have expected : ∀ entry ∈ outer, heights entry.1 = entry.2 := by
    intro entry member
    obtain ⟨earlier, open_, same⟩ := outside entry member
    rw [same]
    refine (if_neg (Int.not_le.2 earlier)).trans ?_
    rw [open_, Option.getD_none]
  refine ⟨heights,
    ⟨start.finding, fun _ => congrArg some start.depth.symm, fun label depth found => ?_⟩,
    flows heights (fun label atLeast _ => if_pos atLeast) expected, expected⟩
  have earlier : ¬ (low : Int) ≤ label.number := by
    intro atLeast
    rw [unreached label atLeast] at found
    cases found
  refine Eq.trans ?_ (if_neg earlier).symm
  rw [found, Option.getD_some]

theorem At.recordAll {heights : Heights} {code : List Instruction} {before after : Int}
    (start : recorder.At before) (agrees : recorder.Agrees heights (some before))
    (flows : Flows heights (some before) code (some after)) (fresh : recorder.Fresh code)
    (passable : Passable code) : (recorder.recordAll code).At after := by
  have done := agrees.recordAll flows fresh
  have live := passable.reachable_recordAll fresh start.reachable
  exact ⟨done.finding, live, (Option.some.inj (done.height live)).symm⟩

theorem labelState_of_getElem? {index : Nat} {state : LabelState}
    (found : recorder.labels.toList[index]? = some state) :
    recorder.labelState ⟨index⟩ = state := by
  have atIndex : recorder.labels[index]? = some state := by simpa using found
  have natural : ¬ (index : Int) < 0 := by omega
  simp [labelState, atIndex, natural]

theorem firstUnmarked_eq_map {states : List LabelState} {own : Nat} {state : LabelState}
    (found : states[own]? = some state) (unmarked : state.marked = false)
    (others : ∀ index other, states[index]? = some other → index ≠ own →
      other.depth.isSome → other.marked = true) (number : Nat) :
    firstUnmarked number states = state.depth.map fun _ => ⟨(number + own : Nat)⟩ := by
  induction states generalizing number own with
  | nil => cases found
  | cons head rest induction =>
      cases own with
      | zero =>
          cases found
          have marked : ∀ other ∈ rest, other.depth.isSome → other.marked = true := by
            intro other member
            obtain ⟨index, place⟩ := List.getElem?_of_mem member
            exact others (index + 1) other place (by omega)
          rw [firstUnmarked, firstUnmarked_eq_none marked, unmarked]
          cases state.depth <;> rfl
      | succ own =>
          have first := others 0 head rfl (by omega)
          have rest := induction found (fun index other place apart =>
            others (index + 1) other place (by omega)) (number + 1)
          have same : number + 1 + own = number + (own + 1) := by omega
          rw [firstUnmarked, rest, same, if_neg (by simpa using first)]

theorem verdict_eq_map (quiet : recorder.finding = none) (known : recorder.Knows label)
    (unmarked : (recorder.labelState label).marked = false)
    (others : ∀ other, other ≠ label → (recorder.labelState other).depth.isSome →
      (recorder.labelState other).marked = true) :
    recorder.verdict = (recorder.labelState label).depth.map fun _ =>
      .unmarked label := by
  obtain ⟨number⟩ := label
  obtain ⟨own, rfl⟩ := Int.eq_ofNat_of_zero_le known.1
  have natural : (own : Int) < recorder.labels.size := known.2
  have bound : own < recorder.labels.toList.length := by
    rw [Array.length_toList]
    omega
  have found : recorder.labels.toList[own]? = some (recorder.labelState ⟨own⟩) := by
    rw [labelState_of_getElem? (List.getElem?_eq_getElem bound)]
    exact List.getElem?_eq_getElem bound
  have first := firstUnmarked_eq_map found unmarked (fun index other place apart => by
    rw [← labelState_of_getElem? place]
    exact others ⟨index⟩ fun equal => apart (Int.ofNat.inj (Label.mk.inj equal))) 0
  rw [verdict, quiet, first, Option.none_or, Option.map_map]
  simp only [Nat.zero_add]
  rfl

end Recorder

namespace Pattern

open Recorder

def labelCount (bases : List Int) (pattern : Pattern) (onFail : Label) (keep : Bool)
    (supply : Supply) : Nat :=
  ((pattern.test bases onFail keep).run supply).2.label - supply.label

/-- The test of a pattern is recorded, with labels that the recorder gives out
meanwhile. -/
def TestWritten (bases : List Int) (pattern : Pattern) (onFail : Label) (keep : Bool)
    (recorder later : Recorder) : Prop :=
  recorder.Writes (pattern.labelCount bases onFail keep recorder.supply)
    ((pattern.test bases onFail keep).run recorder.supply).1 later

def recordTest (bases : List Int) (pattern : Pattern) (onFail : Label) (keep : Bool)
    (recorder : Recorder) : Recorder :=
  (recorder.giveOut (pattern.labelCount bases onFail keep recorder.supply)).recordAll
    ((pattern.test bases onFail keep).run recorder.supply).1

/-- What a recorder knows after a match that jumps to a label if it fails. -/
structure Matched (recorder later : Recorder) (onFail : Label) (height : Int) : Prop
    extends later.At height where
  failed : ∀ depth, (later.labelState onFail).depth = some depth → depth = height
  unmarked : (later.labelState onFail).marked = false
  once : ∀ label, later.Knows label → ¬ recorder.Knows label →
    (later.labelState label).marked = true ∧
      (later.code.toList.drop recorder.code.size).count (.label label) = 1
  others : ∀ label, recorder.Knows label → label ≠ onFail →
    later.labelState label = recorder.labelState label
  verdict : recorder.verdict = none →
    later.verdict = (later.labelState onFail).depth.map fun _ => .unmarked onFail

section Match

variable {bases : List Int} {pattern : Pattern} {onFail label : Label} {keep : Bool}
  {recorder later : Recorder} {height : Int}

theorem label_supply (recorder : Recorder) :
    recorder.supply.label = recorder.labels.size := rfl

theorem fresh_test (bases : List Int) (pattern : Pattern) (onFail : Label) (keep : Bool)
    (recorder : Recorder) :
    (recorder.giveOut (pattern.labelCount bases onFail keep recorder.supply)).Fresh
      ((pattern.test bases onFail keep).run recorder.supply).1 := by
  have labels := pattern.labels_test bases onFail keep recorder.supply
  have range := labels.1
  rw [label_supply] at range labels
  refine ⟨labels.nodup, fun label member => ?_, fun label member => ?_⟩
  · rw [labels.mem_iff] at member
    have unknown : ¬ recorder.Knows label := fun known => by
      have bound := known.2
      omega
    rw [labelState_giveOut, labelState_of_not_knows unknown]
  · rw [labels.mem_iff] at member
    rw [knows_giveOut, labelCount, label_supply]
    omega

theorem knows_of_mem_test (known : recorder.Knows onFail) {instruction : Instruction}
    (member : instruction ∈ ((pattern.test bases onFail keep).run recorder.supply).1)
    (used : instruction.label? = some label ∨ instruction.target? = some label) :
    (recorder.giveOut (pattern.labelCount bases onFail keep recorder.supply)).Knows
      label := by
  have fresh := fresh_test bases pattern onFail keep recorder
  rcases used with defines | leads
  · refine fresh.known label (mem_definedLabels.2 ?_)
    rw [← Instruction.eq_label defines]
    exact member
  · rcases mem_definedLabels_or_escapes member leads with own | outside
    · exact fresh.known label own
    · have same := pattern.confined_test bases onFail keep recorder.supply label outside
      rw [List.mem_singleton.1 same]
      exact known.giveOut _

theorem testWritten_recordTest (known : recorder.Knows onFail) :
    pattern.TestWritten bases onFail keep recorder
      (pattern.recordTest bases onFail keep recorder) :=
  writes_giveOut _ fun _ member _ used => knows_of_mem_test known member used

theorem eq_of_testWritten
    (written : pattern.TestWritten bases onFail keep recorder later) :
    later = pattern.recordTest bases onFail keep recorder :=
  written.eq (fresh_test bases pattern onFail keep recorder)

theorem not_mem_definedLabels_of_knows (known : recorder.Knows label) :
    label ∉ definedLabels ((pattern.test bases onFail keep).run recorder.supply).1 :=
  (pattern.labels_test bases onFail keep recorder.supply).not_mem_of_lt known.2

theorem at_recordTest (bases : List Int) (keep : Bool)
    (start : recorder.At (height + pattern.preparedCount)) (nonnegative : 0 ≤ height)
    (known : recorder.Knows onFail) (unused : recorder.labelState onFail = {}) :
    (pattern.recordTest bases onFail keep recorder).At (height + pattern.keptCount keep) ∧
      ∀ depth, ((pattern.recordTest bases onFail keep recorder).labelState onFail).depth =
        some depth →
        depth = height + pattern.keptCount keep := by
  have fresh := fresh_test bases pattern onFail keep recorder
  have balanced := pattern.testBalanced bases onFail keep recorder.supply height
    [(onFail, height + pattern.keptCount keep)] nonnegative List.mem_cons_self
  obtain ⟨heights, agrees, flows, expected⟩ :=
    (start.giveOut (pattern.labelCount bases onFail keep recorder.supply)).flows
      (height + pattern.keptCount keep) balanced
      (fun label atLeast => by
        have unknown : ¬ recorder.Knows label := fun known => Int.not_lt.2 atLeast known.2
        rw [labelState_giveOut, labelState_of_not_knows unknown])
      (fun entry member => by
        rw [List.mem_singleton.1 member, labelState_giveOut, unused]
        exact ⟨known.2, rfl, rfl⟩)
  refine ⟨(start.giveOut _).recordAll agrees flows fresh (pattern.passable_test ..),
    fun depth found => ?_⟩
  rw [(agrees.recordAll flows fresh).depth onFail depth found]
  exact expected _ List.mem_cons_self

theorem labelState_recordTest_of_ne (known : recorder.Knows label)
    (apart : label ≠ onFail) :
    (pattern.recordTest bases onFail keep recorder).labelState label =
      recorder.labelState label := by
  have noJump : label ∉ escapes
      ((pattern.test bases onFail keep).run recorder.supply).1 := fun member =>
    apart (List.mem_singleton.1
      (pattern.confined_test bases onFail keep recorder.supply label member))
  rw [recordTest,
    labelState_recordAll_of_not_mem (fresh_test bases pattern onFail keep recorder)
    (not_mem_definedLabels_of_knows known) noJump, labelState_giveOut]

theorem labelState_recordTest_of_isIrrefutable
    (irrefutable : pattern.isIrrefutable = true) (known : recorder.Knows onFail) :
    (pattern.recordTest bases onFail keep recorder).labelState onFail =
      recorder.labelState onFail := by
  have noJump :
      onFail ∉ escapes ((pattern.test bases onFail keep).run recorder.supply).1 := by
    cases pattern with
    | wildcard => cases keep <;> exact List.not_mem_nil
    | bind binding => cases keep <;> exact List.not_mem_nil
    | _ => cases irrefutable
  rw [recordTest,
    labelState_recordAll_of_not_mem (fresh_test bases pattern onFail keep recorder)
    (not_mem_definedLabels_of_knows known) noJump, labelState_giveOut]

theorem count_label (code : List Instruction) (label : Label) :
    code.count (.label label) = (definedLabels code).count label := by
  induction code with
  | nil => rfl
  | cons instruction rest induction =>
      rw [definedLabels_cons, List.count_append, ← induction, List.count_cons]
      cases instruction <;> simp [Instruction.label?, List.count_singleton, Nat.add_comm]

theorem once_recordTest
    (given : (pattern.recordTest bases onFail keep recorder).Knows label)
    (unknown : ¬ recorder.Knows label) :
    ((pattern.recordTest bases onFail keep recorder).labelState label).marked = true ∧
      ((pattern.recordTest bases onFail keep recorder).code.toList.drop
        recorder.code.size).count
        (.label label) = 1 := by
  have labels := pattern.labels_test bases onFail keep recorder.supply
  have range := labels.1
  rw [label_supply] at range labels
  have inside : recorder.labels.size ≤ label.number ∧
      label.number < ((pattern.test bases onFail keep).run recorder.supply).2.label := by
    rw [recordTest, Knows, size_labels_recordAll, size_labels_giveOut, labelCount,
      label_supply] at given
    rw [Knows] at unknown
    omega
  have member := (labels.mem_iff label).2 inside
  refine ⟨marked_recordAll (fresh_test bases pattern onFail keep recorder) member, ?_⟩
  rw [recordTest, code_recordAll, code_giveOut, ← Array.length_toList,
    List.drop_left, count_label, labels.2, if_pos inside]

theorem matched_recordTest (bases : List Int) (keep : Bool)
    (start : recorder.At (height + pattern.preparedCount)) (nonnegative : 0 ≤ height)
    (known : recorder.Knows onFail) (unused : recorder.labelState onFail = {}) :
    Matched recorder (pattern.recordTest bases onFail keep recorder) onFail
      (height + pattern.keptCount keep) := by
  obtain ⟨done, failed⟩ := at_recordTest bases keep start nonnegative known unused
  have unmarked : ((pattern.recordTest bases onFail keep recorder).labelState
      onFail).marked = false := by
    rw [recordTest,
      marked_recordAll_of_not_mem (fresh_test bases pattern onFail keep recorder)
      (not_mem_definedLabels_of_knows known), labelState_giveOut, unused]
  have knownLater : (pattern.recordTest bases onFail keep recorder).Knows onFail := by
    rw [recordTest, Knows, size_labels_recordAll]
    exact known.giveOut _
  refine ⟨done, failed, unmarked, fun label => once_recordTest,
    fun label => labelState_recordTest_of_ne, fun fine => ?_⟩
  refine verdict_eq_map done.finding knownLater unmarked fun other apart reached => ?_
  by_cases earlier : recorder.Knows other
  · rw [labelState_recordTest_of_ne earlier apart] at reached ⊢
    obtain ⟨depth, found⟩ := Option.isSome_iff_exists.1 reached
    exact marked_of_verdict fine found
  · refine (once_recordTest (Decidable.byContradiction fun unknown => ?_) earlier).1
    rw [labelState_of_not_knows unknown] at reached
    cases reached

theorem at_preparation (start : recorder.At (height + 1)) (nonnegative : 0 ≤ height)
    (pattern : Pattern) :
    (recorder.recordAll pattern.preparation).At (height + pattern.preparedCount) := by
  have balanced : Balanced recorder.labels.size recorder.labels.size []
      (some (height + 1))
    pattern.preparation (some (height + pattern.preparedCount)) :=
      .preparation nonnegative pattern
  obtain ⟨heights, agrees, flows, _⟩ := start.flows 0 balanced
    (fun label atLeast => by
      rw [labelState_of_not_knows fun known => Int.not_lt.2 atLeast known.2])
    (by simp)
  have fresh : recorder.Fresh pattern.preparation := by
    constructor <;> simp
  exact start.recordAll agrees flows fresh (.preparation pattern)

end Match

/-- A match of any pattern is balanced, from any place that is reached with a value on the
stack. Preparing leaves the values that are counted. Then the test, with a label to jump
to that has not been used and all its own labels given out on the way, ends at a place
that is reached, and both of its ways out have the prepared values or none of them. -/
theorem match_balanced (bases : List Int) (pattern : Pattern) (keep : Bool)
    (recorder : Recorder) (depth : Int) (start : recorder.At depth) (enough : 1 ≤ depth) :
    (recorder.recordAll pattern.preparation).At (depth - 1 + pattern.preparedCount) ∧
      ∀ (spare : Nat) (onFail : Label),
        let ready := (recorder.recordAll pattern.preparation).giveOut spare
        ready.Knows onFail → ready.labelState onFail = {} →
          (∃ later, pattern.TestWritten bases onFail keep ready later) ∧
          ∀ later, pattern.TestWritten bases onFail keep ready later →
            Matched ready later onFail
            (depth - 1 + if keep then pattern.preparedCount else 0) ∧
            (pattern.isIrrefutable = true → (later.labelState onFail).depth = none) := by
  have nonnegative : 0 ≤ depth - 1 := by omega
  have onTop : recorder.At (depth - 1 + 1) := by
    rw [Int.sub_add_cancel]
    exact start
  have prepared := at_preparation onTop nonnegative pattern
  refine ⟨prepared, ?_⟩
  intro spare onFail ready known unused
  refine ⟨⟨_, testWritten_recordTest known⟩, fun later written => ?_⟩
  rw [eq_of_testWritten written]
  refine ⟨matched_recordTest bases keep (prepared.giveOut spare) nonnegative
    known unused, ?_⟩
  intro irrefutable
  rw [labelState_recordTest_of_isIrrefutable irrefutable known, unused]

/-- A tagged list that starts with a tagged unit: failing inside leaves values of all
parts behind. -/
def taggedList : Pattern :=
  .variant "Some" (.cons (.variant "None" (.literal .unit ⟨0⟩)) .wildcard)

theorem match_balanced_taggedList :
    let start := ({} : Recorder).record (.constant .unit)
    let ready := (start.recordAll taggedList.preparation).giveOut 1
    let later := taggedList.recordTest [] ⟨0⟩ true ready
    start.At 1 ∧ ready.At 2 ∧ ready.Knows ⟨0⟩ ∧ ready.labelState ⟨0⟩ = {} ∧
      later.labels.size = 4 ∧
      (later.labelState ⟨0⟩).depth = some 2 ∧ Matched ready later ⟨0⟩ 2 := by
  have balanced :=
    (match_balanced [] taggedList true (({} : Recorder).record (.constant .unit)) 1
      (by decide) (by decide)).2 1 ⟨0⟩ (by decide) (by decide)
  exact ⟨by decide, by decide, by decide, by decide, by decide +kernel, by decide +kernel,
    (balanced.2 _ (testWritten_recordTest (by decide))).1⟩

end Pattern

end Casework
