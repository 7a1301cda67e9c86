import Casework.Code.Emission
import Casework.Proofs.Machine

/-!
Emitted code, piece by piece.

Writing code takes labels from a supply. The equations here say what is written for each
pattern and each expression, and from which supply its parts are written. The main
statement is that a piece of code defines each label that was taken for it exactly once,
and no other label.
-/

namespace Casework

namespace Supply

/-- The supply after some labels have been taken. -/
def take (supply : Supply) (count : Nat) : Supply :=
  { supply with label := supply.label + count }

def labelAfter (supply : Supply) (count : Nat) : Label := ⟨(supply.label + count : Nat)⟩

@[simp] theorem label_take (supply : Supply) (count : Nat) :
    (supply.take count).label = supply.label + count := rfl

@[simp] theorem number_labelAfter (supply : Supply) (count : Nat) :
    (supply.labelAfter count).number = supply.label + count := Int.natCast_add _ _

@[simp] theorem labelAfter_eq_iff (supply : Supply) (left right : Nat) :
    supply.labelAfter left = supply.labelAfter right ↔ left = right := by
  simp only [labelAfter, Label.mk.injEq]
  omega

theorem ne_labelAfter {supply : Supply} {label : Label}
    (earlier : label.number < supply.label) (count : Nat) :
    label ≠ supply.labelAfter count := by
  rintro rfl
  rw [number_labelAfter] at earlier
  omega

end Supply

/-! ## Equations for patterns -/

section Equations

variable (bases : List Int) (onFail : Label) (keep : Bool) (supply : Supply)

namespace Pattern

theorem run_test_wildcard :
    (wildcard.test bases onFail keep).run supply =
      (if keep then [] else [.pop], supply) := rfl

theorem run_test_bind (binding : Binding) :
    ((bind binding).test bases onFail keep).run supply =
      (keeping keep ++ [.store (binding.slot.number bases)], supply) := rfl

theorem run_test_literal (value : Constant) (type : Ref) :
    ((literal value type).test bases onFail keep).run supply =
      (keeping keep ++ [.constant value, .equals, .branch .fails onFail], supply) := rfl

theorem run_test_variant_keep (tag : String) (payload : Pattern) :
    ((variant tag payload).test bases onFail true).run supply =
      let inner := (payload.test bases onFail false).run supply
      ([.dup, .constant (.ofString tag), .branch .different onFail, .swap, .dupBelow,
        .tagPayload] ++ payload.nested inner.1, inner.2) := rfl

theorem run_test_variant_consume (tag : String) (payload : Pattern) :
    ((variant tag payload).test bases onFail false).run supply =
      let next := supply.labelAfter 0
      let inner := (payload.test bases onFail false).run (supply.take 1)
      ([.constant (.ofString tag), .branch .same next, .pop, .jump onFail, .label next,
        .tagPayload] ++ payload.nested inner.1, inner.2) := rfl

theorem run_test_emptyList :
    (emptyList.test bases onFail keep).run supply =
      let isNull := supply.labelAfter 0
      let done := supply.labelAfter 1
      (keeping keep ++
        [.dup, .branch .null isNull, .invoke .isEmpty 1 true,
          .branch .fails onFail, .jump done, .label isNull, .pop, .label done],
          supply.take 2) := rfl

theorem run_test_cons (head tail : Pattern) :
    ((cons head tail).test bases onFail keep).run supply =
      let fail := supply.labelAfter 0
      let done := supply.labelAfter 1
      let headTest := (head.test bases fail false).run (supply.take 2)
      let tailTest := (tail.test bases onFail false).run headTest.2
      (keeping keep ++ nonEmptyTest fail ++ head.onHead headTest.1 ++
        tail.onTail tailTest.1 ++ [.jump done] ++ discard fail onFail ++ [.label done],
        tailTest.2) := rfl

theorem run_test_fixedList (items : Patterns) :
    ((fixedList items).test bases onFail keep).run supply =
      let fail := supply.labelAfter 0
      let finish := supply.labelAfter 1
      let done := supply.labelAfter 2
      let itemTests := (items.test bases fail).run (supply.take 3)
      (keeping keep ++ itemTests.1 ++
        [.dup, .branch .null finish, .invoke .isEmpty 1 true,
          .branch .fails onFail, .jump done, .label finish, .pop, .jump done] ++
          discard fail onFail ++ [.label done],
        itemTests.2) := rfl

theorem run_test_record_none {fields : PatternFields} (count : fields.readCount = 0) :
    ((record fields).test bases onFail keep).run supply =
      (keeping keep ++ [.pop], supply) := by
  rw [Pattern.test, if_pos count]
  rfl

theorem run_test_record_one {fields : PatternFields} (count : fields.readCount = 1) :
    ((record fields).test bases onFail keep).run supply =
      let fieldTests := (fields.test bases onFail onFail).run supply
      (keeping keep ++ fieldTests.1, fieldTests.2) := by
  rw [Pattern.test, if_neg (by omega), if_pos count]
  rfl

theorem run_test_record_many {fields : PatternFields} (count : 2 ≤ fields.readCount) :
    ((record fields).test bases onFail keep).run supply =
      let fail := supply.labelAfter 0
      let fieldTests := (fields.test bases fail onFail).run (supply.take 1)
      let done := fieldTests.2.labelAfter 0
      (keeping keep ++ fieldTests.1 ++ [.jump done] ++
        discard fail onFail ++ [.label done], fieldTests.2.take 1) := by
  rw [Pattern.test, if_neg (by omega), if_neg (by omega)]
  rfl

end Pattern

theorem Patterns.run_test_cons (head : Pattern) (tail : Patterns) :
    ((Patterns.cons head tail).test bases onFail).run supply =
      let headTest := (head.test bases onFail false).run supply
      let tailTest := (tail.test bases onFail).run headTest.2
      (nonEmptyTest onFail ++ head.onHead headTest.1 ++
        [.invoke .rest 1 true] ++ tailTest.1, tailTest.2) := rfl

namespace PatternFields

variable (onLastFail : Label)

theorem run_test_skip (name : String) {pattern : Pattern} (tail : PatternFields)
    (skipped : pattern.isWildcard = true) :
    ((PatternFields.cons name pattern tail).test bases onFail onLastFail).run supply =
      (tail.test bases onFail onLastFail).run supply := by
  rw [PatternFields.test, if_pos skipped]

theorem run_test_last (name : String) {pattern : Pattern} {tail : PatternFields}
    (read : pattern.isWildcard = false) (count : tail.readCount = 0) :
    ((PatternFields.cons name pattern tail).test bases onFail onLastFail).run supply =
      let inner := (pattern.test bases onLastFail false).run supply
      (.field name :: pattern.nested inner.1, inner.2) := by
  rw [PatternFields.test, if_neg (by simp [read]), if_pos count]
  rfl

theorem run_test_next (name : String) {pattern : Pattern} {tail : PatternFields}
    (read : pattern.isWildcard = false) (count : tail.readCount ≠ 0) :
    ((PatternFields.cons name pattern tail).test bases onFail onLastFail).run supply =
      let inner := (pattern.test bases onFail false).run supply
      let others := (tail.test bases onFail onLastFail).run inner.2
      ([.dup, .field name] ++ pattern.nested inner.1 ++ others.1, others.2) := by
  rw [PatternFields.test, if_neg (by simp [read]), if_neg count]
  rfl

end PatternFields

/-! ## Equations for expressions -/

namespace Code

theorem run_emit_tag (name : String) (payload : Code) (type : Ref) :
    ((tag name payload type).emit bases).run supply =
      let inner := (payload.emit bases).run supply
      (inner.1 ++ [.newTag name], inner.2) := rfl

theorem run_emit_call (routine : Routine) (left right : Code) (type : Ref) :
    ((call routine left right type).emit bases).run supply =
      let first := (left.emit bases).run supply
      let second := (right.emit bases).run first.2
      (first.1 ++ second.1 ++ [.invoke routine 2 true], second.2) := rfl

theorem run_emit_list (items : Codes) (type : Ref) :
    ((list items type).emit bases).run supply =
      let pushed := (items.emit bases).run supply
      (pushed.1 ++ [.constant .unit] ++
        List.replicate items.length (.invoke .cons 2 true), pushed.2) := rfl

theorem run_emit_select (record : Code) (field : String) (type : Ref) :
    ((select record field type).emit bases).run supply =
      let inner := (record.emit bases).run supply
      (inner.1 ++ [.cast .struct, .field field], inner.2) := rfl

/-- The supply for the choices of a case: the slots of the names they bind and the label
at the end are taken. -/
def armSupply (report : CaseReport) (supply : Supply) : Supply :=
  { label := supply.label + 1, slot := supply.slot + report.slotCount }

theorem run_emit_caseOf (report : CaseReport) (value : Code) (arms : Arms) :
    ((caseOf report value arms).emit bases).run supply =
      let valueCode := (value.emit bases).run supply
      let finish := valueCode.2.labelAfter 0
      let armCode := (arms.emit (bases ++ [valueCode.2.slot]) finish .start).run
        (armSupply report valueCode.2)
      (valueCode.1 ++ armCode.1.1 ++ popMany (armCode.1.2.count - 1) ++
        [.invoke .noMatch 1 true, .label finish], armCode.2) := rfl

end Code

theorem Codes.run_emit_cons (head : Code) (tail : Codes) :
    ((Codes.cons head tail).emit bases).run supply =
      let first := (head.emit bases).run supply
      let others := (tail.emit bases).run first.2
      (first.1 ++ others.1, others.2) := rfl

theorem Arms.run_emit_cons (pattern : Pattern) (body : Code) (tail : Arms)
    (finish : Label) (prepared : Prepared) :
    ((Arms.cons pattern body tail).emit bases finish prepared).run supply =
      let switched := prepared.switch pattern
      let next := supply.labelAfter 0
      let test := (pattern.test bases next true).run (supply.take 1)
      let bodyCode := (body.emit bases).run test.2
      let others := (tail.emit bases finish switched.2).run bodyCode.2
      ((switched.1 ++ test.1 ++ popMany switched.2.count ++ bodyCode.1 ++
        [.jump finish, .label next] ++ others.1.1, others.1.2), others.2) := rfl

end Equations

/-! ## Labels -/

/-- The labels from one number up to another, each once, in some order. -/
def Consecutive (low high : Nat) (labels : List Label) : Prop :=
  low ≤ high ∧ ∀ label : Label, labels.count label =
    if low ≤ label.number ∧ label.number < high then 1 else 0

namespace Consecutive

variable {low middle high : Nat} {labels others : List Label}

theorem nodup (consecutive : Consecutive low high labels) : labels.Nodup := by
  rw [List.nodup_iff_count]
  intro label
  rw [consecutive.2 label]
  split <;> omega

theorem mem_iff (consecutive : Consecutive low high labels) (label : Label) :
    label ∈ labels ↔ low ≤ label.number ∧ label.number < high := by
  rw [← List.count_pos_iff, consecutive.2 label]
  split <;> simp_all

theorem not_mem_of_lt (consecutive : Consecutive low high labels) {label : Label}
    (earlier : label.number < low) : label ∉ labels := by
  rw [consecutive.mem_iff]
  omega

theorem nil (number : Nat) : Consecutive number number [] := by
  refine ⟨Nat.le_refl number, fun label => ?_⟩
  rw [if_neg (by omega)]
  rfl

theorem perm (consecutive : Consecutive low high labels) (permuted : others.Perm labels) :
    Consecutive low high others :=
  ⟨consecutive.1, fun label => by rw [permuted.count_eq, consecutive.2 label]⟩

theorem append (first : Consecutive low middle labels)
    (second : Consecutive middle high others) :
    Consecutive low high (labels ++ others) := by
  have firstRange := first.1
  have secondRange := second.1
  refine ⟨by omega, fun label => ?_⟩
  rw [List.count_append, first.2 label, second.2 label]
  split <;> split <;> split <;> omega

theorem singleton (number : Nat) : Consecutive number (number + 1) [⟨number⟩] := by
  refine ⟨by omega, fun ⟨own⟩ => ?_⟩
  rw [List.count_singleton]
  simp only [beq_iff_eq, Label.mk.injEq]
  split <;> split <;> omega

theorem insert (consecutive : Consecutive (low + 1) high labels) :
    Consecutive low high (⟨low⟩ :: labels) :=
  (singleton low).append consecutive

end Consecutive

@[simp] theorem definedLabels_popMany (count : Nat) :
    definedLabels (popMany count) = [] := by
  induction count with
  | zero => rfl
  | succ count induction =>
      rw [popMany, List.replicate_succ, definedLabels_cons]
      exact induction

@[simp] theorem definedLabels_replicate_cons (count : Nat) :
    definedLabels (List.replicate count (.invoke .cons 2 true)) = [] := by
  induction count with
  | zero => rfl
  | succ count induction =>
      rw [List.replicate_succ, definedLabels_cons]
      exact induction

@[simp] theorem definedLabels_keeping (keep : Bool) :
    definedLabels (keeping keep) = [] := by
  cases keep <;> rfl

@[simp] theorem definedLabels_nonEmptyTest (onFail : Label) :
    definedLabels (nonEmptyTest onFail) = [] := rfl

@[simp] theorem definedLabels_discard (label onFail : Label) :
    definedLabels (discard label onFail) = [label] := rfl

namespace Pattern

@[simp] theorem definedLabels_preparation (pattern : Pattern) :
    definedLabels pattern.preparation = [] := by
  cases pattern <;> rfl

@[simp] theorem definedLabels_nested (pattern : Pattern) (test : List Instruction) :
    definedLabels (pattern.nested test) = definedLabels test := by
  simp [nested]

theorem eq_wildcard_of_isWildcard {pattern : Pattern} (wild : pattern.isWildcard = true) :
    pattern = wildcard := by
  cases pattern <;> first | rfl | cases wild

theorem definedLabels_onHead (bases : List Int) (onFail : Label) (supply : Supply)
    (pattern : Pattern) :
    definedLabels (pattern.onHead ((pattern.test bases onFail false).run supply).1) =
      definedLabels ((pattern.test bases onFail false).run supply).1 := by
  by_cases wild : pattern.isWildcard = true
  · rw [eq_wildcard_of_isWildcard wild]
    rfl
  · rw [onHead, if_neg wild, definedLabels_append, definedLabels_nested]
    rfl

theorem definedLabels_onTail (bases : List Int) (onFail : Label) (supply : Supply)
    (pattern : Pattern) :
    definedLabels (pattern.onTail ((pattern.test bases onFail false).run supply).1) =
      definedLabels ((pattern.test bases onFail false).run supply).1 := by
  by_cases wild : pattern.isWildcard = true
  · rw [eq_wildcard_of_isWildcard wild]
    rfl
  · rw [onTail, if_neg wild, definedLabels_cons, definedLabels_nested]
    rfl

end Pattern

mutual

theorem Pattern.labels_test (bases : List Int) :
    ∀ (pattern : Pattern) (onFail : Label) (keep : Bool) (supply : Supply),
      Consecutive supply.label ((pattern.test bases onFail keep).run supply).2.label
        (definedLabels ((pattern.test bases onFail keep).run supply).1)
  | .wildcard, onFail, keep, supply => by
      rw [Pattern.run_test_wildcard]
      cases keep <;> exact .nil supply.label
  | .bind binding, onFail, keep, supply => by
      rw [Pattern.run_test_bind]
      cases keep <;> exact .nil supply.label
  | .literal value type, onFail, keep, supply => by
      rw [Pattern.run_test_literal]
      cases keep <;> exact .nil supply.label
  | .variant tag payload, onFail, true, supply => by
      have inner := payload.labels_test bases onFail false supply
      rw [Pattern.run_test_variant_keep]
      simpa using inner
  | .variant tag payload, onFail, false, supply => by
      have inner := payload.labels_test bases onFail false (supply.take 1)
      rw [Pattern.run_test_variant_consume]
      simpa [Supply.labelAfter] using inner.insert
  | .emptyList, onFail, keep, supply => by
      rw [Pattern.run_test_emptyList]
      simpa [Supply.labelAfter, Supply.take] using
        (Consecutive.nil (supply.label + 2)).insert.insert
  | .cons head tail, onFail, keep, supply => by
      have headLabels :=
        head.labels_test bases (supply.labelAfter 0) false (supply.take 2)
      have tailLabels := tail.labels_test bases onFail false
        ((head.test bases (supply.labelAfter 0) false).run (supply.take 2)).2
      rw [Pattern.run_test_cons]
      refine (headLabels.append tailLabels).insert.insert.perm ?_
      simp only [definedLabels_append, definedLabels_keeping, definedLabels_nonEmptyTest,
        Pattern.definedLabels_onHead, Pattern.definedLabels_onTail, definedLabels_discard,
        definedLabels_cons, definedLabels_nil, Instruction.label?, Option.toList_none,
        Option.toList_some, List.nil_append, List.append_nil, List.append_assoc]
      rw [← List.append_assoc]
      exact List.perm_append_comm
  | .fixedList items, onFail, keep, supply => by
      have itemLabels := items.labels_test bases (supply.labelAfter 0) (supply.take 3)
      rw [Pattern.run_test_fixedList]
      refine itemLabels.insert.insert.insert.perm ?_
      simp only [definedLabels_append, definedLabels_keeping, definedLabels_discard,
        definedLabels_cons, definedLabels_nil, Instruction.label?, Option.toList_none,
        Option.toList_some, List.nil_append, List.append_nil, List.append_assoc]
      exact List.perm_append_comm.trans (.swap _ _ _)
  | .record fields, onFail, keep, supply => by
      obtain none | one | many : fields.readCount = 0 ∨ fields.readCount = 1 ∨
        2 ≤ fields.readCount := by omega
      · rw [Pattern.run_test_record_none _ _ _ _ none]
        cases keep <;> exact .nil supply.label
      · rw [Pattern.run_test_record_one _ _ _ _ one]
        simpa using fields.labels_test bases onFail onFail supply
      · have fieldLabels :=
          fields.labels_test bases (supply.labelAfter 0) onFail (supply.take 1)
        rw [Pattern.run_test_record_many _ _ _ _ many]
        have doneLabel := Consecutive.singleton
          ((fields.test bases (supply.labelAfter 0) onFail).run (supply.take 1)).2.label
        refine (fieldLabels.append doneLabel).insert.perm ?_
        simp only [definedLabels_append, definedLabels_keeping, definedLabels_discard,
          definedLabels_cons, definedLabels_nil, Instruction.label?, Option.toList_none,
          Option.toList_some, List.nil_append, List.append_nil, List.append_assoc]
        exact List.perm_middle
termination_by structural pattern => pattern

theorem Patterns.labels_test (bases : List Int) :
    ∀ (items : Patterns) (onFail : Label) (supply : Supply),
      Consecutive supply.label ((items.test bases onFail).run supply).2.label
        (definedLabels ((items.test bases onFail).run supply).1)
  | .nil, _, supply => .nil supply.label
  | .cons head tail, onFail, supply => by
      have headLabels := head.labels_test bases onFail false supply
      have tailLabels := tail.labels_test bases onFail
        ((head.test bases onFail false).run supply).2
      rw [Patterns.run_test_cons]
      simpa [Pattern.definedLabels_onHead] using
        headLabels.append tailLabels
termination_by structural items => items

theorem PatternFields.labels_test (bases : List Int) :
    ∀ (fields : PatternFields) (onFail onLastFail : Label) (supply : Supply),
      Consecutive supply.label ((fields.test bases onFail onLastFail).run supply).2.label
        (definedLabels ((fields.test bases onFail onLastFail).run supply).1)
  | .nil, _, _, supply => .nil supply.label
  | .cons name pattern tail, onFail, onLastFail, supply => by
      by_cases skipped : pattern.isWildcard
      · rw [PatternFields.run_test_skip _ _ _ _ name tail skipped]
        exact tail.labels_test bases onFail onLastFail supply
      · have read : pattern.isWildcard = false := by simpa using skipped
        by_cases count : tail.readCount = 0
        · rw [PatternFields.run_test_last _ _ _ _ name read count]
          simpa using pattern.labels_test bases onLastFail false supply
        · have inner := pattern.labels_test bases onFail false supply
          have others := tail.labels_test bases onFail onLastFail
            ((pattern.test bases onFail false).run supply).2
          rw [PatternFields.run_test_next _ _ _ _ name read count]
          simpa using inner.append others
termination_by structural fields => fields

end

@[simp] theorem Prepared.definedLabels_switch (prepared : Prepared) (pattern : Pattern) :
    definedLabels (prepared.switch pattern).1 = [] := by
  unfold Prepared.switch
  split <;> simp

mutual

theorem Code.labels_emit :
    ∀ (code : Code) (bases : List Int) (supply : Supply),
      Consecutive supply.label ((code.emit bases).run supply).2.label
        (definedLabels ((code.emit bases).run supply).1)
  | .constant _ _, _, supply => .nil supply.label
  | .static _ _ _, _, supply => .nil supply.label
  | .name _, _, supply => .nil supply.label
  | .tag name payload type, bases, supply => by
      rw [Code.run_emit_tag]
      simpa using payload.labels_emit bases supply
  | .call routine left right type, bases, supply => by
      have leftLabels := left.labels_emit bases supply
      have rightLabels := right.labels_emit bases ((left.emit bases).run supply).2
      rw [Code.run_emit_call]
      simpa using leftLabels.append rightLabels
  | .list items type, bases, supply => by
      rw [Code.run_emit_list]
      simpa using items.labels_emit bases supply
  | .select record field type, bases, supply => by
      rw [Code.run_emit_select]
      simpa using record.labels_emit bases supply
  | .caseOf report value arms, bases, supply => by
      let after := ((value.emit bases).run supply).2
      have valueLabels := value.labels_emit bases supply
      have armLabels :=
        arms.labels_emit (bases ++ [after.slot]) (after.labelAfter 0) .start
        (Code.armSupply report after)
      rw [Code.run_emit_caseOf]
      refine (valueLabels.append armLabels.insert).perm ?_
      simp only [definedLabels_append, definedLabels_popMany, definedLabels_cons,
        definedLabels_nil, Instruction.label?, Option.toList_none, Option.toList_some,
        List.nil_append, List.append_nil, List.append_assoc]
      exact List.Perm.append_left _ List.perm_append_comm
termination_by structural code => code

theorem Codes.labels_emit :
    ∀ (items : Codes) (bases : List Int) (supply : Supply),
      Consecutive supply.label ((items.emit bases).run supply).2.label
        (definedLabels ((items.emit bases).run supply).1)
  | .nil, _, supply => .nil supply.label
  | .cons head tail, bases, supply => by
      have headLabels := head.labels_emit bases supply
      have tailLabels := tail.labels_emit bases ((head.emit bases).run supply).2
      rw [Codes.run_emit_cons]
      simpa using headLabels.append tailLabels
termination_by structural items => items

theorem Arms.labels_emit :
    ∀ (arms : Arms) (bases : List Int) (finish : Label) (prepared : Prepared)
      (supply : Supply),
      Consecutive supply.label ((arms.emit bases finish prepared).run supply).2.label
        (definedLabels ((arms.emit bases finish prepared).run supply).1.1)
  | .nil, _, _, _, supply => .nil supply.label
  | .rest _ tail, bases, finish, prepared, supply =>
      tail.labels_emit bases finish prepared supply
  | .cons pattern body tail, bases, finish, prepared, supply => by
      let test := (pattern.test bases (supply.labelAfter 0) true).run (supply.take 1)
      let bodyCode := (body.emit bases).run test.2
      have testLabels :=
        pattern.labels_test bases (supply.labelAfter 0) true (supply.take 1)
      have bodyLabels := body.labels_emit bases test.2
      have otherLabels :=
        tail.labels_emit bases finish (prepared.switch pattern).2 bodyCode.2
      let others := (tail.emit bases finish (prepared.switch pattern).2).run bodyCode.2
      have defined : definedLabels
          (((Arms.cons pattern body tail).emit bases finish prepared).run supply).1.1 =
          definedLabels test.1 ++ definedLabels bodyCode.1 ++
            supply.labelAfter 0 :: definedLabels others.1.1 := by
        rw [Arms.run_emit_cons]
        simp [test, bodyCode, others]
      rw [defined]
      exact ((testLabels.append bodyLabels).append otherLabels).insert.perm
        List.perm_middle
termination_by structural arms => arms

end

end Casework
