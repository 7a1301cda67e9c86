import Casework.Proofs.Emission
import Casework.Proofs.Matching

/-!
Tests decide whether a value matches.

The test of a pattern falls through with the parts of the value in their slots if the
value matches, and jumps away otherwise. On both ways it leaves the values below alone and
the stack at the same height.
-/

namespace Casework

/-! ## What tests do -/

/-- The values that preparing for a pattern leaves: a tagged value brings its tag
along. -/
def Pattern.prepared : Pattern → Value → List Value → List Value
  | .variant _ _, .tagged tag payload, stack => .ofString tag ::
      .tagged tag payload :: stack
  | _, value, stack => value :: stack

/-- The course after a test that has a result: names are bound if there was a match, and
otherwise the test jumps away and has changed slots of its names at most. -/
def Course.Decides (bases : List Int) (result : Option (List (Binding × Value)))
    (names : List Binding) (onFail : Label) (stack : List Value) (slots : Slots)
    (course : Course) : Prop :=
  match result with
  | some bound => course = .running stack (slots.putAll bases bound)
  | none => ∃ later, course = .seeking onFail stack later ∧
      slots.AgreeExcept later (slotNumbers bases names)

section Pieces

variable {library : Library} {value : Value} {stack : List Value} {slots : Slots}

open Course

theorem through_keeping (keep : Bool) :
    (running (value :: stack) slots).through library (keeping keep) =
      running (value :: if keep then value :: stack else stack) slots := by
  cases keep <;> rfl

theorem through_nonEmptyTest_cons (onFail : Label) (first : Value) (rest : Values) :
    (running (.list (.cons first rest) :: stack) slots).through library
      (nonEmptyTest onFail) =
      running (.list (.cons first rest) :: stack) slots := by
  simp [nonEmptyTest, advance, Instruction.effect, Condition.test?, Routine.result?]

theorem through_nonEmptyTest_nil (onFail : Label) (empty : value.items? = some .nil) :
    (running (value :: stack) slots).through library (nonEmptyTest onFail) =
      seeking onFail (value :: stack) slots := by
  rcases (value.items?_eq_some_iff .nil).1 empty with rfl | ⟨rfl, _⟩ <;>
    simp [nonEmptyTest, advance, Instruction.effect, Condition.test?, Routine.result?]

theorem through_discard {label onFail : Label} :
    (seeking label (value :: stack) slots).through library (discard label onFail) =
      seeking onFail stack slots := by
  simp [discard, advance, Instruction.effect]

theorem through_discard_of_ne {label onFail target : Label} (different : target ≠ label) :
    (seeking target stack slots).through library (discard label onFail) =
      seeking target stack slots :=
  through_seeking (by simpa [discard] using different) stack slots

theorem through_jump (label : Label) :
    (running stack slots).through library [.jump label] = seeking label stack slots := rfl

theorem through_label_self {label : Label} :
    (seeking label stack slots).through library [.label label] = running stack slots := by
  simp [advance]

theorem through_label_of_ne {label target : Label} (different : target ≠ label) :
    (seeking target stack slots).through library [.label label] =
      seeking target stack slots :=
  through_seeking (by simpa using different) stack slots

/-! A test with parts ends by jumping over the place where failures of its parts discard
what they left on the stack. -/

theorem close_running {fail onFail done : Label} (apart : done ≠ fail) :
    (((running stack slots).through library [.jump done]).through library
      (discard fail onFail)).through library [.label done] = running stack slots := by
  rw [through_jump, through_discard_of_ne apart, through_label_self]

theorem close_fail {fail onFail done : Label} (apart : onFail ≠ done) :
    (((seeking fail (value :: stack) slots).through library [.jump done]).through library
      (discard fail onFail)).through library [.label done] =
        seeking onFail stack slots := by
  rw [through_seeking (by simp), through_discard, through_label_of_ne apart]

theorem close_onFail {fail onFail done : Label} (apart : onFail ≠ fail)
    (other : onFail ≠ done) :
    (((seeking onFail stack slots).through library [.jump done]).through library
      (discard fail onFail)).through library [.label done] =
        seeking onFail stack slots := by
  rw [through_seeking (by simp), through_discard_of_ne apart, through_label_of_ne other]

def noMoreTest (finish onFail done : Label) : List Instruction :=
  [.dup, .branch .null finish, .invoke .isEmpty 1 true, .branch .fails onFail, .jump done,
    .label finish, .pop, .jump done]

theorem through_noMoreTest_nil {finish onFail done : Label} (apart : done ≠ finish)
    (empty : value.items? = some .nil) :
    (running (value :: stack) slots).through library (noMoreTest finish onFail done) =
      seeking done stack slots := by
  rcases (value.items?_eq_some_iff .nil).1 empty with rfl | ⟨rfl, _⟩ <;>
    simp [noMoreTest, advance, Instruction.effect, Condition.test?,
      Routine.result?, apart.symm]

theorem through_noMoreTest_cons {finish onFail done : Label} (apart : onFail ≠ finish)
    (first : Value) (rest : Values) :
    (running (.list (.cons first rest) :: stack) slots).through library
      (noMoreTest finish onFail done) = seeking onFail stack slots := by
  simp [noMoreTest, advance, Instruction.effect, Condition.test?,
    Routine.result?, apart.symm]

theorem through_noMoreTest_of_ne {finish onFail done target : Label}
    (different : target ≠ finish) :
    (seeking target stack slots).through library (noMoreTest finish onFail done) =
      seeking target stack slots :=
  through_seeking (by simpa [noMoreTest] using different) stack slots

theorem Pattern.through_preparation {pattern : Pattern} (suits : pattern.Suits value) :
    (running (value :: stack) slots).through library pattern.preparation =
      running (pattern.prepared value stack) slots := by
  cases pattern with
  | variant tag payload =>
      cases value with
      | tagged own inner => rfl
      | _ => exact suits.elim
  | record fields =>
      cases value with
      | struct members => rfl
      | _ => exact suits.elim
  | cons head tail =>
      cases items : value.items? with
      | none => simp [Pattern.Suits, items] at suits
      | some values =>
          simp [Pattern.preparation, advance, Instruction.effect, Shape.admits, items,
            Pattern.prepared]
  | emptyList =>
      have isList : value.items?.isSome := suits
      simp [Pattern.preparation, advance, Instruction.effect, Shape.admits, isList,
        Pattern.prepared]
  | fixedList items =>
      cases found : value.items? with
      | none => simp [Pattern.Suits, found] at suits
      | some values =>
          simp [Pattern.preparation, advance, Instruction.effect, Shape.admits, found,
            Pattern.prepared]
  | wildcard => rfl
  | bind binding => rfl
  | literal constant type => rfl

end Pieces

theorem Course.Decides.andThen {library : Library} {bases : List Int}
    {fail onFail done : Label}
    {firstResult secondResult : Option (List (Binding × Value))}
    {firstNames secondNames : List Binding} {value : Value}
    {stack : List Value} {slots : Slots} {first : Course} {code : List Instruction}
    (firstDecides : Decides bases firstResult firstNames fail
      (value :: stack) slots first)
    (names : ∀ bound ∈ firstResult, bound.map Prod.fst = firstNames)
    (secondDecides : ∀ slots, Decides bases secondResult secondNames onFail stack slots
      ((running (value :: stack) slots).through library code))
    (absent : fail ∉ definedLabels code) (failApart : onFail ≠ fail)
    (doneApart : onFail ≠ done) (placesApart : done ≠ fail) :
    Decides bases
      (do let firstBound ← firstResult
          let secondBound ← secondResult
          return firstBound ++ secondBound)
      (firstNames ++ secondNames) onFail stack slots
      ((((first.through library code).through library [.jump done]).through library
        (discard fail onFail)).through library [.label done]) := by
  cases firstResult with
  | none =>
      obtain ⟨later, rfl, agree⟩ := firstDecides
      rw [through_seeking absent, close_fail doneApart]
      exact ⟨later, rfl, agree.mono (by simp [slotNumbers])⟩
  | some firstBound =>
      obtain rfl : first =
        running (value :: stack) (slots.putAll bases firstBound) := firstDecides
      have decided := secondDecides (slots.putAll bases firstBound)
      cases secondResult with
      | none =>
          obtain ⟨later, course, agree⟩ := decided
          rw [course, close_onFail failApart doneApart]
          exact ⟨later, rfl, .afterBinding (names firstBound rfl) agree⟩
      | some secondBound =>
          have course :
              (running (value :: stack) (slots.putAll bases firstBound)).through library
              code =
              running stack ((slots.putAll bases firstBound).putAll bases secondBound) :=
            decided
          rw [course, close_running placesApart, ← Slots.putAll_append]
          rfl

/-! ## Tests decide whether a value matches -/

namespace Pattern

variable {library : Library} {bases : List Int}

def TestDecides (library : Library) (bases : List Int) (pattern : Pattern) : Prop :=
  ∀ (onFail : Label) (keep : Bool) (supply : Supply) (value : Value) (stack : List Value)
    (slots : Slots), onFail.number < supply.label → pattern.Suits value →
    Course.Decides bases (pattern.match? value) pattern.bindings onFail
      (if keep then pattern.prepared value stack else stack) slots
      ((Course.running (pattern.prepared value stack) slots).through library
        ((pattern.test bases onFail keep).run supply).1)

open Course

theorem TestDecides.nested {pattern : Pattern}
    (decides : pattern.TestDecides library bases) {onFail : Label} {supply : Supply}
    (given : onFail.number < supply.label) {value : Value} (suits : pattern.Suits value)
    (stack : List Value) (slots : Slots) :
    Decides bases (pattern.match? value) pattern.bindings onFail stack slots
      ((running (value :: stack) slots).through library
        (pattern.nested ((pattern.test bases onFail false).run supply).1)) := by
  rw [Pattern.nested, through_append, through_preparation suits]
  exact decides onFail false supply value stack slots given suits

theorem testDecides_wildcard : wildcard.TestDecides library bases := by
  intro onFail keep supply value stack slots _ _
  cases keep <;> rfl

theorem testDecides_bind (binding : Binding) :
    (bind binding).TestDecides library bases := by
  intro onFail keep supply value stack slots _ _
  cases keep <;> rfl

theorem testDecides_literal (constant : Constant) (type : Ref) :
    (literal constant type).TestDecides library bases := by
  intro onFail keep supply value stack slots _ _
  rw [run_test_literal, through_append]
  simp only [prepared, through_keeping]
  by_cases equal : value = .ofConstant constant
  · simp [match?, equal, Decides, advance, Instruction.effect, Condition.test?]
  · simp only [match?, if_neg equal, Decides]
    refine ⟨slots, ?_, .refl slots _⟩
    simp [advance, Instruction.effect, Condition.test?, equal]

theorem testDecides_emptyList : emptyList.TestDecides library bases := by
  intro onFail keep supply value stack slots given suits
  rw [run_test_emptyList]
  simp only [prepared, through_append, through_keeping]
  cases value with
  | null =>
      simp [match?, Decides, advance, Instruction.effect, Condition.test?]
  | list items =>
      cases items with
      | nil =>
          simp [match?, Decides, advance, Instruction.effect, Condition.test?,
            Routine.result?]
      | cons first rest =>
          simp only [match?, Value.items?_list, Option.some.injEq, reduceCtorEq,
            if_false, Decides]
          refine ⟨slots, ?_, .refl slots _⟩
          simp [advance, Instruction.effect, Condition.test?, Routine.result?,
            (Supply.ne_labelAfter given 0).symm, (Supply.ne_labelAfter given 1).symm]
  | _ => simp [Suits, Value.items?] at suits

theorem not_mem_definedLabels_test (bases : List Int) {label : Label} {supply : Supply}
    (earlier : label.number < supply.label) (pattern : Pattern)
    (onFail : Label) (keep : Bool) :
    label ∉ definedLabels ((pattern.test bases onFail keep).run supply).1 :=
  (pattern.labels_test bases onFail keep supply).not_mem_of_lt earlier

theorem testDecides_variant {payload : Pattern}
    (decides : payload.TestDecides library bases) (tag : String) :
    (variant tag payload).TestDecides library bases := by
  intro onFail keep supply value stack slots given suits
  cases value with
  | tagged own inner =>
      cases keep with
      | true =>
          have absent := not_mem_definedLabels_test bases given payload onFail false
          rw [run_test_variant_keep]
          simp only [prepared, through_append, match?]
          by_cases equal : own = tag
          · subst equal
            simpa [advance, Instruction.effect, Condition.test?,
              Value.ofString, bindings] using
              decides.nested given (suits rfl)
                (.ofString own :: .tagged own inner :: stack) slots
          · rw [if_neg equal]
            refine ⟨slots, ?_, .refl slots _⟩
            have different : Text.bytes own ≠ Text.bytes tag := fun same =>
              equal (Value.ofString_injective (congrArg Value.text same))
            simp [advance, Instruction.effect, Condition.test?, Value.ofString, different,
              through_seeking, absent]
      | false =>
          have later : onFail.number < (supply.take 1).label := by
            rw [Supply.label_take]
            omega
          have absent := not_mem_definedLabels_test bases later payload onFail false
          rw [run_test_variant_consume]
          simp only [prepared, through_append, match?]
          by_cases equal : own = tag
          · subst equal
            simpa [advance, Instruction.effect, Condition.test?,
              Value.ofString, bindings] using
              decides.nested later (suits rfl) stack slots
          · rw [if_neg equal]
            refine ⟨slots, ?_, .refl slots _⟩
            have different : Text.bytes own ≠ Text.bytes tag := fun same =>
              equal (Value.ofString_injective (congrArg Value.text same))
            simp [advance, Instruction.effect, Condition.test?, Value.ofString, different,
              (Supply.ne_labelAfter given 0).symm, through_seeking, absent]
  | _ => exact suits.elim

theorem TestDecides.onHead {pattern : Pattern}
    (decides : pattern.TestDecides library bases) {onFail : Label} {supply : Supply}
    (given : onFail.number < supply.label) {first : Value} (suits : pattern.Suits first)
    (rest : Values) (stack : List Value) (slots : Slots) :
    Decides bases (pattern.match? first) pattern.bindings onFail
      (.list (.cons first rest) :: stack) slots
      ((running (.list (.cons first rest) :: stack) slots).through library
        (pattern.onHead ((pattern.test bases onFail false).run supply).1)) := by
  by_cases wild : pattern.isWildcard = true
  · rw [eq_wildcard_of_isWildcard wild]
    rfl
  · rw [Pattern.onHead, if_neg wild, through_append]
    exact decides.nested given suits (.list (.cons first rest) :: stack) slots

theorem TestDecides.onTail {pattern : Pattern}
    (decides : pattern.TestDecides library bases) {onFail : Label} {supply : Supply}
    (given : onFail.number < supply.label) {rest : Values}
    (suits : pattern.Suits (.list rest)) (first : Value) (stack : List Value)
    (slots : Slots) :
    Decides bases (pattern.match? (.list rest)) pattern.bindings onFail stack slots
      ((running (.list (.cons first rest) :: stack) slots).through library
        (pattern.onTail ((pattern.test bases onFail false).run supply).1)) := by
  by_cases wild : pattern.isWildcard = true
  · rw [eq_wildcard_of_isWildcard wild]
    rfl
  · rw [Pattern.onTail, if_neg wild, through_cons]
    exact decides.nested given suits stack slots

theorem testDecides_cons {head tail : Pattern}
    (headDecides : head.TestDecides library bases)
    (tailDecides : tail.TestDecides library bases) :
    (cons head tail).TestDecides library bases := by
  intro onFail keep supply value stack slots given suits
  let fail := supply.labelAfter 0
  let headTest := (head.test bases fail false).run (supply.take 2)
  have headLabels := head.labels_test bases fail false (supply.take 2)
  have headRange : supply.label + 2 ≤ headTest.2.label := headLabels.1
  have failGiven : fail.number < (supply.take 2).label := by
    simp only [fail, Supply.number_labelAfter, Supply.label_take]
    omega
  have tailGiven : onFail.number < headTest.2.label := by omega
  have headAbsent : fail ∉ definedLabels (head.onHead headTest.1) := by
    rw [definedLabels_onHead]
    exact headLabels.not_mem_of_lt failGiven
  have tailAbsent : fail ∉
      definedLabels (tail.onTail ((tail.test bases onFail false).run headTest.2).1) := by
    rw [definedLabels_onTail]
    refine not_mem_definedLabels_test bases ?_ tail onFail false
    simp only [fail, Supply.number_labelAfter]
    omega
  have failApart : onFail ≠ fail := Supply.ne_labelAfter given 0
  have doneApart : onFail ≠ supply.labelAfter 1 := Supply.ne_labelAfter given 1
  have placesApart : supply.labelAfter 1 ≠ fail := by simp [fail]
  rw [run_test_cons]
  simp only [prepared, through_append, through_keeping]
  cases items : value.items? with
  | none => simp [Suits, items] at suits
  | some values =>
      cases values with
      | nil =>
          rw [through_nonEmptyTest_nil _ items, through_seeking headAbsent,
            through_seeking tailAbsent, close_fail doneApart]
          simp only [match?, items]
          exact ⟨slots, rfl, .refl slots _⟩
      | cons first rest =>
          obtain rfl : value = .list (.cons first rest) := by
            simpa using (value.items?_eq_some_iff _).1 items
          obtain ⟨headSuits, tailSuits⟩ : head.Suits first ∧
            tail.Suits (.list rest) := suits
          rw [through_nonEmptyTest_cons]
          exact (headDecides.onHead failGiven headSuits rest _ slots).andThen
            (fun bound found => map_fst_of_match? found)
            (fun slots => tailDecides.onTail tailGiven tailSuits first _ slots)
            tailAbsent failApart doneApart placesApart

end Pattern

/-! ### Lists of fixed length -/

def Patterns.front? : Patterns → Values → Option (List (Binding × Value) × Values)
  | .nil, values => some ([], values)
  | .cons _ _, .nil => none
  | .cons head tail, .cons first rest => do
      let headBound ← head.match? first
      let (tailBound, left) ← tail.front? rest
      return (headBound ++ tailBound, left)

theorem Patterns.match?_eq_front? : ∀ (items : Patterns) (values : Values),
    items.match? values =
      (items.front? values).bind fun front => if front.2 = .nil then
        some front.1 else none
  | .nil, .nil => rfl
  | .nil, .cons _ _ => rfl
  | .cons _ _, .nil => rfl
  | .cons head tail, .cons first rest => by
      rw [match?, front?, tail.match?_eq_front? rest]
      cases head.match? first with
      | none => rfl
      | some headBound =>
          cases tail.front? rest with
          | none => rfl
          | some front =>
              simp only [Option.bind_eq_bind, Option.bind_some, Option.pure_def]
              split <;> rfl

theorem Patterns.map_fst_of_front? : ∀ {items : Patterns} {values left : Values}
    {bound : List (Binding × Value)},
    items.front? values = some (bound, left) → bound.map Prod.fst = items.bindings
  | .nil, _, _, _, found => by cases found; rfl
  | .cons head tail, .cons first rest, _, _, found => by
      simp only [front?, Option.bind_eq_bind, Option.bind_eq_some_iff, Option.pure_def,
        Option.some.injEq] at found
      obtain ⟨headBound, headFound, ⟨tailBound, left⟩, tailFound, equal⟩ := found
      cases equal
      rw [List.map_append, head.map_fst_of_match? headFound,
        tail.map_fst_of_front? tailFound]
      rfl

namespace Patterns

variable {library : Library} {bases : List Int}

/-- The test of items decides whether a list starts with them. It leaves the rest of the
list, or what was left when an item did not match. -/
def TestDecides (library : Library) (bases : List Int) (items : Patterns) : Prop :=
  ∀ (onFail : Label) (supply : Supply) (value : Value) (values : Values)
    (stack : List Value)
    (slots : Slots), onFail.number < supply.label → value.items? = some values →
    items.Suits values →
    ∃ left, Course.Decides bases ((items.front? values).map Prod.fst)
    items.bindings onFail
      (left :: stack) slots
      ((Course.running (value :: stack) slots).through library
        ((items.test bases onFail).run supply).1) ∧
      ∀ front ∈ items.front? values, left.items? = some front.2

open Course

theorem testDecides_nil : Patterns.nil.TestDecides library bases := by
  intro onFail supply value values stack slots _ found _
  refine ⟨value, rfl, ?_⟩
  rintro front ⟨⟩
  exact found

theorem testDecides_cons {head : Pattern} {tail : Patterns}
    (headDecides : head.TestDecides library bases)
    (tailDecides : tail.TestDecides library bases) :
    (cons head tail).TestDecides library bases := by
  intro onFail supply value values stack slots given found suits
  let headTest := (head.test bases onFail false).run supply
  have headLabels := head.labels_test bases onFail false supply
  have tailGiven : onFail.number < headTest.2.label := by
    have headRange : supply.label ≤ headTest.2.label := headLabels.1
    omega
  have headAbsent : onFail ∉ definedLabels (head.onHead headTest.1) := by
    rw [Pattern.definedLabels_onHead]
    exact headLabels.not_mem_of_lt given
  have tailAbsent := (tail.labels_test bases onFail headTest.2).not_mem_of_lt tailGiven
  rw [run_test_cons]
  simp only [through_append]
  cases values with
  | nil =>
      rw [through_nonEmptyTest_nil _ found, through_seeking headAbsent,
        through_seeking (by simp), through_seeking tailAbsent]
      refine ⟨value, ⟨slots, rfl, .refl slots _⟩, ?_⟩
      rintro front ⟨⟩
  | cons first rest =>
      obtain rfl : value = .list (.cons first rest) := by
        simpa using (value.items?_eq_some_iff _).1 found
      rw [through_nonEmptyTest_cons]
      have decided := headDecides.onHead given suits.1 rest stack slots
      cases headFound : head.match? first with
      | none =>
          rw [headFound] at decided
          obtain ⟨later, course, agree⟩ := decided
          rw [course, through_seeking (by simp), through_seeking tailAbsent]
          simp only [front?, headFound]
          exact ⟨_, ⟨later, rfl,
            agree.mono (by simp [slotNumbers, bindings])⟩, by rintro front ⟨⟩⟩
      | some headBound =>
          rw [headFound] at decided
          have course :
              (running (.list (.cons first rest) :: stack) slots).through library
              (head.onHead headTest.1) = running (.list (.cons first rest) :: stack)
                (slots.putAll bases headBound) := decided
          have restCourse : (running (.list (.cons first rest) :: stack)
              (slots.putAll bases headBound)).through library [.invoke .rest 1 true] =
                running (.list rest :: stack) (slots.putAll bases headBound) := rfl
          rw [course, restCourse]
          obtain ⟨left, tailDecided, leftItems⟩ :=
            tailDecides onFail headTest.2 (.list rest) rest
            stack (slots.putAll bases headBound) tailGiven rfl suits.2
          refine ⟨left, ?_, ?_⟩
          · simp only [front?, headFound]
            cases tailFound : tail.front? rest with
            | none =>
                rw [tailFound] at tailDecided
                obtain ⟨later, course, agree⟩ := tailDecided
                exact ⟨later, course,
                  .afterBinding (Pattern.map_fst_of_match? headFound) agree⟩
            | some front =>
                rw [tailFound] at tailDecided
                refine Eq.trans tailDecided ?_
                rw [← Slots.putAll_append]
          · intro front member
            simp only [front?, headFound, Option.bind_eq_bind, Option.bind_some,
              Option.mem_def, Option.bind_eq_some_iff, Option.pure_def,
              Option.some.injEq] at member
            obtain ⟨tailFront, tailFound, rfl⟩ := member
            exact leftItems tailFront tailFound

end Patterns

namespace Pattern

variable {library : Library} {bases : List Int}

open Course

theorem testDecides_fixedList {items : Patterns}
    (decides : items.TestDecides library bases) :
    (fixedList items).TestDecides library bases := by
  intro onFail keep supply value stack slots given suits
  let fail := supply.labelAfter 0
  let finish := supply.labelAfter 1
  let done := supply.labelAfter 2
  have failGiven : fail.number < (supply.take 3).label := by
    simp only [fail, Supply.number_labelAfter, Supply.label_take]
    omega
  have failApart : onFail ≠ fail := Supply.ne_labelAfter given 0
  have finishApart : onFail ≠ finish := Supply.ne_labelAfter given 1
  have doneApart : onFail ≠ done := Supply.ne_labelAfter given 2
  have failFinish : fail ≠ finish := by simp [fail, finish]
  have doneFinish : done ≠ finish := by simp [done, finish]
  have doneFail : done ≠ fail := by simp [done, fail]
  rw [run_test_fixedList]
  simp only [prepared, through_append, through_keeping]
  cases found : value.items? with
  | none => simp [Suits, found] at suits
  | some values =>
      have itemsSuit : items.Suits values := by simpa [Suits, found] using suits
      obtain ⟨left, decided, leftItems⟩ := decides fail (supply.take 3) value values
        (if keep then value :: stack else stack) slots failGiven found itemsSuit
      simp only [match?, found, Option.bind_eq_bind, Option.bind_some,
        items.match?_eq_front?]
      cases front : items.front? values with
      | none =>
          rw [front] at decided
          obtain ⟨later, course, agree⟩ := decided
          rw [course, ← noMoreTest, through_noMoreTest_of_ne failFinish, through_discard]
          exact ⟨later, through_label_of_ne doneApart, agree⟩
      | some pair =>
          obtain ⟨bound, rest⟩ := pair
          rw [front] at decided
          have course :
              (running (value :: if keep then value :: stack else stack) slots).through
              library ((items.test bases fail).run (supply.take 3)).1 =
                running (left :: if keep then value :: stack else stack)
                  (slots.putAll bases bound) := decided
          have leftFound := leftItems (bound, rest) front
          rw [course, ← noMoreTest]
          cases rest with
          | nil =>
              rw [through_noMoreTest_nil doneFinish leftFound,
                through_discard_of_ne doneFail]
              exact through_label_self
          | cons first rest =>
              obtain rfl : left = .list (.cons first rest) := by
                simpa using (left.items?_eq_some_iff _).1 leftFound
              rw [through_noMoreTest_cons finishApart, through_discard_of_ne failApart]
              have agree := slots.agreeExcept_putAll bases bound
              rw [Patterns.map_fst_of_front? front] at agree
              exact ⟨_, through_label_of_ne doneApart, agree⟩

end Pattern

/-! ### Records -/

namespace PatternFields

variable {library : Library} {bases : List Int}

theorem match?_of_readCount_eq_zero : ∀ {fields : PatternFields} {members : Members},
    fields.readCount = 0 → fields.Suits members →
      fields.match? members = some [] ∧ fields.bindings = []
  | .nil, _, _, _ => ⟨rfl, rfl⟩
  | .cons name pattern tail, members, count, suits => by
      obtain ⟨⟨value, found, _⟩, tailSuits⟩ := suits
      have wild : pattern.isWildcard = true := by
        cases read : pattern.isWildcard with
        | true => rfl
        | false => simp [readCount, read] at count
      rw [Pattern.eq_wildcard_of_isWildcard wild] at count ⊢
      have tailCount : tail.readCount = 0 := by
        simpa [readCount, Pattern.isWildcard] using count
      obtain ⟨matched, names⟩ := tail.match?_of_readCount_eq_zero tailCount tailSuits
      simp [match?, Pattern.match?, found, matched, bindings, Pattern.bindings, names]

/-- The course after a test of fields that has a result. A field before the last one that
is read fails with the struct still there. -/
def Decided (bases : List Int) (result : Option (List (Binding × Value)))
    (fields : PatternFields) (onFail onLastFail : Label) (struct : Value)
    (stack : List Value) (slots : Slots) (course : Course) : Prop :=
  Course.Decides bases result fields.bindings onLastFail stack slots course ∨
    result = none ∧ 2 ≤ fields.readCount ∧
      Course.Decides bases none fields.bindings onFail (struct :: stack) slots course

def TestDecides (library : Library) (bases : List Int) (fields : PatternFields) : Prop :=
  ∀ (onFail onLastFail : Label) (supply : Supply) (members : Members) (stack : List Value)
    (slots : Slots), onFail.number < supply.label → onLastFail.number < supply.label →
    fields.Suits members → fields.readCount ≠ 0 →
    fields.Decided bases (fields.match? members) onFail onLastFail
    (.struct members) stack slots
      ((Course.running (.struct members :: stack) slots).through library
        ((fields.test bases onFail onLastFail).run supply).1)

open Course

theorem testDecides_cons (name : String) {pattern : Pattern} {tail : PatternFields}
    (headDecides : pattern.TestDecides library bases)
    (tailDecides : tail.TestDecides library bases) :
    (cons name pattern tail).TestDecides library bases := by
  intro onFail onLastFail supply members stack slots given lastGiven suits count
  obtain ⟨⟨value, found, headSuits⟩, tailSuits⟩ := suits
  by_cases skipped : pattern.isWildcard = true
  · obtain rfl := Pattern.eq_wildcard_of_isWildcard skipped
    have tailCount : tail.readCount ≠ 0 := by
      simpa [readCount, Pattern.isWildcard] using count
    have decided :=
      tailDecides onFail onLastFail supply members stack slots given lastGiven
      tailSuits tailCount
    rw [run_test_skip _ _ _ _ name tail skipped]
    simpa [match?, Pattern.match?, found, Decided, bindings, Pattern.bindings, readCount,
      Pattern.isWildcard] using decided
  · have read : pattern.isWildcard = false := by simpa using skipped
    by_cases last : tail.readCount = 0
    · left
      rw [run_test_last _ _ _ _ name read last, through_cons]
      obtain ⟨tailMatch, tailNames⟩ := match?_of_readCount_eq_zero last tailSuits
      have fieldCourse : (running (.struct members :: stack) slots).advance
          library (.field name) =
          running (value :: stack) slots := by
        simp [advance, Instruction.effect, found]
      rw [fieldCourse]
      simpa [match?, found, tailMatch, bindings, tailNames] using
        headDecides.nested lastGiven headSuits stack slots
    · let headTest := (pattern.test bases onFail false).run supply
      have headRange : supply.label ≤ headTest.2.label :=
        (pattern.labels_test bases onFail false supply).1
      have tailGiven : onFail.number < headTest.2.label := by omega
      have tailLastGiven : onLastFail.number < headTest.2.label := by omega
      have tailAbsent :=
        (tail.labels_test bases onFail onLastFail headTest.2).not_mem_of_lt tailGiven
      have many : 2 ≤ (cons name pattern tail).readCount := by
        simp only [readCount, read, Bool.false_eq_true, if_false]
        omega
      have fieldCourse : (running (.struct members :: stack) slots).through library
          [.dup, .field name] = running (value :: .struct members :: stack) slots := by
        simp [advance, Instruction.effect, found]
      rw [run_test_next _ _ _ _ name read last, through_append,
        through_append, fieldCourse]
      have decided := headDecides.nested given headSuits (.struct members :: stack) slots
      simp only [match?, found, Option.bind_eq_bind, Option.bind_some]
      cases headFound : pattern.match? value with
      | none =>
          rw [headFound] at decided
          obtain ⟨later, course, agree⟩ := decided
          rw [course, through_seeking tailAbsent]
          exact .inr ⟨rfl, many, later, rfl, agree.mono (by simp [slotNumbers, bindings])⟩
      | some headBound =>
          rw [headFound] at decided
          have course :
              (running (value :: .struct members :: stack) slots).through library
              (pattern.nested headTest.1) =
                running (.struct members :: stack)
                (slots.putAll bases headBound) := decided
          have names := Pattern.map_fst_of_match? headFound
          rw [course]
          rcases tailDecides onFail onLastFail headTest.2 members stack
            (slots.putAll bases headBound) tailGiven tailLastGiven tailSuits last with
            tailDecided | ⟨tailNone, _, later, tailCourse, agree⟩
          · left
            cases tailFound : tail.match? members with
            | none =>
                rw [tailFound] at tailDecided
                obtain ⟨later, tailCourse, agree⟩ := tailDecided
                exact ⟨later, tailCourse, .afterBinding names agree⟩
            | some tailBound =>
                rw [tailFound] at tailDecided
                refine Eq.trans tailDecided ?_
                rw [← Slots.putAll_append]
          · rw [tailNone]
            exact .inr ⟨rfl, many, later, tailCourse, .afterBinding names agree⟩

end PatternFields

open Course in
theorem Pattern.testDecides_record {library : Library} {bases : List Int}
    {fields : PatternFields} (decides : fields.TestDecides library bases) :
    (record fields).TestDecides library bases := by
  intro onFail keep supply value stack slots given suits
  cases value with
  | struct members =>
      obtain none | one | many : fields.readCount = 0 ∨ fields.readCount = 1 ∨
        2 ≤ fields.readCount := by omega
      · obtain ⟨matched, names⟩ := PatternFields.match?_of_readCount_eq_zero none suits
        rw [run_test_record_none _ _ _ _ none, match?, matched]
        cases keep <;> rfl
      · rw [run_test_record_one _ _ _ _ one]
        simp only [prepared, through_append, through_keeping]
        rcases decides onFail onFail supply members _ slots given given
          suits (by omega) with
          decided | ⟨_, impossible, _⟩
        · exact decided
        · omega
      · let fail := supply.labelAfter 0
        let fieldTests := (fields.test bases fail onFail).run (supply.take 1)
        let done := fieldTests.2.labelAfter 0
        have range : supply.label + 1 ≤ fieldTests.2.label :=
          (fields.labels_test bases fail onFail (supply.take 1)).1
        have failGiven : fail.number < (supply.take 1).label := by
          simp only [fail, Supply.number_labelAfter, Supply.label_take]
          omega
        have lastGiven : onFail.number < (supply.take 1).label := by
          rw [Supply.label_take]
          omega
        have failApart : onFail ≠ fail := Supply.ne_labelAfter given 0
        have doneApart : onFail ≠ done := Supply.ne_labelAfter (by omega) 0
        have placesApart : done ≠ fail := by
          refine (Supply.ne_labelAfter ?_ 0).symm
          rw [Supply.label_take] at failGiven
          omega
        rw [run_test_record_many _ _ _ _ many]
        simp only [prepared, through_append, through_keeping]
        rcases decides fail onFail (supply.take 1) members
          (if keep then .struct members :: stack else stack) slots
          failGiven lastGiven suits
          (by omega) with decided | ⟨unmatched, _, later, course, agree⟩
        · rw [match?]
          cases found : fields.match? members with
          | none =>
              rw [found] at decided
              obtain ⟨later, course, agree⟩ := decided
              rw [course, close_onFail failApart doneApart]
              exact ⟨later, rfl, agree⟩
          | some bound =>
              rw [found] at decided
              have course : (running (.struct members ::
                  if keep then .struct members :: stack else stack) slots).through library
                  fieldTests.1 =
                    running (if keep then .struct members :: stack else stack)
                    (slots.putAll bases bound) := decided
              rw [course, close_running placesApart]
              rfl
        · rw [match?, unmatched, course, close_fail doneApart]
          exact ⟨later, rfl, agree⟩
  | _ => exact suits.elim

/-! ### All tests -/

mutual

theorem Pattern.testDecides (library : Library) (bases : List Int) :
    ∀ pattern : Pattern, pattern.TestDecides library bases
  | .wildcard => Pattern.testDecides_wildcard
  | .bind binding => Pattern.testDecides_bind binding
  | .literal constant type => Pattern.testDecides_literal constant type
  | .cons head tail =>
      Pattern.testDecides_cons (head.testDecides library bases)
        (tail.testDecides library bases)
  | .emptyList => Pattern.testDecides_emptyList
  | .fixedList items => Pattern.testDecides_fixedList (items.testDecides library bases)
  | .record fields => Pattern.testDecides_record (fields.testDecides library bases)
  | .variant tag payload => Pattern.testDecides_variant
      (payload.testDecides library bases) tag
termination_by structural pattern => pattern

theorem Patterns.testDecides (library : Library) (bases : List Int) :
    ∀ items : Patterns, items.TestDecides library bases
  | .nil => Patterns.testDecides_nil
  | .cons head tail =>
      Patterns.testDecides_cons (head.testDecides library bases)
        (tail.testDecides library bases)
termination_by structural items => items

theorem PatternFields.testDecides (library : Library) (bases : List Int) :
    ∀ fields : PatternFields, fields.TestDecides library bases
  | .nil => fun _ _ _ _ _ _ _ _ _ count => absurd rfl count
  | .cons name pattern tail =>
      PatternFields.testDecides_cons name (pattern.testDecides library bases)
        (tail.testDecides library bases)
termination_by structural fields => fields

end

end Casework
