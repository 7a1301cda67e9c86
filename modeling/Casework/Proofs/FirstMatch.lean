import Casework.Proofs.Execution
import Casework.Proofs.Testing

/-!
A case runs the first choice that matches.

Choices in a row whose patterns have the same outline share one preparation. So the values
on the stack between two choices depend on the pattern tested last. What matters is that
they always stand for the value of the case: the next choice finds what its pattern needs,
and the body of a choice starts on the values below.
-/

namespace Casework

/-! ## What stands on the stack between choices -/

namespace Prepared

def stack (prepared : Prepared) (value : Value) (below : List Value) : List Value :=
  match prepared.outline, value with
  | some .variant, .tagged tag payload => .ofString tag :: .tagged tag payload :: below
  | _, _ => value :: below

/-- As many values are on the stack as are counted, and only a tagged value is prepared as
one. -/
structure Holds (prepared : Prepared) (value : Value) : Prop where
  length : ∀ below, (prepared.stack value below).length = prepared.count + below.length
  tagged : prepared.outline = some .variant → ∃ tag payload, value = .tagged tag payload

theorem holds_start (value : Value) : start.Holds value where
  length below := by simp [start, stack, Nat.add_comm]
  tagged impossible := by cases impossible

theorem stack_eq (prepared : Prepared) (value : Value) :
    ∃ front, ∀ below, prepared.stack value below = front ++ value :: below := by
  unfold stack
  split
  · exact ⟨[.ofString _], fun below => rfl⟩
  · exact ⟨[], fun below => rfl⟩

end Prepared

section Choices

variable {library : Library} {value : Value} {below : List Value} {slots : Slots}

open Course

theorem through_popMany (front : List Value) :
    (running (front ++ below) slots).through library (popMany front.length) =
      running below slots := by
  induction front with
  | nil => rfl
  | cons first rest induction =>
      rw [List.length_cons, popMany, List.replicate_succ, through_cons]
      exact induction

theorem through_popMany_pred {prepared : Prepared} (holds : prepared.Holds value) :
    (running (prepared.stack value below) slots).through library
      (popMany (prepared.count - 1)) =
      running (value :: below) slots := by
  obtain ⟨front, stacked⟩ := prepared.stack_eq value
  have count : prepared.count - 1 = front.length := by
    have length := holds.length below
    rw [stacked below, List.length_append, List.length_cons] at length
    omega
  rw [stacked below, count, through_popMany]

theorem through_popMany_count {prepared : Prepared} (holds : prepared.Holds value) :
    (running (prepared.stack value below) slots).through library
      (popMany prepared.count) =
      running below slots := by
  obtain ⟨front, stacked⟩ := prepared.stack_eq value
  have count : prepared.count = (front ++ [value]).length := by
    have length := holds.length below
    rw [stacked below, List.length_append, List.length_cons] at length
    simp only [List.length_append, List.length_singleton]
    omega
  have split : prepared.stack value below = (front ++ [value]) ++ below := by
    rw [stacked below, List.append_assoc, List.singleton_append]
  rw [split, count, through_popMany]

theorem Pattern.stack_outline (pattern : Pattern) (count : Nat) :
    (Prepared.mk (some pattern.outline) count).stack value below =
      pattern.prepared value below := by
  cases pattern <;> cases value <;> rfl

theorem Pattern.holds_outline {pattern : Pattern} (suits : pattern.Suits value) :
    (Prepared.mk (some pattern.outline) pattern.preparedCount).Holds value where
  length below := by
    cases pattern with
    | variant tag payload =>
        cases value with
        | tagged own inner => simp [Prepared.stack, Pattern.outline, preparedCount]; omega
        | _ => exact suits.elim
    | _ =>
        rw [stack_outline]
        simp [Pattern.prepared, preparedCount, Nat.add_comm]
  tagged isVariant := by
    cases pattern with
    | variant tag payload =>
        cases value with
        | tagged own inner => exact ⟨own, inner, rfl⟩
        | _ => exact suits.elim
    | _ => cases isVariant

theorem Prepared.through_switch {prepared : Prepared} (holds : prepared.Holds value)
    {pattern : Pattern} (suits : pattern.Suits value) :
    (running (prepared.stack value below) slots).through library
      (prepared.switch pattern).1 =
      running (pattern.prepared value below) slots := by
  unfold switch
  split
  next shared =>
      rw [← pattern.stack_outline prepared.count, ← shared]
      rfl
  next =>
      rw [through_append, through_popMany_pred holds]
      exact Pattern.through_preparation suits

theorem Prepared.holds_switch {prepared : Prepared} (holds : prepared.Holds value)
    {pattern : Pattern} (suits : pattern.Suits value) :
    (prepared.switch pattern).2.Holds value := by
  unfold switch
  split
  · exact holds
  · exact Pattern.holds_outline suits

theorem Prepared.stack_switch (prepared : Prepared) (pattern : Pattern) :
    (prepared.switch pattern).2.stack value below = pattern.prepared value below := by
  unfold switch
  split
  next shared =>
      rw [← pattern.stack_outline prepared.count, ← shared]
  next => exact pattern.stack_outline pattern.preparedCount

/-! ## One choice -/

namespace Pattern

def entry (pattern : Pattern) (bases : List Int) (prepared : Prepared) (supply : Supply) :
    List Instruction :=
  (prepared.switch pattern).1 ++
    ((pattern.test bases (supply.labelAfter 0) true).run (supply.take 1)).1 ++
    popMany (prepared.switch pattern).2.count

def bodySupply (pattern : Pattern) (bases : List Int) (supply : Supply) : Supply :=
  ((pattern.test bases (supply.labelAfter 0) true).run (supply.take 1)).2

theorem label_lt_bodySupply (pattern : Pattern) (bases : List Int) (supply : Supply) :
    supply.label < (pattern.bodySupply bases supply).label :=
  (pattern.labels_test bases (supply.labelAfter 0) true (supply.take 1)).1

variable {prepared : Prepared} {pattern : Pattern} {bases : List Int} {supply : Supply}

theorem decides_entry_test (holds : prepared.Holds value) (suits : pattern.Suits value) :
    Decides bases (pattern.match? value) pattern.bindings (supply.labelAfter 0)
      (pattern.prepared value below) slots
      ((running (prepared.stack value below) slots).through library
        ((prepared.switch pattern).1 ++
          ((pattern.test bases (supply.labelAfter 0) true).run (supply.take 1)).1)) := by
  have given : (supply.labelAfter 0).number < (supply.take 1).label := by
    rw [Supply.number_labelAfter, Supply.label_take]
    omega
  rw [through_append, prepared.through_switch holds suits]
  exact pattern.testDecides library bases _ true _ value below slots given suits

theorem through_entry_of_match (holds : prepared.Holds value)
    (suits : pattern.Suits value) {bound : List (Binding × Value)}
    (found : pattern.match? value = some bound) :
    (running (prepared.stack value below) slots).through library
      (pattern.entry bases prepared supply) =
        running below (slots.putAll bases bound) := by
  have decided : Decides bases _ _ _ _ _ _ :=
    @decides_entry_test library value below slots _ _
    bases supply holds suits
  rw [found] at decided
  have course : _ = running (pattern.prepared value below)
      (slots.putAll bases bound) := decided
  rw [entry, through_append, course, ← prepared.stack_switch pattern,
    through_popMany_count (prepared.holds_switch holds suits)]

theorem through_entry_of_mismatch (holds : prepared.Holds value)
    (suits : pattern.Suits value) (mismatch : pattern.match? value = none) :
    ∃ later, (running (prepared.stack value below) slots).through library
        (pattern.entry bases prepared supply) =
          seeking (supply.labelAfter 0)
            ((prepared.switch pattern).2.stack value below) later ∧
      slots.AgreeExcept later (slotNumbers bases pattern.bindings) := by
  have decided : Decides bases _ _ _ _ _ _ :=
    @decides_entry_test library value below slots _ _
    bases supply holds suits
  rw [mismatch] at decided
  obtain ⟨later, course, agree⟩ := decided
  refine ⟨later, ?_, agree⟩
  rw [entry, through_append, course, through_seeking (by simp),
    prepared.stack_switch pattern]

end Pattern

namespace Arms

variable {prepared : Prepared} {pattern : Pattern} {bases : List Int} {supply : Supply}

def choiceCode (pattern : Pattern) (body : Code) (bases : List Int) (finish : Label)
    (prepared : Prepared) (supply : Supply) : List Instruction :=
  pattern.entry bases prepared supply ++
    (((body.emit bases).run (pattern.bodySupply bases supply)).1 ++ [.jump finish]) ++
    [.label (supply.labelAfter 0)]

theorem run_emit_cons_choice (pattern : Pattern) (body : Code) (tail : Arms)
    (bases : List Int) (finish : Label) (prepared : Prepared) (supply : Supply) :
    ((cons pattern body tail).emit bases finish prepared).run supply =
      let bodyCode := (body.emit bases).run (pattern.bodySupply bases supply)
      let others := (tail.emit bases finish (prepared.switch pattern).2).run bodyCode.2
      ((choiceCode pattern body bases finish prepared supply ++ others.1.1, others.1.2),
        others.2) := by
  rw [run_emit_cons]
  simp [choiceCode, Pattern.entry, Pattern.bodySupply]

theorem through_choice_of_mismatch (body : Code) (finish : Label)
    (holds : prepared.Holds value) (suits : pattern.Suits value)
    (mismatch : pattern.match? value = none) :
    ∃ later, (running (prepared.stack value below) slots).through library
        (choiceCode pattern body bases finish prepared supply) =
        running ((prepared.switch pattern).2.stack value below) later ∧
      slots.AgreeExcept later (slotNumbers bases pattern.bindings) := by
  obtain ⟨later, course, agree⟩ := pattern.through_entry_of_mismatch holds suits mismatch
  have absent : supply.labelAfter 0 ∉ definedLabels
      (((body.emit bases).run (pattern.bodySupply bases supply)).1 ++
        [.jump finish]) := by
    simp only [definedLabels_append, definedLabels_cons, definedLabels_nil,
      Instruction.label?, Option.toList_none, List.append_nil]
    refine (body.labels_emit bases (pattern.bodySupply bases supply)).not_mem_of_lt ?_
    have started := pattern.label_lt_bodySupply bases supply
    rw [Supply.number_labelAfter]
    omega
  refine ⟨later, ?_, agree⟩
  rw [choiceCode, through_append, through_append, course, through_seeking absent]
  exact through_label_self

end Arms

end Choices

/-! ## All choices -/

def Arms.choices : Arms → List (Pattern × Code)
  | .nil => []
  | .cons pattern body tail => (pattern, body) :: tail.choices
  | .rest _ tail => tail.choices

/-- Where the code of a body starts within the code of the choices, and the supply it is
written from. -/
structure Site where
  place : Nat
  supply : Supply

def Site.after (distance : Nat) (site : Site) : Site :=
  { site with place := distance + site.place }

namespace Arms

def sites (bases : List Int) (finish : Label) : Arms → Prepared → Supply → List Site
  | .nil, _, _ => []
  | .rest _ tail, prepared, supply => tail.sites bases finish prepared supply
  | .cons pattern body tail, prepared, supply =>
      let own := choiceCode pattern body bases finish prepared supply
      let bodyCode := (body.emit bases).run (pattern.bodySupply bases supply)
      ⟨(pattern.entry bases prepared supply).length, pattern.bodySupply bases supply⟩ ::
        (tail.sites bases finish (prepared.switch pattern).2 bodyCode.2).map
        (·.after own.length)

variable {library : Library} {listing : List Instruction} {bases : List Int}
  {finish : Label}

theorem placed_site :
    ∀ {arms : Arms} {prepared : Prepared} {supply : Supply} {place : Nat},
    Placed listing place ((arms.emit bases finish prepared).run supply).1.1 →
    ∀ {index : Nat} {pattern : Pattern} {body : Code},
      arms.choices[index]? = some (pattern, body) →
      ∃ site, (arms.sites bases finish prepared supply)[index]? = some site ∧
        Placed listing (place + site.place)
          (((body.emit bases).run site.supply).1 ++ [.jump finish])
  | .nil, _, _, _, _, _, _, _, found => by simp [choices] at found
  | .rest _ tail, prepared, supply, place, placed, index, pattern, body, found =>
      tail.placed_site placed found
  | .cons own ownBody tail, prepared, supply, place, placed, index, pattern,
      body, found => by
      rw [run_emit_cons_choice] at placed
      cases index with
      | zero =>
          cases found
          exact ⟨_, rfl, placed.left.left.right⟩
      | succ index =>
          obtain ⟨site, siteFound, sitePlaced⟩ := tail.placed_site placed.right found
          refine ⟨site.after (choiceCode own ownBody bases finish prepared supply).length,
            ?_, ?_⟩
          · rw [sites, List.getElem?_cons_succ, List.getElem?_map, siteFound]
            rfl
          · rw [Site.after, ← Nat.add_assoc]
            exact sitePlaced

theorem reaches_site (library : Library)
    (unique : (definedLabels listing).Nodup) {value : Value} (below : List Value) :
    ∀ {arms : Arms} {prepared : Prepared} {supply : Supply} {place : Nat}
    (slots : Slots), Placed listing place
      ((arms.emit bases finish prepared).run supply).1.1 →
    prepared.Holds value → (∀ choice ∈ arms.choices, choice.1.Suits value) →
    ∀ {index : Nat} {pattern : Pattern} {body : Code} {bound : List (Binding × Value)},
      arms.choices[index]? = some (pattern, body) → pattern.match? value = some bound →
      (∀ choice ∈ arms.choices.take index, choice.1.match? value = none) →
      ∃ site later, (arms.sites bases finish prepared supply)[index]? = some site ∧
        Machine.Reaches library listing ⟨place, prepared.stack value below, slots⟩
          ⟨place + site.place, below, later.putAll bases bound⟩ ∧
        slots.AgreeExcept later
          (slotNumbers bases ((arms.choices.take index).flatMap (·.1.bindings)))
  | .nil, _, _, _, _, _, _, _, _, _, _, _, found, _, _ => by simp [choices] at found
  | .rest _ tail, _, _, _, _, placed, holds, suits, _, _, _, _, found, matched, earlier =>
      tail.reaches_site library unique below _ placed holds suits found matched earlier
  | .cons own ownBody tail, prepared, supply, place, slots, placed, holds,
      suits, index, pattern,
      body, bound, found, matched, earlier => by
      rw [run_emit_cons_choice] at placed
      have ownSuits : own.Suits value := suits (own, ownBody) (by simp [choices])
      cases index with
      | zero =>
          cases found
          have reached := Course.describes_through library unique placed.left.left.left
            (prepared.stack value below) slots
          rw [own.through_entry_of_match holds ownSuits matched] at reached
          exact ⟨_, slots, rfl, reached, .refl slots _⟩
      | succ index =>
          have mismatch : own.match? value = none :=
            earlier (own, ownBody) (by simp [choices])
          obtain ⟨middle, course, agree⟩ :=
            through_choice_of_mismatch ownBody finish holds ownSuits
            mismatch
          have passed := Course.describes_through library unique placed.left
            (prepared.stack value below) slots
          rw [course] at passed
          obtain ⟨site, later, siteFound, reached, laterAgree⟩ :=
            tail.reaches_site library unique
            below middle placed.right (prepared.holds_switch holds ownSuits)
            (fun choice member => suits choice (by simp [choices, member])) found matched
            (fun choice member => earlier choice (by simp [choices, member]))
          refine ⟨site.after (choiceCode own ownBody bases finish prepared supply).length,
            later, ?_, ?_, ?_⟩
          · rw [sites, List.getElem?_cons_succ, List.getElem?_map, siteFound]
            rfl
          · rw [Site.after, ← Nat.add_assoc]
            exact passed.trans reached
          · exact (agree.mono (by simp [choices, slotNumbers])).trans
              (laterAgree.mono (by simp [choices, slotNumbers]))

theorem reaches_end (library : Library)
    (unique : (definedLabels listing).Nodup) {value : Value} (below : List Value) :
    ∀ {arms : Arms} {prepared : Prepared} {supply : Supply} {place : Nat}
    (slots : Slots), Placed listing place
      ((arms.emit bases finish prepared).run supply).1.1 →
    prepared.Holds value → (∀ choice ∈ arms.choices, choice.1.Suits value) →
    (∀ choice ∈ arms.choices, choice.1.match? value = none) →
    ∃ later, ((arms.emit bases finish prepared).run supply).1.2.Holds value ∧
      Machine.Reaches library listing ⟨place, prepared.stack value below, slots⟩
        ⟨place + ((arms.emit bases finish prepared).run supply).1.1.length,
          ((arms.emit bases finish prepared).run supply).1.2.stack value below, later⟩ ∧
      slots.AgreeExcept later (slotNumbers bases (arms.choices.flatMap (·.1.bindings)))
  | .nil, _, _, _, slots, _, holds, _, _ => ⟨slots, holds, .refl, .refl slots _⟩
  | .rest _ tail, _, _, _, _, placed, holds, suits, mismatches =>
      tail.reaches_end library unique below _ placed holds suits mismatches
  | .cons own ownBody tail, prepared, supply, place, slots, placed, holds, suits,
      mismatches => by
      rw [run_emit_cons_choice] at placed ⊢
      have ownSuits : own.Suits value := suits (own, ownBody) (by simp [choices])
      have mismatch : own.match? value = none :=
        mismatches (own, ownBody) (by simp [choices])
      obtain ⟨middle, course, agree⟩ :=
        through_choice_of_mismatch ownBody finish holds ownSuits
        mismatch
      have passed := Course.describes_through library unique placed.left
        (prepared.stack value below) slots
      rw [course] at passed
      obtain ⟨later, lastHolds, reached, laterAgree⟩ :=
        tail.reaches_end library unique below middle
        placed.right (prepared.holds_switch holds ownSuits)
        (fun choice member => suits choice (by simp [choices, member]))
        (fun choice member => mismatches choice (by simp [choices, member]))
      refine ⟨later, lastHolds, ?_, ?_⟩
      · rw [List.length_append, ← Nat.add_assoc]
        exact passed.trans reached
      · exact (agree.mono (by simp [choices, slotNumbers])).trans
          (laterAgree.mono (by simp [choices, slotNumbers]))

end Arms

/-! ## Cases -/

structure CaseLayout where
  start : Nat
  stop : Nat
  bases : List Int
  sites : List Site

def Code.layout (report : CaseReport) (value : Code) (arms : Arms) (bases : List Int)
    (supply : Supply) (place : Nat) : CaseLayout :=
  let valueCode := (value.emit bases).run supply
  { start := place + valueCode.1.length
    stop := place + (((caseOf report value arms).emit bases).run supply).1.length
    bases := bases ++ [valueCode.2.slot]
    sites := arms.sites (bases ++ [valueCode.2.slot]) (valueCode.2.labelAfter 0) .start
      (armSupply report valueCode.2) }

theorem Machine.reaches_jump (library : Library) {listing : List Instruction}
    (unique : (definedLabels listing).Nodup) {place target : Nat} {label : Label}
    (jump : listing[place]? = some (.jump label))
    (found : listing[target]? = some (.label label)) (stack : List Value)
    (slots : Slots) :
    Machine.Reaches library listing ⟨place, stack, slots⟩ ⟨target + 1, stack, slots⟩ := by
  have jumped : Machine.step library listing ⟨place, stack, slots⟩ =
      .ok ⟨target, stack, slots⟩ := by
    simp [Machine.step, jump, Instruction.effect, labelPlace?_eq_some unique found]
  have passed : Machine.step library listing ⟨target, stack, slots⟩ =
      .ok ⟨target + 1, stack, slots⟩ := by
    simp [Machine.step, found, Instruction.effect]
  exact .head jumped (.single passed)

theorem Code.reaches_emit (library : Library) {listing : List Instruction}
    (unique : (definedLabels listing).Nodup) (code : Code) {bases : List Int}
    {supply : Supply} {place : Nat}
    (placed : Placed listing place ((code.emit bases).run supply).1) (below : List Value)
    (slots : Slots) :
    (∃ result later, Machine.Reaches library listing ⟨place, below, slots⟩
      ⟨place + ((code.emit bases).run supply).1.length, result :: below, later⟩) ∨
    ∃ last halt, Machine.Reaches library listing ⟨place, below, slots⟩ last ∧
      last.step library listing = .error halt ∧ halt ≠ .finished := by
  have described := Course.describes_through library unique placed below slots
  rcases code.through_emit library bases supply below slots with
    ⟨result, later, course⟩ | ⟨value, rest, course⟩ | course
  · rw [course] at described
    exact .inl ⟨result, later, described⟩
  · rw [course] at described
    obtain ⟨last, reached, halted⟩ := described
    exact .inr ⟨last, _, reached, halted, nofun⟩
  · rw [course] at described
    obtain ⟨last, reached, halted⟩ := described
    exact .inr ⟨last, _, reached, halted, nofun⟩

section Cases

variable {library : Library} {listing : List Instruction}
  {report : CaseReport} {value : Code} {arms : Arms} {bases : List Int} {supply : Supply}
  {place : Nat} {scrutinee : Value} {below : List Value} {slots : Slots}

theorem Code.reaches_body (unique : (definedLabels listing).Nodup)
    (placed : Placed listing place (((caseOf report value arms).emit bases).run supply).1)
    (suits : ∀ choice ∈ arms.choices, choice.1.Suits scrutinee) {index : Nat}
    {pattern : Pattern} {body : Code} {bound : List (Binding × Value)}
    (found : arms.choices[index]? = some (pattern, body))
    (distinct : (slotNumbers (layout report value arms bases supply place).bases
      pattern.bindings).Nodup)
    (matched : pattern.match? scrutinee = some bound)
    (earlier : ∀ choice ∈ arms.choices.take index, choice.1.match? scrutinee = none) :
    let layout := layout report value arms bases supply place
    ∃ site later, layout.sites[index]? = some site ∧
      Placed listing (layout.start + site.place)
        (((body.emit layout.bases).run site.supply).1 ++
          [.jump (((value.emit bases).run supply).2.labelAfter 0)]) ∧
      Machine.Reaches library listing ⟨layout.start, scrutinee :: below, slots⟩
        ⟨layout.start + site.place, below, later⟩ ∧
      (∀ part ∈ bound, later (part.1.slot.number layout.bases) = some part.2) ∧
      slots.AgreeExcept later
        (slotNumbers layout.bases (arms.choices.flatMap (·.1.bindings))) := by
  rw [run_emit_caseOf] at placed
  have armsPlaced := placed.left.left.right
  have names : bound.map Prod.fst = pattern.bindings := Pattern.map_fst_of_match? matched
  have member : (pattern, body) ∈ arms.choices := List.mem_of_getElem? found
  obtain ⟨site, siteFound, sitePlaced⟩ := Arms.placed_site armsPlaced found
  obtain ⟨same, later, sameFound, reached, agree⟩ :=
    Arms.reaches_site library unique below slots
    armsPlaced (Prepared.holds_start scrutinee) suits found matched earlier
  obtain rfl : site = same := Option.some.inj (siteFound.symm.trans sameFound)
  refine ⟨site, _, siteFound, sitePlaced, reached, ?_, ?_⟩
  · intro part partOf
    refine Slots.putAll_of_mem ?_ partOf
    rw [names]
    exact distinct
  · have bound :=
      later.agreeExcept_putAll (bases ++ [((value.emit bases).run supply).2.slot]) bound
    rw [names] at bound
    refine (agree.mono ?_).trans (bound.mono ?_)
    · intro slot taken
      simp only [slotNumbers, List.mem_map, List.mem_flatMap] at taken ⊢
      obtain ⟨binding, ⟨choice, chosen, bindingOf⟩, equal⟩ := taken
      exact ⟨binding, ⟨choice, List.mem_of_mem_take chosen, bindingOf⟩, equal⟩
    · intro slot taken
      simp only [slotNumbers, List.mem_map, List.mem_flatMap] at taken ⊢
      obtain ⟨binding, bindingOf, equal⟩ := taken
      exact ⟨binding, ⟨_, member, bindingOf⟩, equal⟩

theorem Code.reaches_noMatch (unique : (definedLabels listing).Nodup)
    (placed : Placed listing place (((caseOf report value arms).emit bases).run supply).1)
    (suits : ∀ choice ∈ arms.choices, choice.1.Suits scrutinee)
    (mismatches : ∀ choice ∈ arms.choices, choice.1.match? scrutinee = none) :
    let layout := layout report value arms bases supply place
    ∃ last : Machine,
    Machine.Reaches library listing ⟨layout.start, scrutinee :: below, slots⟩ last ∧
      last.place + 2 = layout.stop ∧ listing[last.place]? =
      some (.invoke .noMatch 1 true) ∧
      last.stack = scrutinee :: below ∧
      last.step library listing = .error (.unmatched scrutinee below) := by
  let valueCode := (value.emit bases).run supply
  let armCode :=
    (arms.emit (bases ++ [valueCode.2.slot]) (valueCode.2.labelAfter 0) .start).run
    (armSupply report valueCode.2)
  let pops := popMany (armCode.1.2.count - 1)
  have armsPlaced : Placed listing (place + valueCode.1.length) armCode.1.1 :=
    placed.left.left.right
  have popsPlaced : Placed listing (place + (valueCode.1 ++ armCode.1.1).length) pops :=
    placed.left.right
  have noMatch : listing[place + (valueCode.1 ++ armCode.1.1 ++ pops).length]? =
      some (.invoke .noMatch 1 true) := placed.right.head
  obtain ⟨later, holds, reached, _⟩ :=
    Arms.reaches_end library unique below slots armsPlaced
    (Prepared.holds_start scrutinee) suits mismatches
  have popped := Course.describes_through library unique popsPlaced
    (armCode.1.2.stack scrutinee below) later
  rw [through_popMany_pred holds] at popped
  simp only [List.length_append, ← Nat.add_assoc] at noMatch popped
  refine ⟨⟨_, scrutinee :: below, later⟩, reached.trans popped, ?_, noMatch, rfl, ?_⟩
  · have total : (((caseOf report value arms).emit bases).run supply).1.length =
        (valueCode.1 ++ armCode.1.1 ++ pops).length + 2 := List.length_append
    simp only [layout, total, List.length_append]
    omega
  · simp [Machine.step, noMatch, Instruction.effect]

variable (library) in
theorem Code.reaches_stop (unique : (definedLabels listing).Nodup)
    (placed : Placed listing place (((caseOf report value arms).emit bases).run supply).1)
    {bodyEnd : Nat}
    (jump : listing[bodyEnd]? =
      some (.jump (((value.emit bases).run supply).2.labelAfter 0)))
    (stack : List Value) (slots : Slots) :
    Machine.Reaches library listing ⟨bodyEnd, stack, slots⟩
      ⟨(layout report value arms bases supply place).stop, stack, slots⟩ := by
  let valueCode := (value.emit bases).run supply
  let armCode :=
    (arms.emit (bases ++ [valueCode.2.slot]) (valueCode.2.labelAfter 0) .start).run
    (armSupply report valueCode.2)
  let front := valueCode.1 ++ armCode.1.1 ++ popMany (armCode.1.2.count - 1)
  have finish : listing[place + front.length + 1]? =
      some (.label (valueCode.2.labelAfter 0)) :=
    placed.right.tail.head
  have total : (((caseOf report value arms).emit bases).run supply).1.length =
      front.length + 2 :=
    List.length_append
  have reached := Machine.reaches_jump library unique jump finish stack slots
  rw [layout, total]
  exact reached

end Cases

/-- The code of a case does what its choices say. Take the code of a case anywhere within
the code of an expression, and a machine that has computed the value of the case. If a
choice is the first one whose pattern matches, the machine gets to the body of that
choice. Then the values below are as before and the names of the pattern are bound to the
parts that they matched. The result of the body, if there is one, takes the place of the
value. If no choice matches, the machine gets to the call that reports this. -/
theorem Code.case_runs_first_match (library : Library) {program : Code}
    {outerBases : List Int} {outerSupply : Supply} {report : CaseReport} {value : Code}
    {arms : Arms} {bases : List Int} {supply : Supply} {place : Nat}
    (placed : Placed ((program.emit outerBases).run outerSupply).1 place
      (((caseOf report value arms).emit bases).run supply).1)
    (distinct : ∀ choice ∈ arms.choices,
      (slotNumbers (layout report value arms bases supply place).bases
        choice.1.bindings).Nodup)
    {scrutinee : Value} (suits : ∀ choice ∈ arms.choices, choice.1.Suits scrutinee)
    {machine : Machine} {below : List Value} {slots : Slots}
    (evaluated : machine.Reaches library ((program.emit outerBases).run outerSupply).1
      ⟨(layout report value arms bases supply place).start, scrutinee :: below, slots⟩) :
    let listing := ((program.emit outerBases).run outerSupply).1
    let layout := layout report value arms bases supply place
    (∀ index pattern body bound, arms.choices[index]? = some (pattern, body) →
      pattern.match? scrutinee = some bound →
      (∀ choice ∈ arms.choices.take index, choice.1.match? scrutinee = none) →
      ∃ site later, layout.sites[index]? = some site ∧
        Placed listing (layout.start + site.place)
        ((body.emit layout.bases).run site.supply).1 ∧
        machine.Reaches library listing ⟨layout.start + site.place, below, later⟩ ∧
        (∀ part ∈ bound, later (part.1.slot.number layout.bases) = some part.2) ∧
        slots.AgreeExcept later
          (slotNumbers layout.bases (arms.choices.flatMap (·.1.bindings))) ∧
        ((∃ result final,
          Machine.Reaches library listing ⟨layout.start + site.place, below, later⟩
            ⟨layout.start + site.place +
              ((body.emit layout.bases).run site.supply).1.length,
              result :: below, final⟩ ∧
          machine.Reaches library listing ⟨layout.stop, result :: below, final⟩) ∨
        ∃ last halt,
        Machine.Reaches library listing ⟨layout.start + site.place, below, later⟩ last ∧
          last.step library listing = .error halt ∧ halt ≠ .finished)) ∧
    ((∀ choice ∈ arms.choices, choice.1.match? scrutinee = none) →
      ∃ last : Machine, machine.Reaches library listing last ∧ last.place +
      2 = layout.stop ∧
        listing[last.place]? = some (.invoke .noMatch 1 true) ∧ last.stack =
        scrutinee :: below ∧
        last.step library listing = .error (.unmatched scrutinee below)) := by
  intro listing layout
  have unique : (definedLabels listing).Nodup :=
    (program.labels_emit outerBases outerSupply).nodup
  constructor
  · intro index pattern body bound found matched earlier
    have member : (pattern, body) ∈ arms.choices := List.mem_of_getElem? found
    obtain ⟨site, later, siteFound, sitePlaced, reached, bindings, agree⟩ :=
      reaches_body unique placed suits found (distinct _ member) matched earlier
    refine ⟨site, later, siteFound, sitePlaced.left, evaluated.trans reached,
      bindings, agree, ?_⟩
    rcases body.reaches_emit library unique sitePlaced.left below later with
      ⟨result, final, ended⟩ | halted
    · have left := reaches_stop library unique placed sitePlaced.right.head
        (result :: below) final
      exact .inl
        ⟨result, final, ended, (evaluated.trans reached).trans (ended.trans left)⟩
    · exact .inr halted
  · intro mismatches
    obtain ⟨last, reached, facts⟩ := reaches_noMatch unique placed suits mismatches
    exact ⟨last, evaluated.trans reached, facts⟩

def Library.inert : Library where
  add left _ := left
  subtract left _ := left
  multiply left _ := left
  static _ _ := .null

/-- A case with a choice for the empty list and one that binds the head of a list. -/
def headCase : Code :=
  .caseOf default (.constant .unit default)
    (.cons .emptyList (.constant .unit default)
      (.cons (.cons (.bind ⟨"head", .inCase 0 0, default⟩) .wildcard)
        (.name ⟨"head", .inCase 0 0, default⟩) .nil))

theorem Code.case_runs_second_choice :
    ∃ (site : Nat) (later : Slots),
      Machine.Reaches .inert ((headCase.emit []).run {}).1
        ⟨1, [.list (.cons (.boolean true) .nil)], fun _ => none⟩ ⟨1 + site, [], later⟩ ∧
      later 0 = some (.boolean true) := by
  have placed : Placed ((headCase.emit []).run {}).1 0 ((headCase.emit []).run {}).1 :=
    List.prefix_refl _
  have evaluated : Machine.Reaches .inert ((headCase.emit []).run {}).1
      ⟨1, [.list (.cons (.boolean true) .nil)], fun _ => none⟩
      ⟨1, [.list (.cons (.boolean true) .nil)], fun _ => none⟩ := .refl
  have run := Code.case_runs_first_match .inert placed (by decide)
    (by simp [Arms.choices, Pattern.Suits]) evaluated
  obtain ⟨site, later, _, _, reached, bound, _⟩ := run.1 1 _ _ _ rfl rfl
    (by simp [Arms.choices, Pattern.match?])
  exact ⟨site.place, later, reached, bound (_, .boolean true) (List.mem_cons_self ..)⟩

end Casework
