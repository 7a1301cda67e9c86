import Casework.Proofs.ExprTyping
import Casework.Proofs.FirstMatch

/-!
Accepted programs do not go wrong.

Code that is typed, run on slots that hold values of the types of the names in scope,
leaves a value of its type, unless it stops because nothing matches. It never stops for
any other reason. Names keep their values meanwhile: what code stores comes after all
slots that were taken when it was written.
-/

namespace Casework

/-! ## Slots taken by code -/

section Slots

variable (bases : List Int)

mutual

theorem Pattern.slot_test :
    ∀ (pattern : Pattern) (onFail : Label) (keep : Bool) (supply : Supply),
    ((pattern.test bases onFail keep).run supply).2.slot = supply.slot
  | .wildcard, _, _, _ => rfl
  | .bind _, _, _, _ => rfl
  | .literal _ _, _, _, _ => rfl
  | .emptyList, _, _, _ => rfl
  | .variant tag payload, onFail, true, supply => payload.slot_test onFail false supply
  | .variant tag payload, onFail, false, supply =>
      payload.slot_test onFail false (supply.take 1)
  | .cons head tail, onFail, keep, supply => by
      rw [Pattern.run_test_cons]
      exact (tail.slot_test onFail false _).trans (head.slot_test _ false (supply.take 2))
  | .fixedList items, onFail, keep, supply => by
      rw [Pattern.run_test_fixedList]
      exact items.slot_test _ (supply.take 3)
  | .record fields, onFail, keep, supply => by
      by_cases none : fields.readCount = 0
      · rw [Pattern.run_test_record_none bases onFail keep supply none]
      · by_cases one : fields.readCount = 1
        · rw [Pattern.run_test_record_one bases onFail keep supply one]
          exact fields.slot_test onFail onFail supply
        · rw [Pattern.run_test_record_many bases onFail keep supply (by omega)]
          exact fields.slot_test _ onFail (supply.take 1)
termination_by structural pattern => pattern

theorem Patterns.slot_test : ∀ (items : Patterns) (onFail : Label) (supply : Supply),
    ((items.test bases onFail).run supply).2.slot = supply.slot
  | .nil, _, _ => rfl
  | .cons head tail, onFail, supply => by
      rw [Patterns.run_test_cons]
      exact (tail.slot_test onFail _).trans (head.slot_test onFail false supply)
termination_by structural items => items

theorem PatternFields.slot_test :
    ∀ (fields : PatternFields) (onFail onLastFail : Label) (supply : Supply),
      ((fields.test bases onFail onLastFail).run supply).2.slot = supply.slot
  | .nil, _, _, _ => rfl
  | .cons name pattern tail, onFail, onLastFail, supply => by
      cases read : pattern.isWildcard with
      | true =>
          rw [PatternFields.run_test_skip bases onFail supply onLastFail name tail read]
          exact tail.slot_test onFail onLastFail supply
      | false =>
          by_cases last : tail.readCount = 0
          · rw [PatternFields.run_test_last bases onFail supply onLastFail name read last]
            exact pattern.slot_test onLastFail false supply
          · rw [PatternFields.run_test_next bases onFail supply onLastFail name read last]
            exact (tail.slot_test onFail onLastFail _).trans
              (pattern.slot_test onFail false supply)
termination_by structural fields => fields

end

end Slots

theorem Pattern.slot_bodySupply (pattern : Pattern) (bases : List Int) (supply : Supply) :
    (pattern.bodySupply bases supply).slot = supply.slot :=
  pattern.slot_test bases _ true (supply.take 1)

mutual

theorem Code.slot_le_emit : ∀ (code : Code) (bases : List Int) (supply : Supply),
    supply.slot ≤ ((code.emit bases).run supply).2.slot
  | .constant _ _, _, _ => Int.le_refl _
  | .static _ _ _, _, _ => Int.le_refl _
  | .name _, _, _ => Int.le_refl _
  | .tag _ payload _, bases, supply => payload.slot_le_emit bases supply
  | .call _ left right _, bases, supply =>
      Int.le_trans (left.slot_le_emit bases supply) (right.slot_le_emit bases _)
  | .list items _, bases, supply => items.slot_le_emit bases supply
  | .select record _ _, bases, supply => record.slot_le_emit bases supply
  | .caseOf report value arms, bases, supply => by
      have first := value.slot_le_emit bases supply
      have others := arms.slot_le_emit (bases ++ [((value.emit bases).run supply).2.slot])
        (((value.emit bases).run supply).2.labelAfter 0) .start
        (Code.armSupply report ((value.emit bases).run supply).2)
      rw [Code.run_emit_caseOf]
      simp only [Code.armSupply] at others ⊢
      omega
termination_by structural code => code

theorem Codes.slot_le_emit : ∀ (items : Codes) (bases : List Int) (supply : Supply),
    supply.slot ≤ ((items.emit bases).run supply).2.slot
  | .nil, _, _ => Int.le_refl _
  | .cons head tail, bases, supply =>
      Int.le_trans (head.slot_le_emit bases supply) (tail.slot_le_emit bases _)
termination_by structural items => items

theorem Arms.slot_le_emit : ∀ (arms : Arms) (bases : List Int) (finish : Label)
    (prepared : Prepared) (supply : Supply),
    supply.slot ≤ ((arms.emit bases finish prepared).run supply).2.slot
  | .nil, _, _, _, _ => Int.le_refl _
  | .rest _ tail, bases, finish, prepared, supply =>
      tail.slot_le_emit bases finish prepared supply
  | .cons pattern body tail, bases, finish, prepared, supply => by
      rw [Arms.run_emit_cons_choice]
      have first := body.slot_le_emit bases (pattern.bodySupply bases supply)
      rw [pattern.slot_bodySupply] at first
      exact Int.le_trans first (tail.slot_le_emit bases finish _ _)
termination_by structural arms => arms

end

/-! ## Names in scope -/

def Slot.Known (bases : List Int) : Slot → Prop
  | absolute _ => True
  | inCase level _ => level < bases.length

theorem Slot.number_append {bases : List Int} {slot : Slot} (known : slot.Known bases)
    (more : List Int) : slot.number (bases ++ more) = slot.number bases := by
  cases slot with
  | absolute number => rfl
  | inCase level index => rw [number, number, List.getElem?_append_left known]

theorem Slot.Known.append {bases : List Int} {slot : Slot} (known : slot.Known bases)
    (more : List Int) : slot.Known (bases ++ more) := by
  cases slot with
  | absolute number => trivial
  | inCase level index =>
      change level < (bases ++ more).length
      rw [List.length_append]
      exact Nat.lt_of_lt_of_le known (Nat.le_add_right _ _)

def Slots.AgreeBelow (limit : Int) (slots later : Slots) : Prop :=
  ∀ slot, slot < limit → later slot = slots slot

namespace Slots.AgreeBelow

variable {limit : Int} {slots middle later : Slots}

theorem refl (slots : Slots) : slots.AgreeBelow limit slots := fun _ _ => rfl

theorem trans (left : AgreeBelow limit slots middle)
    (right : AgreeBelow limit middle later) :
    AgreeBelow limit slots later :=
  fun slot small => (right slot small).trans (left slot small)

theorem mono (agree : AgreeBelow limit slots later) {lower : Int} (le : lower ≤ limit) :
    AgreeBelow lower slots later :=
  fun slot small => agree slot (Int.lt_of_lt_of_le small le)

end Slots.AgreeBelow

/-- The slots below a limit hold values of the types of the names in scope. -/
def Ready (meaning : Meaning) (bases : List Int) (limit : Int) (scope : Scope)
    (slots : Slots) :
    Prop :=
  ∀ binding ∈ scope, binding.slot.Known bases ∧ binding.slot.number bases < limit ∧
    ∃ value, slots (binding.slot.number bases) = some value ∧ meaning binding.type value

namespace Ready

variable {meaning : Meaning} {bases : List Int} {limit : Int} {scope : Scope}
  {slots later : Slots}

theorem after (ready : Ready meaning bases limit scope slots) {higher : Int}
    (le : limit ≤ higher) (agree : slots.AgreeBelow limit later) :
    Ready meaning bases higher scope later := by
  intro binding member
  rcases ready binding member with ⟨known, small, value, found, typed⟩
  refine ⟨known, Int.lt_of_lt_of_le small le, value, ?_, typed⟩
  rw [agree _ small]
  exact found

theorem within (ready : Ready meaning bases limit scope slots) (base : Int) :
    Ready meaning (bases ++ [base]) limit scope slots := by
  intro binding member
  rcases ready binding member with ⟨known, rest⟩
  rw [Slot.number_append known]
  exact ⟨known.append [base], rest⟩

end Ready

/-! ## Names of a choice -/

namespace NamesFit

variable {bases : List Int} {base : Int} {slotCount : Nat} {bindings : List Binding}

theorem slotNumbers_eq (fit : NamesFit bases.length slotCount bindings) :
    slotNumbers (bases ++ [base]) bindings =
      (List.range bindings.length).map fun index : Nat => base + index := by
  have numbers : slotNumbers (bases ++ [base]) bindings =
      (bindings.map (·.slot)).map (Slot.number (bases ++ [base])) := by
    simp [slotNumbers]
  rw [numbers, fit.1, List.map_map]
  apply List.map_congr_left
  intro index _
  simp [Slot.number]

theorem mem_slotNumbers (fit : NamesFit bases.length slotCount bindings) {number : Int}
    (member : number ∈ slotNumbers (bases ++ [base]) bindings) :
    base ≤ number ∧ number < base + slotCount := by
  rw [fit.slotNumbers_eq, List.mem_map] at member
  rcases member with ⟨index, inRange, rfl⟩
  have small := List.mem_range.1 inRange
  have enough := fit.2
  omega

theorem nodup (fit : NamesFit bases.length slotCount bindings) :
    (slotNumbers (bases ++ [base]) bindings).Nodup := by
  rw [fit.slotNumbers_eq]
  refine List.Pairwise.map _ ?_ List.nodup_range
  intro left right different equal
  have same : base + (left : Int) = base + (right : Int) := equal
  omega

theorem known (fit : NamesFit bases.length slotCount bindings) {binding : Binding}
    (member : binding ∈ bindings) : binding.slot.Known (bases ++ [base]) := by
  have slot : binding.slot ∈ bindings.map (·.slot) := List.mem_map_of_mem member
  rw [fit.1, List.mem_map] at slot
  rcases slot with ⟨index, _, equal⟩
  rw [← equal]
  change bases.length < (bases ++ [base]).length
  simp

end NamesFit

theorem Slots.AgreeExcept.agreeBelow {bases : List Int} {base : Int} {slotCount : Nat}
    {bindings : List Binding} {slots later : Slots}
    (agree : slots.AgreeExcept later (slotNumbers (bases ++ [base]) bindings))
    (fit : NamesFit bases.length slotCount bindings) : slots.AgreeBelow base later := by
  intro slot small
  apply agree
  intro member
  have large := (fit.mem_slotNumbers member).1
  omega

/-- Once a value has matched, the names of the pattern are in scope as well. -/
theorem Ready.bound {meaning : Meaning} {bases : List Int} {base : Int} {slotCount : Nat}
    {pattern : Pattern} {values : Value → Prop} {scope : Scope}
    {slots : Slots} {value : Value} {bound : List (Binding × Value)} {limit : Int}
    (ready : Ready meaning bases base scope slots) (typed : pattern.Typed meaning values)
    (fit : NamesFit bases.length slotCount pattern.bindings) (has : values value)
    (matched : pattern.match? value = some bound) (room : base + slotCount ≤ limit) :
    Ready meaning (bases ++ [base]) limit (pattern.bindings.reverse ++ scope)
      (slots.putAll (bases ++ [base]) bound) := by
  have names : bound.map Prod.fst = pattern.bindings := Pattern.map_fst_of_match? matched
  intro binding member
  rcases List.mem_append.1 member with own | outer
  · have inPattern : binding ∈ pattern.bindings := List.mem_reverse.1 own
    have number : binding.slot.number (bases ++ [base]) ∈
        slotNumbers (bases ++ [base]) pattern.bindings := List.mem_map_of_mem inPattern
    have small := (fit.mem_slotNumbers number).2
    rw [← names, List.mem_map] at inPattern
    rcases inPattern with ⟨⟨same, part⟩, partOf, rfl⟩
    have distinct : (slotNumbers (bases ++ [base]) (bound.map Prod.fst)).Nodup := by
      rw [names]
      exact fit.nodup
    refine ⟨fit.known (List.mem_reverse.1 own), by omega, part, ?_, ?_⟩
    · exact Slots.putAll_of_mem distinct partOf
    · exact typed.parts value bound has matched _ partOf
  · have agree := slots.agreeExcept_putAll (bases ++ [base]) bound
    rw [names] at agree
    have le : base ≤ limit := by omega
    exact (ready.within base).after le (agree.agreeBelow fit) binding outer

/-! ## Typed code runs -/

namespace Course

/-- Code has left some values on the values below and the slots below a limit as they
were, or it has stopped because nothing matches. -/
def Leaves (top : List Value → Prop) (below : List Value) (limit : Int) (slots : Slots) :
    Course → Prop
  | running stack later => ∃ front, stack = front ++ below ∧ top front ∧
      slots.AgreeBelow limit later
  | unmatched _ _ => True
  | _ => False

def One (values : Value → Prop) (front : List Value) : Prop :=
  ∃ result, front = [result] ∧ values result

variable {library : Library} {top last : List Value → Prop} {below rest : List Value}
  {limit after : Int} {slots later : Slots} {course : Course}

theorem leaves_one {values : Value → Prop} {result : Value} (has : values result) :
    (running (result :: below) slots).Leaves (One values) below limit slots :=
  ⟨[result], rfl, ⟨result, rfl, has⟩, .refl slots⟩

theorem Leaves.regroup (leaves : course.Leaves top below limit slots)
    (regroup : ∀ front, top front → ∃ more, front ++ below = more ++ rest ∧ last more) :
    course.Leaves last rest limit slots := by
  cases course with
  | running stack later =>
      rcases leaves with ⟨front, rfl, holds, agree⟩
      rcases regroup front holds with ⟨more, equal, lastHolds⟩
      exact ⟨more, equal, lastHolds, agree⟩
  | unmatched value stopped => trivial
  | seeking target stack later => exact leaves.elim
  | wrong => exact leaves.elim

theorem Leaves.mono (leaves : course.Leaves top below limit slots)
    (implies : ∀ front, top front → last front) : course.Leaves last below limit slots :=
  leaves.regroup fun front holds => ⟨front, rfl, implies front holds⟩

theorem Leaves.since (leaves : course.Leaves top below after later) (le : limit ≤ after)
    (agree : slots.AgreeBelow limit later) : course.Leaves top below limit slots := by
  cases course with
  | running stack final =>
      rcases leaves with ⟨front, equal, holds, agreeLater⟩
      exact ⟨front, equal, holds, agree.trans (agreeLater.mono le)⟩
  | unmatched value stopped => trivial
  | seeking target stack final => exact leaves.elim
  | wrong => exact leaves.elim

theorem Leaves.through (leaves : course.Leaves top below limit slots)
    {code : List Instruction} (le : limit ≤ after)
    (next : ∀ front later, top front → slots.AgreeBelow limit later →
      ((running (front ++ below) later).through library code).Leaves last
        rest after later) :
    (course.through library code).Leaves last rest limit slots := by
  cases course with
  | running stack later =>
      rcases leaves with ⟨front, rfl, holds, agree⟩
      exact (next front later holds agree).since le agree
  | unmatched value stopped =>
      rw [through_unmatched]
      trivial
  | seeking target stack later => exact leaves.elim
  | wrong => exact leaves.elim

theorem Leaves.throughOne {values : Value → Prop}
    (leaves : course.Leaves (One values) below limit slots) {code : List Instruction}
    (le : limit ≤ after)
    (next : ∀ result later, values result → slots.AgreeBelow limit later →
      ((running (result :: below) later).through library code).Leaves last
        rest after later) :
    (course.through library code).Leaves last rest limit slots := by
  refine leaves.through le ?_
  rintro _ later ⟨result, rfl, has⟩ agree
  exact next result later has agree

theorem leaves_conses {element : Value → Prop} (front : List Value) {tail : Value}
    (items : ∀ item ∈ front, element item) (list : tail.IsListOf element) :
    ((running (tail :: (front ++ below)) slots).through library
      (List.replicate front.length (.invoke .cons 2 true))).Leaves
        (One (·.IsListOf element)) below
        limit slots := by
  induction front generalizing tail with
  | nil => exact leaves_one list
  | cons head front induction =>
      rcases list with ⟨values, found, each⟩
      rw [List.length_cons, List.replicate_succ, through_cons]
      have step : advance library (running (tail :: (head :: front ++ below)) slots)
          (.invoke .cons 2 true) =
          running (.list (.cons head values) :: (front ++ below)) slots := by
        simp [advance, Instruction.effect, Routine.result?, found]
      rw [step]
      refine induction (fun item member => items item (List.mem_cons_of_mem _ member)) ?_
      exact Value.isListOf_cons.2 ⟨items head List.mem_cons_self, ⟨values, rfl, each⟩⟩

/-- The choices of a case are through: one has left a result and goes to the end of the
case, or none matches and the value is still there. -/
def Chooses (finish : Label) (results : Value → Prop) (value : Value) (below : List Value)
    (prepared : Prepared) (limit : Int) (slots : Slots) : Course → Prop
  | running stack later => stack = prepared.stack value below ∧ prepared.Holds value ∧
      slots.AgreeBelow limit later
  | seeking target stack later => target = finish ∧
      ∃ result, stack = result :: below ∧ results result ∧ slots.AgreeBelow limit later
  | unmatched _ _ => True
  | wrong => False

section Chooses

variable {finish : Label} {results : Value → Prop} {value : Value} {prepared : Prepared}

theorem Chooses.since
    (chooses : course.Chooses finish results value below prepared limit later)
    (agree : slots.AgreeBelow limit later) :
    course.Chooses finish results value below prepared limit slots := by
  cases course with
  | running stack final => exact ⟨chooses.1, chooses.2.1, agree.trans chooses.2.2⟩
  | seeking target stack final =>
      rcases chooses with ⟨equal, result, stacked, has, agreeLater⟩
      exact ⟨equal, result, stacked, has, agree.trans agreeLater⟩
  | unmatched value stopped => trivial
  | wrong => exact chooses.elim

theorem Leaves.exit (leaves : course.Leaves (One results) below after later)
    (le : limit ≤ after) (agree : slots.AgreeBelow limit later) {code : List Instruction}
    (absent : finish ∉ definedLabels code) :
    (course.through library (.jump finish :: code)).Chooses finish results
      value below prepared
      limit slots := by
  cases course with
  | running stack final =>
      rcases leaves with ⟨_, rfl, ⟨result, rfl, has⟩, agreeLater⟩
      rw [through_cons, advance, Instruction.effect, through_seeking absent]
      exact ⟨rfl, result, rfl, has, agree.trans (agreeLater.mono le)⟩
  | unmatched value stopped =>
      rw [through_unmatched]
      trivial
  | seeking target stack final => exact leaves.elim
  | wrong => exact leaves.elim

theorem Chooses.ended
    (chooses : course.Chooses finish results value below prepared limit slots) :
    (course.through library (popMany (prepared.count - 1) ++
      [.invoke .noMatch 1 true, .label finish])).Leaves
        (One results) below limit slots := by
  cases course with
  | running stack later =>
      rcases chooses with ⟨rfl, holds, _⟩
      rw [through_append, through_popMany_pred holds]
      trivial
  | seeking target stack later =>
      rcases chooses with ⟨rfl, result, rfl, has, agree⟩
      rw [through_append, through_seeking (by simp)]
      simp only [through_cons, through_nil, advance, if_true]
      exact ⟨[result], rfl, ⟨result, rfl, has⟩, agree⟩
  | unmatched value stopped =>
      rw [through_unmatched]
      trivial
  | wrong => exact chooses.elim

end Chooses

end Course

theorem Instruction.effect_invoke_two (library : Library) (routine : Routine)
    (first second : Value) (below : List Value) (slots : Slots) :
    (invoke routine 2 true).effect library (second :: first :: below) slots =
      match routine.result? library [second, first] with
      | some result => .running (result :: below) slots
      | none => .wrong := by
  cases routine <;> rfl

section Running

variable {meaning : Meaning} {library : Library}

open Course

mutual

theorem Code.leaves_emit :
    ∀ (code : Code) {scope : Scope} (bases : List Int) (supply : Supply)
    (below : List Value) (slots : Slots), code.Typed meaning library bases.length scope →
    Ready meaning bases supply.slot scope slots →
    ((running below slots).through library ((code.emit bases).run supply).1).Leaves
      (One (meaning code.type)) below supply.slot slots
  | .constant value type, scope, bases, supply, below, slots, typed, ready =>
      leaves_one typed
  | .static owner name type, scope, bases, supply, below, slots, typed, ready =>
      leaves_one typed
  | .name binding, scope, bases, supply, below, slots, typed, ready => by
      rcases ready binding typed with ⟨_, _, value, found, has⟩
      have loaded : (running below slots).through library
        [.load (binding.slot.number bases)] =
          running (value :: below) slots := by
        simp [advance, Instruction.effect, found]
      change Leaves _ _ _ _
        ((running below slots).through library [.load (binding.slot.number bases)])
      rw [loaded]
      exact leaves_one has
  | .tag name payload type, scope, bases, supply, below, slots, typed, ready => by
      rw [Code.run_emit_tag, through_append]
      refine (payload.leaves_emit bases supply below slots typed.1 ready).throughOne
        (Int.le_refl _) fun value later has _ => ?_
      exact leaves_one (typed.2 value has)
  | .call routine left right type, scope, bases, supply, below, slots, typed, ready => by
      rw [Code.run_emit_call]
      dsimp only
      rw [List.append_assoc, through_append]
      have le := left.slot_le_emit bases supply
      refine (left.leaves_emit bases supply below slots typed.1 ready).throughOne le
        fun first middle hasFirst agree => ?_
      rw [through_append]
      refine (right.leaves_emit bases _ (first :: below) middle typed.2.1
        (ready.after le agree)).throughOne (Int.le_refl _) fun second later hasSecond _ =>
        ?_
      rcases typed.2.2 first second hasFirst hasSecond with ⟨result, computed, has⟩
      rw [through_cons, advance, Instruction.effect_invoke_two, computed]
      exact leaves_one has
  | .list items type, scope, bases, supply, below, slots, typed, ready => by
      rcases typed with ⟨element, itemsTyped, lists⟩
      rw [Code.run_emit_list]
      dsimp only
      rw [List.append_assoc, through_append]
      refine (items.leaves_emit bases supply below slots itemsTyped ready).through
        (Int.le_refl _) ?_
      rintro front later ⟨length, each⟩ _
      rw [← length]
      refine Leaves.mono (leaves_conses front each (Value.isListOf_null element)) ?_
      rintro _ ⟨result, rfl, list⟩
      exact ⟨result, rfl, lists result list⟩
  | .select record field type, scope, bases, supply, below, slots, typed, ready => by
      rw [Code.run_emit_select, through_append]
      refine (record.leaves_emit bases supply below slots typed.1 ready).throughOne
        (Int.le_refl _) fun value later has _ => ?_
      rcases typed.2 value has with ⟨members, part, rfl, found, partTyped⟩
      have selected : (running (.struct members :: below) later).through library
          [.cast .struct, .field field] = running (part :: below) later := by
        simp [advance, Instruction.effect, Shape.admits, found]
      rw [selected]
      exact leaves_one partTyped
  | .caseOf report value arms, scope, bases, supply, below, slots, typed, ready => by
      rw [Code.run_emit_caseOf]
      simp only [List.append_assoc]
      rw [through_append]
      have le := value.slot_le_emit bases supply
      refine (value.leaves_emit bases supply below slots typed.1 ready).throughOne le
        fun scrutinee middle has agree => ?_
      rw [through_append]
      refine (arms.chooses_emit bases _ _ .start _ scrutinee below middle typed.2 has
        (Prepared.holds_start scrutinee) (ready.after le agree) (Int.le_refl _) ?_).ended
      simp only [Code.armSupply, Supply.number_labelAfter]
      omega
termination_by structural code => code

theorem Codes.leaves_emit :
    ∀ (items : Codes) {scope : Scope} {element : Value → Prop} (bases : List Int)
    (supply : Supply) (below : List Value) (slots : Slots),
    items.Typed meaning library bases.length scope element →
    Ready meaning bases supply.slot scope slots →
    ((running below slots).through library ((items.emit bases).run supply).1).Leaves
      (fun front => front.length = items.length ∧ ∀ item ∈ front, element item)
        below supply.slot
      slots
  | .nil, scope, element, bases, supply, below, slots, typed, ready =>
      ⟨[], rfl, ⟨rfl, nofun⟩, .refl slots⟩
  | .cons head tail, scope, element, bases, supply, below, slots, typed, ready => by
      rw [Codes.run_emit_cons, through_append]
      have le := head.slot_le_emit bases supply
      refine (head.leaves_emit bases supply below slots typed.1 ready).throughOne le
        fun first middle hasFirst agree => ?_
      have others := tail.leaves_emit bases _ (first :: below) middle typed.2.2
        (ready.after le agree)
      refine others.regroup ?_
      rintro front ⟨length, each⟩
      refine ⟨front ++ [first], by simp, by simp [length, Codes.length],
        fun item member => ?_⟩
      rcases List.mem_append.1 member with later | equal
      · exact each item later
      · rw [List.mem_singleton.1 equal, ← typed.2.1]
        exact hasFirst
termination_by structural items => items

theorem Arms.chooses_emit :
    ∀ (arms : Arms) {scope : Scope} {values results : Value → Prop}
    {slotCount : Nat} (bases : List Int) (base : Int) (finish : Label)
      (prepared : Prepared) (supply : Supply)
    (value : Value) (below : List Value) (slots : Slots),
    arms.Typed meaning library bases.length scope values results
      slotCount → values value →
    prepared.Holds value → Ready meaning bases base scope slots →
    base + slotCount ≤ supply.slot → finish.number < supply.label →
    ((running (prepared.stack value below) slots).through library
      ((arms.emit (bases ++ [base]) finish prepared).run supply).1.1).Chooses
        finish results value
        below ((arms.emit (bases ++ [base]) finish prepared).run supply).1.2 base slots
  | .nil, scope, values, results, slotCount, bases, base, finish, prepared, supply,
      value, below, slots,
      typed, has, holds, ready, room, given => ⟨rfl, holds, .refl slots⟩
  | .rest _ tail, scope, values, results, slotCount, bases, base, finish, prepared,
      supply, value, below,
      slots, typed, has, holds, ready, room, given =>
      tail.chooses_emit bases base finish prepared supply value below slots
        typed has holds ready
        room given
  | .cons pattern body tail, scope, values, results, slotCount, bases, base, finish,
      prepared, supply,
      value, below, slots, typed, has, holds, ready, room, given => by
      rcases typed with ⟨patternTyped, names, bodyTyped, bodyType, tailTyped⟩
      have suits := patternTyped.suits value has
      rw [Arms.run_emit_cons_choice]
      dsimp only
      rw [through_append]
      have bodySlot := body.slot_le_emit (bases ++ [base])
        (pattern.bodySupply (bases ++ [base]) supply)
      rw [pattern.slot_bodySupply] at bodySlot
      have bodyLabel := (body.labels_emit (bases ++ [base])
        (pattern.bodySupply (bases ++ [base]) supply)).1
      have testLabel := pattern.label_lt_bodySupply (bases ++ [base]) supply
      cases matched : pattern.match? value with
      | none =>
          rcases Arms.through_choice_of_mismatch body finish holds suits matched with
            ⟨middle, course, agree⟩
          rw [course]
          have others :=
            tail.chooses_emit bases base finish (prepared.switch pattern).2 _ value
            below middle tailTyped has (prepared.holds_switch holds suits)
            (ready.after (Int.le_refl _) (agree.agreeBelow names))
            (Int.le_trans room bodySlot) (by omega)
          exact others.since (agree.agreeBelow names)
      | some bound =>
          have absent : finish ∉ definedLabels (.label (supply.labelAfter 0) ::
              ((tail.emit (bases ++ [base]) finish (prepared.switch pattern).2).run
                ((body.emit (bases ++ [base])).run
                  (pattern.bodySupply (bases ++ [base]) supply)).2).1.1) := by
            rw [definedLabels_cons, Instruction.label?, Option.toList_some,
              List.singleton_append, List.mem_cons, not_or]
            exact ⟨Supply.ne_labelAfter given 0,
              (tail.labels_emit (bases ++ [base]) finish _ _).not_mem_of_lt (by omega)⟩
          have entered := ready.bound patternTyped names has matched room
          rw [← pattern.slot_bodySupply (bases ++ [base]) supply] at entered
          have level : (bases ++ [base]).length = bases.length + 1 := by simp
          rw [← level] at bodyTyped
          have left := body.leaves_emit (bases ++ [base]) _ below _ bodyTyped entered
          rw [bodyType] at left
          rw [← through_append, Arms.choiceCode]
          simp only [List.append_assoc, List.singleton_append]
          rw [through_append,
            pattern.through_entry_of_match holds suits matched, through_append]
          have stored := slots.agreeExcept_putAll (bases ++ [base]) bound
          rw [Pattern.map_fst_of_match? matched] at stored
          refine left.exit ?_ (stored.agreeBelow names) absent
          rw [pattern.slot_bodySupply]
          omega
termination_by structural arms => arms

end

end Running

end Casework
