import Casework.Proofs.Balance
import Casework.Proofs.Paths

/-!
Routes through code, and what was stored last.

A route is a path that remembers the places it has passed, so it tells where each slot was
last stored to. Code is written from its start to its end, and jumps lead forwards. So all
routes can be followed through a piece of code in the order of its instructions, where a
jump passes over what stands before its label. These are the ways through the code, and
they compose: the ways through two pieces of code are the ways through the second one
after a way through the first. The main statement is that each route is one of the ways.
-/

namespace Casework

/-! ## Routes -/

/-- The places that a path through code passes, the last one first. A branch may go either
way. -/
inductive Route (code : List Instruction) : List Nat → Prop where
  | start : Route code [0]
  | next {place : Nat} {passed : List Nat} {instruction : Instruction}
      (route : Route code (place :: passed)) (current : code[place]? = some instruction)
      (goesOn : instruction.goesOn = true) : Route code ((place + 1) :: place :: passed)
  | jump {place goal : Nat} {passed : List Nat} {instruction : Instruction}
    {target : Label}
      (route : Route code (place :: passed)) (current : code[place]? = some instruction)
      (leads : instruction.target? = some target)
      (lands : code[goal]? = some (.label target)) :
      Route code (goal :: place :: passed)

theorem Route.straight {code : List Instruction} {count : Nat}
    (within : count ≤ code.length)
    (goesOn : ∀ instruction ∈ code.take count, instruction.goesOn = true) :
    Route code (count :: (List.range count).reverse) := by
  induction count with
  | zero => exact .start
  | succ count induction =>
      have current : code[count]? = some code[count] := List.getElem?_eq_getElem within
      have taken : code.take (count + 1) = code.take count ++ [code[count]] := by
        rw [List.take_add_one, current, Option.toList_some]
      rw [taken] at goesOn
      have route := induction (Nat.le_of_succ_le within) fun instruction member =>
        goesOn instruction (List.mem_append_left _ member)
      rw [List.range_succ, List.reverse_append]
      exact route.next current
        (goesOn _ (List.mem_append_right _ (List.mem_singleton_self _)))

abbrev Latest := Int → Option Nat

/-- The last store to a slot at one of the places passed. -/
def lastStore? (code : List Instruction) (passed : List Nat) : Latest := fun slot =>
  passed.find? fun place => code[place]? = some (.store slot)

def Latest.after (latest : Latest) (place : Nat) (instruction : Instruction) : Latest :=
  fun slot =>
  if instruction = .store slot then some place else latest slot

theorem Latest.after_eq {latest : Latest} {place : Nat} {instruction : Instruction}
    (quiet : ∀ slot, instruction ≠ .store slot) :
    latest.after place instruction = latest := by
  funext slot
  exact if_neg (quiet slot)

theorem lastStore?_cons {code : List Instruction} {place : Nat}
    {instruction : Instruction} (current : code[place]? = some instruction)
    (passed : List Nat) :
    lastStore? code (place :: passed) =
      (lastStore? code passed).after place instruction := by
  funext slot
  unfold lastStore? Latest.after
  rw [List.find?_cons, current]
  by_cases stores : instruction = .store slot <;> simp [stores]

/-! ## Ways -/

inductive Way where
  | running (latest : Latest)
  | seeking (target : Label) (latest : Latest)

structure Visit where
  place : Nat
  instruction : Instruction
  latest : Latest

namespace Way

def past (place : Nat) (instruction : Instruction) : Way → List Way
  | running latest =>
      (if instruction.goesOn then [running (latest.after place instruction)] else []) ++
        instruction.target?.toList.map (seeking · latest)
  | seeking target latest =>
      if instruction.label? = some target then [running latest] else
        [seeking target latest]

def through : (place : Nat) → List Instruction → Way → List Way
  | _, [], way => [way]
  | place, instruction :: rest, way =>
      (way.past place instruction).flatMap (through (place + 1) rest)

def visits : (place : Nat) → List Instruction → Way → List Visit
  | _, [], _ => []
  | place, instruction :: rest, running latest =>
      ⟨place, instruction, latest⟩ ::
        ((running latest).past place instruction).flatMap (visits (place + 1) rest)
  | place, instruction :: rest, seeking target latest =>
      ((seeking target latest).past place instruction).flatMap (visits (place + 1) rest)

variable {place : Nat} {way last : Way} {first second : List Instruction} {visit : Visit}

theorem mem_past_running {latest : Latest} {instruction : Instruction} :
    last ∈ (running latest).past place instruction ↔
      instruction.goesOn = true ∧ last = running (latest.after place instruction) ∨
        ∃ target, instruction.target? = some target ∧ last = seeking target latest := by
  rw [past, List.mem_append]
  refine or_congr ?_ (by simp [eq_comm])
  split <;> simp_all

theorem mem_past_seeking {target : Label} {latest : Latest} {instruction : Instruction} :
    last ∈ (seeking target latest).past place instruction ↔
      instruction.label? = some target ∧ last = running latest ∨
        instruction.label? ≠ some target ∧ last = seeking target latest := by
  rw [past]
  split <;> simp_all

theorem through_single (instruction : Instruction) :
    way.through place [instruction] = way.past place instruction := by
  simp [through]

theorem mem_through_cons {instruction : Instruction} {rest : List Instruction} :
    last ∈ way.through place (instruction :: rest) ↔
      ∃ next ∈ way.past place instruction, last ∈ next.through (place + 1) rest :=
  List.mem_flatMap

theorem mem_through_append : last ∈ way.through place (first ++ second) ↔
    ∃ middle ∈ way.through place first, last ∈ middle.through
      (place + first.length) second := by
  induction first generalizing place way with
  | nil => simp [through]
  | cons instruction rest induction =>
      rw [List.cons_append, mem_through_cons]
      simp only [induction, mem_through_cons, List.length_cons,
        Nat.add_assoc, Nat.add_comm 1]
      constructor
      · rintro ⟨next, isNext, middle, isMiddle, isLast⟩
        exact ⟨middle, ⟨next, isNext, isMiddle⟩, isLast⟩
      · rintro ⟨middle, ⟨next, isNext, isMiddle⟩, isLast⟩
        exact ⟨next, isNext, middle, isMiddle, isLast⟩

theorem past_seeking {target : Label} {instruction : Instruction}
    (absent : target ∉ instruction.label?.toList) (latest : Latest) :
    (seeking target latest).past place instruction = [seeking target latest] :=
  if_neg fun equal => absent (by rw [equal]; exact List.mem_singleton_self target)

theorem through_seeking {target : Label} (absent : target ∉ definedLabels first)
    (latest : Latest) :
    (seeking target latest).through place first = [seeking target latest] := by
  induction first generalizing place with
  | nil => rfl
  | cons instruction rest induction =>
      rw [definedLabels_cons, List.mem_append, not_or] at absent
      rw [through, past_seeking absent.1, List.flatMap_singleton, induction absent.2]

theorem mem_visits_append : visit ∈ way.visits place (first ++ second) ↔
    visit ∈ way.visits place first ∨
      ∃ middle ∈ way.through place first, visit ∈ middle.visits
        (place + first.length) second := by
  induction first generalizing place way with
  | nil => simp [through, visits]
  | cons instruction rest induction =>
      have next : ∀ start : Way, visit ∈ (start.past place instruction).flatMap
          (visits (place + 1) (rest ++ second)) ↔
          visit ∈ (start.past place instruction).flatMap (visits (place + 1) rest) ∨
          ∃ middle ∈ start.through place (instruction :: rest),
            visit ∈ middle.visits (place + (instruction :: rest).length) second := by
        intro start
        simp only [List.mem_flatMap, induction, mem_through_cons,
          List.length_cons, Nat.add_assoc, Nat.add_comm 1]
        grind
      cases way with
      | running latest =>
          rw [List.cons_append, visits, visits, List.mem_cons,
            List.mem_cons, next, or_assoc]
      | seeking target latest =>
          rw [List.cons_append, visits, visits, next]

theorem visits_seeking {target : Label} (absent : target ∉ definedLabels first)
    (latest : Latest) :
    (seeking target latest).visits place first = [] := by
  induction first generalizing place with
  | nil => rfl
  | cons instruction rest induction =>
      rw [definedLabels_cons, List.mem_append, not_or] at absent
      rw [visits, past_seeking absent.1, List.flatMap_singleton, induction absent.2]

theorem mem_of_mem_visits (visited : visit ∈ way.visits place first) :
    visit.instruction ∈ first := by
  induction first generalizing place way with
  | nil => cases visited
  | cons instruction rest induction =>
      have later : ∀ start : Way, visit ∈ (start.past place instruction).flatMap
          (visits (place + 1) rest) → visit.instruction ∈ instruction :: rest := by
        intro start visited
        obtain ⟨next, _, visited⟩ := List.mem_flatMap.1 visited
        exact List.mem_cons_of_mem _ (induction visited)
      cases way with
      | running latest =>
          rcases List.mem_cons.1 visited with rfl | visited
          · exact List.mem_cons_self
          · exact later _ visited
      | seeking target latest => exact later _ visited

end Way

/-! ## Routes are ways -/

theorem Route.way {code : List Instruction} (unique : (definedLabels code).Nodup)
    (closed : escapes code = []) {path : List Nat} (route : Route code path) :
    ∀ {place : Nat} {passed : List Nat}, path = place :: passed →
      .running (lastStore? code passed) ∈ (Way.running fun _ => none).through 0
        (code.take place) ∨
      ∃ label, code[place]? = some (.label label) ∧
        .seeking label (lastStore? code passed) ∈
        (Way.running fun _ => none).through 0 (code.take place) := by
  -- What comes after the instruction at a place, if it comes on one of the ways.
  have step : ∀ {place : Nat} {instruction : Instruction} {before after : Way},
      code[place]? = some instruction →
      before ∈ (Way.running fun _ => none).through 0 (code.take place) →
      after ∈ before.past place instruction →
      after ∈ (Way.running fun _ => none).through 0 (code.take (place + 1)) := by
    intro place instruction before after current isBefore isAfter
    have small := (List.getElem?_eq_some_iff.1 current).1
    rw [List.take_add_one, current, Option.toList_some, Way.mem_through_append]
    refine ⟨before, isBefore, ?_⟩
    rw [List.length_take, Nat.min_eq_left (Nat.le_of_lt small), Nat.zero_add,
      Way.through_single]
    exact isAfter
  induction route with
  | start =>
      intro place passed equal
      cases equal
      exact .inl List.mem_cons_self
  | @next before passed instruction _ current goesOn induction =>
      intro place earlier equal
      cases equal
      rw [lastStore?_cons current]
      left
      rcases induction rfl with running | ⟨label, labelled, seeking⟩
      · exact step current running (Way.mem_past_running.2 (.inl ⟨goesOn, rfl⟩))
      · rw [current] at labelled
        cases labelled
        rw [Latest.after_eq (by simp)]
        exact step current seeking (Way.mem_past_seeking.2 (.inl ⟨rfl, rfl⟩))
  | @jump before goal passed instruction target _ current leads lands induction =>
      intro place earlier equal
      cases equal
      rw [lastStore?_cons current, Latest.after_eq (by rintro slot rfl; cases leads)]
      right
      refine ⟨target, lands, ?_⟩
      obtain ⟨position, further, only⟩ := jump_ahead unique closed current leads
      obtain rfl := (only goal).1 lands
      rcases induction rfl with running | ⟨label, labelled, _⟩
      · have left :=
          step current running (Way.mem_past_running.2 (.inr ⟨target, leads, rfl⟩))
        -- The label stands at its place only, so the jump passes over what is in between.
        have absent : target ∉ definedLabels
            ((code.drop (before + 1)).take (goal - (before + 1))) := by
          intro member
          obtain ⟨index, found⟩ := List.getElem?_of_mem (mem_definedLabels.1 member)
          rw [List.getElem?_take] at found
          split at found
          next small =>
              rw [List.getElem?_drop] at found
              have := (only _).1 found
              omega
          next => cases found
        have parts : code.take goal =
            code.take (before + 1) ++
            (code.drop (before + 1)).take (goal - (before + 1)) := by
          rw [← List.take_add, Nat.add_sub_of_le further]
        rw [parts, Way.mem_through_append]
        exact ⟨_,
          left, by rw [Way.through_seeking absent]; exact List.mem_singleton_self _⟩
      · rw [current] at labelled
        cases labelled
        cases leads

theorem Route.mem_visits {code : List Instruction} (unique : (definedLabels code).Nodup)
    (closed : escapes code = []) {place : Nat} {passed : List Nat}
    (route : Route code (place :: passed)) {instruction : Instruction}
    (current : code[place]? = some instruction) (plain : instruction.label? = none) :
    ⟨place, instruction, lastStore? code passed⟩ ∈
      (Way.running fun _ => none).visits 0 code := by
  have small := List.getElem?_eq_some_iff.1 current
  rcases route.way unique closed rfl with running | ⟨label, labelled, _⟩
  · have parts : code = code.take place ++ instruction :: code.drop (place + 1) := by
      rw [← small.2, List.getElem_cons_drop, List.take_append_drop]
    rw [parts, Way.mem_visits_append, ← parts]
    refine .inr ⟨_, running, ?_⟩
    rw [List.length_take, Nat.min_eq_left (Nat.le_of_lt small.1),
      Nat.zero_add, Way.visits]
    exact List.mem_cons_self
  · rw [current] at labelled
    cases labelled
    cases plain

end Casework
