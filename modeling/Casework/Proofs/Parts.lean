import Casework.Proofs.Numbering
import Casework.Proofs.Stores
import Casework.Proofs.TypeSafety

/-!
The parts of an expression, and where their code stands.

An expression is written in one go. Each of its parts is written at a spot of its own: at
some place of the listing, inside some cases with their first slots, from what is left of
the labels and slots, and in the bodies of some choices. The main statement is that the
slots which the cases among the parts take are apart from each other, however the cases
are nested.
-/

namespace Casework

/-! ## Spots -/

structure Entry where
  pattern : Pattern
  place : Nat
  code : List Instruction

def Entry.stores (entry : Entry) : List (Nat × Int) := storesFrom entry.place entry.code

structure Spot where
  place : Nat
  bases : List Int
  supply : Supply
  entries : List Entry

namespace Spot

/-- Where the code of a fixture is written, after so many names of its environment. -/
def start (slots : Int) : Spot := ⟨0, [], { slot := slots }, []⟩

def past (spot : Spot) (written : List Instruction × Supply) : Spot :=
  { spot with place := spot.place + written.1.length, supply := written.2 }

def inArms (spot : Spot) (report : CaseReport) : Spot :=
  { spot with
    bases := spot.bases ++ [spot.supply.slot]
    supply := Code.armSupply report spot.supply }

def inBody (spot : Spot) (pattern : Pattern) (prepared : Prepared) : Spot :=
  let entry := pattern.entry spot.bases prepared spot.supply
  { place := spot.place + entry.length
    bases := spot.bases
    supply := pattern.bodySupply spot.bases spot.supply
    entries := spot.entries ++ [⟨pattern, spot.place, entry⟩] }

def pastChoice (spot : Spot) (pattern : Pattern) (body : Code) (finish : Label)
    (prepared : Prepared) : Spot :=
  spot.past (Arms.choiceCode pattern body spot.bases finish prepared spot.supply,
    ((body.emit spot.bases).run (pattern.bodySupply spot.bases spot.supply)).2)

def scope (spot : Spot) (env : Scope) : Scope :=
  (spot.entries.flatMap (·.pattern.bindings)).reverse ++ env

theorem scope_inBody (spot : Spot) (pattern : Pattern)
    (prepared : Prepared) (env : Scope) :
    (spot.inBody pattern prepared).scope env = pattern.bindings.reverse ++
      spot.scope env := by
  simp [scope, inBody]

end Spot

/-! ## Parts -/

structure Part where
  spot : Spot
  code : Code

mutual

/-- An expression that is written at a spot and all of its parts. A case comes after its
value, which takes its slots first. -/
def Code.parts : Code → Spot → List Part
  | .constant value type, spot => [⟨spot, .constant value type⟩]
  | .static owner name type, spot => [⟨spot, .static owner name type⟩]
  | .name binding, spot => [⟨spot, .name binding⟩]
  | .tag name payload type, spot => ⟨spot, .tag name payload type⟩ :: payload.parts spot
  | .call routine left right type, spot =>
      ⟨spot, .call routine left right type⟩ :: (left.parts spot ++
        right.parts (spot.past ((left.emit spot.bases).run spot.supply)))
  | .list items type, spot => ⟨spot, .list items type⟩ :: items.parts spot
  | .select record field type, spot => ⟨spot, .select record field type⟩ ::
      record.parts spot
  | .caseOf report value arms, spot =>
      let after := spot.past ((value.emit spot.bases).run spot.supply)
      value.parts spot ++ ⟨spot, .caseOf report value arms⟩ ::
        arms.parts (after.supply.labelAfter 0) .start (after.inArms report)
termination_by structural code => code

def Codes.parts : Codes → Spot → List Part
  | .nil, _ => []
  | .cons head tail, spot =>
      head.parts spot ++ tail.parts (spot.past ((head.emit spot.bases).run spot.supply))
termination_by structural items => items

def Arms.parts (finish : Label) : Arms → Prepared → Spot → List Part
  | .nil, _, _ => []
  | .rest _ tail, prepared, spot => tail.parts finish prepared spot
  | .cons pattern body tail, prepared, spot =>
      body.parts (spot.inBody pattern prepared) ++
        tail.parts finish (prepared.switch pattern).2
          (spot.pastChoice pattern body finish prepared)
termination_by structural arms => arms

end

def Part.Stands (listing : List Instruction) (part : Part) : Prop :=
  Placed listing part.spot.place
    ((part.code.emit part.spot.bases).run part.spot.supply).1 ∧
    ∀ entry ∈ part.spot.entries, Placed listing entry.place entry.code

section Placing

variable {listing : List Instruction}

mutual

theorem Code.stands_of_mem_parts : ∀ {code : Code} {spot : Spot},
    Part.Stands listing ⟨spot, code⟩ → ∀ part ∈ code.parts spot, part.Stands listing
  | .constant _ _, spot, stands, part, member => by
      rw [List.mem_singleton.1 member]
      exact stands
  | .static _ _ _, spot, stands, part, member => by
      rw [List.mem_singleton.1 member]
      exact stands
  | .name _, spot, stands, part, member => by
      rw [List.mem_singleton.1 member]
      exact stands
  | .tag name payload type, spot, stands, part, member => by
      rcases List.mem_cons.1 member with rfl | inner
      · exact stands
      · exact payload.stands_of_mem_parts ⟨stands.1.left, stands.2⟩ part inner
  | .call routine left right type, spot, stands, part, member => by
      rcases List.mem_cons.1 member with rfl | inner
      · exact stands
      rcases List.mem_append.1 inner with inner | inner
      · exact left.stands_of_mem_parts ⟨stands.1.left.left, stands.2⟩ part inner
      · refine right.stands_of_mem_parts ?_ part inner
        exact ⟨stands.1.left.right, stands.2⟩
  | .list items type, spot, stands, part, member => by
      rcases List.mem_cons.1 member with rfl | inner
      · exact stands
      · exact items.stands_of_mem_parts stands.1.left.left stands.2 part inner
  | .select record field type, spot, stands, part, member => by
      rcases List.mem_cons.1 member with rfl | inner
      · exact stands
      · exact record.stands_of_mem_parts ⟨stands.1.left, stands.2⟩ part inner
  | .caseOf report value arms, spot, stands, part, member => by
      rcases List.mem_append.1 member with inner | inner
      · exact value.stands_of_mem_parts ⟨stands.1.left.left.left, stands.2⟩ part inner
      rcases List.mem_cons.1 inner with rfl | inner
      · exact stands
      · refine arms.stands_of_mem_parts ?_ ?_ part inner
        · exact stands.1.left.left.right
        · exact stands.2
termination_by structural code => code

theorem Codes.stands_of_mem_parts : ∀ {items : Codes} {spot : Spot},
    Placed listing spot.place ((items.emit spot.bases).run spot.supply).1 →
    (∀ entry ∈ spot.entries, Placed listing entry.place entry.code) →
    ∀ part ∈ items.parts spot, part.Stands listing
  | .nil, spot, placed, entries, part, member => by cases member
  | .cons head tail, spot, placed, entries, part, member => by
      rcases List.mem_append.1 member with inner | inner
      · exact head.stands_of_mem_parts ⟨placed.left, entries⟩ part inner
      · refine tail.stands_of_mem_parts ?_ ?_ part inner
        · exact placed.right
        · exact entries
termination_by structural items => items

theorem Arms.stands_of_mem_parts :
    ∀ {arms : Arms} {finish : Label} {prepared : Prepared} {spot : Spot},
    Placed listing spot.place
      ((arms.emit spot.bases finish prepared).run spot.supply).1.1 →
    (∀ entry ∈ spot.entries, Placed listing entry.place entry.code) →
    ∀ part ∈ arms.parts finish prepared spot, part.Stands listing
  | .nil, finish, prepared, spot, placed, entries, part, member => by cases member
  | .rest _ tail, finish, prepared, spot, placed, entries, part, member =>
      tail.stands_of_mem_parts placed entries part member
  | .cons pattern body tail, finish, prepared, spot, placed, entries, part, member => by
      rw [Arms.run_emit_cons_choice] at placed
      rcases List.mem_append.1 member with inner | inner
      · refine body.stands_of_mem_parts
          ⟨placed.left.left.right.left, fun entry isEntry => ?_⟩ part inner
        rcases List.mem_append.1 isEntry with outer | own
        · exact entries entry outer
        · rw [List.mem_singleton.1 own]
          exact placed.left.left.left
      · refine tail.stands_of_mem_parts ?_ ?_ part inner
        · exact placed.right
        · exact entries
termination_by structural arms => arms

end

end Placing

/-! ## Slots of cases -/

/-- The slots that a case takes for the names it binds, once its value has been
computed. -/
def Part.slots (part : Part) : List Int :=
  match part.code with
  | .caseOf report value _ =>
      let base := ((value.emit part.spot.bases).run part.spot.supply).2.slot
      (List.range report.slotCount).map fun index : Nat => base + index
  | _ => []

structure SlotsApart (low high : Int) (parts : List Part) : Prop where
  le : low ≤ high
  within : ∀ part ∈ parts, ∀ slot ∈ part.slots, low ≤ slot ∧ slot < high
  disjoint : parts.Pairwise fun first second => ∀ slot ∈ first.slots, slot ∉ second.slots

namespace SlotsApart

variable {low middle high : Int} {first second : List Part} {part : Part}

theorem nil (le : low ≤ high) : SlotsApart low high [] where
  le := le
  within _ member := by cases member
  disjoint := .nil

theorem append (left : SlotsApart low middle first)
    (right : SlotsApart middle high second) :
    SlotsApart low high (first ++ second) where
  le := Int.le_trans left.le right.le
  within part member slot isSlot := by
    have leftRange := left.le
    have rightRange := right.le
    rcases List.mem_append.1 member with inFirst | inSecond
    · have bounds := left.within part inFirst slot isSlot
      omega
    · have bounds := right.within part inSecond slot isSlot
      omega
  disjoint := by
    refine List.pairwise_append.2 ⟨left.disjoint, right.disjoint, ?_⟩
    intro part inFirst other inSecond slot isSlot same
    have below := left.within part inFirst slot isSlot
    have above := right.within other inSecond slot same
    omega

theorem cons (le : low ≤ middle) (own : ∀ slot ∈ part.slots, low ≤ slot ∧ slot < middle)
    (others : SlotsApart middle high second) : SlotsApart low high (part :: second) := by
  have single : SlotsApart low middle [part] := by
    refine ⟨le, fun other member => ?_, List.pairwise_singleton _ _⟩
    rw [List.mem_singleton.1 member]
    exact own
  exact single.append others

theorem quiet (unused : part.slots = []) (others : SlotsApart low high second) :
    SlotsApart low high (part :: second) :=
  cons (Int.le_refl low) (by simp [unused]) others

end SlotsApart

mutual

theorem Code.slotsApart : ∀ (code : Code) (spot : Spot),
    SlotsApart spot.supply.slot ((code.emit spot.bases).run spot.supply).2.slot
      (code.parts spot)
  | .constant _ _, spot => .quiet rfl (.nil (Int.le_refl _))
  | .static _ _ _, spot => .quiet rfl (.nil (Int.le_refl _))
  | .name _, spot => .quiet rfl (.nil (Int.le_refl _))
  | .tag name payload type, spot => .quiet rfl (payload.slotsApart spot)
  | .call routine left right type, spot =>
      .quiet rfl ((left.slotsApart spot).append
        (right.slotsApart (spot.past ((left.emit spot.bases).run spot.supply))))
  | .list items type, spot => .quiet rfl (items.slotsApart spot)
  | .select record field type, spot => .quiet rfl (record.slotsApart spot)
  | .caseOf report value arms, spot => by
      let after := spot.past ((value.emit spot.bases).run spot.supply)
      have others := arms.slotsApart (after.supply.labelAfter 0) .start
        (after.inArms report)
      refine (value.slotsApart spot).append (.cons ?_ ?_ others)
      · change after.supply.slot ≤ after.supply.slot + report.slotCount
        omega
      · intro slot member
        obtain ⟨index, inRange, rfl⟩ := List.mem_map.1 member
        have small := List.mem_range.1 inRange
        change after.supply.slot ≤ after.supply.slot + index ∧
          after.supply.slot + index < after.supply.slot + report.slotCount
        omega
termination_by structural code => code

theorem Codes.slotsApart : ∀ (items : Codes) (spot : Spot),
    SlotsApart spot.supply.slot ((items.emit spot.bases).run spot.supply).2.slot
      (items.parts spot)
  | .nil, _ => .nil (Int.le_refl _)
  | .cons head tail, spot => (head.slotsApart spot).append
      (tail.slotsApart (spot.past ((head.emit spot.bases).run spot.supply)))
termination_by structural items => items

theorem Arms.slotsApart :
    ∀ (arms : Arms) (finish : Label) (prepared : Prepared) (spot : Spot),
      SlotsApart spot.supply.slot
        ((arms.emit spot.bases finish prepared).run spot.supply).2.slot
        (arms.parts finish prepared spot)
  | .nil, finish, prepared, spot => .nil (Int.le_refl _)
  | .rest _ tail, finish, prepared, spot => tail.slotsApart finish prepared spot
  | .cons pattern body tail, finish, prepared, spot => by
      rw [Arms.run_emit_cons_choice]
      have own := body.slotsApart (spot.inBody pattern prepared)
      rw [show (spot.inBody pattern prepared).supply.slot = spot.supply.slot from
        pattern.slot_bodySupply spot.bases spot.supply] at own
      exact own.append (tail.slotsApart finish (prepared.switch pattern).2
        (spot.pastChoice pattern body finish prepared))
termination_by structural arms => arms

end

/-! ## Names of parts -/

mutual

theorem Code.numbered_of_mem_parts : ∀ {code : Code} {spot : Spot} {env : Scope},
    code.Numbered spot.bases.length (spot.scope env) →
    ∀ part ∈ code.parts spot, part.code.Numbered part.spot.bases.length
      (part.spot.scope env)
  | .constant _ _, spot, env, numbered, part, member => by
      rw [List.mem_singleton.1 member]
      exact numbered
  | .static _ _ _, spot, env, numbered, part, member => by
      rw [List.mem_singleton.1 member]
      exact numbered
  | .name _, spot, env, numbered, part, member => by
      rw [List.mem_singleton.1 member]
      exact numbered
  | .tag name payload type, spot, env, numbered, part, member => by
      rcases List.mem_cons.1 member with rfl | inner
      · exact numbered
      · exact payload.numbered_of_mem_parts numbered part inner
  | .call routine left right type, spot, env, numbered, part, member => by
      rcases List.mem_cons.1 member with rfl | inner
      · exact numbered
      rcases List.mem_append.1 inner with inner | inner
      · exact left.numbered_of_mem_parts numbered.1 part inner
      · refine right.numbered_of_mem_parts ?_ part inner
        exact numbered.2
  | .list items type, spot, env, numbered, part, member => by
      rcases List.mem_cons.1 member with rfl | inner
      · exact numbered
      · exact items.numbered_of_mem_parts numbered part inner
  | .select record field type, spot, env, numbered, part, member => by
      rcases List.mem_cons.1 member with rfl | inner
      · exact numbered
      · exact record.numbered_of_mem_parts numbered part inner
  | .caseOf report value arms, spot, env, numbered, part, member => by
      rcases List.mem_append.1 member with inner | inner
      · exact value.numbered_of_mem_parts numbered.1 part inner
      rcases List.mem_cons.1 inner with rfl | inner
      · exact numbered
      · let after := spot.past ((value.emit spot.bases).run spot.supply)
        have within : (after.inArms report).bases.length = spot.bases.length + 1 :=
          List.length_append
        have choices : arms.Numbered spot.bases.length ((after.inArms report).scope env)
          report.slotCount := numbered.2.2
        exact arms.numbered_of_mem_parts within choices part inner
termination_by structural code => code

theorem Codes.numbered_of_mem_parts : ∀ {items : Codes} {spot : Spot} {env : Scope},
    items.Numbered spot.bases.length (spot.scope env) →
    ∀ part ∈ items.parts spot, part.code.Numbered part.spot.bases.length
      (part.spot.scope env)
  | .nil, spot, env, numbered, part, member => by cases member
  | .cons head tail, spot, env, numbered, part, member => by
      rcases List.mem_append.1 member with inner | inner
      · exact head.numbered_of_mem_parts numbered.1 part inner
      · refine tail.numbered_of_mem_parts ?_ part inner
        exact numbered.2
termination_by structural items => items

theorem Arms.numbered_of_mem_parts :
    ∀ {arms : Arms} {finish : Label} {prepared : Prepared}
    {spot : Spot} {env : Scope} {level slotCount : Nat}, spot.bases.length = level + 1 →
    arms.Numbered level (spot.scope env) slotCount →
    ∀ part ∈ arms.parts finish prepared spot,
      part.code.Numbered part.spot.bases.length (part.spot.scope env)
  | .nil, _, _, _, _, _, _, _, _, _, member => by cases member
  | .rest _ tail, _, _, _, _, _, _, within, numbered, part, member =>
      tail.numbered_of_mem_parts within numbered.2 part member
  | .cons pattern body tail, finish, prepared, spot, env, level, slotCount,
      within, numbered, part,
      member => by
      rcases List.mem_append.1 member with inner | inner
      · refine body.numbered_of_mem_parts ?_ part inner
        rw [Spot.scope_inBody]
        change body.Numbered spot.bases.length _
        rw [within]
        exact numbered.2.1
      · let after := spot.pastChoice pattern body finish prepared
        have outside : after.bases.length = level + 1 := within
        have others : tail.Numbered level (after.scope env) slotCount := numbered.2.2
        exact tail.numbered_of_mem_parts outside others part inner
termination_by structural arms => arms

end

end Casework
