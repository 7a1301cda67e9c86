import Casework.Pattern.Basic
import Casework.Proofs.Machine

/-!
What it means that a value matches a pattern.

Whether a value matches is said by the structure of the pattern alone, and so is which
part of the value each name of the pattern stands for. Names are kept in slots.
-/

namespace Casework

/-! ## The meaning of patterns -/

mutual

/-- The names that a pattern binds to parts of a value, in order, if the value matches. -/
def Pattern.match? : Pattern → Value → Option (List (Binding × Value))
  | .wildcard, _ => some []
  | .bind binding, value => some [(binding, value)]
  | .literal constant _, value => if value = .ofConstant constant then some [] else none
  | .cons head tail, value =>
      match value.items? with
      | some (.cons first rest) => do
          let headBound ← head.match? first
          let tailBound ← tail.match? (.list rest)
          return headBound ++ tailBound
      | _ => none
  | .emptyList, value => if value.items? = some .nil then some [] else none
  | .fixedList items, value => value.items? >>= items.match?
  | .record fields, .struct members => fields.match? members
  | .variant tag payload, .tagged own inner => if own = tag then
      payload.match? inner else none
  | _, _ => none
termination_by structural pattern => pattern

def Patterns.match? : Patterns → Values → Option (List (Binding × Value))
  | .nil, .nil => some []
  | .cons head tail, .cons first rest => do
      let headBound ← head.match? first
      let tailBound ← tail.match? rest
      return headBound ++ tailBound
  | _, _ => none
termination_by structural items => items

def PatternFields.match? : PatternFields → Members → Option (List (Binding × Value))
  | .nil, _ => some []
  | .cons name pattern tail, members => do
      let value ← members.get? name
      let bound ← pattern.match? value
      let tailBound ← tail.match? members
      return bound ++ tailBound
termination_by structural fields => fields

end

mutual

/-- A value has the shape that a pattern takes it for, and so have the parts that the
pattern meets: lists meet list patterns, structs with the fields named meet record
patterns, and tagged values meet tag patterns. -/
def Pattern.Suits : Pattern → Value → Prop
  | .wildcard, _ => True
  | .bind _, _ => True
  | .literal _ _, _ => True
  | .cons head tail, value =>
      match value.items? with
      | some (.cons first rest) => head.Suits first ∧ tail.Suits (.list rest)
      | some .nil => True
      | none => False
  | .emptyList, value => value.items?.isSome
  | .fixedList items, value =>
      match value.items? with
      | some values => items.Suits values
      | none => False
  | .record fields, .struct members => fields.Suits members
  | .variant tag payload, .tagged own inner => own = tag → payload.Suits inner
  | _, _ => False
termination_by structural pattern => pattern

def Patterns.Suits : Patterns → Values → Prop
  | .cons head tail, .cons first rest => head.Suits first ∧ tail.Suits rest
  | _, _ => True
termination_by structural items => items

def PatternFields.Suits : PatternFields → Members → Prop
  | .nil, _ => True
  | .cons name pattern tail, members =>
      (∃ value, members.get? name = some value ∧ pattern.Suits value) ∧ tail.Suits members
termination_by structural fields => fields

end

mutual

def Pattern.bindings : Pattern → List Binding
  | .bind binding => [binding]
  | .cons head tail => head.bindings ++ tail.bindings
  | .fixedList items => items.bindings
  | .record fields => fields.bindings
  | .variant _ payload => payload.bindings
  | _ => []
termination_by structural pattern => pattern

def Patterns.bindings : Patterns → List Binding
  | .nil => []
  | .cons head tail => head.bindings ++ tail.bindings
termination_by structural items => items

def PatternFields.bindings : PatternFields → List Binding
  | .nil => []
  | .cons _ pattern tail => pattern.bindings ++ tail.bindings
termination_by structural fields => fields

end

/-! ## Slots -/

def Slots.putAll (slots : Slots) (bases : List Int) (bound : List (Binding × Value)) :
    Slots :=
  bound.foldl
    (fun slots (binding, value) => slots.put (binding.slot.number bases) value) slots

def slotNumbers (bases : List Int) (bindings : List Binding) : List Int :=
  bindings.map (·.slot.number bases)

def Slots.AgreeExcept (left right : Slots) (exceptions : List Int) : Prop :=
  ∀ slot, slot ∉ exceptions → right slot = left slot

namespace Slots

@[simp] theorem putAll_nil (slots : Slots) (bases : List Int) :
    slots.putAll bases [] = slots := rfl

theorem putAll_append (slots : Slots) (bases : List Int)
    (first second : List (Binding × Value)) :
    slots.putAll bases (first ++ second) =
      (slots.putAll bases first).putAll bases second :=
  List.foldl_append

theorem AgreeExcept.refl (slots : Slots) (exceptions : List Int) :
    slots.AgreeExcept slots exceptions := fun _ _ => rfl

theorem AgreeExcept.trans {first second third : Slots} {exceptions : List Int}
    (left : first.AgreeExcept second exceptions)
    (right : second.AgreeExcept third exceptions) :
    first.AgreeExcept third exceptions :=
  fun slot outside => (right slot outside).trans (left slot outside)

theorem AgreeExcept.mono {left right : Slots} {some more : List Int}
    (agree : left.AgreeExcept right some) (subset : some ⊆ more) :
    left.AgreeExcept right more :=
  fun slot outside => agree slot fun member => outside (subset member)

theorem agreeExcept_putAll (slots : Slots) (bases : List Int)
    (bound : List (Binding × Value)) :
    slots.AgreeExcept (slots.putAll bases bound)
      (slotNumbers bases (bound.map Prod.fst)) := by
  induction bound generalizing slots with
  | nil => exact .refl slots _
  | cons first rest induction =>
      intro slot outside
      simp only [slotNumbers, List.map_cons, List.mem_cons, not_or] at outside
      have later :=
        induction (slots.put (first.1.slot.number bases) first.2) slot outside.2
      rw [Slots.put_of_ne slots outside.1] at later
      exact later

theorem AgreeExcept.afterBinding {slots later : Slots} {bases : List Int}
    {bound : List (Binding × Value)} {first second : List Binding}
    (names : bound.map Prod.fst = first)
    (agree : (slots.putAll bases bound).AgreeExcept later (slotNumbers bases second)) :
    slots.AgreeExcept later (slotNumbers bases (first ++ second)) := by
  have firstAgree := agreeExcept_putAll slots bases bound
  rw [names] at firstAgree
  exact (firstAgree.mono (by simp [slotNumbers])).trans
    (agree.mono (by simp [slotNumbers]))

theorem putAll_of_mem {slots : Slots} {bases : List Int} {bound : List (Binding × Value)}
    (distinct : (slotNumbers bases (bound.map Prod.fst)).Nodup)
    {binding : Binding} {value : Value} (member : (binding, value) ∈ bound) :
    slots.putAll bases bound (binding.slot.number bases) = some value := by
  induction bound generalizing slots with
  | nil => cases member
  | cons first rest induction =>
      have parts := List.nodup_cons.1 distinct
      rcases List.mem_cons.1 member with equal | later
      · subst equal
        have kept :=
          agreeExcept_putAll (slots.put (binding.slot.number bases) value) bases rest
          (binding.slot.number bases) parts.1
        rw [Slots.put_self] at kept
        exact kept
      · exact induction parts.2 later

end Slots

mutual

theorem Pattern.map_fst_of_match? :
    ∀ {pattern : Pattern} {value : Value} {bound : List (Binding × Value)},
      pattern.match? value = some bound → bound.map Prod.fst = pattern.bindings
  | .wildcard, _, _, found => by cases found; rfl
  | .bind _, _, _, found => by cases found; rfl
  | .literal _ _, _, _, found => by
      rw [Pattern.match?] at found
      split at found
      · cases found; rfl
      · cases found
  | .cons head tail, value, _, found => by
      rw [Pattern.match?] at found
      split at found
      · simp only [Option.bind_eq_bind, Option.bind_eq_some_iff, Option.pure_def,
          Option.some.injEq] at found
        obtain ⟨headBound, headFound, tailBound, tailFound, rfl⟩ := found
        rw [List.map_append, head.map_fst_of_match? headFound,
          tail.map_fst_of_match? tailFound]
        rfl
      · cases found
  | .emptyList, _, _, found => by
      rw [Pattern.match?] at found
      split at found
      · cases found; rfl
      · cases found
  | .fixedList items, value, _, found => by
      rw [Pattern.match?, Option.bind_eq_bind, Option.bind_eq_some_iff] at found
      obtain ⟨values, _, itemsFound⟩ := found
      exact items.map_fst_of_match? itemsFound
  | .record fields, .struct members, _, found => fields.map_fst_of_match? found
  | .variant tag payload, .tagged own inner, _, found => by
      rw [Pattern.match?] at found
      split at found
      · exact payload.map_fst_of_match? found
      · cases found
termination_by structural pattern => pattern

theorem Patterns.map_fst_of_match? :
    ∀ {items : Patterns} {values : Values} {bound : List (Binding × Value)},
      items.match? values = some bound → bound.map Prod.fst = items.bindings
  | .nil, .nil, _, found => by cases found; rfl
  | .cons head tail, .cons first rest, _, found => by
      simp only [Patterns.match?, Option.bind_eq_bind, Option.bind_eq_some_iff,
        Option.pure_def,
        Option.some.injEq] at found
      obtain ⟨headBound, headFound, tailBound, tailFound, rfl⟩ := found
      rw [List.map_append, head.map_fst_of_match? headFound,
        tail.map_fst_of_match? tailFound]
      rfl
termination_by structural items => items

theorem PatternFields.map_fst_of_match? :
    ∀ {fields : PatternFields} {members : Members} {bound : List (Binding × Value)},
      fields.match? members = some bound → bound.map Prod.fst = fields.bindings
  | .nil, _, _, found => by cases found; rfl
  | .cons name pattern tail, members, _, found => by
      simp only [PatternFields.match?, Option.bind_eq_bind, Option.bind_eq_some_iff,
        Option.pure_def, Option.some.injEq] at found
      obtain ⟨value, _, headBound, headFound, tailBound, tailFound, rfl⟩ := found
      rw [List.map_append, pattern.map_fst_of_match? headFound,
        tail.map_fst_of_match? tailFound]
      rfl
termination_by structural fields => fields

end

end Casework
