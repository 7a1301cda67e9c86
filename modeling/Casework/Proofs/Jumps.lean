import Casework.Proofs.Emission

/-!
Jumps lead forwards.

Every jump of emitted code leads to a label further on in the same piece of code, except
that tests jump away to where a failed test goes on. So the place of a machine only ever
grows, and a machine that runs the code of an expression comes to an end.
-/

namespace Casework

/-! ## Jumps that leave code -/

/-- The labels that code jumps to and does not define further on. -/
def escapes : List Instruction → List Label
  | [] => []
  | instruction :: rest =>
      (instruction.target?.toList.filter fun target => target ∉ definedLabels rest) ++
        escapes rest

@[simp] theorem escapes_nil : escapes [] = [] := rfl

theorem mem_escapes_cons {instruction : Instruction} {rest : List Instruction}
    {label : Label} :
    label ∈ escapes (instruction :: rest) ↔
      (instruction.target? = some label ∧ label ∉ definedLabels rest) ∨
        label ∈ escapes rest := by
  simp [escapes]

theorem target_of_closed {instruction : Instruction} {rest : List Instruction}
    (closed : escapes (instruction :: rest) = []) {label : Label}
    (target : instruction.target? = some label) : label ∈ definedLabels rest := by
  by_cases member : label ∈ definedLabels rest
  · exact member
  · have escape : label ∈ escapes (instruction :: rest) :=
      mem_escapes_cons.2 (.inl ⟨target, member⟩)
    rw [closed] at escape
    cases escape

/-- Jumps that leave the first of two pieces of code may arrive in the second one. -/
theorem mem_escapes_append {first second : List Instruction} {label : Label} :
    label ∈ escapes (first ++ second) ↔
      (label ∈ escapes first ∧ label ∉ definedLabels second) ∨
        label ∈ escapes second := by
  induction first with
  | nil => simp
  | cons instruction rest induction =>
      rw [List.cons_append, mem_escapes_cons, mem_escapes_cons, induction,
        definedLabels_append]
      simp only [List.mem_append]
      grind

def Confined (exits : List Label) (code : List Instruction) : Prop :=
  ∀ label ∈ escapes code, label ∈ exits

namespace Confined

variable {exits inner : List Label} {first second : List Instruction}

/-- Jumps that leave the first of two pieces of code arrive in the second one or leave
both. -/
theorem append (left : Confined inner first)
    (arrive : ∀ label ∈ inner, label ∈ definedLabels second ∨ label ∈ exits)
    (right : Confined exits second) : Confined exits (first ++ second) := by
  intro label escape
  rcases mem_escapes_append.1 escape with ⟨leaves, absent⟩ | leaves
  · exact (arrive label (left label leaves)).resolve_left absent
  · exact right label leaves

theorem prepend (left : Confined [] first) (right : Confined exits second) :
    Confined exits (first ++ second) :=
  left.append (fun _ member => by cases member) right

theorem ofNoTargets {code : List Instruction}
    (plain : ∀ instruction ∈ code, instruction.target? = none) : Confined exits code := by
  intro label escape
  induction code with
  | nil => cases escape
  | cons instruction rest induction =>
      rcases mem_escapes_cons.1 escape with ⟨target, _⟩ | later
      · rw [plain instruction (List.mem_cons_self ..)] at target
        cases target
      · exact induction (fun other member =>
          plain other (List.mem_cons_of_mem _ member)) later

end Confined

theorem confined_single {exits : List Label} {instruction : Instruction}
    (plain : instruction.target? = none) : Confined exits [instruction] := by
  refine .ofNoTargets fun other member => ?_
  rw [List.mem_singleton.1 member, plain]

/-! ## Tests -/

section Pieces

variable (onFail : Label)

theorem confined_keeping (keep : Bool) : Confined [] (keeping keep) := by
  cases keep <;> exact .ofNoTargets (by simp [keeping, Instruction.target?])

theorem confined_nonEmptyTest : Confined [onFail] (nonEmptyTest onFail) := by
  intro label escape
  simpa [nonEmptyTest, escapes, Instruction.target?] using escape

theorem confined_discard (label : Label) : Confined [onFail] (discard label onFail) := by
  intro other escape
  simpa [discard, escapes, Instruction.target?] using escape

theorem confined_jump : Confined [onFail] [.jump onFail] := by
  intro label escape
  simpa [escapes, Instruction.target?] using escape

theorem confined_popMany (count : Nat) : Confined [] (popMany count) := by
  refine .ofNoTargets fun instruction member => ?_
  rw [List.eq_of_mem_replicate member]
  rfl

theorem Pattern.confined_preparation (pattern : Pattern) :
    Confined [] pattern.preparation := by
  cases pattern <;> exact .ofNoTargets (by simp [preparation, Instruction.target?])

theorem confined_close (fail done : Label) :
    Confined [onFail] ([.jump done] ++ discard fail onFail ++ [.label done]) := by
  rw [List.append_assoc]
  refine (confined_jump done).append (by simp)
    ((confined_discard onFail fail).append (by simp) ?_)
  exact confined_single rfl

end Pieces

namespace Pattern

variable {pattern : Pattern} {onFail : Label} {test : List Instruction}

theorem confined_nested (confined : Confined [onFail] test) :
    Confined [onFail] (pattern.nested test) :=
  pattern.confined_preparation.prepend confined

theorem confined_onHead (confined : Confined [onFail] test) :
    Confined [onFail] (pattern.onHead test) := by
  unfold onHead
  split
  · exact .ofNoTargets (by simp)
  · refine Confined.prepend (.ofNoTargets ?_) (confined_nested confined)
    simp [Instruction.target?]

theorem confined_onTail (confined : Confined [onFail] test) :
    Confined [onFail] (pattern.onTail test) := by
  unfold onTail
  split
  · exact confined_single rfl
  · have rest : Confined [] [.invoke .rest 1 true] := confined_single rfl
    exact rest.prepend (confined_nested confined)

end Pattern

mutual

theorem Pattern.confined_test (bases : List Int) :
    ∀ (pattern : Pattern) (onFail : Label) (keep : Bool) (supply : Supply),
      Confined [onFail] ((pattern.test bases onFail keep).run supply).1
  | .wildcard, onFail, keep, supply => by
      rw [Pattern.run_test_wildcard]
      cases keep <;> exact .ofNoTargets (by simp [Instruction.target?])
  | .bind binding, onFail, keep, supply =>
      (confined_keeping keep).prepend (confined_single rfl)
  | .literal value type, onFail, keep, supply => by
      refine (confined_keeping keep).prepend fun label escape => ?_
      simpa [escapes, Instruction.target?] using escape
  | .variant tag payload, onFail, true, supply => by
      have inner := payload.confined_test bases onFail false supply
      have tagPart :
          Confined [onFail] [.dup, .constant (.ofString tag), .branch .different onFail,
            .swap, .dupBelow, .tagPayload] := by
        intro label escape
        simpa [escapes, Instruction.target?] using escape
      exact tagPart.append (by simp) (Pattern.confined_nested inner)
  | .variant tag payload, onFail, false, supply => by
      have inner := payload.confined_test bases onFail false (supply.take 1)
      have tagPart : Confined [onFail] [.constant (.ofString tag),
          .branch .same (supply.labelAfter 0), .pop, .jump onFail,
          .label (supply.labelAfter 0),
          .tagPayload] := by
        intro label escape
        simp [escapes, Instruction.target?] at escape
        simp [escape.1]
      exact tagPart.append (by simp) (Pattern.confined_nested inner)
  | .emptyList, onFail, keep, supply => by
      refine (confined_keeping keep).prepend fun label escape => ?_
      simp [escapes, Instruction.target?] at escape
      simp [escape.1]
  | .cons head tail, onFail, keep, supply => by
      have headPart :=
        head.confined_test bases (supply.labelAfter 0) false (supply.take 2)
      have tailPart := tail.confined_test bases onFail false
        ((head.test bases (supply.labelAfter 0) false).run (supply.take 2)).2
      rw [Pattern.run_test_cons]
      simp only [List.append_assoc]
      refine (confined_keeping keep).prepend ((confined_nonEmptyTest _).append (by simp)
        ((Pattern.confined_onHead headPart).append (by simp)
          ((Pattern.confined_onTail tailPart).append (by simp) ?_)))
      exact confined_close onFail _ _
  | .fixedList items, onFail, keep, supply => by
      have itemsPart := items.confined_test bases (supply.labelAfter 0) (supply.take 3)
      rw [Pattern.run_test_fixedList]
      simp only [List.append_assoc]
      refine (confined_keeping keep).prepend
        (itemsPart.append (by simp) fun label escape => ?_)
      simp [escapes, discard, Instruction.target?] at escape
      rcases escape with escape | escape <;> simp [escape.1]
  | .record fields, onFail, keep, supply => by
      obtain none | one | many : fields.readCount = 0 ∨ fields.readCount = 1 ∨
        2 ≤ fields.readCount := by omega
      · rw [Pattern.run_test_record_none _ _ _ _ none]
        exact (confined_keeping keep).prepend (confined_single rfl)
      · rw [Pattern.run_test_record_one _ _ _ _ one]
        refine (confined_keeping keep).prepend fun label escape => ?_
        simpa using fields.confined_test bases onFail onFail supply label escape
      · have fieldsPart :=
          fields.confined_test bases (supply.labelAfter 0) onFail (supply.take 1)
        rw [Pattern.run_test_record_many _ _ _ _ many]
        simp only [List.append_assoc]
        refine (confined_keeping keep).prepend (fieldsPart.append (by simp) ?_)
        exact confined_close onFail _ _
termination_by structural pattern => pattern

theorem Patterns.confined_test (bases : List Int) :
    ∀ (items : Patterns) (onFail : Label) (supply : Supply),
      Confined [onFail] ((items.test bases onFail).run supply).1
  | .nil, onFail, supply => .ofNoTargets fun _ member => by cases member
  | .cons head tail, onFail, supply => by
      have headPart := head.confined_test bases onFail false supply
      have tailPart :=
        tail.confined_test bases onFail ((head.test bases onFail false).run supply).2
      rw [Patterns.run_test_cons]
      simp only [List.append_assoc]
      refine (confined_nonEmptyTest _).append (by simp)
        ((Pattern.confined_onHead headPart).append (by simp) (.prepend ?_ tailPart))
      exact confined_single rfl
termination_by structural items => items

theorem PatternFields.confined_test (bases : List Int) :
    ∀ (fields : PatternFields) (onFail onLastFail : Label) (supply : Supply),
      Confined [onFail, onLastFail] ((fields.test bases onFail onLastFail).run supply).1
  | .nil, _, _, _ => .ofNoTargets fun _ member => by cases member
  | .cons name pattern tail, onFail, onLastFail, supply => by
      by_cases skipped : pattern.isWildcard = true
      · rw [PatternFields.run_test_skip _ _ _ _ name tail skipped]
        exact tail.confined_test bases onFail onLastFail supply
      · have read : pattern.isWildcard = false := by simpa using skipped
        by_cases last : tail.readCount = 0
        · have inner := pattern.confined_test bases onLastFail false supply
          have field : Confined [] [.field name] := confined_single rfl
          rw [PatternFields.run_test_last _ _ _ _ name read last]
          refine field.prepend fun label escape => ?_
          have leaves := Pattern.confined_nested inner label escape
          exact List.mem_cons_of_mem _ leaves
        · have inner := pattern.confined_test bases onFail false supply
          have others := tail.confined_test bases onFail onLastFail
            ((pattern.test bases onFail false).run supply).2
          have field : Confined [] [.dup, .field name] :=
            .ofNoTargets (by simp [Instruction.target?])
          rw [PatternFields.run_test_next _ _ _ _ name read last]
          simp only [List.append_assoc]
          exact field.prepend ((Pattern.confined_nested inner).append (by simp) others)
termination_by structural fields => fields

end

/-! ## Expressions -/

@[simp] theorem Prepared.confined_switch (prepared : Prepared) (pattern : Pattern) :
    Confined [] (prepared.switch pattern).1 := by
  unfold switch
  split
  · exact .ofNoTargets (by simp)
  · exact (confined_popMany _).prepend pattern.confined_preparation

mutual

theorem Code.confined_emit :
    ∀ (code : Code) (bases : List Int) (supply : Supply),
      Confined [] ((code.emit bases).run supply).1
  | .constant value type, bases, supply => confined_single rfl
  | .static owner name type, bases, supply => confined_single rfl
  | .name binding, bases, supply => confined_single rfl
  | .tag name payload type, bases, supply =>
      (payload.confined_emit bases supply).prepend (confined_single rfl)
  | .call routine left right type, bases, supply => by
      have leftPart := left.confined_emit bases supply
      have rightPart := right.confined_emit bases ((left.emit bases).run supply).2
      exact (leftPart.prepend rightPart).prepend (confined_single rfl)
  | .list items type, bases, supply => by
      have itemsPart := items.confined_emit bases supply
      have nil : Confined [] [.constant .unit] := confined_single rfl
      refine (itemsPart.prepend nil).prepend (.ofNoTargets fun instruction member => ?_)
      rw [List.eq_of_mem_replicate member]
      rfl
  | .select record field type, bases, supply =>
      (record.confined_emit bases supply).prepend
        (.ofNoTargets (by simp [Instruction.target?]))
  | .caseOf report value arms, bases, supply => by
      let after := ((value.emit bases).run supply).2
      have valuePart := value.confined_emit bases supply
      have armsPart :=
        arms.confined_emit (bases ++ [after.slot]) (after.labelAfter 0) .start
        (Code.armSupply report after)
      rw [Code.run_emit_caseOf]
      simp only [List.append_assoc]
      refine valuePart.prepend
        (armsPart.append (by simp [after]) ((confined_popMany _).prepend ?_))
      exact .ofNoTargets (by simp [Instruction.target?])
termination_by structural code => code

theorem Codes.confined_emit :
    ∀ (items : Codes) (bases : List Int) (supply : Supply),
      Confined [] ((items.emit bases).run supply).1
  | .nil, _, _ => .ofNoTargets fun _ member => by cases member
  | .cons head tail, bases, supply =>
      (head.confined_emit bases supply).prepend
        (tail.confined_emit bases ((head.emit bases).run supply).2)
termination_by structural items => items

theorem Arms.confined_emit :
    ∀ (arms : Arms) (bases : List Int) (finish : Label) (prepared : Prepared)
      (supply : Supply),
      Confined [finish] ((arms.emit bases finish prepared).run supply).1.1
  | .nil, _, _, _, _ => .ofNoTargets fun _ member => by cases member
  | .rest _ tail, bases, finish, prepared, supply =>
      tail.confined_emit bases finish prepared supply
  | .cons pattern body tail, bases, finish, prepared, supply => by
      let test := (pattern.test bases (supply.labelAfter 0) true).run (supply.take 1)
      let bodyCode := (body.emit bases).run test.2
      have testPart :=
        pattern.confined_test bases (supply.labelAfter 0) true (supply.take 1)
      have bodyPart := body.confined_emit bases test.2
      have othersPart :=
        tail.confined_emit bases finish (prepared.switch pattern).2 bodyCode.2
      have leave : Confined [finish] [.jump finish, .label (supply.labelAfter 0)] := by
        intro label escape
        simp [escapes, Instruction.target?] at escape
        simp [escape.1]
      rw [Arms.run_emit_cons]
      simp only [List.append_assoc]
      exact (prepared.confined_switch pattern).prepend (testPart.append (by simp)
        ((confined_popMany _).prepend
          (bodyPart.prepend (leave.append (by simp) othersPart))))
termination_by structural arms => arms

end

theorem Code.escapes_emit (code : Code) (bases : List Int) (supply : Supply) :
    escapes ((code.emit bases).run supply).1 = [] := by
  cases leaving : escapes ((code.emit bases).run supply).1 with
  | nil => rfl
  | cons label rest =>
      have impossible := code.confined_emit bases supply label (by simp [leaving])
      cases impossible

/-! ## Machines come to an end -/

theorem label_ahead {code : List Instruction} (closed : escapes code = []) {place : Nat}
    {instruction : Instruction} (found : code[place]? = some instruction) {target : Label}
    (jumps : instruction.target? = some target) :
    ∃ position, place < position ∧ code[position]? = some (.label target) := by
  induction code generalizing place with
  | nil => simp at found
  | cons first rest induction =>
      cases place with
      | zero =>
          obtain rfl : first = instruction := by simpa using found
          have member := mem_definedLabels.1 (target_of_closed closed jumps)
          obtain ⟨position, atPosition⟩ := List.getElem?_of_mem member
          exact ⟨position + 1, by omega, by simpa using atPosition⟩
      | succ place =>
          have restClosed : escapes rest = [] := (List.append_eq_nil_iff.1 closed).2
          obtain ⟨position, further, atPosition⟩ :=
            induction restClosed (by simpa using found)
          exact ⟨position + 1, by omega, by simpa using atPosition⟩

theorem Instruction.target?_of_seeking {library : Library} {instruction : Instruction}
    {stack later : List Value} {slots laterSlots : Slots} {target : Label}
    (effect : instruction.effect library stack slots = .seeking target later laterSlots) :
    instruction.target? = some target := by
  unfold Instruction.effect at effect
  repeat' split at effect
  all_goals first | cases effect; rfl | cases effect

namespace Machine

variable {library : Library} {code : List Instruction}

theorem place_lt_of_step (unique : (definedLabels code).Nodup)
    (closed : escapes code = []) {machine next : Machine}
    (stepped : machine.step library code = .ok next) :
    machine.place < next.place := by
  unfold step at stepped
  split at stepped
  · cases stepped
  next instruction current =>
      split at stepped
      · cases stepped
        exact Nat.lt_succ_self machine.place
      next target stack slots effect =>
          obtain ⟨position, further, atPosition⟩ := label_ahead closed current
            (instruction.target?_of_seeking effect)
          rw [labelPlace?_eq_some unique atPosition] at stepped
          cases stepped
          exact further
      · cases stepped
      · cases stepped

theorem exists_halt (library : Library) (unique : (definedLabels code).Nodup)
    (closed : escapes code = []) (machine : Machine) :
    ∃ final halt, machine.Reaches library code final ∧
      final.step library code = .error halt := by
  -- The place grows with every step, and at the end of the code the machine stops.
  cases stepped : machine.step library code with
  | error halt => exact ⟨machine, halt, .refl, stepped⟩
  | ok next =>
      have moved := place_lt_of_step unique closed stepped
      have inside : machine.place < code.length := by
        refine Nat.lt_of_not_le fun outside => ?_
        rw [step, List.getElem?_eq_none outside] at stepped
        cases stepped
      obtain ⟨final, halt, reached, halted⟩ := exists_halt library unique closed next
      exact ⟨final, halt, .head stepped reached, halted⟩
termination_by code.length - machine.place

end Machine

end Casework
