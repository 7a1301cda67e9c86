import Casework.Compilation
import Casework.Proofs.Emission
import Casework.Proofs.Recording

/-!
Emitted code is balanced.

Each piece of code for a pattern or an expression takes the stack to a height that is
known beforehand, on every way out of it. Jumps lead forwards, to labels of the same piece
of code or, for tests, to the place where a failed test goes on. So code that is written
is always accepted, and always comes to an end.
-/

namespace Casework

namespace Balanced

variable {low high : Nat} {outer : List (Label × Int)} {height : Int} {after : Option Int}
  {code : List Instruction}

theorem keeping {keep : Bool} (nonnegative : 0 ≤ height)
    (balanced : Balanced low high outer
      (some (height + (if keep then 1 else 0 : Nat) + 1)) code
      after) :
    Balanced low high outer (some (height + 1)) (keeping keep ++ code) after := by
  refine append (ofFlows fun heights _ => ?_) balanced
  cases keep with
  | true =>
      simp [Casework.keeping, Flows, Instruction.Fits, Instruction.heightAfter,
        Instruction.pops, Instruction.pushes, Instruction.target?]
      omega
  | false => simp [Casework.keeping, Flows]

theorem nonEmptyTest {onFail : Label} (nonnegative : 0 ≤ height)
    (expected : (onFail, height + 1) ∈ outer) :
    Balanced low low outer (some (height + 1)) (nonEmptyTest onFail)
      (some (height + 1)) := by
  refine ofFlows fun heights outside => ?_
  have atFail : heights onFail = height + 1 := outside _ expected
  simp [Casework.nonEmptyTest, Flows, Instruction.Fits, Instruction.heightAfter,
    Instruction.pops, Instruction.pushes, Instruction.target?, Condition.operands]
  omega

theorem close {fail onFail done : Label} (nonnegative : 0 ≤ height)
    (atFail : (fail, height + 1) ∈ outer) (atOnFail : (onFail, height) ∈ outer)
    (atDone : (done, height) ∈ outer) :
    Balanced low low outer (some height)
      ([.jump done] ++ discard fail onFail ++ [.label done])
      (some height) := by
  refine ofFlows fun heights outside => ?_
  have failHeight : heights fail = height + 1 := outside _ atFail
  have onFailHeight : heights onFail = height := outside _ atOnFail
  have doneHeight : heights done = height := outside _ atDone
  simp [discard, Flows, Instruction.Fits, Instruction.heightAfter, Instruction.pops,
    Instruction.pushes, Instruction.target?, failHeight, onFailHeight, doneHeight]
  omega

theorem single {instruction : Instruction} (noLabel : instruction.label? = none)
    (noTarget : instruction.target? = none) {before after : Int}
    (enough : instruction.pops ≤ before)
    (same : after = before - instruction.pops + instruction.pushes) :
    Balanced low low outer (some before) [instruction] (some after) := by
  refine ofFlows fun heights _ => ?_
  cases instruction with
  | label own => cases noLabel
  | branch condition target => cases noTarget
  | jump target => cases noTarget
  | _ => exact ⟨⟨enough, fun target member => by cases member⟩, congrArg some same.symm⟩

/-- Preparing leaves as many values as are counted. -/
theorem preparation (nonnegative : 0 ≤ height) (pattern : Pattern) :
    Balanced low low outer (some (height + 1)) pattern.preparation
      (some (height + pattern.preparedCount)) := by
  refine ofFlows fun heights _ => ?_
  cases pattern <;>
    simp [Pattern.preparation, Pattern.preparedCount, Flows, Instruction.Fits,
      Instruction.heightAfter, Instruction.pops, Instruction.pushes,
      Instruction.target?] <;>
    omega

end Balanced

/-! ## Tests -/

namespace Pattern

variable {bases : List Int}

def keptCount (pattern : Pattern) (keep : Bool) : Nat :=
  if keep then pattern.preparedCount else 0

/-- The test of a pattern takes the stack to one height, wherever it is used. -/
def TestBalanced (bases : List Int) (pattern : Pattern) : Prop :=
  ∀ (onFail : Label) (keep : Bool) (supply : Supply) (height : Int)
    (outer : List (Label × Int)),
    0 ≤ height → (onFail, height + pattern.keptCount keep) ∈ outer →
    Balanced supply.label ((pattern.test bases onFail keep).run supply).2.label outer
      (some (height + pattern.preparedCount))
      ((pattern.test bases onFail keep).run supply).1
      (some (height + pattern.keptCount keep))

section Parts

variable {pattern : Pattern} {onFail : Label} {height : Int} {outer : List (Label × Int)}

theorem TestBalanced.nested (balanced : pattern.TestBalanced bases) (supply : Supply)
    (nonnegative : 0 ≤ height) (expected : (onFail, height) ∈ outer) :
    Balanced supply.label ((pattern.test bases onFail false).run supply).2.label outer
      (some (height + 1))
        (pattern.nested ((pattern.test bases onFail false).run supply).1)
      (some height) := by
  have tested := balanced onFail false supply height outer nonnegative
    (by simpa [keptCount] using expected)
  simp only [keptCount, Bool.false_eq_true, if_false, Int.natCast_zero,
    Int.add_zero] at tested
  exact (Balanced.preparation nonnegative pattern).append tested

theorem TestBalanced.onHead (balanced : pattern.TestBalanced bases) (supply : Supply)
    (nonnegative : 0 ≤ height) (expected : (onFail, height + 1) ∈ outer) :
    Balanced supply.label ((pattern.test bases onFail false).run supply).2.label outer
      (some (height + 1))
        (pattern.onHead ((pattern.test bases onFail false).run supply).1)
      (some (height + 1)) := by
  by_cases wild : pattern.isWildcard = true
  · rw [eq_wildcard_of_isWildcard wild]
    exact .ofFlows fun heights _ => rfl
  · rw [Pattern.onHead, if_neg wild]
    have raised : 0 ≤ height + 1 := by omega
    refine Balanced.append (.ofFlows fun heights _ => ?_)
      (balanced.nested supply raised expected)
    simp [Flows, Instruction.Fits, Instruction.heightAfter, Instruction.pops,
      Instruction.pushes, Instruction.target?]
    omega

theorem TestBalanced.onTail (balanced : pattern.TestBalanced bases) (supply : Supply)
    (nonnegative : 0 ≤ height) (expected : (onFail, height) ∈ outer) :
    Balanced supply.label ((pattern.test bases onFail false).run supply).2.label outer
      (some (height + 1))
        (pattern.onTail ((pattern.test bases onFail false).run supply).1)
      (some height) := by
  by_cases wild : pattern.isWildcard = true
  · rw [eq_wildcard_of_isWildcard wild]
    refine .ofFlows fun heights _ => ?_
    simp [Pattern.onTail, isWildcard, Flows, Instruction.Fits, Instruction.heightAfter,
      Instruction.pops, Instruction.pushes, Instruction.target?]
    omega
  · rw [Pattern.onTail, if_neg wild, ← List.singleton_append]
    refine Balanced.append (.ofFlows fun heights _ => ?_)
      (balanced.nested supply nonnegative expected)
    simp [Flows, Instruction.Fits, Instruction.heightAfter, Instruction.pops,
      Instruction.pushes, Instruction.target?]
    omega

end Parts

theorem testBalanced_wildcard : wildcard.TestBalanced bases := by
  intro onFail keep supply height outer nonnegative _
  refine .ofFlows fun heights _ => ?_
  rw [run_test_wildcard]
  cases keep <;>
    simp [keptCount, preparedCount, Flows, Instruction.Fits, Instruction.heightAfter,
      Instruction.pops, Instruction.pushes, Instruction.target?]
  omega

theorem testBalanced_bind (binding : Binding) : (bind binding).TestBalanced bases := by
  intro onFail keep supply height outer nonnegative _
  rw [run_test_bind]
  refine .keeping nonnegative (.ofFlows fun heights _ => ?_)
  cases keep <;>
    simp [keptCount, preparedCount, Flows, Instruction.Fits, Instruction.heightAfter,
      Instruction.pops, Instruction.pushes, Instruction.target?] <;>
    omega

theorem testBalanced_literal (value : Constant) (type : Ref) :
    (literal value type).TestBalanced bases := by
  intro onFail keep supply height outer nonnegative expected
  rw [run_test_literal]
  refine .keeping nonnegative (.ofFlows fun heights outside => ?_)
  have atFail : heights onFail = height + (literal value type).keptCount keep :=
    outside _ expected
  cases keep <;>
    simp [keptCount, preparedCount, Flows, Instruction.Fits, Instruction.heightAfter,
      Instruction.pops, Instruction.pushes, Instruction.target?,
      Condition.operands] at atFail ⊢ <;>
    omega

theorem testBalanced_variant {payload : Pattern} (balanced : payload.TestBalanced bases)
    (tag : String) : (variant tag payload).TestBalanced bases := by
  intro onFail keep supply height outer nonnegative expected
  cases keep with
  | true =>
      rw [run_test_variant_keep]
      have atOnFail : (onFail, height + 2) ∈ outer := expected
      have raised : 0 ≤ height + 2 := by omega
      have inner := balanced.nested supply raised atOnFail
      refine Balanced.append (.ofFlows fun heights outside => ?_) inner
      have failHeight : heights onFail = height + 2 := outside _ atOnFail
      simp [preparedCount, Flows, Instruction.Fits, Instruction.heightAfter,
        Instruction.pops, Instruction.pushes, Instruction.target?, Condition.operands]
      omega
  | false =>
      rw [run_test_variant_consume]
      simp only [keptCount, Bool.false_eq_true, if_false, Int.natCast_zero, Int.add_zero]
        at expected ⊢
      have atOnFail : (onFail, height) ∈ (supply.labelAfter 0, height + 1) :: outer :=
        List.mem_cons_of_mem _ expected
      refine Balanced.hide (height + 1) (.append (.ofFlows fun heights outside => ?_)
        (balanced.nested (supply.take 1) nonnegative atOnFail))
      have failHeight : heights onFail = height := outside _ atOnFail
      have nextHeight : heights (supply.labelAfter 0) = height + 1 :=
        outside _ (List.mem_cons_self ..)
      simp [preparedCount, Flows, Instruction.Fits, Instruction.heightAfter,
        Instruction.pops, Instruction.pushes, Instruction.target?, Condition.operands]
      omega

theorem testBalanced_emptyList : emptyList.TestBalanced bases := by
  intro onFail keep supply height outer nonnegative expected
  rw [run_test_emptyList]
  have raised : 0 ≤ height + emptyList.keptCount keep := by omega
  refine .keeping nonnegative (.hide (height + emptyList.keptCount keep + 1)
    (.hide (height + emptyList.keptCount keep) (.ofFlows fun heights outside => ?_)))
  have failHeight : heights onFail = height + emptyList.keptCount keep :=
    outside _ (List.mem_cons_of_mem _ (List.mem_cons_of_mem _ expected))
  have nullHeight : heights (supply.labelAfter 0) = height +
      emptyList.keptCount keep + 1 :=
    outside _ (List.mem_cons_of_mem _ (List.mem_cons_self ..))
  have doneHeight : heights (supply.labelAfter 1) = height + emptyList.keptCount keep :=
    outside _ (List.mem_cons_self ..)
  cases keep <;>
    simp [keptCount, preparedCount, Flows, Instruction.Fits, Instruction.heightAfter,
      Instruction.pops, Instruction.pushes, Instruction.target?, Condition.operands]
      at failHeight nullHeight doneHeight ⊢ <;>
    omega

theorem testBalanced_cons {head tail : Pattern} (headBalanced : head.TestBalanced bases)
    (tailBalanced : tail.TestBalanced bases) : (cons head tail).TestBalanced bases := by
  intro onFail keep supply height outer nonnegative expected
  let kept := height + (cons head tail).keptCount keep
  have raised : 0 ≤ kept := by omega
  let inside := (supply.labelAfter 1, kept) :: (supply.labelAfter 0, kept + 1) :: outer
  have atOnFail : (onFail, kept) ∈ inside :=
    List.mem_cons_of_mem _ (List.mem_cons_of_mem _ expected)
  have atFail : (supply.labelAfter 0, kept + 1) ∈ inside :=
    List.mem_cons_of_mem _ (List.mem_cons_self ..)
  have atDone : (supply.labelAfter 1, kept) ∈ inside := List.mem_cons_self ..
  have headPart := headBalanced.onHead (supply.take 2) raised atFail
  have tailPart := tailBalanced.onTail
    ((head.test bases (supply.labelAfter 0) false).run (supply.take 2)).2 raised atOnFail
  rw [run_test_cons]
  simp only [List.append_assoc]
  refine .keeping nonnegative (.hide (kept + 1) (.hide kept ?_))
  refine (Balanced.nonEmptyTest raised atFail).append
    (headPart.append (tailPart.append ?_))
  exact Balanced.close raised atFail atOnFail atDone

end Pattern

def Patterns.TestBalanced (bases : List Int) (items : Patterns) : Prop :=
  ∀ (onFail : Label) (supply : Supply) (height : Int) (outer : List (Label × Int)),
    0 ≤ height → (onFail, height + 1) ∈ outer →
    Balanced supply.label ((items.test bases onFail).run supply).2.label outer
      (some (height + 1)) ((items.test bases onFail).run supply).1 (some (height + 1))

theorem Patterns.testBalanced_cons {bases : List Int} {head : Pattern} {tail : Patterns}
    (headBalanced : head.TestBalanced bases) (tailBalanced : tail.TestBalanced bases) :
    (cons head tail).TestBalanced bases := by
  intro onFail supply height outer nonnegative expected
  have headPart := headBalanced.onHead supply nonnegative expected
  have tailPart :=
    tailBalanced onFail ((head.test bases onFail false).run supply).2 height outer
    nonnegative expected
  rw [run_test_cons]
  simp only [List.append_assoc]
  refine (Balanced.nonEmptyTest nonnegative expected).append (headPart.append
    (.append (.ofFlows fun heights _ => ?_) tailPart))
  simp [Flows, Instruction.Fits, Instruction.heightAfter, Instruction.pops,
    Instruction.pushes, Instruction.target?]
  omega

theorem Pattern.testBalanced_fixedList {bases : List Int} {items : Patterns}
    (balanced : items.TestBalanced bases) : (fixedList items).TestBalanced bases := by
  intro onFail keep supply height outer nonnegative expected
  let kept := height + (fixedList items).keptCount keep
  have raised : 0 ≤ kept := by omega
  let inside := (supply.labelAfter 2, kept) :: (supply.labelAfter 1, kept + 1) ::
    (supply.labelAfter 0, kept + 1) :: outer
  have atOnFail : (onFail, kept) ∈ inside :=
    List.mem_cons_of_mem _ (List.mem_cons_of_mem _ (List.mem_cons_of_mem _ expected))
  have atFail : (supply.labelAfter 0, kept + 1) ∈ inside :=
    List.mem_cons_of_mem _ (List.mem_cons_of_mem _ (List.mem_cons_self ..))
  have atFinish : (supply.labelAfter 1, kept + 1) ∈ inside :=
    List.mem_cons_of_mem _ (List.mem_cons_self ..)
  have atDone : (supply.labelAfter 2, kept) ∈ inside := List.mem_cons_self ..
  have itemsPart :=
    balanced (supply.labelAfter 0) (supply.take 3) kept inside raised atFail
  rw [run_test_fixedList]
  simp only [List.append_assoc]
  refine .keeping nonnegative (.hide (kept + 1) (.hide (kept + 1) (.hide kept ?_)))
  refine itemsPart.append (.ofFlows fun heights outside => ?_)
  have failHeight : heights (supply.labelAfter 0) = kept + 1 := outside _ atFail
  have finishHeight : heights (supply.labelAfter 1) = kept + 1 := outside _ atFinish
  have doneHeight : heights (supply.labelAfter 2) = kept := outside _ atDone
  have onFailHeight : heights onFail = kept := outside _ atOnFail
  simp [discard, Flows, Instruction.Fits, Instruction.heightAfter, Instruction.pops,
    Instruction.pushes, Instruction.target?, Condition.operands, failHeight, finishHeight,
    doneHeight, onFailHeight]
  omega

def PatternFields.TestBalanced (bases : List Int) (fields : PatternFields) : Prop :=
  ∀ (onFail onLastFail : Label) (supply : Supply) (height : Int)
    (outer : List (Label × Int)),
    0 ≤ height → fields.readCount ≠ 0 →
    (2 ≤ fields.readCount → (onFail, height + 1) ∈ outer) →
    (onLastFail, height) ∈ outer →
    Balanced supply.label ((fields.test bases onFail onLastFail).run supply).2.label outer
      (some (height + 1))
      ((fields.test bases onFail onLastFail).run supply).1 (some height)

theorem PatternFields.testBalanced_cons {bases : List Int} (name : String)
    {pattern : Pattern} {tail : PatternFields} (headBalanced : pattern.TestBalanced bases)
    (tailBalanced : tail.TestBalanced bases) :
    (cons name pattern tail).TestBalanced bases := by
  intro onFail onLastFail supply height outer nonnegative count atFail atLastFail
  by_cases skipped : pattern.isWildcard = true
  · simp only [readCount, skipped, if_true, Nat.zero_add] at count atFail
    rw [run_test_skip _ _ _ _ name tail skipped]
    exact tailBalanced onFail onLastFail supply height outer nonnegative count
      atFail atLastFail
  · have read : pattern.isWildcard = false := by simpa using skipped
    simp only [readCount, read, Bool.false_eq_true, if_false] at atFail
    by_cases last : tail.readCount = 0
    · have inner := headBalanced.nested supply nonnegative atLastFail
      have field : Balanced supply.label supply.label outer
          (some (height + 1)) [.field name]
          (some (height + 1)) := by
        refine .ofFlows fun heights _ => ?_
        simp [Flows, Instruction.Fits, Instruction.heightAfter, Instruction.pops,
          Instruction.pushes, Instruction.target?]
        omega
      rw [run_test_last _ _ _ _ name read last]
      exact field.append inner
    · have raised : 0 ≤ height + 1 := by omega
      have atOnFail := atFail (by omega)
      have inner := headBalanced.nested supply raised atOnFail
      have others := tailBalanced onFail onLastFail
        ((pattern.test bases onFail false).run supply).2 height outer nonnegative last
        (fun _ => atOnFail) atLastFail
      rw [run_test_next _ _ _ _ name read last]
      simp only [List.append_assoc]
      refine Balanced.append (.ofFlows fun heights _ => ?_) (inner.append others)
      simp [Flows, Instruction.Fits, Instruction.heightAfter, Instruction.pops,
        Instruction.pushes, Instruction.target?]
      omega

theorem Pattern.testBalanced_record {bases : List Int} {fields : PatternFields}
    (balanced : fields.TestBalanced bases) : (record fields).TestBalanced bases := by
  intro onFail keep supply height outer nonnegative expected
  let kept := height + (record fields).keptCount keep
  have raised : 0 ≤ kept := by omega
  obtain none | one | many : fields.readCount = 0 ∨ fields.readCount = 1 ∨
    2 ≤ fields.readCount := by omega
  · rw [run_test_record_none _ _ _ _ none]
    refine .keeping nonnegative (.ofFlows fun heights _ => ?_)
    simp [keptCount, preparedCount, Flows, Instruction.Fits, Instruction.heightAfter,
      Instruction.pops, Instruction.pushes, Instruction.target?]
    cases keep <;> simp <;> omega
  · rw [run_test_record_one _ _ _ _ one]
    exact .keeping nonnegative (balanced onFail onFail supply kept outer raised (by omega)
      (fun impossible => by omega) expected)
  · let fieldTests := (fields.test bases (supply.labelAfter 0) onFail).run (supply.take 1)
    let inside := (supply.labelAfter 0, kept + 1) :: outer
    have atOnFail : (onFail, kept) ∈ inside := List.mem_cons_of_mem _ expected
    have atFail : (supply.labelAfter 0, kept + 1) ∈ inside := List.mem_cons_self ..
    have fieldsPart :=
      balanced (supply.labelAfter 0) onFail (supply.take 1) kept inside raised
      (by omega) (fun _ => atFail) atOnFail
    rw [run_test_record_many _ _ _ _ many]
    simp only [List.append_assoc]
    refine .keeping nonnegative (.hide (kept + 1) (fieldsPart.append (.hide kept ?_)))
    exact Balanced.close raised (List.mem_cons_of_mem _ atFail)
      (List.mem_cons_of_mem _ atOnFail)
      (List.mem_cons_self ..)

mutual

theorem Pattern.testBalanced (bases : List Int) :
    ∀ pattern : Pattern, pattern.TestBalanced bases
  | .wildcard => Pattern.testBalanced_wildcard
  | .bind binding => Pattern.testBalanced_bind binding
  | .literal value type => Pattern.testBalanced_literal value type
  | .cons head tail =>
      Pattern.testBalanced_cons (head.testBalanced bases) (tail.testBalanced bases)
  | .emptyList => Pattern.testBalanced_emptyList
  | .fixedList items => Pattern.testBalanced_fixedList (items.testBalanced bases)
  | .record fields => Pattern.testBalanced_record (fields.testBalanced bases)
  | .variant tag payload => Pattern.testBalanced_variant (payload.testBalanced bases) tag
termination_by structural pattern => pattern

theorem Patterns.testBalanced (bases : List Int) :
    ∀ items : Patterns, items.TestBalanced bases
  | .nil => fun _ _ _ _ _ _ => .ofFlows fun _ _ => rfl
  | .cons head tail =>
      Patterns.testBalanced_cons (head.testBalanced bases) (tail.testBalanced bases)
termination_by structural items => items

theorem PatternFields.testBalanced (bases : List Int) :
    ∀ fields : PatternFields, fields.TestBalanced bases
  | .nil => fun _ _ _ _ _ _ count => absurd rfl count
  | .cons name pattern tail =>
      PatternFields.testBalanced_cons name (pattern.testBalanced bases)
        (tail.testBalanced bases)
termination_by structural fields => fields

end

/-! ## Expressions -/

theorem Balanced.popMany {low : Nat} {outer : List (Label × Int)} {height : Int}
    (nonnegative : 0 ≤ height) (count : Nat) :
    Balanced low low outer (some (height + count)) (popMany count) (some height) := by
  induction count with
  | zero => exact .ofFlows fun heights _ => by simp [Casework.popMany, Flows]
  | succ count induction =>
      have pop : Balanced low low outer (some (height + (count + 1 : Nat))) [.pop]
          (some (height + count)) := by
        refine .ofFlows fun heights _ => ?_
        simp [Flows, Instruction.Fits, Instruction.heightAfter, Instruction.pops,
          Instruction.pushes, Instruction.target?]
        omega
      exact pop.append induction

/-- The count of prepared values belongs to the outline. -/
structure Prepared.Counted (prepared : Prepared) : Prop where
  positive : 1 ≤ prepared.count
  shared : ∀ pattern : Pattern, prepared.outline = some pattern.outline →
    prepared.count = pattern.preparedCount

theorem Pattern.preparedCount_of_outline {left right : Pattern}
    (same : left.outline = right.outline) : left.preparedCount = right.preparedCount := by
  cases left <;> cases right <;> first | rfl | cases same

namespace Prepared

theorem counted_start : start.Counted where
  positive := Nat.le_refl 1
  shared _ impossible := by cases impossible

theorem count_switch {prepared : Prepared} (counted : prepared.Counted)
    (pattern : Pattern) :
    (prepared.switch pattern).2.count = pattern.preparedCount := by
  unfold switch
  split
  next shared => exact counted.shared pattern shared
  next => rfl

theorem counted_switch {prepared : Prepared} (counted : prepared.Counted)
    (pattern : Pattern) :
    (prepared.switch pattern).2.Counted := by
  unfold switch
  split
  · exact counted
  · have positive : 1 ≤ pattern.preparedCount := by
      cases pattern <;> simp [Pattern.preparedCount]
    refine ⟨positive, fun other same => ?_⟩
    exact Pattern.preparedCount_of_outline (Option.some.inj same)

theorem balanced_switch {prepared : Prepared} (counted : prepared.Counted)
    (pattern : Pattern) {low : Nat} {outer : List (Label × Int)} {height : Int}
    (nonnegative : 0 ≤ height) :
    Balanced low low outer (some (height + prepared.count)) (prepared.switch pattern).1
      (some (height + pattern.preparedCount)) := by
  unfold switch
  split
  next shared =>
      rw [counted.shared pattern shared]
      exact .ofFlows fun heights _ => rfl
  next =>
      have positive := counted.positive
      have raised : 0 ≤ height + 1 := by omega
      have popped : Balanced low low outer
          (some (height + 1 + (prepared.count - 1 : Nat)))
        (popMany (prepared.count - 1)) (some (height + 1)) := .popMany raised _
      rw [show height + 1 + (prepared.count - 1 : Nat) = height +
        prepared.count by omega] at popped
      exact popped.append (.preparation nonnegative pattern)

end Prepared

theorem Balanced.replicate_cons {low : Nat} {outer : List (Label × Int)} {height : Int}
    (nonnegative : 0 ≤ height) (count : Nat) :
    Balanced low low outer (some (height + count + 1))
      (List.replicate count (.invoke .cons 2 true)) (some (height + 1)) := by
  induction count with
  | zero => exact .ofFlows fun heights _ => by simp [Flows]
  | succ count induction =>
      have join : Balanced low low outer (some (height + (count + 1 : Nat) + 1))
          [.invoke .cons 2 true] (some (height + count + 1)) := by
        refine .ofFlows fun heights _ => ?_
        simp [Flows, Instruction.Fits, Instruction.heightAfter, Instruction.pops,
          Instruction.pushes, Instruction.target?]
        omega
      exact join.append induction

theorem Balanced.noMatch {low : Nat} {outer : List (Label × Int)} {height : Int}
    {finish : Label} (nonnegative : 0 ≤ height)
    (atFinish : (finish, height + 1) ∈ outer) :
    Balanced low low outer (some (height + 1)) [.invoke .noMatch 1 true, .label finish]
      (some (height + 1)) := by
  refine .ofFlows fun heights outside => ?_
  have finishHeight : heights finish = height + 1 := outside _ atFinish
  simp [Flows, Instruction.Fits, Instruction.heightAfter, Instruction.pops,
    Instruction.pushes, Instruction.target?]
  omega

theorem Balanced.leave {low : Nat} {outer : List (Label × Int)} {height nextHeight : Int}
    {finish next : Label} (nonnegative : 0 ≤ height)
    (atFinish : (finish, height + 1) ∈ outer) (atNext : (next, nextHeight) ∈ outer) :
    Balanced low low outer (some (height + 1)) [.jump finish, .label next]
      (some nextHeight) := by
  refine .ofFlows fun heights outside => ?_
  have expectedFinish : heights finish = height + 1 := outside _ atFinish
  have expectedNext : heights next = nextHeight := outside _ atNext
  simp [Flows, Instruction.Fits, Instruction.heightAfter, Instruction.pops,
    Instruction.target?, expectedNext]
  omega

mutual

theorem Code.balanced_emit :
    ∀ (code : Code) (bases : List Int) (supply : Supply) (height : Int)
      (outer : List (Label × Int)), 0 ≤ height →
      Balanced supply.label ((code.emit bases).run supply).2.label outer (some height)
        ((code.emit bases).run supply).1 (some (height + 1))
  | .constant value type, bases, supply, height, outer, nonnegative =>
      .single rfl rfl nonnegative (by simp [Instruction.pops, Instruction.pushes])
  | .static owner name type, bases, supply, height, outer, nonnegative =>
      .single rfl rfl nonnegative (by simp [Instruction.pops, Instruction.pushes])
  | .name binding, bases, supply, height, outer, nonnegative =>
      .single rfl rfl nonnegative (by simp [Instruction.pops, Instruction.pushes])
  | .tag name payload type, bases, supply, height, outer, nonnegative => by
      have inner := payload.balanced_emit bases supply height outer nonnegative
      refine inner.append (.single rfl rfl ?_ ?_)
      all_goals
        simp only [Instruction.pops, Instruction.pushes]
        omega
  | .call routine left right type, bases, supply, height, outer, nonnegative => by
      have raised : 0 ≤ height + 1 := by omega
      have leftPart := left.balanced_emit bases supply height outer nonnegative
      have rightPart :=
        right.balanced_emit bases ((left.emit bases).run supply).2 (height + 1)
        outer raised
      refine (leftPart.append rightPart).append (.single rfl rfl ?_ ?_)
      all_goals
        simp only [Instruction.pops, Instruction.pushes, if_true]
        omega
  | .list items type, bases, supply, height, outer, nonnegative => by
      have itemsPart := items.balanced_emit bases supply height outer nonnegative
      refine (itemsPart.append (.single rfl rfl ?_ ?_)).append
        (.replicate_cons nonnegative items.length)
      all_goals
        simp only [Instruction.pops, Instruction.pushes]
        omega
  | .select record field type, bases, supply, height, outer, nonnegative => by
      have inner := record.balanced_emit bases supply height outer nonnegative
      refine inner.append (.ofFlows fun heights _ => ?_)
      simp [Flows, Instruction.Fits, Instruction.heightAfter, Instruction.pops,
        Instruction.pushes, Instruction.target?]
      omega
  | .caseOf report value arms, bases, supply, height, outer, nonnegative => by
      let after := ((value.emit bases).run supply).2
      let inside := (after.labelAfter 0, height + 1) :: outer
      have atFinish : (after.labelAfter 0, height + 1) ∈ inside := List.mem_cons_self ..
      have raised : 0 ≤ height + 1 := by omega
      have valuePart := value.balanced_emit bases supply height outer nonnegative
      obtain ⟨counted, armsPart⟩ :=
        arms.balanced_emit (bases ++ [after.slot]) (after.labelAfter 0)
        .start (Code.armSupply report after) height inside nonnegative
          Prepared.counted_start atFinish
      let armCode := (arms.emit (bases ++ [after.slot]) (after.labelAfter 0) .start).run
        (Code.armSupply report after)
      have positive : 1 ≤ armCode.1.2.count := counted.positive
      have popped : Balanced armCode.2.label armCode.2.label inside
          (some (height + 1 + (armCode.1.2.count - 1 : Nat)))
          (popMany (armCode.1.2.count - 1)) (some (height + 1)) := .popMany raised _
      rw [show height + 1 + (armCode.1.2.count - 1 : Nat) = height +
        armCode.1.2.count by omega]
        at popped
      rw [Code.run_emit_caseOf]
      simp only [List.append_assoc]
      exact valuePart.append (.hide (height + 1) (armsPart.append (popped.append
        (.noMatch nonnegative atFinish))))
termination_by structural code => code

theorem Codes.balanced_emit :
    ∀ (items : Codes) (bases : List Int) (supply : Supply) (height : Int)
      (outer : List (Label × Int)), 0 ≤ height →
      Balanced supply.label ((items.emit bases).run supply).2.label outer (some height)
        ((items.emit bases).run supply).1 (some (height + items.length))
  | .nil, bases, supply, height, outer, nonnegative =>
      .ofFlows fun heights _ => congrArg some (Int.add_zero height).symm
  | .cons head tail, bases, supply, height, outer, nonnegative => by
      have raised : 0 ≤ height + 1 := by omega
      have headPart := head.balanced_emit bases supply height outer nonnegative
      have tailPart := tail.balanced_emit bases ((head.emit bases).run supply).2
        (height + 1) outer
        raised
      rw [show height + 1 + tail.length = height + (Codes.cons head tail).length by
        simp only [Codes.length]
        omega] at tailPart
      exact headPart.append tailPart
termination_by structural items => items

theorem Arms.balanced_emit :
    ∀ (arms : Arms) (bases : List Int) (finish : Label) (prepared : Prepared)
      (supply : Supply)
      (height : Int) (outer : List (Label × Int)), 0 ≤ height → prepared.Counted →
      (finish, height + 1) ∈ outer →
      (((arms.emit bases finish prepared).run supply).1.2).Counted ∧
      Balanced supply.label ((arms.emit bases finish prepared).run supply).2.label outer
        (some (height + prepared.count))
          ((arms.emit bases finish prepared).run supply).1.1
        (some (height + ((arms.emit bases finish prepared).run supply).1.2.count))
  | .nil, bases, finish, prepared, supply, height, outer, nonnegative,
      counted, atFinish =>
      ⟨counted, .ofFlows fun heights _ => rfl⟩
  | .rest _ tail, bases, finish, prepared, supply, height, outer, nonnegative,
      counted, atFinish =>
      tail.balanced_emit bases finish prepared supply height outer nonnegative
        counted atFinish
  | .cons pattern body tail, bases, finish, prepared, supply, height, outer,
      nonnegative, counted,
      atFinish => by
      let inside := (supply.labelAfter 0, height + pattern.preparedCount) :: outer
      have atNext : (supply.labelAfter 0, height + pattern.keptCount true) ∈ inside :=
        List.mem_cons_self ..
      have insideFinish : (finish, height + 1) ∈ inside := List.mem_cons_of_mem _ atFinish
      let test := (pattern.test bases (supply.labelAfter 0) true).run (supply.take 1)
      let bodyCode := (body.emit bases).run test.2
      have switchPart : Balanced (supply.label + 1) (supply.label + 1) inside _ _ _ :=
        prepared.balanced_switch counted pattern nonnegative
      have testPart := pattern.testBalanced bases (supply.labelAfter 0) true
        (supply.take 1) height
        inside nonnegative atNext
      have popPart : Balanced test.2.label test.2.label inside
          (some (height + (prepared.switch pattern).2.count)) _ _ :=
        .popMany nonnegative (prepared.switch pattern).2.count
      rw [prepared.count_switch counted pattern] at popPart
      have bodyPart := body.balanced_emit bases test.2 height inside nonnegative
      obtain ⟨lastCounted, othersPart⟩ := tail.balanced_emit bases finish
        (prepared.switch pattern).2 bodyCode.2 height inside nonnegative
        (prepared.counted_switch counted pattern) insideFinish
      rw [prepared.count_switch counted pattern] at othersPart
      refine ⟨lastCounted, ?_⟩
      rw [Arms.run_emit_cons]
      simp only [List.append_assoc, prepared.count_switch counted pattern]
      exact .hide (height + pattern.preparedCount) (switchPart.append (testPart.append
        (popPart.append (bodyPart.append (.append (.leave nonnegative insideFinish atNext)
          othersPart)))))
termination_by structural arms => arms

end

/-! ## Programs -/

namespace Code

variable (code : Code) (slots : Int)

theorem labels_program :
    Consecutive 0 (code.program slots).labels (definedLabels (code.program slots).code) :=
  code.labels_emit [] { slot := slots }

theorem escapes_program : escapes (code.program slots).code = [] :=
  code.escapes_emit [] { slot := slots }

theorem verdict_record_program :
    (code.program slots).record.verdict = none ∧
      (code.program slots).record.depth = 1 := by
  let program := code.program slots
  have labels := code.labels_program slots
  have fresh : (Recorder.blank program.labels).Fresh program.code := by
    refine ⟨labels.nodup, fun label _ => ?_, fun label member => ?_⟩
    · rw [Recorder.labelState_blank]
    · exact Recorder.knows_blank.2 ((labels.mem_iff label).1 member)
  obtain ⟨_, own, flows⟩ := code.balanced_emit [] { slot := slots } 0 [] (Int.le_refl 0)
  have flow : Flows own (some 0) program.code (some (0 + 1)) :=
    flows own (fun _ _ _ => rfl) (fun _ member => by cases member)
  have agrees := (Recorder.agrees_blank own program.labels).recordAll flow fresh
  have live := Recorder.reachable_recordAll fresh (code.escapes_program slots) (.inl rfl)
  refine ⟨Recorder.verdict_eq_none agrees.finding fun label known => ?_, ?_⟩
  · refine Recorder.marked_recordAll fresh ((labels.mem_iff label).2 ?_)
    have size : (code.program slots).record.labels.size =
        (Recorder.blank program.labels).labels.size :=
      Recorder.size_labels_recordAll _ program.code
    unfold Recorder.Knows at known
    rw [size] at known
    exact Recorder.knows_blank.1 known
  · have height := agrees.height live
    exact (Option.some.inj height).symm

theorem generate_eq : ∃ listing : Listing, code.generate slots = .ok listing ∧
    listing.code = (code.program slots).code := by
  obtain ⟨verdict, depth⟩ := code.verdict_record_program slots
  refine ⟨⟨(code.program slots).code, (code.program slots).record.maxDepth⟩, ?_, rfl⟩
  simp only [generate, verdict, depth, if_true]

end Code

/-- In code that defines labels once and that no jump leaves, each jump has one place to
go, and that place is further on. -/
theorem jump_ahead {code : List Instruction} (unique : (definedLabels code).Nodup)
    (closed : escapes code = []) {place : Nat} {instruction : Instruction}
    (found : code[place]? = some instruction) {target : Label}
    (jumps : instruction.target? = some target) :
    ∃ position, place < position ∧
      ∀ other : Nat, code[other]? = some (.label target) ↔ other = position := by
  obtain ⟨position, further, atPosition⟩ := label_ahead closed found jumps
  refine ⟨position, further, fun other => ⟨fun atOther => ?_, ?_⟩⟩
  · have first := labelPlace?_eq_some unique atPosition
    have second := labelPlace?_eq_some unique atOther
    rw [first] at second
    exact (Option.some.inj second).symm
  · rintro rfl
    exact atPosition

/-- Code can be written for every fixture that is accepted. The recorder finds nothing
wrong with it and one value is left. Each jump leads to a label that is defined once and
further on, so a machine that runs the code comes to an end. -/
theorem Fixture.compile_of_check {fixture : Fixture} {checked : CheckedCase}
    (accepted : fixture.check = .ok checked) :
    ∃ compiled : CompiledCase, fixture.compile = .ok compiled ∧
      compiled.checked = checked ∧
      checked.code.generate fixture.env.length = .ok compiled.listing ∧
      (checked.code.program fixture.env.length).record.verdict = none ∧
      (checked.code.program fixture.env.length).record.depth = 1 ∧
      (∀ (place : Nat) (instruction : Instruction) (target : Label),
        compiled.listing.code[place]? = some instruction →
          instruction.target? = some target →
        ∃ position, place < position ∧
          ∀ other : Nat, compiled.listing.code[other]? = some (.label target) ↔
            other = position) ∧
      ∀ (library : Library) (machine : Machine), ∃ final halt,
        machine.Reaches library compiled.listing.code final ∧
          final.step library compiled.listing.code = .error halt := by
  obtain ⟨listing, generated, written⟩ := checked.code.generate_eq fixture.env.length
  have unique := (checked.code.labels_program fixture.env.length).nodup
  have closed := checked.code.escapes_program fixture.env.length
  have compiled : fixture.compile =
      .ok ⟨checked, listing, checked.value.slotBase fixture.env.length⟩ := by
    simp only [Fixture.compile, accepted, bind, Except.bind, generated]
    rfl
  rw [← written] at unique closed
  refine ⟨_, compiled, rfl, generated, (checked.code.verdict_record_program _).1,
    (checked.code.verdict_record_program _).2, ?_, ?_⟩
  · exact fun place instruction target found jumps => jump_ahead unique closed found jumps
  · exact fun library machine => machine.exists_halt library unique closed

def Fixture.oneOrOther : Fixture where
  name := "one-or-other"
  env := [⟨"x", .ofString "number"⟩]
  statics := []
  source := .ofString "case x of 1: 2; _: 3 esac"

theorem Fixture.compile_oneOrOther :
    ∃ checked compiled, oneOrOther.check = .ok checked ∧
      oneOrOther.compile = .ok compiled ∧
      compiled.checked = checked := by
  have accepted : oneOrOther.check.isOk = true := by decide +kernel
  cases found : oneOrOther.check with
  | error failure =>
      rw [found] at accepted
      cases accepted
  | ok checked =>
      obtain ⟨compiled, made, same, _⟩ := Fixture.compile_of_check found
      exact ⟨checked, compiled, rfl, made, same⟩

end Casework
