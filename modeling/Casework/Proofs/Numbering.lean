import Casework.Proofs.ExprTyping

/-!
The names of a case are numbered.

While the patterns of a case are checked, each choice begins to count its names anew, and
the case keeps the largest number that one choice needed. What comes of this is said by
the structure of the code: the names of a choice have the slots of their case one after
the other, in the order in which the pattern binds them, a case has as many slots as the
largest of its choices has names, and a name stands for the innermost binding of its
spelling. The main statement is that compiling ensures this.
-/

namespace Casework

mutual

/-- Names and slots in the code of an expression inside so many cases are as they should
be. -/
def Code.Numbered : Code → (level : Nat) → Scope → Prop
  | .constant _ _, _, _ => True
  | .static _ _ _, _, _ => True
  | .name binding, _, scope => scope.find? binding.name = some binding
  | .tag _ payload _, level, scope => payload.Numbered level scope
  | .call _ left right _, level, scope => left.Numbered level scope ∧
      right.Numbered level scope
  | .list items _, level, scope => items.Numbered level scope
  | .select record _ _, level, scope => record.Numbered level scope
  | .caseOf report value arms, level, scope =>
      value.Numbered level scope ∧
        (arms.patterns.map (·.bindings.length)).max? = some report.slotCount ∧
        arms.Numbered level scope report.slotCount
termination_by structural code => code

def Codes.Numbered : Codes → (level : Nat) → Scope → Prop
  | .nil, _, _ => True
  | .cons head tail, level, scope => head.Numbered level scope ∧ tail.Numbered level scope
termination_by structural items => items

def Arms.Numbered : Arms → (level : Nat) → Scope → (slotCount : Nat) → Prop
  | .nil, _, _, _ => True
  | .cons pattern body tail, level, scope, slotCount =>
      NamesFit level slotCount pattern.bindings ∧
        body.Numbered (level + 1) (pattern.bindings.reverse ++ scope) ∧
        tail.Numbered level scope slotCount
  | .rest pattern tail, level, scope, slotCount =>
      NamesFit level slotCount pattern.bindings ∧ tail.Numbered level scope slotCount
termination_by structural arms => arms

end

theorem Arms.Numbered.namesFit : ∀ {arms : Arms} {level slotCount : Nat} {scope : Scope},
    arms.Numbered level scope slotCount → ∀ pattern ∈ arms.patterns,
      NamesFit level slotCount pattern.bindings
  | .nil, _, _, _, _, _, member => by cases member
  | .cons own body tail, _, _, _, numbered, pattern, member => by
      rcases List.mem_cons.1 member with rfl | later
      · exact numbered.1
      · exact namesFit numbered.2.2 pattern later
  | .rest own tail, _, _, _, numbered, pattern, member => by
      rcases List.mem_cons.1 member with rfl | later
      · exact numbered.1
      · exact namesFit numbered.2 pattern later

/-! ## Pieces -/

namespace Build

variable {level : Nat} {scope : Scope}

theorem numbered_constant (value : Constant) (primitive : Primitive) :
    (constant value primitive).Ensures fun _ code => code.Numbered level scope :=
  (ensures_newPrimitive primitive).narrows.seq fun _ => .pure fun _ => trivial

theorem numbered_staticField (setting : Setting) (place : Position)
    (owner field : String) :
    (staticField setting place owner field).Ensures fun _ code =>
      code.Numbered level scope := by
  unfold staticField
  dsimp only
  split
  · exact ensures_reject _ _
  next static _ =>
      refine (ensures_newOfKind static.kind).narrows.seq fun type => .pure fun _ => ?_
      split <;> trivial

theorem numbered_operation (place leftPlace rightPlace : Position) (operator : Operator)
    (left right : Code) :
    (operation place operator leftPlace rightPlace left right).Ensures fun _ code =>
      right.Numbered level scope → left.Numbered level scope →
        code.Numbered level scope := by
  -- The arithmetic operators differ in the routine that they call.
  have arithmetic : ∀ routine : Routine, (do
      unifyAt leftPlace left.type (← newPrimitive .number)
      unifyAt rightPlace right.type (← newPrimitive .number)
      return .call routine left right (← newPrimitive .number) :
        Build Code).Ensures fun _ code =>
        right.Numbered level scope → left.Numbered level scope →
          code.Numbered level scope := by
    intro routine
    refine (ensures_newPrimitive .number).narrows.seq fun leftNumber => ?_
    refine (ensures_unifyAt leftPlace left.type leftNumber).narrows.seq fun _ => ?_
    refine (ensures_newPrimitive .number).narrows.seq fun rightNumber => ?_
    refine (ensures_unifyAt rightPlace right.type rightNumber).narrows.seq fun _ => ?_
    refine (ensures_newPrimitive .number).narrows.seq fun type => .pure ?_
    exact fun _ rightNumbered leftNumbered => ⟨leftNumbered, rightNumbered⟩
  cases operator with
  | cons =>
      refine (ensures_newList left.type).narrows.seq fun type => ?_
      refine (ensures_unifyAt place type right.type).narrows.seq fun _ => .pure ?_
      exact fun _ rightNumbered leftNumbered => ⟨leftNumbered, rightNumbered⟩
  | add => exact arithmetic .add
  | subtract => exact arithmetic .subtract
  | multiply => exact arithmetic .multiply

theorem numbered_selection (place : Position) (record : Code) (field : String) :
    (selection place record field).Ensures fun _ code =>
      record.Numbered level scope → code.Numbered level scope := by
  refine ensures_newVar.narrows.seq fun type => ?_
  refine (Elaborate.ensures_newStruct field type).narrows.seq fun struct => ?_
  refine (ensures_unifyAt place record.type struct).narrows.seq fun _ => .pure ?_
  exact fun _ numbered => numbered

def NamesSurveyed (level : Nat) (scope : Scope) (checked : List (Pattern × Scope))
    (slotCount : Nat) : Prop :=
  ∀ choice ∈ checked, NamesFit level slotCount choice.1.bindings ∧
    choice.2 = choice.1.bindings.reverse ++ scope

theorem Surveyed.names {meaning : Meaning} {values : Value → Prop} {choices : List Choice}
    {checked : List (Pattern × Scope)} {slotCount : Nat}
    (surveyed : Surveyed meaning level scope values choices checked slotCount) :
    NamesSurveyed level scope checked slotCount :=
  fun choice member => (surveyed.good choice member).2

theorem Surveyed.max? {meaning : Meaning} {values : Value → Prop} {choices : List Choice}
    {checked : List (Pattern × Scope)} {slotCount : Nat}
    (surveyed : Surveyed meaning level scope values choices checked slotCount)
    (nonempty : choices ≠ []) :
    (checked.map (·.1.bindings.length)).max? = some slotCount := by
  have length := surveyed.length
  rw [surveyed.most]
  cases checked with
  | nil => exact absurd (List.length_eq_zero_iff.1 length.symm) nonempty
  | cons first rest =>
      rw [List.map_cons, List.max?_cons', List.foldl_cons, Nat.zero_max]

/-- The choices of a case have been compiled: their patterns are those that have been
checked, and their bodies are numbered. -/
def ArmsNumbered (level : Nat) (scope : Scope) (count : Nat)
    (checked : List (Pattern × Scope)) (compiled : Arms × Option Ref) : Prop :=
  checked.length = count → compiled.1.patterns = checked.map Prod.fst ∧
    ∀ slotCount, NamesSurveyed level scope checked slotCount →
      compiled.1.Numbered level scope slotCount

end Build

theorem Choices.toList_ne_nil {choices : Choices} (nonempty : choices.isEmpty = false) :
    choices.toList ≠ [] := by
  cases choices with
  | nil => cases nonempty
  | _ => exact List.cons_ne_nil _ _

/-! ## All expressions -/

variable (setting : Setting)

mutual

theorem Expr.numbered_compile : ∀ (expression : Expr) (level : Nat) (scope : Scope),
    (expression.compile setting level scope).Ensures fun _ code =>
      code.Numbered level scope
  | .number _ _ value, level, scope => Build.numbered_constant _ _
  | .string _ value, level, scope => Build.numbered_constant _ _
  | .unit _, level, scope => Build.numbered_constant _ _
  | .static place owner field, level, scope =>
      Build.numbered_staticField setting place owner field
  | .symbol place name, level, scope => by
      rw [Expr.compile_symbol]
      dsimp only
      split
      · exact Build.ensures_reject_bind _ _ _
      · split
        next binding found =>
            -- The binding has the name it was looked up by.
            have named : binding.name = name := by
              simpa using List.find?_some
                (show List.find? _ scope = some binding from found)
            refine .pure fun _ => ?_
            rw [← named] at found
            exact found
        next => exact Build.ensures_reject _ _
  | .apply place name argument, level, scope => by
      rw [Expr.compile_apply]
      dsimp only
      split
      · refine (argument.numbered_compile level scope).bind fun payload => ?_
        exact (Build.ensures_allocate _).narrows.seq fun variant =>
          .pure fun _ numbered => numbered
      · exact Build.ensures_reject_bind _ _ _
  | .binary place operator left right, level, scope => by
      rw [Expr.compile_binary]
      refine (left.numbered_compile level scope).bind fun leftCode => ?_
      refine (right.numbered_compile level scope).bind fun rightCode => ?_
      exact Build.numbered_operation place _ _ operator leftCode rightCode
  | .list place items, level, scope => by
      rw [Expr.compile_list]
      refine Build.ensures_newVar.narrows.seq fun element => ?_
      refine (Build.ensures_newList element).narrows.seq fun type => ?_
      exact (items.numbered_compile level scope element).bind fun codes =>
        .pure fun _ numbered => numbered
  | .select place record field, level, scope => by
      rw [Expr.compile_select]
      refine (record.numbered_compile level scope).bind fun code => ?_
      exact Build.numbered_selection place code field
  | .record place fields, level, scope => Build.ensures_reject _ _
  | .caseOf place value choices, level, scope => by
      rw [Expr.compile_caseOf]
      dsimp only
      split
      · split
        · exact Build.ensures_reject_bind _ _ _
        next nonempty =>
            have listed := Choices.toList_ne_nil (Bool.eq_false_iff.2 nonempty)
            refine (value.numbered_compile level scope).bind fun valueCode => ?_
            refine (Build.ensures_checkChoices setting level scope place choices.toList
              valueCode.type).bind fun checked => ?_
            refine (choices.numbered_compile level scope checked.choices none).bind ?_
            rintro ⟨arms, result⟩
            have finish : ∀ type : Ref, (do
                Build.joinArgument value.position valueCode.type checked.root
                return .caseOf
                  { position := place, type := type, slotCount := checked.slotCount,
                    sealed := checked.sealed, matchedType := checked.matchedType,
                    sealedTypes := checked.sealedTypes }
                  valueCode arms : Build Code).Ensures fun meaning code =>
                Build.ArmsNumbered level scope choices.toList.length checked.choices
                  (arms, result) →
                  Build.Surveyed meaning level scope (meaning checked.root) choices.toList
                    checked.choices checked.slotCount →
                  valueCode.Numbered level scope → code.Numbered level scope := by
              intro type
              refine (Build.ensures_joinArgument value.position valueCode.type
                checked.root).narrows.seq fun _ => .pure ?_
              intro meaning armsNumbered surveyed valueNumbered
              obtain ⟨patterns, numbered⟩ := armsNumbered surveyed.length
              refine ⟨valueNumbered, ?_, numbered _ surveyed.names⟩
              rw [show arms.patterns = _ from patterns, List.map_map]
              exact surveyed.max? listed
            cases result with
            | some type => exact finish type
            | none => exact Build.ensures_newVar.narrows.seq fun type => finish type
      · exact Build.ensures_reject_bind _ _ _
termination_by structural expression => expression

theorem Exprs.numbered_compile :
    ∀ (items : Exprs) (level : Nat) (scope : Scope) (element : Ref),
    (items.compile setting level scope element).Ensures fun _ codes =>
      codes.Numbered level scope
  | .nil, level, scope, element => .pure fun _ => trivial
  | .cons head tail, level, scope, element => by
      rw [Exprs.compile_cons]
      refine (head.numbered_compile level scope).bind fun code => ?_
      refine (Build.ensures_unifyAt head.position element code.type).narrows.seq fun _ =>
        ?_
      refine (tail.numbered_compile level scope element).bind fun codes => .pure ?_
      exact fun _ tailNumbered headNumbered => ⟨headNumbered, tailNumbered⟩
termination_by structural items => items

theorem Choices.numbered_compile :
    ∀ (choices : Choices) (level : Nat) (scope : Scope) (checked : List (Pattern × Scope))
      (result : Option Ref),
      (choices.compile setting level checked result).Ensures fun _ =>
        Build.ArmsNumbered level scope choices.toList.length checked
  | .cons place pattern body tail, level, scope, (own, bound) :: checked, result => by
      rw [Choices.compile_cons]
      refine (body.numbered_compile (level + 1) bound).bind fun code => ?_
      refine (Build.ensures_joinBody body.position result code.type).narrows.seq
        fun type => ?_
      refine (tail.numbered_compile level scope checked (some type)).bind ?_
      rintro ⟨arms, last⟩
      refine .pure fun _ tailNumbered bodyNumbered length => ?_
      obtain ⟨patterns, numbered⟩ := tailNumbered (Nat.succ.inj length)
      refine ⟨congrArg (own :: ·) patterns, fun slotCount names => ?_⟩
      obtain ⟨fit, equal⟩ := names (own, bound) List.mem_cons_self
      rw [show bound = own.bindings.reverse ++ scope from equal] at bodyNumbered
      exact ⟨fit, bodyNumbered, numbered slotCount fun choice member =>
        names choice (List.mem_cons_of_mem _ member)⟩
  | .rest place tail, level, scope, (own, bound) :: checked, result => by
      rw [Choices.compile_rest]
      refine (tail.numbered_compile level scope checked result).bind ?_
      rintro ⟨arms, last⟩
      refine .pure fun _ tailNumbered length => ?_
      obtain ⟨patterns, numbered⟩ := tailNumbered (Nat.succ.inj length)
      refine ⟨congrArg (own :: ·) patterns, fun slotCount names => ?_⟩
      exact ⟨(names (own, bound) List.mem_cons_self).1,
        numbered slotCount fun choice member =>
        names choice (List.mem_cons_of_mem _ member)⟩
  | .nil, level, scope, checked, result => by
      refine .pure fun _ length => ?_
      cases checked with
      | nil => exact ⟨rfl, fun _ _ => trivial⟩
      | cons _ _ => cases length
  | .cons _ _ _ _, level, scope, [], result => .pure fun _ length => by cases length
  | .rest _ _, level, scope, [], result => .pure fun _ length => by cases length
termination_by structural choices => choices

end

end Casework
