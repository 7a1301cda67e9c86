import Casework.Proofs.PatternTyping
import Casework.Proofs.Searching
import Casework.Typing.Expr

/-!
Compiled expressions have their types.

What the parts of an expression must compute is said by the structure of its code, for one
model of the types: operands have the types that a routine needs, a selected field is
there, bodies have the type of their case. The main statement is that compiling ensures
this for every model of the graph that it leaves.
-/

namespace Casework

/-! ## Typed code -/

/-- The names of a choice take the slots of its case one after the other, as far as there
are any. -/
def NamesFit (level slotCount : Nat) (bindings : List Binding) : Prop :=
  bindings.map (·.slot) = (List.range bindings.length).map (.inCase level) ∧
    bindings.length ≤ slotCount

mutual

def Code.Typed (meaning : Meaning) (library : Library) :
    Code → (level : Nat) → Scope → Prop
  | .constant value type, _, _ => meaning type (.ofConstant value)
  | .static owner name type, _, _ => meaning type (library.static owner name)
  | .name binding, _, scope => binding ∈ scope
  | .tag name payload type, level, scope =>
      payload.Typed meaning library level scope ∧
        ∀ value, meaning payload.type value → meaning type (.tagged name value)
  | .call routine left right type, level, scope =>
      left.Typed meaning library level scope ∧ right.Typed meaning library level scope ∧
        ∀ first second, meaning left.type first → meaning right.type second →
          ∃ result, routine.result? library [second, first] = some result ∧
            meaning type result
  | .list items type, level, scope =>
      ∃ element, items.Typed meaning library level scope element ∧
        ∀ value, value.IsListOf element → meaning type value
  | .select record field type, level, scope =>
      record.Typed meaning library level scope ∧
        ∀ value, meaning record.type value → ∃ members part, value = .struct members ∧
          members.get? field = some part ∧ meaning type part
  | .caseOf report value arms, level, scope =>
      value.Typed meaning library level scope ∧
        arms.Typed meaning library level scope (meaning value.type) (meaning report.type)
          report.slotCount
termination_by structural code => code

def Codes.Typed (meaning : Meaning) (library : Library) :
    Codes → (level : Nat) → Scope → (element : Value → Prop) → Prop
  | .nil, _, _, _ => True
  | .cons head tail, level, scope, element =>
      head.Typed meaning library level scope ∧ meaning head.type = element ∧
        tail.Typed meaning library level scope element
termination_by structural items => items

def Arms.Typed (meaning : Meaning) (library : Library) :
    Arms → (level : Nat) → Scope → (values results : Value → Prop) →
      (slotCount : Nat) → Prop
  | .nil, _, _, _, _, _ => True
  | .cons pattern body tail, level, scope, values, results, slotCount =>
      pattern.Typed meaning values ∧ NamesFit level slotCount pattern.bindings ∧
        body.Typed meaning library (level + 1) (pattern.bindings.reverse ++ scope) ∧
        meaning body.type = results ∧
        tail.Typed meaning library level scope values results slotCount
  | .rest _ tail, level, scope, values, results, slotCount =>
      tail.Typed meaning library level scope values results slotCount
termination_by structural arms => arms

end

/-- The values of fields of foreign classes agree with the kinds that are declared for
them. -/
def Setting.Agrees (library : Library) (setting : Setting) : Prop :=
  ∀ owner field static, setting.static? (owner ++ "#" ++ field) = some static →
    ∀ primitive, static.kind = .primitive primitive → primitive.Has
      (if static.isConstant then .ofConstant static.value else library.static owner field)

namespace Build

variable {library : Library} {level : Nat} {scope : Scope}
  {leftPlace rightPlace : Position}

/-! ## Expressions without parts -/

theorem ensures_newOfKind (kind : Kind) :
    (newOfKind kind).Ensures fun meaning ref =>
      ∃ primitive, kind = .primitive primitive ∧
        ∀ value, meaning ref value ↔ primitive.Has value := by
  cases kind with
  | primitive own =>
      exact (ensures_newPrimitive own).mono fun _ _ holds => ⟨own, rfl, holds⟩
  | _ => exact .throw _

theorem ensures_constant (value : Constant) (primitive : Primitive)
    (has : primitive.Has (.ofConstant value)) :
    (constant value primitive).Ensures fun meaning code =>
      code.Typed meaning library level scope :=
  (ensures_newPrimitive primitive).bind fun _ => .pure fun _ holds => (holds _).2 has

theorem ensures_staticField {setting : Setting} (agrees : setting.Agrees library)
    (place : Position) (owner field : String) :
    (staticField setting place owner field).Ensures fun meaning code =>
      code.Typed meaning library level scope := by
  unfold staticField
  dsimp only
  split
  · exact ensures_reject _ _
  next static found =>
      refine (ensures_newOfKind static.kind).bind fun type => .pure ?_
      rintro meaning ⟨primitive, kind, holds⟩
      have has := agrees owner field static found primitive kind
      split
      next isConstant =>
          rw [if_pos isConstant] at has
          exact (holds _).2 has
      next isForeign =>
          rw [if_neg isForeign] at has
          exact (holds _).2 has

/-! ## Operators -/

theorem ensures_cons (place : Position) (left right : Code) :
    (operation place .cons leftPlace rightPlace left right).Ensures fun meaning code =>
      right.Typed meaning library level scope → left.Typed meaning library level scope →
        code.Typed meaning library level scope := by
  refine (ensures_newList left.type).bind fun type => ?_
  refine (ensures_unifyAt place type right.type).bind fun _ => .pure ?_
  intro meaning same lists rightTyped leftTyped
  refine ⟨leftTyped, rightTyped, fun head tail hasHead hasTail => ?_⟩
  rw [← same, lists] at hasTail
  rcases hasTail with ⟨items, found, each⟩
  refine ⟨.list (.cons head items), by simp [Routine.result?, found], (lists _).2 ?_⟩
  exact Value.isListOf_cons.2 ⟨hasHead, ⟨items, rfl, each⟩⟩

theorem ensures_arithmetic (left right : Code) (routine : Routine)
    (computes : ∀ first second, ∃ result,
      routine.result? library [.number second, .number first] = some (.number result)) :
    (do
      unifyAt leftPlace left.type (← newPrimitive .number)
      unifyAt rightPlace right.type (← newPrimitive .number)
      return .call routine left right (← newPrimitive .number) : Build Code).Ensures
      fun meaning code =>
        right.Typed meaning library level scope → left.Typed meaning library level scope →
          code.Typed meaning library level scope := by
  refine (ensures_newPrimitive .number).bind fun leftNumber => ?_
  refine (ensures_unifyAt leftPlace left.type leftNumber).bind fun _ => ?_
  refine (ensures_newPrimitive .number).bind fun rightNumber => ?_
  refine (ensures_unifyAt rightPlace right.type rightNumber).bind fun _ => ?_
  refine (ensures_newPrimitive .number).bind fun type => .pure ?_
  intro meaning isNumber rightSame rightHas leftSame leftHas rightTyped leftTyped
  refine ⟨leftTyped, rightTyped, fun first second hasFirst hasSecond => ?_⟩
  rw [leftSame, leftHas] at hasFirst
  rw [rightSame, rightHas] at hasSecond
  rcases hasFirst with ⟨leftValue, rfl⟩
  rcases hasSecond with ⟨rightValue, rfl⟩
  rcases computes leftValue rightValue with ⟨result, computed⟩
  exact ⟨.number result, computed, (isNumber _).2 ⟨result, rfl⟩⟩

theorem ensures_operation (place : Position) (operator : Operator) (left right : Code) :
    (operation place operator leftPlace rightPlace left right).Ensures fun meaning code =>
      right.Typed meaning library level scope → left.Typed meaning library level scope →
        code.Typed meaning library level scope := by
  cases operator with
  | cons => exact ensures_cons place left right
  | add => exact ensures_arithmetic left right .add fun _ _ => ⟨_, rfl⟩
  | subtract => exact ensures_arithmetic left right .subtract fun _ _ => ⟨_, rfl⟩
  | multiply => exact ensures_arithmetic left right .multiply fun _ _ => ⟨_, rfl⟩

theorem ensures_selection (place : Position) (record : Code) (field : String) :
    (selection place record field).Ensures fun meaning code =>
      record.Typed meaning library level scope →
        code.Typed meaning library level scope := by
  refine ensures_newVar.narrows.seq fun type => ?_
  refine (Elaborate.ensures_newStruct field type).bind fun struct => ?_
  refine (ensures_unifyAt place record.type struct).bind fun _ => .pure ?_
  intro meaning same holds typed
  refine ⟨typed, ?_⟩
  rw [same]
  exact holds

/-! ## Sealing and coverage -/

theorem narrows_variantRoots (refs found : List Ref) :
    (variantRoots refs found).Narrows := by
  induction refs generalizing found with
  | nil => exact .pure fun _ => trivial
  | cons ref rest induction =>
      refine (narrows_look _).seq fun root => (narrows_kind root).seq fun kind => ?_
      split
      · exact induction _
      · exact induction _

theorem narrows_copyTags (target source : Ref) : (copyTags target source).Narrows := by
  refine .seq (.seq (narrows_look _) fun _ => .pure fun _ => trivial) fun row => ?_
  refine (narrows_forIn fun entry _ => ?_).seq fun _ => .pure fun _ => trivial
  rcases entry with ⟨tag, type⟩
  intro graph value later done meaning models
  rcases of_on_bind done with ⟨own, start, looked, afterMember⟩
  rcases of_on_member? looked with ⟨node, rooted, equal, rfl⟩
  split at afterMember
  next missing =>
      rw [Option.isNone_iff_eq_none] at missing
      rcases of_on_bind afterMember with ⟨allowed, middle, read, afterAllows⟩
      rcases of_on_allows read with ⟨rfl, own, ownRooted, rfl⟩
      rw [rooted] at ownRooted
      cases ownRooted
      split at afterAllows
      next allowed =>
          rcases of_on_bind afterAllows with ⟨_, _, put, returned⟩
          cases returned
          refine ⟨(of_on_putMember put rooted (equal.symm.trans missing) ?_ models).1,
            trivial⟩
          intro row bounded
          rw [Option.mem_def.1 bounded] at allowed
          exact allowed
      next =>
          cases afterAllows
          exact ⟨models, trivial⟩
  next =>
      cases afterMember
      exact ⟨models, trivial⟩

theorem narrows_shareTags (unfolding : Nat) : (shareTags unfolding).Narrows := by
  refine .seq (narrows_get.seq fun _ => .pure fun _ => trivial) fun shared => ?_
  refine (narrows_forIn fun positions _ => ?_).seq fun _ => .pure fun _ => trivial
  refine (narrows_variantRoots positions []).seq fun roots => ?_
  refine .seq (narrows_forIn fun target _ => ?_) fun _ => .pure fun _ => trivial
  refine .seq (narrows_forIn fun source _ => ?_) fun _ => .pure fun _ => trivial
  exact (narrows_copyTags target source).seq fun _ => .pure fun _ => trivial

theorem narrows_sealAll (refs : List Ref) : (sealAll refs).Narrows := by
  induction refs with
  | nil => exact .pure fun _ => trivial
  | cons ref rest induction =>
      refine (narrows_look _).seq fun root => (narrows_kind root).seq fun kind => ?_
      refine (narrows_hasAny ref).seq fun any =>
        (narrows_hasAny root).seq fun rootAny => ?_
      have others : ∀ wasOpen : Bool, (do
          let others ← sealAll rest
          return if wasOpen then root :: others else others : Build (List Ref)).Narrows :=
        fun _ => induction.seq fun _ => .pure fun _ => trivial
      dsimp only
      split
      · exact others false
      · exact (narrows_sealVariant root).seq others

theorem narrows_payloadText (payload : Ref) : (payloadText payload).Narrows := by
  refine (narrows_expand payload).seq fun _ => (narrows_kind payload).seq fun kind => ?_
  split
  · exact .pure fun _ => trivial
  · exact (narrows_look _).seq fun _ => .pure fun _ => trivial

theorem narrows_gapText (gap : Gap) : (gapText gap).Narrows := by
  induction gap with
  | emptyList => exact .pure fun _ => trivial
  | nonEmptyList => exact .pure fun _ => trivial
  | value text => exact .pure fun _ => trivial
  | missing tag payload =>
      exact (narrows_payloadText payload).seq fun _ => .pure fun _ => trivial
  | element gap induction => exact induction.seq fun _ => .pure fun _ => trivial
  | field name gap induction => exact induction.seq fun _ => .pure fun _ => trivial
  | payload tag gap induction => exact induction.seq fun _ => .pure fun _ => trivial

theorem narrows_told (found : Except Fault (Option Gap)) : (told found).Narrows := by
  refine (narrows_look _).seq fun gap? => ?_
  split
  · exact .pure fun _ => trivial
  · exact (narrows_gapText _).seq fun _ => .pure fun _ => trivial

theorem narrows_gap? (ref : Ref) : (gap? ref).Narrows := by
  intro graph value later done
  rw [on_gap?] at done
  exact narrows_told _ graph value later done

/-! ## Choices -/

def Good (meaning : Meaning) (level : Nat) (scope : Scope) (values : Value → Prop)
    (slotCount : Nat) (choice : Pattern × Scope) : Prop :=
  choice.1.Typed meaning values ∧ NamesFit level slotCount choice.1.bindings ∧
    choice.2 = choice.1.bindings.reverse ++ scope

/-- The choices of a case have been checked one by one, and its slots are as many as the
largest of them needs. -/
structure Surveyed (meaning : Meaning) (level : Nat) (scope : Scope)
    (values : Value → Prop) (choices : List Choice) (checked : List (Pattern × Scope))
    (slotCount : Nat) : Prop where
  good : ∀ choice ∈ checked, Good meaning level scope values slotCount choice
  length : checked.length = choices.length
  most : slotCount = (checked.map (·.1.bindings.length)).foldl max 0

theorem ensures_elaborateChoices (setting : Setting) (level : Nat)
    (scope : Scope) (type : Ref) (choices : List Choice) :
    (elaborateChoices setting level scope type choices).Ensures
      fun before meaning checked after => before.slotCount ≤ after.slotCount ∧
        (∀ choice ∈ checked, Good meaning level scope
          (meaning type) after.slotCount choice) ∧
        checked.length = choices.length ∧
        after.slotCount = (checked.map (·.1.bindings.length)).foldl max
          before.slotCount := by
  induction choices with
  | nil => exact .pure fun state _ => ⟨Nat.le_refl _, nofun, rfl, rfl⟩
  | cons choice rest induction =>
      refine .bind (Elaborate.ensures_modify _) fun _ => ?_
      refine .bind (choice.pattern.checks_elaborate setting level false type)
        fun pattern => ?_
      refine .bind Elaborate.ensures_get fun state =>
        .bind induction fun others => .pure ?_
      rintro after meaning middle ⟨grown, good, length, most⟩ same ⟨rfl, rfl⟩ start
        ⟨_, binds, rfl, typed⟩ before rfl
      have room := binds.room (Nat.zero_le _)
      have enough := binds.most
      have more := binds.slotCount
      rw [binds.nextSlot, Nat.zero_add] at room enough
      refine ⟨Nat.le_trans binds.slotCount grown, fun entry member =>
        ?_, congrArg Nat.succ length, ?_⟩
      · rcases List.mem_cons.1 member with rfl | later
        · refine ⟨typed, ⟨?_, Nat.le_trans room grown⟩, binds.scope⟩
          rw [binds.slots, List.range_eq_range']
        · exact good entry later
      · rw [most, List.map_cons, List.foldl_cons]
        congr 1
        exact Nat.le_antisymm enough (Nat.max_le.2 ⟨more, room⟩)

theorem ensures_checkUnfolded (setting : Setting) (level : Nat) (scope : Scope)
    (place : Position) (choices : List Choice) (unfolding : Nat) :
    (checkUnfolded setting level scope place choices unfolding).Ensures
      fun meaning checked =>
      Surveyed meaning level scope (meaning checked.root) choices checked.choices
        checked.slotCount := by
  refine .seq (narrows_get.seq fun _ => .pure fun _ => trivial) fun root => ?_
  refine (ensures_elaborateChoices setting level scope root choices {}).bind ?_
  rintro ⟨patterns, state⟩
  refine (narrows_look _).seq fun matchedType =>
    (narrows_shareTags unfolding).seq fun _ => ?_
  refine (narrows_gap? root).seq fun gap => ?_
  have sealing : (do
      let sealed ← sealAll state.registered
      let sealedTypes ← sealed.mapM text
      return ⟨root, patterns, state.slotCount, sealed, matchedType,
        sortTexts sealedTypes⟩ :
        Build Checked).Ensures fun _ checked =>
        checked.root = root ∧ checked.choices = patterns ∧ checked.slotCount =
          state.slotCount := by
    refine (narrows_sealAll _).seq fun sealed => ?_
    refine .seq (narrows_mapM fun _ => narrows_look _) fun sealedTypes => ?_
    exact .pure fun _ => ⟨rfl, rfl, rfl⟩
  dsimp only
  split
  · exact ensures_reject_bind _ _ _
  · refine sealing.mono fun meaning checked same surveyed => ?_
    rw [same.1, same.2.1, same.2.2]
    exact ⟨surveyed.2.1, surveyed.2.2.1, surveyed.2.2.2⟩

theorem ensures_checkChoices (setting : Setting) (level : Nat) (scope : Scope)
    (place : Position) (choices : List Choice) (type : Ref) :
    (checkChoices setting level scope place choices type).Ensures fun meaning checked =>
      Surveyed meaning level scope (meaning checked.root) choices checked.choices
        checked.slotCount := by
  refine (narrows_unfold type).seq fun unfolding => ?_
  refine (ensures_checkUnfolded setting level scope place choices unfolding).bind
    fun checked => ?_
  exact (narrows_fold unfolding).seq fun _ => .pure fun _ surveyed => surveyed

end Build

/-! ## Equations for expressions -/

section Equations

variable (setting : Setting) (place : Position) (level : Nat) (scope : Scope)

theorem Expr.compile_symbol (name : String) :
    (symbol place name).compile setting level scope = (do
      if isWildcardName name then Build.reject place (.notExpression name)
      match scope.find? name with
      | some binding => return .name binding
      | none => Build.reject place (.unknownName name)) := rfl

theorem Expr.compile_apply (name : String) (argument : Expr) :
    (apply place name argument).compile setting level scope = (do
      unless isTagName name do
        Build.reject place (.unsupportedApplication (Expr.apply place name argument).text)
      let payload ← argument.compile setting level scope
      return .tag name payload (← Build.newOpen .variant [(name, payload.type)])) := rfl

theorem Expr.compile_binary (operator : Operator) (left right : Expr) :
    (binary place operator left right).compile setting level scope = (do
      let leftCode ← left.compile setting level scope
      let rightCode ← right.compile setting level scope
      Build.operation place operator left.position right.position leftCode rightCode) :=
        rfl

theorem Expr.compile_list (items : Exprs) :
    (list place items).compile setting level scope = (do
      let element ← Build.newVar
      let type ← Build.newList element
      return .list (← items.compile setting level scope element) type) := rfl

theorem Expr.compile_select (record : Expr) (field : String) :
    (select place record field).compile setting level scope = (do
      Build.selection place (← record.compile setting level scope) field) := rfl

theorem Expr.compile_caseOf (value : Expr) (choices : Choices) :
    (caseOf place value choices).compile setting level scope = (do
      unless setting.hasCases do Build.reject place .noCases
      if choices.isEmpty then Build.reject place .noChoices
      let valueCode ← value.compile setting level scope
      let checked ← Build.checkChoices setting level scope place
        choices.toList valueCode.type
      let (arms, result) ← choices.compile setting level checked.choices none
      let type ← match result with
        | some type => pure type
        | none => Build.newVar
      Build.joinArgument value.position valueCode.type checked.root
      return .caseOf
        { position := place, type := type, slotCount := checked.slotCount,
          sealed := checked.sealed,
          matchedType := checked.matchedType, sealedTypes := checked.sealedTypes }
        valueCode arms) := rfl

theorem Exprs.compile_cons (head : Expr) (tail : Exprs) (element : Ref) :
    (cons head tail).compile setting level scope element = (do
      let code ← head.compile setting level scope
      Build.unifyAt head.position element code.type
      return .cons code (← tail.compile setting level scope element)) := rfl

theorem Choices.compile_cons (pattern body : Expr) (tail : Choices) (own : Pattern)
    (checked : List (Pattern × Scope)) (result : Option Ref) :
    (cons place pattern body tail).compile setting level
      ((own, scope) :: checked) result = (do
      let code ← body.compile setting (level + 1) scope
      let type ← Build.joinBody body.position result code.type
      let (arms, result) ← tail.compile setting level checked (some type)
      return (.cons own code arms, result)) := rfl

theorem Choices.compile_rest (tail : Choices) (own : Pattern)
    (checked : List (Pattern × Scope)) (result : Option Ref) :
    (rest place tail).compile setting level ((own, scope) :: checked) result = (do
      let (arms, result) ← tail.compile setting level checked result
      return (.rest own arms, result)) := rfl

end Equations

/-! ## All expressions -/

namespace Build

theorem ensures_joinBody (place : Position) (result : Option Ref) (type : Ref) :
    (joinBody place result type).Ensures fun meaning joined =>
      meaning type = meaning joined ∧ ∀ own, result = some own → meaning own =
        meaning joined := by
  cases result with
  | none => exact .pure fun _ => ⟨rfl, nofun⟩
  | some result =>
      refine (narrows_look _).seq fun _ => (narrows_look _).seq fun _ => ?_
      refine (ensures_unifyOr result type fun _ => ensures_reject _ _).bind
        fun _ => .pure ?_
      intro meaning same
      refine ⟨same.symm, ?_⟩
      rintro own equal
      cases equal
      rfl

theorem ensures_joinArgument (place : Position) (given inferred : Ref) :
    (joinArgument place given inferred).Ensures fun meaning _ =>
      meaning given = meaning inferred :=
  (narrows_look _).seq fun _ => (narrows_look _).seq fun _ =>
    ensures_unifyOr given inferred fun _ => ensures_reject _ _

/-- Compiled choices are typed. Whatever the results of the case are, the bodies have
them, and so has the type of the bodies before. -/
def ArmsTyped (library : Library) (level : Nat) (scope : Scope)
    (checked : List (Pattern × Scope)) (slotCount : Nat) (before : Option Ref)
    (meaning : Meaning) (compiled : Arms × Option Ref) :
    Prop :=
  ∀ values results : Value → Prop,
    (∀ choice ∈ checked, Good meaning level scope values slotCount choice) →
    (∀ type, compiled.2 = some type → meaning type = results) →
    compiled.1.Typed meaning library level scope values results slotCount ∧
      ∀ type, before = some type → meaning type = results

theorem ensures_finishCase {library : Library} {level : Nat} {scope : Scope}
    {valueCode : Code} {checked : Checked} {arms : Arms}
    {result : Option Ref} {type : Ref} (place valuePlace : Position)
    (same : ∀ own, result = some own → own = type) :
    (do
      joinArgument valuePlace valueCode.type checked.root
      return .caseOf
        { position := place, type := type, slotCount := checked.slotCount,
          sealed := checked.sealed,
          matchedType := checked.matchedType, sealedTypes := checked.sealedTypes }
        valueCode arms : Build Code).Ensures fun meaning code =>
      ArmsTyped library level scope checked.choices checked.slotCount none meaning
        (arms, result) →
      (∀ choice ∈ checked.choices,
        Good meaning level scope (meaning checked.root) checked.slotCount choice) →
      valueCode.Typed meaning library level scope →
      code.Typed meaning library level scope := by
  refine (ensures_joinArgument valuePlace valueCode.type checked.root).bind
    fun _ => .pure ?_
  intro meaning joined armsTyped good valueTyped
  refine ⟨valueTyped, ?_⟩
  rw [joined]
  refine (armsTyped _ (meaning type) good fun own found => ?_).1
  rw [same own found]

end Build

variable {library : Library} {setting : Setting}

mutual

theorem Expr.ensures_compile (agrees : setting.Agrees library) :
    ∀ (expression : Expr) (level : Nat) (scope : Scope),
      (expression.compile setting level scope).Ensures fun meaning code =>
        code.Typed meaning library level scope
  | .number _ _ value, level, scope => Build.ensures_constant _ _ ⟨value, rfl⟩
  | .string _ value, level, scope => Build.ensures_constant _ _ ⟨value, rfl⟩
  | .unit _, level, scope => Build.ensures_constant _ _ rfl
  | .static place owner field, level, scope =>
      Build.ensures_staticField agrees place owner field
  | .symbol place name, level, scope => by
      rw [Expr.compile_symbol]
      dsimp only
      split
      · exact Build.ensures_reject_bind _ _ _
      · split
        next binding found =>
            exact .pure fun _ => List.mem_of_find?_eq_some found
        next => exact Build.ensures_reject _ _
  | .apply place name argument, level, scope => by
      rw [Expr.compile_apply]
      dsimp only
      split
      · refine (argument.ensures_compile agrees level scope).bind fun payload => ?_
        refine (Build.ensures_allocate _).bind fun variant =>
          .pure fun meaning holds typed => ?_
        refine ⟨typed, fun value has => ?_⟩
        exact (holds.2.2 name payload.type (by simp [Row.ofList]) value).2 has
      · exact Build.ensures_reject_bind _ _ _
  | .binary place operator left right, level, scope => by
      rw [Expr.compile_binary]
      refine (left.ensures_compile agrees level scope).bind fun leftCode => ?_
      refine (right.ensures_compile agrees level scope).bind fun rightCode => ?_
      exact Build.ensures_operation place operator leftCode rightCode
  | .list place items, level, scope => by
      rw [Expr.compile_list]
      refine Build.ensures_newVar.narrows.seq fun element => ?_
      refine (Build.ensures_newList element).bind fun type => ?_
      refine (items.ensures_compile agrees level scope element).bind fun codes => .pure ?_
      exact fun meaning typed lists =>
        ⟨meaning element, typed, fun value => (lists value).2⟩
  | .select place record field, level, scope => by
      rw [Expr.compile_select]
      refine (record.ensures_compile agrees level scope).bind fun code => ?_
      exact Build.ensures_selection place code field
  | .record place fields, level, scope => Build.ensures_reject _ _
  | .caseOf place value choices, level, scope => by
      rw [Expr.compile_caseOf]
      dsimp only
      split
      · split
        · exact Build.ensures_reject_bind _ _ _
        · refine (value.ensures_compile agrees level scope).bind fun valueCode => ?_
          refine ((Build.ensures_checkChoices setting level scope place choices.toList
            valueCode.type).mono fun _ _ surveyed => surveyed.good).bind fun checked => ?_
          refine (choices.ensures_compile agrees level scope checked.choices none
            checked.slotCount).bind ?_
          rintro ⟨arms, result⟩
          cases result with
          | some type =>
              exact Build.ensures_finishCase place value.position fun own found =>
                (Option.some.inj found).symm
          | none =>
              exact Build.ensures_newVar.narrows.seq fun type =>
                Build.ensures_finishCase place value.position nofun
      · exact Build.ensures_reject_bind _ _ _
termination_by structural expression => expression

theorem Exprs.ensures_compile (agrees : setting.Agrees library) :
    ∀ (items : Exprs) (level : Nat) (scope : Scope) (element : Ref),
      (items.compile setting level scope element).Ensures fun meaning codes =>
        codes.Typed meaning library level scope (meaning element)
  | .nil, level, scope, element => .pure fun _ => trivial
  | .cons head tail, level, scope, element => by
      rw [Exprs.compile_cons]
      refine (head.ensures_compile agrees level scope).bind fun code => ?_
      refine (Build.ensures_unifyAt head.position element code.type).bind fun _ => ?_
      refine (tail.ensures_compile agrees level scope element).bind fun codes => .pure ?_
      exact fun meaning tailTyped same typed => ⟨typed, same.symm, tailTyped⟩
termination_by structural items => items

theorem Choices.ensures_compile (agrees : setting.Agrees library) :
    ∀ (choices : Choices) (level : Nat) (scope : Scope) (checked : List (Pattern × Scope))
      (result : Option Ref) (slotCount : Nat),
      (choices.compile setting level checked result).Ensures
        (Build.ArmsTyped library level scope checked slotCount result)
  | .cons place pattern body tail, level, scope, (own, bound) :: checked,
      result, slotCount => by
      rw [Choices.compile_cons]
      refine (body.ensures_compile agrees (level + 1) bound).bind fun code => ?_
      refine (Build.ensures_joinBody body.position result code.type).bind fun type => ?_
      refine (tail.ensures_compile agrees level scope checked (some type) slotCount).bind
        ?_
      rintro ⟨arms, last⟩
      refine .pure fun meaning tailTyped joined typed values results good final => ?_
      have others := tailTyped values results
        (fun choice member => good choice (List.mem_cons_of_mem _ member)) final
      rcases good (own, bound) List.mem_cons_self with ⟨ownTyped, names, equal⟩
      have same := others.2 type rfl
      rw [show bound = own.bindings.reverse ++ scope from equal] at typed
      refine ⟨⟨ownTyped, names, typed, joined.1.trans same, others.1⟩,
        fun earlier found => ?_⟩
      exact (joined.2 earlier found).trans same
  | .rest place tail, level, scope, (own, bound) :: checked, result, slotCount => by
      rw [Choices.compile_rest]
      refine (tail.ensures_compile agrees level scope checked result slotCount).bind ?_
      rintro ⟨arms, last⟩
      refine .pure fun meaning tailTyped values results good final => ?_
      exact tailTyped values results
        (fun choice member => good choice (List.mem_cons_of_mem _ member)) final
  | .nil, level, scope, checked, result, slotCount =>
      .pure fun _ _ _ _ final => ⟨trivial, final⟩
  | .cons _ _ _ _, level, scope, [], result, slotCount =>
      .pure fun _ _ _ _ final => ⟨trivial, final⟩
  | .rest _ _, level, scope, [], result, slotCount =>
      .pure fun _ _ _ _ final => ⟨trivial, final⟩
termination_by structural choices => choices

end

end Casework
