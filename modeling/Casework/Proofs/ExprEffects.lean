import Casework.Proofs.CaseIsolation

/-!
What compiling expressions does to types.

An expression is compiled in a tidy graph, and it leaves a tidy graph. The patterns of its
cases are checked against copies, which are folded before anything else is done. So no
part of compiling ever meets a position, and all references it follows name nodes.
-/

namespace Casework

open TypeGraph

variable {graph middle : TypeGraph} {left right type : Ref} {calm : Prop}

def Reported (calm : Prop) (failure : Failure) (_ : TypeGraph) : Prop :=
  calm → failure.isPanic = false

namespace Build

/-- A type that has been made while the graph stayed tidy. -/
def Makes (graph : TypeGraph) (ref : Ref) (later : TypeGraph) : Prop :=
  graph.Becomes later ∧ later.Has ref

theorem yields_reported {α : Type} {done : α → TypeGraph → Prop} (place : Position)
    (cause : CompileCause) :
    (reject place cause : Build α).Yields graph done (Reported calm) :=
  yields_throw fun _ => rfl

theorem yields_text_tidy (tidy : graph.Tidy) (has : graph.Has type)
    {failed : Failure → TypeGraph → Prop} :
    (text type).Yields graph (fun _ later => graph = later) failed := by
  rcases tidy.text has with ⟨text, shown⟩
  exact yields_look shown rfl

theorem yields_unifyOr_tidy (tidy : graph.Tidy) (leftHas : graph.Has left)
    (rightHas : graph.Has right) {report : Mismatch → Build Unit}
    (reports : ∀ mismatch later, (report mismatch).Yields later (fun _ _ => False)
      (Reported calm)) :
    (unifyOr left right report).Yields graph (fun _ later => graph.Becomes later)
      (Reported calm) := by
  apply (yields_unify_tidy tidy leftHas rightHas).tryCatch
  rintro failure later ⟨⟨clash, rfl⟩, _⟩
  exact (reports clash later).imp fun _ _ => False.elim

theorem yields_unifyAt_tidy (tidy : graph.Tidy) (place : Position)
    (leftHas : graph.Has left) (rightHas : graph.Has right) :
    (unifyAt place left right).Yields graph (fun _ later => graph.Becomes later)
      (Reported calm) :=
  yields_unifyOr_tidy tidy leftHas rightHas fun _ _ => yields_reported _ _

/-! ## Expressions without parts -/

theorem yields_constant_tidy (tidy : graph.Tidy) (value : Constant)
    (primitive : Primitive) {failed : Failure → TypeGraph → Prop} :
    (constant value primitive).Yields graph (fun code => Makes graph code.type) failed :=
  (yields_newPrimitive tidy primitive).bind fun _ _ made => yields_pure made

theorem yields_staticField_tidy (tidy : graph.Tidy) (setting : Setting) (place : Position)
    (owner field : String) :
    (staticField setting place owner field).Yields graph
      (fun code => Makes graph code.type)
      (Reported setting.Primitive) := by
  unfold staticField
  dsimp only
  split
  · exact yields_reported _ _
  next static isStatic =>
      have made : (newOfKind static.kind).Yields graph (Makes graph)
          (Reported setting.Primitive) := by
        unfold newOfKind
        split
        · exact yields_newPrimitive tidy _
        next notPrimitive =>
            refine yields_throw fun calm => ?_
            rcases calm _ static isStatic with ⟨primitive, isPrimitive⟩
            exact absurd isPrimitive (notPrimitive primitive)
      apply made.bind
      intro new later makes
      apply yields_pure
      split
      · exact makes
      · exact makes

/-! ## Operations -/

theorem yields_operation (tidy : graph.Tidy) (place : Position) (operator : Operator)
    (leftPlace rightPlace : Position) {left right : Code} (leftHas : graph.Has left.type)
    (rightHas : graph.Has right.type) :
    (operation place operator leftPlace rightPlace left right).Yields graph
      (fun code => Makes graph code.type) (Reported calm) := by
  have arithmetic : ∀ routine, (do
      unifyAt leftPlace left.type (← newPrimitive .number)
      unifyAt rightPlace right.type (← newPrimitive .number)
      return .call routine left right (← newPrimitive .number) : Build Code).Yields graph
        (fun code => Makes graph code.type) (Reported calm) := by
    intro routine
    apply (yields_newPrimitive tidy .number).bind
    rintro own first ⟨made, ownHas⟩
    apply (yields_unifyAt_tidy made.tidy leftPlace (made.has leftHas) ownHas).bind
    intro _ second unified
    have both := made.trans unified
    apply (yields_newPrimitive both.tidy .number).bind
    rintro other third ⟨madeToo, otherHas⟩
    have all := both.trans madeToo
    apply (yields_unifyAt_tidy all.tidy rightPlace (all.has rightHas) otherHas).bind
    intro _ fourth unifiedToo
    have last := all.trans unifiedToo
    apply (yields_newPrimitive last.tidy .number).bind
    rintro result later ⟨final, resultHas⟩
    exact yields_pure ⟨last.trans final, resultHas⟩
  cases operator with
  | cons =>
      apply (yields_newList tidy leftHas).bind
      rintro list first ⟨made, listHas⟩
      apply (yields_unifyAt_tidy made.tidy place listHas (made.has rightHas)).bind
      intro _ later unified
      exact yields_pure ⟨made.trans unified, unified.has listHas⟩
  | add => exact arithmetic _
  | subtract => exact arithmetic _
  | multiply => exact arithmetic _

theorem yields_selection (tidy : graph.Tidy) (place : Position) {record : Code}
    (recordHas : graph.Has record.type) (field : String) :
    (selection place record field).Yields graph (fun code => Makes graph code.type)
      (Reported calm) := by
  apply (yields_newVar tidy).bind
  rintro type first ⟨made, typeHas⟩
  have named : ∀ entry ∈ [(field, type)], first.Has entry.2 := by
    intro entry member
    rw [List.mem_singleton.1 member]
    exact typeHas
  apply (yields_newOpen made.tidy .struct named).bind
  rintro struct second ⟨madeToo, structHas⟩
  have both := made.trans madeToo
  apply (yields_unifyAt_tidy both.tidy place (both.has recordHas) structHas).bind
  intro _ later unified
  exact yields_pure ⟨both.trans unified, unified.has (madeToo.has typeHas)⟩

/-! ## Cases -/

theorem yields_joinBody (tidy : graph.Tidy) (place : Position) {result : Option Ref}
    (resultHas : ∀ ref ∈ result, graph.Has ref) (typeHas : graph.Has type) :
    (joinBody place result type).Yields graph (Makes graph) (Reported calm) := by
  cases result with
  | none => exact yields_pure ⟨tidy.becomes, typeHas⟩
  | some result =>
      have has := resultHas result rfl
      apply (yields_text_tidy tidy typeHas).bind
      rintro own _ rfl
      apply (yields_text_tidy tidy has).bind
      rintro previous _ rfl
      apply (yields_unifyOr_tidy tidy has typeHas fun _ _ => yields_reported _ _).bind
      intro _ later unified
      exact yields_pure ⟨unified, unified.has has⟩

theorem yields_joinArgument (tidy : graph.Tidy) (place : Position) {given inferred : Ref}
    (givenHas : graph.Has given) (inferredHas : graph.Has inferred) :
    (joinArgument place given inferred).Yields graph (fun _ later => graph.Becomes later)
      (Reported calm) := by
  apply (yields_text_tidy tidy givenHas).bind
  rintro givenText _ rfl
  apply (yields_text_tidy tidy inferredHas).bind
  rintro inferredText _ rfl
  exact yields_unifyOr_tidy tidy givenHas inferredHas fun _ _ => yields_reported _ _

end Build

theorem Scope.Within.mono {scope : Scope} (within : scope.Within graph)
    {later : TypeGraph} (grown : graph.size ≤ later.size) : scope.Within later :=
  fun binding member => (within binding member).mono grown

theorem Scope.Within.find? {scope : Scope} (within : scope.Within graph) {name : String}
    {binding : Binding} (found : scope.find? name = some binding) :
    graph.Has binding.type :=
  within binding (List.mem_of_find?_eq_some found)

/-! ## Expressions -/

open Build

theorem yields_caseOf (setting : Setting) (level : Nat) {scope : Scope}
    (within : scope.Within graph) (place : Position) {value : Expr} {choices : Choices}
    (valueYields : (value.compile setting level scope).Yields graph
      (fun code => Makes graph code.type)
      (Reported setting.Primitive))
    (choicesYield : ∀ (checked : List (Pattern × Scope)) (result : Option Ref)
      (middle : TypeGraph),
      middle.Tidy → (∀ entry ∈ checked, entry.2.Within middle) →
        (∀ ref ∈ result, middle.Has ref) →
        (choices.compile setting level checked result).Yields middle
          (fun compiled later =>
          middle.Becomes later ∧ ∀ ref ∈ compiled.2, later.Has ref)
            (Reported setting.Primitive)) :
    ((Expr.caseOf place value choices).compile setting level scope).Yields graph
      (fun code later =>
      Makes graph code.type later ∧
        ∀ report own arms, code = .caseOf report own arms →
          ∀ ref ∈ report.sealed, later.Has ref)
      (Reported setting.Primitive) := by
  rw [Expr.compile]
  dsimp only
  split
  · split
    · exact Yields.stop (yields_reported _ _)
    · apply valueYields.bind
      rintro valueCode first ⟨compiled, valueHas⟩
      have checks := yields_checkChoices compiled.tidy setting level
        (within.mono compiled.grown) place
        choices.toList valueHas
      apply (checks.mono (fun _ _ done => done) fun _ _ harmless => harmless.2).bind
      rintro checked second ⟨becomes, _, rootHas, sealedHave, scopes⟩
      apply (choicesYield checked.choices none second becomes.tidy scopes
        (fun _ member => (nomatch member))).bind
      rintro ⟨arms, result⟩ third ⟨bodies, resultHas⟩
      have both := becomes.trans bodies
      have finished : ∀ type fourth, Makes third type fourth → (do
          joinArgument value.position valueCode.type checked.root
          return .caseOf
            { position := place, type := type, slotCount := checked.slotCount,
              sealed := checked.sealed, matchedType := checked.matchedType,
              sealedTypes := checked.sealedTypes } valueCode arms :
              Build Code).Yields fourth
          (fun code later => Makes graph code.type later ∧
            ∀ report own arms, code = .caseOf report own arms →
            ∀ ref ∈ report.sealed, later.Has ref)
          (Reported setting.Primitive) := by
        rintro type fourth ⟨made, typeHas⟩
        have all := both.trans made
        apply (yields_joinArgument all.tidy value.position (all.has valueHas)
          (made.has (bodies.has rootHas))).bind
        intro _ later joined
        refine yields_pure ⟨⟨compiled.trans (all.trans joined), joined.has typeHas⟩, ?_⟩
        rintro _ _ _ ⟨⟩ ref member
        exact joined.has (made.has (bodies.has (sealedHave ref member)))
      dsimp only
      split
      next type => exact finished type third ⟨bodies.tidy.becomes, resultHas type rfl⟩
      next => exact (yields_newVar bodies.tidy).bind finished
  · exact Yields.stop (yields_reported _ _)

mutual

theorem Expr.yields_compile (setting : Setting) :
    ∀ (expression : Expr) (level : Nat) (scope : Scope) (graph : TypeGraph), graph.Tidy →
      scope.Within graph →
        (expression.compile setting level scope).Yields graph
          (fun code => Makes graph code.type)
          (Reported setting.Primitive)
  | .number _ _ _, _, _, _, tidy, _ => yields_constant_tidy tidy _ _
  | .string _ _, _, _, _, tidy, _ => yields_constant_tidy tidy _ _
  | .unit _, _, _, _, tidy, _ => yields_constant_tidy tidy _ _
  | .static place owner field, _, _, _, tidy, _ =>
      yields_staticField_tidy tidy setting place owner field
  | .symbol place name, level, scope, graph, tidy, within => by
      rw [Expr.compile]
      dsimp only
      split
      · exact Yields.stop (yields_reported _ _)
      · split
        next binding found => exact yields_pure ⟨tidy.becomes, within.find? found⟩
        next => exact yields_reported _ _
  | .apply place name argument, level, scope, graph, tidy, within => by
      rw [Expr.compile]
      dsimp only
      split
      · apply (Expr.yields_compile setting argument level scope graph tidy within).bind
        rintro payload first ⟨compiled, payloadHas⟩
        have named : ∀ entry ∈ [(name, payload.type)], first.Has entry.2 := by
          intro entry member
          rw [List.mem_singleton.1 member]
          exact payloadHas
        apply (yields_newOpen compiled.tidy .variant named).bind
        rintro variant later ⟨made, variantHas⟩
        exact yields_pure ⟨compiled.trans made, variantHas⟩
      · exact Yields.stop (yields_reported _ _)
  | .binary place operator left right, level, scope, graph, tidy, within => by
      rw [Expr.compile]
      apply (Expr.yields_compile setting left level scope graph tidy within).bind
      rintro leftCode first ⟨compiled, leftHas⟩
      apply (Expr.yields_compile setting right level scope first compiled.tidy
        (within.mono compiled.grown)).bind
      rintro rightCode second ⟨compiledToo, rightHas⟩
      apply (yields_operation compiledToo.tidy place operator left.position right.position
        (compiledToo.has leftHas) rightHas).imp
      rintro code later ⟨operated, codeHas⟩
      exact ⟨compiled.trans (compiledToo.trans operated), codeHas⟩
  | .list _ items, level, scope, graph, tidy, within => by
      rw [Expr.compile]
      apply (yields_newVar tidy).bind
      rintro element first ⟨made, elementHas⟩
      apply (yields_newList made.tidy elementHas).bind
      rintro list second ⟨madeToo, listHas⟩
      have both := made.trans madeToo
      apply (Exprs.yields_compile setting items level scope element second both.tidy
        (within.mono both.grown) (madeToo.has elementHas)).bind
      intro codes later compiled
      exact yields_pure ⟨both.trans compiled, compiled.has listHas⟩
  | .select place record field, level, scope, graph, tidy, within => by
      rw [Expr.compile]
      apply (Expr.yields_compile setting record level scope graph tidy within).bind
      rintro recordCode first ⟨compiled, recordHas⟩
      apply (yields_selection compiled.tidy place recordHas field).imp
      rintro code later ⟨selected, codeHas⟩
      exact ⟨compiled.trans selected, codeHas⟩
  | .record place fields, _, _, _, _, _ => yields_reported _ _
  | .caseOf place value choices, level, scope, graph, tidy, within =>
      (yields_caseOf setting level within place
        (Expr.yields_compile setting value level scope graph tidy within)
        (Choices.yields_compile setting choices level)).imp fun _ _ compiled => compiled.1
termination_by structural expression => expression

theorem Exprs.yields_compile (setting : Setting) :
    ∀ (items : Exprs) (level : Nat) (scope : Scope) (element : Ref)
      (graph : TypeGraph), graph.Tidy →
      scope.Within graph → graph.Has element →
        (items.compile setting level scope element).Yields graph
          (fun _ later => graph.Becomes later)
          (Reported setting.Primitive)
  | .nil, _, _, _, _, tidy, _, _ => yields_pure tidy.becomes
  | .cons head tail, level, scope, element, graph, tidy, within, elementHas => by
      rw [Exprs.compile]
      apply (Expr.yields_compile setting head level scope graph tidy within).bind
      rintro code first ⟨compiled, codeHas⟩
      apply (yields_unifyAt_tidy compiled.tidy head.position
        (compiled.has elementHas) codeHas).bind
      intro _ second unified
      have both := compiled.trans unified
      apply (Exprs.yields_compile setting tail level scope element second both.tidy
        (within.mono both.grown) (both.has elementHas)).bind
      intro codes later rest
      exact yields_pure (both.trans rest)
termination_by structural items => items

theorem Choices.yields_compile (setting : Setting) :
    ∀ (choices : Choices) (level : Nat) (checked : List (Pattern × Scope))
      (result : Option Ref)
      (graph : TypeGraph), graph.Tidy → (∀ entry ∈ checked, entry.2.Within graph) →
      (∀ ref ∈ result, graph.Has ref) →
        (choices.compile setting level checked result).Yields graph (fun compiled later =>
          graph.Becomes later ∧ ∀ ref ∈ compiled.2, later.Has ref)
            (Reported setting.Primitive)
  | .nil, _, _, _, _, tidy, _, resultHas => yields_pure ⟨tidy.becomes, resultHas⟩
  | .cons _ _ _ _, _, [], _, _, tidy, _, resultHas =>
      yields_pure ⟨tidy.becomes, resultHas⟩
  | .rest _ _, _, [], _, _, tidy, _, resultHas => yields_pure ⟨tidy.becomes, resultHas⟩
  | .cons _ _ body tail, level, (pattern, scope) :: checked, result, graph, tidy,
      within, resultHas => by
      rw [Choices.compile]
      apply (Expr.yields_compile setting body (level + 1) scope graph tidy
        (within _ List.mem_cons_self)).bind
      rintro code first ⟨compiled, codeHas⟩
      apply (yields_joinBody compiled.tidy body.position
        (fun ref member => compiled.has (resultHas ref member)) codeHas).bind
      rintro type second ⟨joined, typeHas⟩
      have both := compiled.trans joined
      have withinTail : ∀ entry ∈ checked, entry.2.Within second := fun entry member =>
        (within entry (List.mem_cons_of_mem _ member)).mono both.grown
      have typeStays : ∀ ref ∈ some type, second.Has ref := by
        rintro ref ⟨⟩
        exact typeHas
      apply (Choices.yields_compile setting tail level checked (some type) second
        both.tidy withinTail typeStays).bind
      rintro ⟨arms, last⟩ later ⟨rest, lastHas⟩
      exact yields_pure ⟨both.trans rest, lastHas⟩
  | .rest _ tail, level, (pattern, scope) :: checked, result, graph, tidy,
    within, resultHas => by
      rw [Choices.compile]
      apply (Choices.yields_compile setting tail level checked result graph tidy
        (fun entry member => within entry (List.mem_cons_of_mem _ member)) resultHas).bind
      rintro ⟨arms, last⟩ later ⟨rest, lastHas⟩
      exact yields_pure ⟨rest, lastHas⟩
termination_by structural choices => choices

end

/-! ## Cases that are refused -/

/-- From the unfolding of the type of the value of a case until the unfolding is folded,
nothing is done to the types there were, whether the patterns are accepted or refused. So
a case refused for its patterns leaves all types as they were after its value had been
compiled. -/
theorem Expr.caseOf_isolated {graph : TypeGraph} (tidy : graph.Tidy)
    (setting : Setting) (level : Nat) {scope : Scope} (within : scope.Within graph)
    (place : Position) (value : Expr) (choices : Choices) :
    (∀ type outcome later, graph.Has type →
      (unfold type >>= checkUnfolded setting level scope place choices.toList).on graph =
        (outcome, later) → ∀ ref, graph.Has ref → later.node ref = graph.node ref) ∧
    ∀ code compiled failure later, setting.hasCases → choices.isEmpty = false →
      (value.compile setting level scope).on graph = (.ok code, compiled) →
      (checkChoices setting level scope place choices.toList code.type).on compiled =
        (.error failure, later) →
      ((Expr.caseOf place value choices).compile setting level scope).on graph =
        (.error failure, later) ∧
        ∀ ref, compiled.Has ref → later.node ref = compiled.node ref := by
  constructor
  · intro type outcome later has ran
    have checks : (unfold type >>=
        checkUnfolded setting level scope place choices.toList).Yields graph
        (fun _ later => ∀ ref, graph.Has ref → later.node ref = graph.node ref)
        (Harmless graph setting.Primitive) := by
      apply (yields_unfold tidy has).bind
      intro unfolding first unfolded
      apply (yields_checkUnfolded tidy setting level unfolded
        (within.mono unfolded.small) place choices.toList).imp
      exact fun _ later checked => checked.1.frozen
    cases outcome with
    | ok checked => exact checks.of_ok ran
    | error failure => exact (checks.of_error ran).1
  · intro code compiled failure later hasCases some ran refused
    have makes := (value.yields_compile setting level scope graph tidy within).of_ok ran
    have checks := yields_checkChoices makes.1.tidy setting level
      (within.mono makes.1.grown) place
      choices.toList makes.2
    refine ⟨?_, (checks.of_error refused).1⟩
    rw [Expr.compile]
    dsimp only
    rw [if_pos hasCases, if_neg (by rw [some]; decide), on_bind, ran]
    dsimp only
    rw [on_bind, refused]

theorem Expr.caseOf_isolated_endlessLists :
    let scope : Scope := [⟨"r", .absolute 0, ⟨2⟩⟩]
    let place : Position := .first
    let pattern : Expr :=
      .binary place .cons (.symbol place "head") (.symbol place "tail")
    let case : Expr :=
      .caseOf place (.symbol place "r") (.cons place pattern (.unit place) .nil)
    endlessLists.Tidy ∧ scope.Within endlessLists ∧
      ((case.compile {} 0 scope).on endlessLists).1.isOk = false ∧
        ∀ ref, endlessLists.Has ref →
          ((case.compile {} 0 scope).on endlessLists).2.node ref =
          endlessLists.node ref := by
  intro scope place pattern case
  have tidy := reachable_endlessLists.tidy
  have within : scope.Within endlessLists := by
    intro binding member
    rw [List.mem_singleton.1 member]
    decide
  let choices : Choices := .cons place pattern (.unit place) .nil
  have isRefused :
      ((checkChoices {} 0 scope place choices.toList ⟨2⟩).on endlessLists).1.isOk =
      false := by decide +kernel
  rcases refused : (checkChoices {} 0 scope place choices.toList ⟨2⟩).on endlessLists with
    ⟨failure | checked, later⟩
  · rcases (caseOf_isolated tidy {} 0 within place (.symbol place "r") choices).2 _
      endlessLists failure
      later rfl rfl rfl refused with ⟨ran, kept⟩
    refine ⟨tidy, within, ?_, ?_⟩
    · rw [ran]
      rfl
    · rw [ran]
      exact kept
  · rw [refused] at isRefused
    cases isRefused

end Casework
