import Casework.Proofs.Edits
import Casework.Proofs.Likeness
import Casework.Proofs.SealingOrder
import Casework.Proofs.Totality

/-!
Compiling gives the same result whatever the order of sets.

Two runs with different orders fail in the same way, or they leave the same types and give
the same expression, but for the order in which each case lists the variants it has
sealed. Each is compared with the run that goes through sets as they were found: the
induction on the expression follows the one by which graphs stay tidy.
-/

namespace Casework

open TypeGraph

namespace Build

variable {α β γ δ : Type} {graph : TypeGraph} {related : α → β → Prop}

/-! ## Runs that agree -/

/-- Two runs end with the same failure or with related values, and leave the same
graph. -/
def Agrees (related : α → β → Prop) (left : Build α) (right : Build β)
    (graph : TypeGraph) : Prop :=
  (∃ failure later, left.on graph = (.error failure, later) ∧ right.on graph =
    (.error failure, later)) ∨
    ∃ value other later, left.on graph = (.ok value, later) ∧ right.on graph =
    (.ok other, later) ∧
      related value other

section Rules

variable {left : Build α} {right : Build β}

theorem agrees_pure {value : α} {other : β} (holds : related value other) :
    Agrees related (pure value) (pure other) graph :=
  .inr ⟨value, other, graph, rfl, rfl, holds⟩

theorem agrees_of_on {act build : Build α} {related : α → α → Prop}
    (same : act.on graph = build.on graph) (self : ∀ value, related value value) :
    Agrees related act build graph := by
  rcases ran : build.on graph with ⟨failure | value, later⟩
  · exact .inl ⟨failure, later, same.trans ran, ran⟩
  · exact .inr ⟨value, value, later, same.trans ran, ran, self value⟩

theorem Agrees.imp {other : α → β → Prop} (agrees : Agrees related left right graph)
    (implies : ∀ value twin, related value twin → other value twin) :
    Agrees other left right graph := by
  rcases agrees with failed | ⟨value, twin, later, ran, ranToo, holds⟩
  · exact .inl failed
  · exact .inr ⟨value, twin, later, ran, ranToo, implies value twin holds⟩

theorem Agrees.symm (agrees : Agrees related left right graph) :
    Agrees (fun value other => related other value) right left graph := by
  rcases agrees with
    ⟨failure, later, ran, ranToo⟩ | ⟨value, other, later, ran, ranToo, holds⟩
  · exact .inl ⟨failure, later, ranToo, ran⟩
  · exact .inr ⟨other, value, later, ranToo, ran, holds⟩

theorem Agrees.trans {last : Build γ} {relatedToo : β → γ → Prop}
    (first : Agrees related left right graph)
    (second : Agrees relatedToo right last graph) :
    Agrees (fun value final => ∃ other, related value other ∧ relatedToo other final)
      left last graph := by
  rcases first with
    ⟨failure, later, ran, ranToo⟩ | ⟨value, other, later, ran, ranToo, holds⟩
  · rcases second with ⟨own, after, ranAgain, ranLast⟩ | ⟨_, _, _, ranAgain, _, _⟩
    · cases ranToo.symm.trans ranAgain
      exact .inl ⟨failure, later, ran, ranLast⟩
    · cases ranToo.symm.trans ranAgain
  · rcases second with
      ⟨_, _, ranAgain, _⟩ | ⟨own, final, after, ranAgain, ranLast, holdsToo⟩
    · cases ranToo.symm.trans ranAgain
    · cases ranToo.symm.trans ranAgain
      exact .inr ⟨value, final, later, ran, ranLast, other, holds, holdsToo⟩

theorem Agrees.bind {nextLeft : α → Build γ} {nextRight : β → Build δ}
    {relatedNext : γ → δ → Prop} {done : β → TypeGraph → Prop}
    (first : Agrees related left right graph)
    (yields : right.Yields graph done fun _ _ => True)
    (rest : ∀ value other later, related value other → done other later →
      Agrees relatedNext (nextLeft value) (nextRight other) later) :
    Agrees relatedNext (left >>= nextLeft) (right >>= nextRight) graph := by
  unfold Agrees
  rw [on_bind, on_bind]
  rcases first with
    ⟨failure, later, ran, ranToo⟩ | ⟨value, other, later, ran, ranToo, holds⟩
  · rw [ran, ranToo]
    exact .inl ⟨failure, later, rfl, rfl⟩
  · rw [ran, ranToo]
    exact rest value other later holds (yields.of_ok ranToo)

theorem Agrees.yields {done : β → TypeGraph → Prop}
    (agrees : Agrees related left right graph)
    (yields : right.Yields graph done fun _ _ => True) :
    left.Yields graph (fun value later => ∃ other, related value other ∧ done other later)
      fun _ _ => True := by
  unfold Yields
  rcases agrees with ⟨failure, later, ran, _⟩ | ⟨value, other, later, ran, ranToo, holds⟩
  · rw [ran]
    trivial
  · rw [ran]
    exact ⟨other, holds, yields.of_ok ranToo⟩

theorem agrees_bind {act : Build α} {nextLeft : α → Build γ} {nextRight : α → Build δ}
    {relatedNext : γ → δ → Prop} {done : α → TypeGraph → Prop}
    (yields : act.Yields graph done fun _ _ => True)
    (rest : ∀ value later, done value later →
      Agrees relatedNext (nextLeft value) (nextRight value) later) :
    Agrees relatedNext (act >>= nextLeft) (act >>= nextRight) graph := by
  have self : Agrees Eq act act graph := agrees_of_on rfl fun _ => rfl
  apply self.bind yields
  rintro value _ later rfl holds
  exact rest value later holds

theorem agrees_bind_anyhow {act : Build α} {nextLeft : α → Build γ}
    {nextRight : α → Build δ} {relatedNext : γ → δ → Prop}
    (rest : ∀ value later, Agrees relatedNext (nextLeft value) (nextRight value) later) :
    Agrees relatedNext (act >>= nextLeft) (act >>= nextRight) graph :=
  agrees_bind (yields_anyhow act) fun value later _ => rest value later

theorem agrees_reject_bind (place : Position) (cause : CompileCause)
    {nextLeft : α → Build γ} {nextRight : α → Build δ} {relatedNext : γ → δ → Prop} :
    Agrees relatedNext ((reject place cause : Build α) >>= nextLeft)
      ((reject place cause : Build α) >>= nextRight) graph :=
  .inl ⟨_, graph, rfl, rfl⟩

end Rules

/-! ## Sealing -/

theorem agrees_sealAll {refs others : List Ref} (perm : refs.Perm others)
    (wellFormed : graph.WellFormed) (named : ∀ ref ∈ others, graph.Has ref) :
    Agrees List.Perm (sealAll refs) (sealAll others) graph := by
  have refsNamed : ∀ ref ∈ refs, graph.Has ref := fun ref member =>
    named ref (perm.mem_iff.1 member)
  rcases (yields_sealAll_sealings wellFormed refsNamed).exists_ok with
    ⟨sealed, later, ran, isSealed⟩
  rcases (yields_sealAll_sealings wellFormed named).exists_ok with
    ⟨twin, laterToo, ranToo, isTwin⟩
  rcases sealings_perm perm wellFormed refsNamed with ⟨same, left⟩
  rw [← isSealed, ← isTwin] at same left
  cases left
  exact .inr ⟨sealed, twin, later, ran, ranToo, same⟩

theorem agrees_mapM_text {refs others : List Ref} (perm : refs.Perm others)
    (readable : ∀ ref ∈ others, ∃ text, graph.text ref = .ok text) :
    Agrees List.Perm (refs.mapM text) (others.mapM text) graph := by
  have refsReadable : ∀ ref ∈ refs, ∃ text, graph.text ref = .ok text :=
    fun ref member => readable ref (perm.mem_iff.1 member)
  rcases (yields_mapM_text refsReadable).exists_ok with ⟨_, _, ran, rfl, rfl⟩
  rcases (yields_mapM_text readable).exists_ok with ⟨_, _, ranToo, rfl, rfl⟩
  exact .inr ⟨_, _, _, ran, ranToo, perm.map (shown _)⟩

end Build

/-! ## Patterns of a case -/

/-- What checking the patterns of a case has given, but for the order of sealed
variants. -/
def Checked.Alike (left right : Checked) : Prop :=
  ∃ sealed, left.sealed.Perm sealed ∧ right = { left with sealed := sealed }

open Elaborate Elaboration Stateful Build

section Choices

variable {original graph : TypeGraph} {unfolding base low : Nat}
  {state : Elaboration} {type : Ref}

theorem same_elaborateChoicesIn (tidy : original.Tidy) (setting : Setting)
    (level : Nat) {scope : Scope} (order : SetOrder) (choices : List Choice)
    (ready : state.Ready original unfolding base low graph) (within : scope.Within graph)
    (has : graph.Has type) (high : base < type.number) :
    Same (elaborateChoicesIn setting level scope type order choices)
      (elaborateChoices setting level scope type choices) state graph := by
  induction choices generalizing graph state order with
  | nil => exact .refl ..
  | cons choice rest induction =>
      apply same_modify_bind
      have started := ready.startChoice within
      apply (choice.pattern.same_elaborateIn tidy setting level (order.under 0) false type
        base low graph _ started has high).bind
        (choice.pattern.yields_elaborate tidy setting level false type base low
          graph _ started has high).ifDone
      intro pattern after middle checked
      apply same_get_bind
      have grown := checked.proceeds.grown
      exact (induction (order.under 1) checked.ready (fun binding member =>
        (within binding member).mono grown) (checked.has has)).followed _

theorem agrees_checkUnfoldedIn (tidy : original.Tidy) (setting : Setting)
    (level : Nat) {scope : Scope} (order : SetOrder)
    (copying : Copying original unfolding original.size graph)
    (within : scope.Within graph) (place : Position) (choices : List Choice) :
    Agrees Checked.Alike
      (checkUnfoldedIn order setting level scope place choices unfolding)
      (checkUnfolded setting level scope place choices unfolding) graph := by
  apply agrees_bind (yields_unfoldingRoot copying)
  rintro root _ ⟨rootHigh, rootHas, rfl⟩
  have ready := Ready.start copying
  have same := same_elaborateChoicesIn tidy setting level (order.under 0) choices
    ready within rootHas
    rootHigh
  have walk : Agrees Eq
      ((elaborateChoicesIn setting level scope root (order.under 0) choices).run {})
      ((elaborateChoices setting level scope root choices).run {}) graph :=
      agrees_of_on same fun _ => rfl
  apply walk.bind
    (yields_elaborateChoices tidy setting level choices ready within rootHas
      rootHigh).ifDone
  rintro ⟨patterns, state⟩ _ first rfl ⟨checked, scopes⟩
  have rootFirst := checked.has rootHas
  apply agrees_bind (yields_text tidy checked.ready.copying rootFirst)
  rintro matchedType _ rfl
  apply agrees_bind (yields_shareTags checked.ready.copying)
  rintro _ second ⟨shared, grown⟩
  apply agrees_bind (yields_gap? tidy shared (rootFirst.mono grown) rootHigh)
  rintro path third ⟨walked, grownToo⟩
  have registered := (checked.ready.known.mono (grown.trans grownToo)).registered
  cases path with
  | some path => exact agrees_reject_bind _ _
  | none =>
      -- From here on the runs differ in the order of the variants that they list.
      apply (agrees_sealAll ((order.under 1).perm_list state.registered) walked.wellFormed
        fun ref member => (registered ref member).2).bind
        (yields_sealAll walked registered)
      rintro sealed twin later perm ⟨sealing, _, twinHave⟩
      apply (agrees_mapM_text perm fun ref member =>
        sealing.text tidy (twinHave ref member)).bind
        (yields_anyhow _)
      rintro texts others last permToo _
      apply agrees_pure
      rw [sortTexts_perm permToo]
      exact ⟨twin, perm, rfl⟩

theorem agrees_checkChoicesIn (tidy : graph.Tidy) (setting : Setting)
    (level : Nat) {scope : Scope} (order : SetOrder) (within : scope.Within graph)
    (place : Position) (choices : List Choice) (has : graph.Has type) :
    Agrees Checked.Alike (checkChoicesIn order setting level scope place choices type)
      (checkChoices setting level scope place choices type) graph := by
  apply agrees_bind (yields_unfold tidy has)
  intro unfolding first unfolded
  have withinFirst : scope.Within first := fun binding member =>
    (within binding member).mono unfolded.small
  apply (agrees_checkUnfoldedIn tidy setting level order unfolded withinFirst
    place choices).bind
    (yields_anyhow _)
  intro checked twin second alike _
  apply agrees_bind_anyhow
  intro _ later
  exact agrees_pure alike

end Choices

/-! ## Expressions -/

namespace Build

variable {graph : TypeGraph} {left right otherLeft otherRight : Code}

theorem agrees_operation (place : Position) (operator : Operator)
    (leftPlace rightPlace : Position) (leftAlike : left.Alike otherLeft)
    (rightAlike : right.Alike otherRight) :
    Agrees Code.Alike (operation place operator leftPlace rightPlace left right)
      (operation place operator leftPlace rightPlace otherLeft otherRight) graph := by
  unfold operation
  rw [leftAlike.type_eq, rightAlike.type_eq]
  split
  · apply agrees_bind_anyhow
    intro type _
    apply agrees_bind_anyhow
    intro _ _
    exact agrees_pure (.call _ leftAlike rightAlike type)
  · apply agrees_bind_anyhow
    intro _ _
    apply agrees_bind_anyhow
    intro _ _
    apply agrees_bind_anyhow
    intro _ _
    apply agrees_bind_anyhow
    intro _ _
    apply agrees_bind_anyhow
    intro type _
    exact agrees_pure (.call _ leftAlike rightAlike type)

theorem agrees_selection (place : Position) {record other : Code}
    (alike : record.Alike other) (field : String) :
    Agrees Code.Alike (selection place record field)
      (selection place other field) graph := by
  unfold selection
  rw [alike.type_eq]
  apply agrees_bind_anyhow
  intro type _
  apply agrees_bind_anyhow
  intro _ _
  apply agrees_bind_anyhow
  intro _ _
  exact agrees_pure (.select alike field type)

end Build

/-- An expression is compiled in the same way whatever the order of sets. -/
def Expr.FreeOfOrder (setting : Setting) (expression : Expr) : Prop :=
  ∀ (order : SetOrder) (level : Nat) (scope : Scope) (graph : TypeGraph),
    graph.Tidy → scope.Within graph →
      Agrees Code.Alike (expression.compileIn setting order level scope)
        (expression.compile setting level scope) graph

def Exprs.FreeOfOrder (setting : Setting) (items : Exprs) : Prop :=
  ∀ (order : SetOrder) (level : Nat) (scope : Scope) (element : Ref) (graph : TypeGraph),
    graph.Tidy → scope.Within graph → graph.Has element →
      Agrees Codes.Alike (items.compileIn setting order level scope element)
        (items.compile setting level scope element) graph

def Choices.FreeOfOrder (setting : Setting) (choices : Choices) : Prop :=
  ∀ (order : SetOrder) (level : Nat) (checked : List (Pattern × Scope))
    (result : Option Ref) (graph : TypeGraph), graph.Tidy →
    (∀ entry ∈ checked, entry.2.Within graph) → (∀ ref ∈ result, graph.Has ref) →
      Agrees (fun own other => own.1.Alike other.1 ∧ own.2 = other.2)
        (choices.compileIn setting order level checked result)
        (choices.compile setting level checked result) graph

section Walk

variable {setting : Setting}

theorem Expr.freeOfOrder_apply (place : Position) (name : String) {argument : Expr}
    (free : argument.FreeOfOrder setting) :
    (Expr.apply place name argument).FreeOfOrder setting := by
  intro order level scope graph tidy within
  rw [Expr.compileIn, Expr.compile]
  dsimp only
  split
  · apply (free order level scope graph tidy within).bind (yields_anyhow _)
    intro payload other first alike _
    rw [alike.type_eq]
    apply agrees_bind_anyhow
    intro type _
    exact agrees_pure (.tag name alike type)
  · exact agrees_reject_bind _ _

theorem Expr.freeOfOrder_binary (place : Position) (operator : Operator)
    {left right : Expr} (leftFree : left.FreeOfOrder setting)
    (rightFree : right.FreeOfOrder setting) :
    (Expr.binary place operator left right).FreeOfOrder setting := by
  intro order level scope graph tidy within
  rw [Expr.compileIn, Expr.compile]
  apply (leftFree (order.under 0) level scope graph tidy within).bind
    (Expr.yields_compile setting left level scope graph tidy within).ifDone
  rintro leftCode otherLeft first leftAlike ⟨compiled, _⟩
  apply (rightFree (order.under 1) level scope first compiled.tidy
    (within.mono compiled.grown)).bind (yields_anyhow _)
  intro rightCode otherRight second rightAlike _
  exact agrees_operation place operator left.position right.position leftAlike rightAlike

theorem Expr.freeOfOrder_list (place : Position) {items : Exprs}
    (free : items.FreeOfOrder setting) : (Expr.list place items).FreeOfOrder setting := by
  intro order level scope graph tidy within
  rw [Expr.compileIn, Expr.compile]
  apply agrees_bind (yields_newVar tidy)
  rintro element first ⟨made, elementHas⟩
  apply agrees_bind (yields_newList made.tidy elementHas)
  rintro list second ⟨madeToo, listHas⟩
  have both := made.trans madeToo
  apply (free order level scope element second both.tidy (within.mono both.grown)
    (madeToo.has elementHas)).bind (yields_anyhow _)
  intro codes others later alike _
  exact agrees_pure (.list alike list)

theorem Expr.freeOfOrder_select (place : Position) (field : String) {record : Expr}
    (free : record.FreeOfOrder setting) :
    (Expr.select place record field).FreeOfOrder setting := by
  intro order level scope graph tidy within
  rw [Expr.compileIn, Expr.compile]
  apply (free order level scope graph tidy within).bind (yields_anyhow _)
  intro recordCode other first alike _
  exact agrees_selection place alike field

/-- Joining the type of the value is the last step of a case, whether there is a body or
not. -/
theorem agrees_finishCase (place valuePlace : Position) (checked : Checked)
    {sealed : List Ref} (perm : checked.sealed.Perm sealed) {value other : Code}
    (valueAlike : value.Alike other) {arms others : Arms} (armsAlike : arms.Alike others)
    (type : Ref) (graph : TypeGraph) :
    Agrees Code.Alike (do
      joinArgument valuePlace other.type checked.root
      return .caseOf
        { position := place, type := type, slotCount := checked.slotCount,
          sealed := checked.sealed, matchedType := checked.matchedType,
          sealedTypes := checked.sealedTypes } value arms : Build Code) (do
      joinArgument valuePlace other.type checked.root
      return .caseOf
        { position := place, type := type, slotCount := checked.slotCount,
          sealed := sealed, matchedType := checked.matchedType,
          sealedTypes := checked.sealedTypes } other others : Build Code) graph := by
  apply agrees_bind_anyhow
  intro _ _
  exact agrees_pure (.caseOf ⟨sealed, perm, rfl⟩ valueAlike armsAlike)

theorem Expr.freeOfOrder_caseOf (place : Position) {value : Expr} {choices : Choices}
    (valueFree : value.FreeOfOrder setting) (choicesFree : choices.FreeOfOrder setting) :
    (Expr.caseOf place value choices).FreeOfOrder setting := by
  intro order level scope graph tidy within
  rw [Expr.compileIn, Expr.compile]
  dsimp only
  split
  · split
    · exact agrees_reject_bind _ _
    · apply (valueFree (order.under 0) level scope graph tidy within).bind
        (Expr.yields_compile setting value level scope graph tidy within).ifDone
      rintro valueCode otherValue first valueAlike ⟨compiled, valueHas⟩
      rw [valueAlike.type_eq]
      have withinFirst := within.mono compiled.grown
      apply (agrees_checkChoicesIn compiled.tidy setting level (order.under 1)
        withinFirst place choices.toList valueHas).bind
        (yields_checkChoices compiled.tidy setting level withinFirst place
          choices.toList valueHas).ifDone
      rintro checked _ second ⟨sealed, perm, rfl⟩ ⟨becomes, _, rootHas, _, scopes⟩
      apply (choicesFree (order.under 2) level checked.choices none second becomes.tidy
        scopes nofun).bind (yields_anyhow _)
      rintro ⟨arms, result⟩ ⟨otherArms, _⟩ third ⟨armsAlike, rfl⟩ _
      have ends := agrees_finishCase place value.position checked perm valueAlike
        armsAlike
      dsimp only
      cases result with
      | some type => exact ends type third
      | none =>
          apply agrees_bind_anyhow
          intro type fourth
          exact ends type fourth
  · exact agrees_reject_bind _ _

theorem Exprs.freeOfOrder_cons {head : Expr} {tail : Exprs}
    (headFree : head.FreeOfOrder setting) (tailFree : tail.FreeOfOrder setting) :
    (Exprs.cons head tail).FreeOfOrder setting := by
  intro order level scope element graph tidy within elementHas
  rw [Exprs.compileIn, Exprs.compile]
  apply (headFree (order.under 0) level scope graph tidy within).bind
    (Expr.yields_compile setting head level scope graph tidy within).ifDone
  rintro code other first alike ⟨compiled, codeHas⟩
  rw [alike.type_eq]
  have unifies :
      (unifyAt head.position element other.type).Yields first _ (Reported True) :=
    yields_unifyAt_tidy compiled.tidy head.position (compiled.has elementHas) codeHas
  apply agrees_bind unifies.ifDone
  intro _ second unified
  have both := compiled.trans unified
  apply (tailFree (order.under 1) level scope element second both.tidy
    (within.mono both.grown) (both.has elementHas)).bind (yields_anyhow _)
  intro codes others later rest _
  exact agrees_pure (.cons alike rest)

theorem Choices.freeOfOrder_cons (place : Position) (pattern : Expr) {body : Expr}
    {tail : Choices} (bodyFree : body.FreeOfOrder setting)
    (tailFree : tail.FreeOfOrder setting) :
    (Choices.cons place pattern body tail).FreeOfOrder setting := by
  intro order level checked result graph tidy within resultHas
  rcases checked with _ | ⟨⟨pattern, scope⟩, checked⟩
  · exact agrees_pure ⟨.nil, rfl⟩
  rw [Choices.compileIn, Choices.compile]
  have withinBody := within _ List.mem_cons_self
  apply (bodyFree (order.under 0) (level + 1) scope graph tidy withinBody).bind
    (Expr.yields_compile setting body (level + 1) scope graph tidy withinBody).ifDone
  rintro code other first alike ⟨compiled, codeHas⟩
  rw [alike.type_eq]
  have joins :
      (joinBody body.position result other.type).Yields first _ (Reported True) :=
    yields_joinBody compiled.tidy body.position
      (fun ref member => compiled.has (resultHas ref member)) codeHas
  apply agrees_bind joins.ifDone
  rintro type second ⟨joined, typeHas⟩
  have both := compiled.trans joined
  have withinTail : ∀ entry ∈ checked, entry.2.Within second := fun entry member =>
    (within entry (List.mem_cons_of_mem _ member)).mono both.grown
  have typeStays : ∀ ref ∈ some type, second.Has ref := by
    rintro ref ⟨⟩
    exact typeHas
  apply (tailFree (order.under 1) level checked (some type) second both.tidy withinTail
    typeStays).bind (yields_anyhow _)
  rintro ⟨arms, last⟩ ⟨others, _⟩ later ⟨armsAlike, rfl⟩ _
  exact agrees_pure ⟨.cons pattern alike armsAlike, rfl⟩

theorem Choices.freeOfOrder_rest (place : Position) {tail : Choices}
    (free : tail.FreeOfOrder setting) :
    (Choices.rest place tail).FreeOfOrder setting := by
  intro order level checked result graph tidy within resultHas
  rcases checked with _ | ⟨⟨pattern, scope⟩, checked⟩
  · exact agrees_pure ⟨.nil, rfl⟩
  rw [Choices.compileIn, Choices.compile]
  apply (free order level checked result graph tidy
    (fun entry member => within entry (List.mem_cons_of_mem _ member)) resultHas).bind
    (yields_anyhow _)
  rintro ⟨arms, last⟩ ⟨others, _⟩ later ⟨armsAlike, rfl⟩ _
  exact agrees_pure ⟨.rest pattern armsAlike, rfl⟩

end Walk

mutual

theorem Expr.agrees_compileIn (setting : Setting) :
    (expression : Expr) → expression.FreeOfOrder setting
  | .number _ _ _ | .string _ _ | .unit _ | .static _ _ _ | .symbol _ _ | .record _ _ =>
      fun _ _ _ _ _ _ => agrees_of_on rfl Code.Alike.refl
  | .apply place name argument =>
      Expr.freeOfOrder_apply place name (Expr.agrees_compileIn setting argument)
  | .binary place operator left right =>
      Expr.freeOfOrder_binary place operator (Expr.agrees_compileIn setting left)
        (Expr.agrees_compileIn setting right)
  | .list place items =>
      Expr.freeOfOrder_list place (Exprs.agrees_compileIn setting items)
  | .select place record field =>
      Expr.freeOfOrder_select place field (Expr.agrees_compileIn setting record)
  | .caseOf place value choices =>
      Expr.freeOfOrder_caseOf place (Expr.agrees_compileIn setting value)
        (Choices.agrees_compileIn setting choices)
termination_by structural expression => expression

theorem Exprs.agrees_compileIn (setting : Setting) :
    (items : Exprs) → items.FreeOfOrder setting
  | .nil => fun _ _ _ _ _ _ _ _ => agrees_pure .nil
  | .cons head tail =>
      Exprs.freeOfOrder_cons (Expr.agrees_compileIn setting head)
        (Exprs.agrees_compileIn setting tail)
termination_by structural items => items

theorem Choices.agrees_compileIn (setting : Setting) :
    (choices : Choices) → choices.FreeOfOrder setting
  | .nil => fun _ _ _ _ _ _ _ _ => agrees_pure ⟨.nil, rfl⟩
  | .cons place pattern body tail =>
      Choices.freeOfOrder_cons place pattern (Expr.agrees_compileIn setting body)
        (Choices.agrees_compileIn setting tail)
  | .rest place tail =>
      Choices.freeOfOrder_rest place (Choices.agrees_compileIn setting tail)
termination_by structural choices => choices

end

/-! ## Cases -/

def Code.IsCase (code : Code) : Prop :=
  ∃ report value arms, code = .caseOf report value arms

theorem Code.Alike.isCase {left right : Code} (alike : left.Alike right)
    (isCase : right.IsCase) :
    left.IsCase := by
  rcases isCase with ⟨report, value, arms, rfl⟩
  cases alike
  exact ⟨_, _, _, rfl⟩

namespace Build

variable {graph : TypeGraph} {left right : Build Code}

/-- Two runs that compile a case end in the same way. Either they end with the same
failure, or they leave the same types with the same marks, and their cases have the same
patterns, the same number of slots, the same texts of types and the same code. The
variants that the cases have sealed are the same too, perhaps in different orders. -/
def CasesAgree (left right : Build Code) (graph : TypeGraph) : Prop :=
  (∃ failure later, left.on graph = (.error failure, later) ∧ right.on graph =
    (.error failure, later)) ∨
    ∃ report twin value other arms others later,
      left.on graph = (.ok (.caseOf report value arms), later) ∧
      right.on graph = (.ok (.caseOf twin other others), later) ∧
      report.sealed.Perm twin.sealed ∧ { report with sealed := twin.sealed } = twin ∧
      value.Alike other ∧ arms.Alike others ∧ arms.patterns = others.patterns ∧
      ∀ slots, (Code.caseOf report value arms).generate slots =
      (Code.caseOf twin other others).generate slots

theorem yields_caseOf_isCase (setting : Setting) (level : Nat) (scope : Scope)
    (place : Position) (value : Expr) (choices : Choices) :
    ((Expr.caseOf place value choices).compile setting level scope).Yields graph
      (fun code _ => code.IsCase) fun _ _ => True := by
  have ends : ∀ (type : Ref) (checked : Checked) (valueCode : Code) (arms : Arms)
      (later : TypeGraph), (do
      joinArgument value.position valueCode.type checked.root
      return .caseOf
        { position := place, type := type, slotCount := checked.slotCount,
          sealed := checked.sealed, matchedType := checked.matchedType, sealedTypes :=
          checked.sealedTypes }
        valueCode arms : Build Code).Yields later (fun code _ => code.IsCase)
          fun _ _ => True :=
    fun _ _ _ _ _ => yields_bind_anyhow fun _ _ => yields_pure ⟨_, _, _, rfl⟩
  rw [Expr.compile]
  dsimp only
  split
  · split
    · exact Yields.stop (yields_throw trivial)
    · apply yields_bind_anyhow
      intro valueCode _
      apply yields_bind_anyhow
      intro checked _
      apply yields_bind_anyhow
      rintro ⟨arms, result⟩ later
      cases result with
      | some type => exact ends type checked valueCode arms later
      | none =>
          exact yields_bind_anyhow fun type later =>
            ends type checked valueCode arms later
  · exact Yields.stop (yields_throw trivial)

theorem Agrees.cases (agrees : Agrees Code.Alike left right graph)
    (yields : right.Yields graph (fun code _ => code.IsCase) fun _ _ => True) :
    CasesAgree left right graph := by
  rcases agrees with failed | ⟨code, twin, later, ran, ranToo, alike⟩
  · exact .inl failed
  · rcases yields.of_ok ranToo with ⟨report, other, others, rfl⟩
    have generates := alike.generate_eq
    cases alike with
    | caseOf reportAlike valueAlike armsAlike =>
        obtain ⟨sealed, perm, rfl⟩ := reportAlike
        exact .inr ⟨_, _, _, _, _, _, later, ran, ranToo, perm, rfl,
          valueAlike, armsAlike, armsAlike.patterns_eq, generates⟩

end Build

def Code.sealed? : Code → Option (List Ref)
  | .caseOf report _ _ => some report.sealed
  | _ => none

namespace Build

variable {graph later : TypeGraph} {build : Build Code}

def sealedCase (build : Build Code) (graph : TypeGraph) : Option (List Ref) :=
  match (build.on graph).1 with
  | .error _ => none
  | .ok code => code.sealed?

theorem sealedCase_of_error {failure : Failure}
    (ran : build.on graph = (.error failure, later)) :
    build.sealedCase graph = none := by
  rw [sealedCase, ran]

theorem sealedCase_of_ok {report : CaseReport} {value : Code} {arms : Arms}
    (ran : build.on graph = (.ok (.caseOf report value arms), later)) :
    build.sealedCase graph = some report.sealed := by
  rw [sealedCase, ran]
  rfl

end Build

section Orders

variable {graph : TypeGraph} {scope : Scope}

theorem Expr.agrees_orders (tidy : graph.Tidy) (within : scope.Within graph)
    (setting : Setting) (level : Nat) (expression : Expr) (first second : SetOrder) :
    Agrees Code.Alike (expression.compileIn setting first level scope)
      (expression.compileIn setting second level scope) graph := by
  have own := expression.agrees_compileIn setting first level scope graph tidy within
  have other := expression.agrees_compileIn setting second level scope graph tidy within
  apply (own.trans other.symm).imp
  rintro code twin ⟨middle, alike, alikeToo⟩
  exact alike.trans alikeToo.symm

theorem Expr.yields_compileIn_isCase (tidy : graph.Tidy) (within : scope.Within graph)
    (setting : Setting) (level : Nat) (place : Position) (value : Expr)
    (choices : Choices) (order : SetOrder) :
    ((Expr.caseOf place value choices).compileIn setting order level scope).Yields graph
      (fun code _ => code.IsCase) fun _ _ => True := by
  have agrees := (Expr.caseOf place value choices).agrees_compileIn setting order level
    scope graph tidy
    within
  apply (agrees.yields (yields_caseOf_isCase setting level scope place value choices)).imp
  rintro code _ ⟨other, alike, isCase⟩
  exact alike.isCase isCase

/-- A case ends in the same way whatever the orders of sets, in every tidy graph and after
every environment has been installed. The run that goes through sets as they were found
ends in that way too. -/
theorem Expr.caseOf_order_free (setting : Setting) (level : Nat)
    (place : Position) (value : Expr) (choices : Choices) (first second : SetOrder) :
    let case : Expr := .caseOf place value choices
    (∀ (graph : TypeGraph) (scope : Scope), graph.Tidy → scope.Within graph →
      CasesAgree (case.compileIn setting first level scope)
        (case.compileIn setting second level scope) graph ∧
      CasesAgree (case.compileIn setting first level scope)
      (case.compile setting level scope) graph) ∧
    ∀ entries : List EnvEntry, CasesAgree
      (Fixture.installEnv 0 entries [] >>= fun scope =>
        case.compileIn setting first level scope)
      (Fixture.installEnv 0 entries [] >>= fun scope =>
        case.compileIn setting second level scope) {} := by
  intro case
  constructor
  · intro graph scope tidy within
    constructor
    · exact (Expr.agrees_orders tidy within setting level case first second).cases
        (Expr.yields_compileIn_isCase tidy within setting level place
          value choices second)
    · exact (case.agrees_compileIn setting first level scope graph tidy within).cases
        (yields_caseOf_isCase setting level scope place value choices)
  · intro entries
    have empty : Scope.Within {} [] := fun _ member => (nomatch member)
    have installs := (Fixture.yields_installEnv tidy_empty 0 entries empty).ifDone
    apply Agrees.cases
    · apply agrees_bind installs
      rintro scope graph ⟨becomes, within⟩
      exact Expr.agrees_orders becomes.tidy within setting level case first second
    · apply installs.bind
      rintro scope graph ⟨becomes, within⟩
      exact Expr.yields_compileIn_isCase becomes.tidy within setting level place
        value choices second

end Orders

theorem Expr.caseOf_order_free_twoVariants :
    let graph : TypeGraph := ({} : TypeGraph).edited [.operation .newVar]
    let scope : Scope := [⟨"v", .absolute 0, ⟨1⟩⟩]
    let place : Position := .first
    let tagged := fun name => Expr.apply place name (.unit place)
    let pattern : Expr :=
      .record place (.cons place "a" (tagged "A") (.cons place "b" (tagged "B") .nil))
    let choices : Choices := .cons place pattern (.unit place) .nil
    let case : Expr := .caseOf place (.symbol place "v") choices
    graph.Tidy ∧ scope.Within graph ∧ ∃ report twin value other arms others later,
      (case.compileIn {} .asFound 0 scope).on graph =
      (.ok (.caseOf report value arms), later) ∧
      (case.compileIn {} .lastFirst 0 scope).on graph =
      (.ok (.caseOf twin other others), later) ∧
      report.sealed = [⟨5⟩, ⟨10⟩] ∧ twin.sealed = [⟨10⟩, ⟨5⟩] ∧
      (Code.caseOf report value arms).generate 1 =
      (Code.caseOf twin other others).generate 1 := by
  intro graph scope place tagged pattern choices case
  have tidy : graph.Tidy := tidy_empty.edited (by decide)
  have within : scope.Within graph := by
    intro binding member
    rw [List.mem_singleton.1 member]
    decide
  refine ⟨tidy, within, ?_⟩
  have isFound : (case.compileIn {} .asFound 0 scope).sealedCase graph =
      some [⟨5⟩, ⟨10⟩] := by
    decide +kernel
  have isLast : (case.compileIn {} .lastFirst 0 scope).sealedCase graph =
      some [⟨10⟩, ⟨5⟩] := by
    decide +kernel
  rcases ((caseOf_order_free {} 0 place (.symbol place "v") choices .asFound .lastFirst).1
    graph scope tidy within).1 with ⟨failure, later, ran, _⟩ |
      ⟨report, twin, value, other, arms, others, later, ran, ranToo, _, _, _,
        _, _, generates⟩
  · cases (sealedCase_of_error ran).symm.trans isFound
  · have found := Option.some.inj ((sealedCase_of_ok ran).symm.trans isFound)
    have last := Option.some.inj ((sealedCase_of_ok ranToo).symm.trans isLast)
    exact ⟨report, twin, value, other, arms, others, later, ran, ranToo, found,
      last, generates 1⟩

end Casework
