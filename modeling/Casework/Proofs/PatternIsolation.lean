import Casework.Proofs.PatternEffects

/-!
Checking a pattern keeps to the copy.

The induction is on the pattern. Each pattern is checked against a type above the base and
nothing is done to nodes up to the base. The items of a list are checked against a type of
their own, which is newer than the copy: there the base is the whole graph, so what
checking them does is done to new nodes only.
-/

namespace Casework

theorem mem_mergeRefs {left right : List Ref} {ref : Ref}
    (member : ref ∈ mergeRefs left right) :
    ref ∈ left ∨ ref ∈ right := by
  induction right generalizing left with
  | nil => exact .inl member
  | cons head tail induction =>
      rcases induction member with inLeft | inTail
      · dsimp only at inLeft
        split at inLeft
        · exact .inl inLeft
        · rcases List.mem_append.1 inLeft with old | new
          · exact .inl old
          · exact .inr (List.mem_cons.2 (.inl (List.mem_singleton.1 new)))
      · exact .inr (List.mem_cons_of_mem _ inTail)

namespace Elaborate

open TypeGraph Elaboration Stateful

variable {original graph middle : TypeGraph} {unfolding base low : Nat}
  {ref type : Ref} {calm : Prop} {state : Elaboration}
  {failed : Failure → TypeGraph → Prop}

/-! ## Loops over references -/

theorem yields_forM {refs : List Ref} {act : Ref → Build Unit}
    (ready : state.Ready original unfolding base low graph)
    (each : ∀ ref ∈ refs, graph.Has ref ∧ base < ref.number)
    (acts : ∀ (ref : Ref) middle, Copying original unfolding base middle →
      middle.Has ref →
      base < ref.number →
        (act ref).Yields middle
          (fun _ later => Proceeds original unfolding base middle later) failed) :
    (refs.forM fun ref => liftM (act ref) : Elaborate Unit).Yields state graph
      (fun _ after later =>
        after.Continues original unfolding base low graph later ∧ state = after)
      failed := by
  induction refs generalizing graph with
  | nil => exact yields_pure ⟨ready.continues, rfl⟩
  | cons head tail induction =>
      have here := each head List.mem_cons_self
      apply yields_lift_bind (acts head graph ready.copying here.1 here.2)
      intro _ first proceeds
      have begun := ready.proceeded proceeds
      have eachTail : ∀ ref ∈ tail, first.Has ref ∧ base < ref.number := fun ref member =>
        have own := each ref (List.mem_cons_of_mem _ member)
        ⟨proceeds.has own.1, own.2⟩
      apply (induction begun.ready eachTail).imp
      rintro _ after later ⟨continues, rfl⟩
      exact ⟨begun.trans continues, rfl⟩

theorem yields_filterAuxM {refs kept : List Ref} (named : ∀ ref ∈ refs, graph.Has ref)
    (keptNamed : ∀ ref ∈ kept, graph.Has ref) :
    (List.filterAuxM (fun ref => liftM (Build.hasAny ref)) refs kept : Elaborate
      (List Ref)).Yields
      state graph (fun rest after later => (∀ ref ∈ rest, graph.Has ref) ∧ state =
        after ∧ graph = later)
      failed := by
  induction refs generalizing kept with
  | nil => exact yields_pure ⟨keptNamed, rfl, rfl⟩
  | cons head tail induction =>
      apply yields_lift_bind (Build.yields_hasAny (named head List.mem_cons_self))
      rintro chosen _ rfl
      apply induction fun ref member => named ref (List.mem_cons_of_mem _ member)
      intro ref member
      cases chosen with
      | false => exact keptNamed ref member
      | true =>
          rcases List.mem_cons.1 member with rfl | old
          · exact named ref List.mem_cons_self
          · exact keptNamed ref old

theorem yields_filterM {refs : List Ref} (named : ∀ ref ∈ refs, graph.Has ref) :
    (refs.filterM fun ref => liftM (Build.hasAny ref) : Elaborate (List Ref)).Yields
      state graph (fun rest after later => (∀ ref ∈ rest, graph.Has ref) ∧ state =
        after ∧ graph = later)
      failed := by
  have none : ∀ ref ∈ ([] : List Ref), graph.Has ref := fun _ member => (nomatch member)
  apply (yields_filterAuxM named none).bind
  rintro rest _ _ ⟨restNamed, rfl, rfl⟩
  exact yields_pure
    ⟨fun ref member => restNamed ref (List.mem_reverse.1 member), rfl, rfl⟩

/-! ## Every pattern -/

theorem yields_gather (ready : state.Ready original unfolding base low graph)
    (has : graph.Has type) (high : base < type.number) :
    (gather type).Yields state graph
      (fun _ after later => after.Continues original unfolding base low graph later)
        failed := by
  apply yields_get_bind
  split
  · exact yields_pure ready.continues
  next refs isRefs =>
      rcases has_iff.1 has with ⟨node, found⟩
      have unchanged : (Build.isUnbound type).Yields graph
          (fun _ later => graph = later) failed :=
        Build.yields_read found rfl
      apply yields_lift_bind unchanged
      rintro isUnbound _ rfl
      split
      · apply yields_modify
        refine ⟨ready.copying.proceeds, ready.copying, ready.small,
          ⟨ready.known.scope, ready.known.registered⟩, fun own isOwn ref member => ?_⟩
        cases isOwn
        rcases mem_mergeRefs member with old | new
        · exact ready.gathers refs isRefs ref old
        · have small := ready.small
          rw [List.mem_singleton.1 new]
          exact ⟨by omega, has⟩
      · exact yields_pure ready.continues

theorem yields_expand_copying (tidy : original.Tidy)
    (copying : Copying original unfolding base graph) (has : graph.Has type)
    (high : base < type.number) :
    (Build.expand type).Yields graph
      (fun _ later => Proceeds original unfolding base graph later) failed := by
  apply (Build.yields_expand tidy copying has high).imp
  rintro _ later ⟨copyingLater, rfl | ⟨position, positionHigh, expands⟩⟩
  · exact copying.proceeds
  · exact ⟨copyingLater, expands.spares positionHigh _⟩

theorem yields_entering (tidy : original.Tidy)
    (ready : state.Ready original unfolding base low graph) (has : graph.Has type)
    (high : base < type.number) (pattern : Expr) {next : Elaborate Pattern}
    (rest : ∀ after middle, after.Continues original unfolding base low graph middle →
      middle.Has type →
        next.Yields after middle
          (fun _ last later => last.Continues original unfolding base low middle later)
          (Harmless original calm)) :
    (pattern.entering type next).Yields state graph
      (fun _ after later => after.Continues original unfolding base low graph later)
      (Harmless original calm) := by
  apply yields_lift_bind (Build.yields_hasAny has)
  rintro covered _ rfl
  dsimp only
  split
  · exact yields_reject_bind ready.copying _ _ _
  · apply yields_lift_bind (yields_expand_copying tidy ready.copying has high)
    intro _ first proceeds
    have begun := ready.proceeded proceeds
    apply (yields_gather begun.ready (proceeds.has has) high).bind
    intro _ after second gathering
    have entered := begun.trans gathering
    apply (rest after second entered (entered.has has)).imp
    intro _ last later continues
    exact entered.trans continues

/-! ## Names and constants -/

theorem yields_bindName (ready : state.Ready original unfolding base low graph)
    (has : graph.Has type) (level : Nat) (name : String) :
    (bindName level name type).Yields state graph
      (fun _ after later => after.Continues original unfolding base low graph later)
        failed := by
  change Continues original unfolding base low graph _ graph
  refine ⟨ready.copying.proceeds, ready.copying, ready.small,
    ⟨fun binding member => ?_, ?_⟩, ready.gathers⟩
  · rcases List.mem_cons.1 member with rfl | old
    · exact has
    · exact ready.known.scope binding old
  · exact ready.known.registered

theorem yields_symbol (ready : state.Ready original unfolding base low graph)
    (has : graph.Has type) (high : base < type.number) (level : Nat) (name : String) :
    (symbol level name type).Yields state graph
      (fun _ after later => after.Continues original unfolding base low graph later)
        failed := by
  apply yields_lift_bind (yields_coverAll ready.copying has high)
  intro _ middle proceeds
  have begun := ready.proceeded proceeds
  split
  · exact yields_pure begun
  · apply (yields_bindName begun.ready (proceeds.has has) level name).bind
    intro _ after later continues
    exact yields_pure (begun.trans continues)

theorem yields_constant (copying : Copying original unfolding base graph)
    (value : Constant) (primitive : Primitive) :
    (Build.constant value primitive).Yields graph (fun code later =>
      Proceeds original unfolding base graph later ∧ ConstantTyped later code ∧
        later.Has code.type)
      failed := by
  apply (Build.yields_allocate_copying copying (.primitive primitive)
    (fun _ member => (nomatch member)) trivial rfl).bind
  rintro new later ⟨proceeds, _, rooted, _⟩
  refine Build.yields_pure ⟨proceeds, fun own type isConstant => ?_, rooted.has⟩
  cases isConstant
  exact ⟨new, _, primitive, rooted, rfl⟩

theorem yields_staticField (copying : Copying original unfolding base graph)
    (setting : Setting) (place : Position) (owner field : String) :
    (Build.staticField setting place owner field).Yields graph (fun code later =>
      Proceeds original unfolding base graph later ∧ ConstantTyped later code ∧
        later.Has code.type)
      (Harmless original setting.Primitive) := by
  unfold Build.staticField
  dsimp only
  split
  · exact Build.yields_rejected copying _ _
  next static isStatic =>
      unfold Build.newOfKind
      split
      next primitive isPrimitive =>
          apply (Build.yields_allocate_copying copying (.primitive primitive)
            (fun _ member => (nomatch member)) trivial rfl).bind
          rintro new later ⟨proceeds, _, rooted, _⟩
          apply Build.yields_pure
          refine ⟨proceeds, fun value type isConstant => ?_, ?_⟩
          · split at isConstant
            · cases isConstant
              exact ⟨new, _, primitive, rooted, rfl⟩
            · cases isConstant
          · split
            · exact rooted.has
            · exact rooted.has
      next notPrimitive =>
          refine Build.Yields.stop (Build.yields_throw ⟨copying.frozen, fun calm => ?_⟩)
          rcases calm _ static isStatic with ⟨primitive, isPrimitive⟩
          exact absurd isPrimitive (notPrimitive primitive)

theorem yields_literalOf (tidy : original.Tidy)
    (ready : state.Ready original unfolding base low graph) (has : graph.Has type)
    (high : base < type.number) (pattern : Expr) {build : Build Code}
    (made : build.Yields graph (fun code later =>
      Proceeds original unfolding base graph later ∧ ConstantTyped later code ∧
        later.Has code.type)
      (Harmless original calm)) :
    (do literal pattern (← build) type : Elaborate Pattern).Yields state graph
      (fun _ after later => after.Continues original unfolding base low graph later)
      (Harmless original calm) := by
  apply yields_lift_bind made
  rintro code first ⟨proceeds, typed, codeHas⟩
  have begun := ready.proceeded proceeds
  apply (yields_lift_proceeds begun.ready
    (yields_literal tidy begun.ready.copying (proceeds.has has) high pattern
      typed codeHas)).imp
  intro _ after later continues
  exact begun.trans continues

/-! ## Lists -/

/-- The type variables met in the items of a list are above the base. -/
structure ItemCover.Within (base : Nat) (graph : TypeGraph) (cover : ItemCover) :
    Prop where
  met : ∀ ref ∈ cover.met, graph.Has ref ∧ base < ref.number
  covered : ∀ refs, cover.covered = some refs → ∀ ref ∈ refs, graph.Has ref

theorem ItemCover.Within.mono {cover : ItemCover} {later : TypeGraph}
    (within : cover.Within base graph) (grown : graph.size ≤ later.size) :
    cover.Within base later :=
  ⟨fun ref member => ⟨(within.met ref member).1.mono grown, (within.met ref member).2⟩,
    fun refs isRefs ref member => (within.covered refs isRefs ref member).mono grown⟩

theorem ItemCover.Within.empty : ItemCover.Within base graph {} := ⟨nofun, nofun⟩

/-- After the items of a list, the type variables met in them count for the list around
it. -/
theorem ready_merged {cover : ItemCover} {after : Elaboration} {later : TypeGraph}
    (ready : state.Ready original unfolding base low graph)
    (proceeds : Proceeds original unfolding base graph later)
    (known : after.Known original later) (within : cover.Within graph.size later) :
    ({ after with gathered := state.gathered.map (mergeRefs · cover.met) } :
      Elaboration).Ready original
      unfolding base low later := by
  refine ⟨proceeds.copying, ready.small, ⟨known.scope, known.registered⟩,
    fun refs isRefs ref member => ?_⟩
  rcases Option.map_eq_some_iff.1 isRefs with ⟨outer, isOuter, rfl⟩
  rcases mem_mergeRefs member with old | new
  · exact (ready.gathers.mono proceeds.grown) outer isOuter ref old
  · have own := within.met ref new
    have small := ready.small
    have baseSmall := ready.copying.small
    exact ⟨by omega, own.1⟩

theorem yields_startItem (ready : state.Ready original unfolding base low graph)
    (has : graph.Has type) (high : base < type.number) {cover : ItemCover}
    (within : cover.Within base graph) :
    (startItem type cover).Yields state graph
      (fun _ after later => after.Continues original unfolding base base graph later)
        failed := by
  apply yields_lift_bind (Build.yields_remark ready.copying has high _)
  intro _ first proceeds
  have begun := ready.proceeded proceeds
  have each : ∀ ref ∈ cover.met, first.Has ref ∧ base < ref.number :=
    (within.mono proceeds.grown).met
  apply (yields_forM begun.ready each
    fun ref middle copying own ownHigh => Build.yields_remark copying own ownHigh _).bind
  rintro _ after later ⟨continues, rfl⟩
  apply yields_modify
  refine ⟨proceeds.trans continues.proceeds, continues.ready.copying, Nat.le_refl _,
    ⟨continues.ready.known.scope, continues.ready.known.registered⟩,
    fun refs isRefs ref member => ?_⟩
  cases isRefs
  cases member

theorem within_mergeRefs (ready : state.Ready original unfolding base base graph)
    {cover : ItemCover} (within : cover.Within base graph) :
    ∀ ref ∈ mergeRefs cover.met (state.gathered.getD []), graph.Has ref ∧ base <
      ref.number := by
  intro ref member
  rcases mem_mergeRefs member with old | new
  · exact within.met ref old
  · cases gathered : state.gathered with
    | none =>
        rw [gathered] at new
        cases new
    | some refs =>
        rw [gathered] at new
        have own := ready.gathers refs gathered ref new
        exact ⟨own.2, own.1⟩

/-- The types of which an item has to tell whether it covers them. -/
def candidates (cover : ItemCover) (state : Elaboration) : List Ref :=
  cover.covered.getD (mergeRefs cover.met (state.gathered.getD []))

theorem has_of_mem_candidates (ready : state.Ready original unfolding base base graph)
    {cover : ItemCover} (within : cover.Within base graph) :
    ∀ ref ∈ candidates cover state, graph.Has ref := by
  intro ref member
  unfold candidates at member
  cases covered : cover.covered with
  | none =>
      rw [covered] at member
      exact (within_mergeRefs ready within ref member).1
  | some refs =>
      rw [covered] at member
      exact within.covered refs covered ref member

theorem yields_finishItem (ready : state.Ready original unfolding base base graph)
    (has : graph.Has type) {cover : ItemCover} (within : cover.Within base graph) :
    (finishItem type cover).Yields state graph (fun result after later =>
      result.Within base graph ∧ state = after ∧ graph = later) failed := by
  apply yields_get_bind
  apply (yields_filterM (has_of_mem_candidates ready within)).bind
  rintro kept _ _ ⟨keptNamed, rfl, rfl⟩
  apply yields_lift_bind (Build.yields_hasAny has)
  rintro any _ rfl
  refine yields_pure ⟨⟨within_mergeRefs ready within, fun refs isRefs => ?_⟩, rfl, rfl⟩
  cases isRefs
  exact keptNamed

theorem yields_settleItems (copying : Copying original unfolding base graph)
    (has : graph.Has type) (high : base < type.number) {cover : ItemCover}
    (within : cover.Within base graph) :
    (settleItems type cover).Yields graph
      (fun _ later => Proceeds original unfolding base graph later) failed := by
  have settled : (cover.met.forM fun ref =>
      Build.putAny ref ((cover.covered.getD []).contains ref)).Yields graph
        (fun _ later => Proceeds original unfolding base graph later) failed := by
    apply Build.yields_forM (Proceeds original unfolding base graph) copying.proceeds
    intro ref member middle proceeds
    have own := within.met ref member
    apply (Build.yields_remark proceeds.copying (proceeds.has own.1) own.2 _).imp
    exact fun _ later marked => proceeds.trans marked
  apply settled.bind
  intro _ middle proceeds
  apply (Build.yields_remark proceeds.copying (proceeds.has has) high _).imp
  exact fun _ later marked => proceeds.trans marked

theorem yields_finishFixedList (tidy : original.Tidy)
    (copying : Copying original unfolding base graph)
    (built : Proceeds original unfolding graph.size graph middle) {itemType : Ref}
    {nodes : List Ref} (has : graph.Has type) (high : base < type.number)
    (itemHas : middle.Has itemType) (itemNew : graph.size < itemType.number)
    (tree : middle.Forest [itemType] nodes) (place : Position) :
    (finishFixedList place type itemType).Yields middle
      (fun _ later => Proceeds original unfolding base graph later ∧
        middle.size ≤ later.size)
      (Harmless original calm) := by
  have parts : ∀ part ∈ (Form.list itemType).refs, middle.Has part ∧ graph.size <
      part.number := by
    intro part member
    rw [List.mem_singleton.1 member]
    exact ⟨itemHas, itemNew⟩
  apply (Build.yields_allocate_copying built.copying (.list itemType) parts
    trivial rfl).bind
  rintro list first ⟨allocated, listNew, rooted, trees⟩
  rcases trees nodes tree with ⟨all, listTree⟩
  have grown := built.grown
  apply (Build.yields_unifyAt_copying tidy copying (built.trans allocated) place
    has high rooted.has (by omega) listTree).bind
  rintro _ second ⟨unified, grownToo, _⟩
  apply (Build.yields_remarkRoot unified.copying (unified.has has) high _).imp
  exact fun _ later marked =>
    ⟨unified.trans marked, allocated.grown.trans (grownToo.trans marked.grown)⟩

theorem yields_elementType (tidy : original.Tidy)
    (copying : Copying original unfolding base graph) (has : graph.Has type)
    (high : base < type.number) (place : Position) :
    (elementType place type).Yields graph (fun element later =>
      Proceeds original unfolding base graph later ∧ later.Has element ∧
        base < element.number)
      (Harmless original calm) := by
  apply Build.yields_newList_bind copying
  intro element list first nodes built isNew rooted tree
  apply (Build.yields_unifyAt_copying tidy copying built place has high rooted.has
    isNew tree).bind
  rintro _ second ⟨unified, _, same, lasting⟩
  -- The new list is still a list, and the type is the same type as it.
  rcases lasting list list _ rooted (fun isVar => (nomatch isVar)) with
    ⟨root, node, rootedLater, isList⟩
  rcases Form.exists_list_of_kind isList with ⟨own, form⟩
  have typeRooted := rootedLater.of_same same.symm
  have stored : own ∈ node.stored := by
    apply node.mem_stored_of_refs
    rw [form]
    exact List.mem_singleton.2 rfl
  have rootHigh := unified.copying.above_of_leads typeRooted.leads high
  apply Build.yields_look_bind typeRooted.root
  rw [form]
  exact Build.yields_pure
    ⟨unified, unified.copying.wellFormed.stored root node typeRooted.found own stored,
      unified.copying.above root node rootHigh typeRooted.found own stored⟩

theorem yields_joinHead (tidy : original.Tidy)
    (copying : Copying original unfolding base graph)
    (built : Proceeds original unfolding graph.size graph middle) {element headType : Ref}
    {nodes : List Ref} (has : graph.Has element) (high : base < element.number)
    (headHas : middle.Has headType) (headNew : graph.size < headType.number)
    (tree : middle.Forest [headType] nodes) (place : Position) :
    (joinHead place element headType).Yields middle
      (fun _ later => Proceeds original unfolding base graph later ∧
        middle.size ≤ later.size)
      (Harmless original calm) := by
  apply (Build.yields_unifyAt_copying tidy copying built place has high headHas
    headNew tree).bind
  rintro _ first ⟨unified, grown, _⟩
  apply (Build.yields_hasAny (headHas.mono grown)).bind
  rintro covered _ rfl
  split
  · apply (Build.yields_remark unified.copying (unified.has has) high _).imp
    exact fun _ later marked => ⟨unified.trans marked, grown.trans marked.grown⟩
  · exact Build.yields_pure ⟨unified, grown⟩

theorem yields_finishCons (copying : Copying original unfolding base graph)
    (has : graph.Has type) (high : base < type.number) (before forms : Marks)
    (tail : Pattern) :
    (finishCons type before forms tail).Yields graph
      (fun _ later => Proceeds original unfolding base graph later) failed := by
  apply (Build.yields_remark copying has high _).bind
  intro _ first marked
  apply (Build.yields_remarkRoot marked.copying (marked.has has) high _).bind
  intro _ second restored
  apply (Build.yields_remarkRoot restored.copying
    (restored.has (marked.has has)) high _).imp
  exact fun _ later noted => marked.trans (restored.trans noted)

/-! ## Structs -/

theorem yields_enterField (tidy : original.Tidy)
    (copying : Copying original unfolding base graph) (has : graph.Has type)
    (high : base < type.number) (place : Position) (name : String) :
    (enterField place name type).Yields graph (fun field later =>
      Proceeds original unfolding base graph later ∧ later.Has field ∧
        base < field.number)
      (Harmless original calm) := by
  apply (Build.yields_newVar_copying copying.rebase).bind
  rintro field first ⟨allocated, fieldNew, fieldHas, nodes, tree⟩
  have parts : ∀ part ∈ (Form.row .struct (.ofList [(name, field)]) none).refs,
      first.Has part ∧ graph.size < part.number := by
    intro part member
    rw [List.mem_singleton.1 member]
    exact ⟨fieldHas, fieldNew⟩
  apply (Build.yields_allocate_copying allocated.copying _ parts
    (Row.fair_ofList _) rfl).bind
  rintro struct second ⟨allocatedToo, structNew, rooted, trees⟩
  rcases trees nodes tree with ⟨all, structTree⟩
  have grown := allocated.grown
  have small := copying.small
  apply (Build.yields_unifyAt_copying tidy copying
    (allocated.trans allocatedToo) place has high rooted.has (by omega) structTree).bind
  rintro _ later ⟨unified, grownToo, _⟩
  exact Build.yields_pure ⟨unified, (allocatedToo.has fieldHas).mono grownToo, by omega⟩

theorem yields_settleFields (copying : Copying original unfolding base graph)
    (has : graph.Has type) (high : base < type.number) (covered : Bool) :
    (settleFields type covered).Yields graph
      (fun _ later => Proceeds original unfolding base graph later) failed := by
  rcases copying.wellFormed.settles type has with ⟨target, node, rooted⟩
  have targetHigh := copying.above_of_leads rooted.leads high
  apply (Build.yields_members rooted.root).bind
  rintro row _ ⟨rfl, rfl⟩
  have stored : ∀ field ∈ (node.form.members?.getD .empty).refs, field ∈ node.stored := by
    intro field member
    cases form : node.form with
    | row kind members bound =>
        rw [form] at member
        apply node.mem_stored_of_refs
        rw [form]
        exact List.mem_append_left _ member
    | _ =>
        rw [form] at member
        cases member
  refine Build.Yields.bind
    (Build.yields_forIn (Proceeds original unfolding base graph) copying.proceeds ?_)
    fun _ later proceeds => Build.yields_pure proceeds
  intro field member middle proceeds
  have held := stored field member
  have fieldHas :=
    proceeds.has (copying.wellFormed.stored target node rooted.found field held)
  have fieldHigh := copying.above target node targetHigh rooted.found field held
  rcases proceeds.copying.wellFormed.settles field fieldHas with
    ⟨root, rootNode, fieldRooted⟩
  apply Build.yields_look_bind fieldRooted.deref
  apply (Build.yields_remark proceeds.copying fieldRooted.has
    (proceeds.copying.above_of_leads fieldRooted.leads fieldHigh) _).bind
  intro _ later marked
  exact Build.yields_pure ⟨rfl, proceeds.trans marked⟩

end Elaborate

/-! ## Patterns -/

open Elaborate TypeGraph Elaboration Stateful

section Walk

variable {original : TypeGraph} {unfolding : Nat}

theorem Elaborate.yields_refused {base low : Nat} {graph : TypeGraph}
    {state : Elaboration} {type : Ref} {calm : Prop} (tidy : original.Tidy)
    (ready : state.Ready original unfolding base low graph) (has : graph.Has type)
    (high : base < type.number) (pattern : Expr) (place : Position)
    (cause : CompileCause) :
    (pattern.entering type (liftM (Build.reject place cause : Build Pattern))).Yields
      state graph
      (fun _ after later => after.Continues original unfolding base low graph later)
      (Harmless original calm) := by
  apply yields_entering tidy ready has high
  intro after middle continues _
  exact yields_lift_proceeds continues.ready
    (Build.yields_rejected continues.ready.copying place cause)

variable {setting : Setting} {level : Nat}

/-- Checking a pattern goes on with the copy, whether the pattern is accepted or
refused. -/
def Expr.KeepsCopy (original : TypeGraph) (unfolding : Nat)
    (setting : Setting) (level : Nat) (pattern : Expr) : Prop :=
  ∀ (inside : Bool) (type : Ref) (base low : Nat) (graph : TypeGraph)
    (state : Elaboration),
    state.Ready original unfolding base low graph → graph.Has type → base < type.number →
      (pattern.elaborate setting level inside type).Yields state graph
        (fun _ after later => after.Continues original unfolding base low graph later)
        (Harmless original setting.Primitive)

def Exprs.KeepCopy (original : TypeGraph) (unfolding : Nat)
    (setting : Setting) (level : Nat) (items : Exprs) : Prop :=
  ∀ (itemType : Ref) (cover : ItemCover) (base low : Nat) (graph : TypeGraph)
    (state : Elaboration),
    state.Ready original unfolding base low graph → graph.Has itemType → base <
    itemType.number →
      cover.Within base graph →
        (items.elaborate setting level itemType cover).Yields state graph
          (fun result after later => Proceeds original unfolding base graph later ∧
            after.Known original later ∧ result.2.Within base later)
          (Harmless original setting.Primitive)

def Fields.KeepCopy (original : TypeGraph) (unfolding : Nat)
    (setting : Setting) (level : Nat) (fields : Fields) : Prop :=
  ∀ (inside : Bool) (type : Ref) (seen : List String) (base low : Nat) (graph : TypeGraph)
    (state : Elaboration), state.Ready original unfolding base low graph →
    graph.Has type →
    base < type.number →
      (fields.elaborate setting level inside type seen).Yields state graph
        (fun _ after later => after.Continues original unfolding base low graph later)
        (Harmless original setting.Primitive)

theorem Expr.keepsCopy_list (tidy : original.Tidy) (place : Position)
    {head : Expr} {tail : Exprs}
    (items : (Exprs.cons head tail).KeepCopy original unfolding setting level) :
    (Expr.list place (.cons head tail)).KeepsCopy original unfolding setting level := by
  intro inside type base low graph state ready has high
  rw [Expr.elaborate_list]
  apply yields_entering tidy ready has high
  intro after start continues typeHas
  -- The items are checked above all nodes that there are.
  apply yields_lift_bind (Build.yields_newVar_copying continues.ready.copying.rebase)
  rintro itemType first ⟨allocated, itemNew, itemHas, nodes, tree⟩
  apply yields_get_bind
  have begun := continues.ready.rebase.proceeded allocated
  apply (items itemType {} start.size low first after begun.ready itemHas
    itemNew .empty).bind
  rintro ⟨patterns, cover⟩ last second ⟨proceeds, known, within⟩
  dsimp only
  have built := allocated.trans proceeds
  apply yields_modify_bind
  have merged :=
    ready_merged continues.ready (built.lower continues.ready.copying) known within
  apply yields_lift_bind
    (yields_settleItems built.copying (proceeds.has itemHas) itemNew within)
  intro _ third settled
  rcases proceeds.spares.forests itemType nodes itemHas.2 tree with ⟨all, treeSecond⟩
  rcases settled.spares.forests itemType all (proceeds.has itemHas).2 treeSecond with
    ⟨whole, treeThird⟩
  apply yields_lift_bind
    (yields_finishFixedList tidy continues.ready.copying (built.trans settled) typeHas
      high (settled.has (proceeds.has itemHas)) itemNew treeThird place)
  rintro _ later ⟨finished, grown⟩
  exact yields_pure (merged.resumed finished (settled.grown.trans grown) merged.small)

theorem Expr.keepsCopy_apply (tidy : original.Tidy) (place : Position) (tag : String)
    {argument : Expr} (checks : argument.KeepsCopy original unfolding setting level) :
    (Expr.apply place tag argument).KeepsCopy original unfolding setting level := by
  intro inside type base low graph state ready has high
  rw [Expr.elaborate_apply]
  apply yields_entering tidy ready has high
  intro after middle continues typeHas
  apply (yields_enterTag tidy continues.ready typeHas high inside place tag).bind
  rintro payload entered second ⟨entering, payloadHas, payloadHigh⟩
  apply (checks inside payload base low second entered entering.ready payloadHas
    payloadHigh).bind
  intro _ last later checked
  exact yields_pure (entering.trans checked)

theorem Expr.keepsCopy_cons (tidy : original.Tidy) (place : Position) {head tail : Expr}
    (headChecks : head.KeepsCopy original unfolding setting level)
    (tailChecks : tail.KeepsCopy original unfolding setting level) :
    (Expr.binary place .cons head tail).KeepsCopy original unfolding setting level := by
  intro inside type base low graph state ready has high
  rw [Expr.elaborate_cons]
  apply yields_entering tidy ready has high
  intro after start continues typeHas
  apply yields_lift_bind
    (yields_elementType tidy continues.ready.copying typeHas high place)
  rintro element first ⟨proceeds, elementHas, elementHigh⟩
  have begun := continues.ready.proceeded proceeds
  -- The head is checked above all nodes that there are.
  apply yields_lift_bind (Build.yields_newVar_copying begun.ready.copying.rebase)
  rintro headType second ⟨allocated, headNew, headHas, nodes, tree⟩
  have prepared := begun.ready.rebase.proceeded allocated
  apply (headChecks true headType first.size low second after prepared.ready
    headHas headNew).bind
  intro headPattern headState third headChecked
  have built := prepared.trans headChecked
  rcases headChecked.proceeds.spares.forests headType nodes headHas.2 tree
    with ⟨all, headTree⟩
  apply yields_lift_bind
    (yields_joinHead tidy begun.ready.copying built.proceeds elementHas elementHigh
      (headChecked.has headHas) headNew headTree head.position)
  rintro _ fourth ⟨joined, grown⟩
  have resumed := built.ready.resumed joined grown begun.ready.small
  have both := begun.trans resumed
  have typeStays := both.has typeHas
  rcases has_iff.1 typeStays with ⟨node, found⟩
  apply yields_lift_bind (Build.yields_marks found)
  rintro before _ rfl
  rcases resumed.ready.copying.wellFormed.settles type typeStays with
    ⟨target, targetNode, rooted⟩
  apply yields_lift_bind (Build.yields_listForms rooted.root)
  rintro forms _ rfl
  apply (tailChecks true type base low fourth headState resumed.ready typeStays high).bind
  intro tailPattern last fifth tailChecked
  apply yields_lift_bind
    (yields_finishCons tailChecked.ready.copying (tailChecked.has typeStays) high before
      forms tailPattern)
  intro _ later finished
  exact yields_pure (both.trans (tailChecked.proceeded finished))

theorem Expr.keepsCopy_record (tidy : original.Tidy)
    (place fieldPlace : Position) (name : String) {value : Expr} {tail : Fields}
    (fields : (Fields.cons fieldPlace name value tail).KeepCopy original unfolding
      setting level) :
    (Expr.record place (.cons fieldPlace name value tail)).KeepsCopy original unfolding
      setting level := by
  intro inside type base low graph state ready has high
  rw [Expr.elaborate_record]
  apply yields_entering tidy ready has high
  intro after middle continues typeHas
  apply (fields inside type [] base low middle after continues.ready typeHas high).bind
  rintro ⟨patterns, covered⟩ last second checked
  apply yields_lift_bind
    (yields_settleFields checked.ready.copying (checked.has typeHas) high covered)
  intro _ later settled
  exact yields_pure (checked.proceeded settled)

theorem Exprs.keepCopy_cons {head : Expr} {tail : Exprs}
    (headChecks : head.KeepsCopy original unfolding setting level)
    (tailChecks : tail.KeepCopy original unfolding setting level) :
    (Exprs.cons head tail).KeepCopy original unfolding setting level := by
  intro itemType cover base low graph state ready has high within
  rw [Exprs.elaborate_cons]
  apply (yields_startItem ready has high within).bind
  intro _ started first starting
  apply (headChecks true itemType base base first started starting.ready
    (starting.has has) high).bind
  intro pattern after second checked
  have begun := starting.trans checked
  apply (yields_finishItem begun.ready (begun.has has)
    (within.mono begun.proceeds.grown)).bind
  rintro own _ _ ⟨ownWithin, rfl, rfl⟩
  apply (tailChecks itemType own base base second after begun.ready (begun.has has)
    high ownWithin).bind
  rintro ⟨patterns, last⟩ final later ⟨proceeds, known, lastWithin⟩
  exact yields_pure ⟨begun.proceeds.trans proceeds, known, lastWithin⟩

theorem Fields.keepCopy_cons (tidy : original.Tidy) (place : Position)
    (name : String) {value : Expr} {tail : Fields}
    (valueChecks : value.KeepsCopy original unfolding setting level)
    (tailChecks : tail.KeepCopy original unfolding setting level) :
    (Fields.cons place name value tail).KeepCopy original unfolding setting level := by
  intro inside type seen base low graph state ready has high
  rw [Fields.elaborate_cons]
  dsimp only
  split
  · exact yields_reject_bind ready.copying _ _ _
  · apply yields_lift_bind
      (yields_enterField tidy ready.copying has high value.position name)
    rintro field first ⟨proceeds, fieldHas, fieldHigh⟩
    have begun := ready.proceeded proceeds
    apply (valueChecks inside field base low first state begun.ready
      fieldHas fieldHigh).bind
    intro pattern after second checked
    apply yields_lift_bind (Build.yields_hasAny (checked.has fieldHas))
    rintro covered _ rfl
    have both := begun.trans checked
    apply (tailChecks inside type (name :: seen) base low second after
      both.ready (both.has has) high).bind
    rintro ⟨patterns, others⟩ last later continues
    exact yields_pure (both.trans continues)

theorem Expr.keepsCopy_of_entering (tidy : original.Tidy) {pattern : Expr}
    {check : (type : Ref) → Elaborate Pattern}
    (isCheck : ∀ inside type,
      pattern.elaborate setting level inside type = pattern.entering type (check type))
    (checks : ∀ (type : Ref) (base low : Nat) (graph : TypeGraph) (state : Elaboration),
      state.Ready original unfolding base low graph → graph.Has type →
        base < type.number →
        (check type).Yields state graph
          (fun _ after later => after.Continues original unfolding base low graph later)
          (Harmless original setting.Primitive)) :
    pattern.KeepsCopy original unfolding setting level := by
  intro inside type base low graph state ready has high
  rw [isCheck]
  apply yields_entering tidy ready has high
  intro after middle continues typeHas
  exact checks type base low middle after continues.ready typeHas high

mutual

theorem Expr.yields_elaborate (tidy : original.Tidy) (setting : Setting) (level : Nat) :
    (pattern : Expr) → pattern.KeepsCopy original unfolding setting level
  | .symbol _ name =>
      Expr.keepsCopy_of_entering tidy (fun _ _ => Expr.elaborate_symbol ..)
        fun _ _ _ _ _ ready has high => yields_symbol ready has high level name
  | .unit place =>
      Expr.keepsCopy_of_entering tidy (fun _ _ => Expr.elaborate_unit ..)
        fun _ _ _ _ _ ready has high =>
          yields_lift_proceeds ready (yields_unit tidy ready.copying has high place)
  | .number _ _ _ =>
      Expr.keepsCopy_of_entering tidy (fun _ _ => Expr.elaborate_number ..)
        fun _ _ _ _ _ ready has high =>
          yields_literalOf tidy ready has high _ (yields_constant ready.copying _ _)
  | .string _ _ =>
      Expr.keepsCopy_of_entering tidy (fun _ _ => Expr.elaborate_string ..)
        fun _ _ _ _ _ ready has high =>
          yields_literalOf tidy ready has high _ (yields_constant ready.copying _ _)
  | .static place owner field =>
      Expr.keepsCopy_of_entering tidy (fun _ _ => Expr.elaborate_static ..)
        fun _ _ _ _ _ ready has high =>
          yields_literalOf tidy ready has high _
            (yields_staticField ready.copying setting place owner field)
  | .list place .nil =>
      Expr.keepsCopy_of_entering tidy (fun _ _ => Expr.elaborate_emptyList ..)
        fun _ _ _ _ _ ready has high =>
          yields_lift_proceeds ready (yields_emptyList tidy ready.copying has high place)
  | .list place (.cons head tail) =>
      Expr.keepsCopy_list tidy place
        (Exprs.yields_elaborate tidy setting level (.cons head tail))
  | .apply place tag argument =>
      Expr.keepsCopy_apply tidy place tag
        (Expr.yields_elaborate tidy setting level argument)
  | .binary place .cons head tail =>
      Expr.keepsCopy_cons tidy place (Expr.yields_elaborate tidy setting level head)
        (Expr.yields_elaborate tidy setting level tail)
  | .record place (.cons fieldPlace name value tail) =>
      Expr.keepsCopy_record tidy place fieldPlace name
        (Fields.yields_elaborate tidy setting level (.cons fieldPlace name value tail))
  | .record _ .nil | .binary _ .add _ _ | .binary _ .subtract _ _
      | .binary _ .multiply _ _
  | .select _ _ _ | .caseOf _ _ _ =>
      fun _ _ _ _ _ _ ready has high => yields_refused tidy ready has high _ _ _
termination_by structural pattern => pattern

theorem Exprs.yields_elaborate (tidy : original.Tidy) (setting : Setting) (level : Nat) :
    (items : Exprs) → items.KeepCopy original unfolding setting level
  | .nil => fun _ _ _ _ _ _ ready _ _ within =>
      yields_pure ⟨ready.copying.proceeds, ready.known, within⟩
  | .cons head tail =>
      Exprs.keepCopy_cons (Expr.yields_elaborate tidy setting level head)
        (Exprs.yields_elaborate tidy setting level tail)
termination_by structural items => items

theorem Fields.yields_elaborate (tidy : original.Tidy) (setting : Setting) (level : Nat) :
    (fields : Fields) → fields.KeepCopy original unfolding setting level
  | .nil => fun _ _ _ _ _ _ _ ready _ _ => yields_pure ready.continues
  | .cons place name value tail =>
      Fields.keepCopy_cons tidy place name
        (Expr.yields_elaborate tidy setting level value)
        (Fields.yields_elaborate tidy setting level tail)
termination_by structural fields => fields

end

end Walk

end Casework
