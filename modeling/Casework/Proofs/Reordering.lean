import Casework.Proofs.CaseIsolation
import Casework.Proofs.SetOrders

/-!
Patterns are checked in the same way whatever the order of sets.

A loop over type variables clears or sets one mark of each, so its steps commute as long
as every step succeeds. They do, since only types of the graph are ever met. The induction
is the one by which patterns keep to the copy, which says so of the sets at every loop.
-/

namespace Casework

open TypeGraph

/-! ## Computations that end in the same way -/

theorem Build.Yields.ifDone {α : Type} {build : Build α} {graph : TypeGraph}
    {done : α → TypeGraph → Prop} {failed : Failure → TypeGraph → Prop}
    (yields : build.Yields graph done failed) :
    build.Yields graph done fun _ _ => True :=
  yields.mono (fun _ _ holds => holds) fun _ _ _ => trivial

namespace Stateful

variable {σ α β : Type} {graph : TypeGraph} {state : σ}
  {left right act : StateT σ Build α} {nextLeft nextRight : α → StateT σ Build β}
  {done : α → σ → TypeGraph → Prop}

theorem Yields.ifDone {failed : Failure → TypeGraph → Prop}
    (yields : Yields act state graph done failed) :
    Yields act state graph done fun _ _ => True :=
  Build.Yields.ifDone yields

/-- Two computations end in the same way from here, with the same value or the same
failure. -/
def Same (left right : StateT σ Build α) (state : σ) (graph : TypeGraph) : Prop :=
  (left.run state).on graph = (right.run state).on graph

theorem Same.refl (act : StateT σ Build α) (state : σ) (graph : TypeGraph) :
    Same act act state graph :=
  rfl

theorem Same.bind (first : Same left right state graph)
    (yields : Yields right state graph done fun _ _ => True)
    (rest : ∀ value after later, done value after later →
      Same (nextLeft value) (nextRight value) after later) :
    Same (left >>= nextLeft) (right >>= nextRight) state graph := by
  unfold Same at first ⊢
  rw [StateT.run_bind, StateT.run_bind, Build.on_bind, Build.on_bind, first]
  rcases ran : (right.run state).on graph with ⟨failure | ⟨value, after⟩, later⟩
  · rfl
  · have outcome : (right.run state).Yields graph
        (fun result later => done result.1 result.2 later) fun _ _ => True := yields
    exact rest value after later (outcome.of_ok ran)

theorem Same.followed (first : Same left right state graph)
    (next : α → StateT σ Build β) :
    Same (left >>= next) (right >>= next) state graph := by
  unfold Same at first ⊢
  rw [StateT.run_bind, StateT.run_bind, Build.on_bind, Build.on_bind, first]

theorem same_bind (yields : Yields act state graph done fun _ _ => True)
    (rest : ∀ value after later, done value after later →
      Same (nextLeft value) (nextRight value) after later) :
    Same (act >>= nextLeft) (act >>= nextRight) state graph :=
  (Same.refl act state graph).bind yields rest

theorem same_lift_bind {build : Build α} {done : α → TypeGraph → Prop}
    (yields : build.Yields graph done fun _ _ => True)
    (rest : ∀ value later, done value later → Same (nextLeft value)
      (nextRight value) state later) :
    Same ((liftM build : StateT σ Build α) >>= nextLeft)
      ((liftM build : StateT σ Build α) >>= nextRight)
      state graph := by
  apply same_bind (yields_lift yields)
  rintro value _ later ⟨rfl, holds⟩
  exact rest value later holds

theorem same_get_bind {nextLeft nextRight : σ → StateT σ Build β}
    (rest : Same (nextLeft state) (nextRight state) state graph) :
    Same (get >>= nextLeft) (get >>= nextRight) state graph := rest

theorem same_modify_bind {change : σ → σ} {nextLeft nextRight : PUnit → StateT σ Build β}
    (rest : Same (nextLeft ⟨⟩) (nextRight ⟨⟩) (change state) graph) :
    Same ((modify change : StateT σ Build PUnit) >>= nextLeft)
      ((modify change : StateT σ Build PUnit) >>= nextRight) state graph := rest

theorem same_lift {left right : Build α} (same : left.on graph = right.on graph) :
    Same (liftM left : StateT σ Build α) (liftM right) state graph := by
  change ((left >>= fun value => pure (value, state)) : Build (α × σ)).on graph =
    (right >>= fun value => pure (value, state) : Build (α × σ)).on graph
  rw [Build.on_bind, Build.on_bind, same]

theorem same_of_yields {value : α} {after : σ} {later : TypeGraph}
    (leftYields : Yields left state graph
      (fun own state graph => own = value ∧ state = after ∧ graph = later)
        fun _ _ => False)
    (rightYields : Yields right state graph
      (fun own state graph => own = value ∧ state = after ∧ graph = later)
        fun _ _ => False) :
    Same left right state graph := by
  rcases Build.Yields.exists_ok leftYields with
    ⟨⟨own, ownState⟩, ownGraph, ran, rfl, rfl, rfl⟩
  rcases Build.Yields.exists_ok rightYields with
    ⟨⟨other, otherState⟩, otherGraph, ranToo, rfl, rfl, rfl⟩
  exact ran.trans ranToo.symm

end Stateful

/-! ## Loops -/

namespace TypeGraph

variable {graph : TypeGraph}

/-- The graph with the marks of some nodes changed, one after the other. -/
def remarkAll (graph : TypeGraph) (change : Ref → Marks → Marks) (refs : List Ref) :
    TypeGraph :=
  refs.foldl (fun graph ref => graph.update ref fun node =>
    { node with marks := change ref node.marks })
    graph

theorem remarkAll_perm {refs others : List Ref} (perm : refs.Perm others)
    (graph : TypeGraph) (change : Ref → Marks → Marks) :
    graph.remarkAll change refs = graph.remarkAll change others := by
  apply perm.foldl_eq'
  intro left _ right _ middle
  by_cases equal : left = right
  · rw [equal]
  · exact update_comm middle equal _ _

def covers (graph : TypeGraph) (ref : Ref) : Bool :=
  match graph.node ref with
  | .ok node => node.marks.any
  | .error _ => false

end TypeGraph

namespace Build

variable {graph : TypeGraph} {failed : Failure → TypeGraph → Prop}

theorem yields_forM_remark (change : Ref → Marks → Marks) {refs : List Ref}
    (named : ∀ ref ∈ refs, graph.Has ref) :
    (refs.forM fun ref => remark ref (change ref)).Yields graph
      (fun _ later => later = graph.remarkAll change refs) failed := by
  induction refs generalizing graph with
  | nil => exact yields_pure rfl
  | cons head tail induction =>
      apply yields_update_bind (named head List.mem_cons_self)
      refine induction fun ref member => ?_
      exact (named ref (List.mem_cons_of_mem _ member)).mono (size_update ..).ge

theorem on_forM_remark_perm (change : Ref → Marks → Marks) {refs others : List Ref}
    (perm : refs.Perm others) (named : ∀ ref ∈ others, graph.Has ref) :
    (refs.forM fun ref => remark ref (change ref)).on graph =
      (others.forM fun ref => remark ref (change ref)).on graph := by
  have refsNamed : ∀ ref ∈ refs, graph.Has ref := fun ref member =>
    named ref (perm.mem_iff.1 member)
  rcases (yields_forM_remark change refsNamed).exists_ok with ⟨_, _, ran, rfl⟩
  rcases (yields_forM_remark change named).exists_ok with ⟨_, _, ranToo, rfl⟩
  rw [ran, ranToo, remarkAll_perm perm]

theorem yields_hasAny_covers {ref : Ref} (has : graph.Has ref) :
    (hasAny ref).Yields graph
      (fun covered later => covered = graph.covers ref ∧ graph = later) failed := by
  rcases has_iff.1 has with ⟨node, found⟩
  apply yields_read_bind found
  refine yields_pure ⟨?_, rfl⟩
  rw [covers, found]

end Build

namespace Elaborate

open Stateful

variable {graph : TypeGraph} {state : Elaboration} {failed : Failure → TypeGraph → Prop}

theorem forM_liftM (refs : List Ref) (act : Ref → Build Unit) :
    (refs.forM fun ref => liftM (act ref) : Elaborate Unit) =
      liftM (refs.forM act : Build Unit) := by
  induction refs with
  | nil => rfl
  | cons head tail induction =>
      change (liftM (act head) >>= fun _ => tail.forM fun ref =>
        liftM (act ref) : Elaborate Unit) =
        liftM (act head >>= fun _ => tail.forM act : Build Unit)
      rw [induction, liftM_bind]

theorem yields_filterAuxM_covers {refs : List Ref} (kept : List Ref)
    (named : ∀ ref ∈ refs, graph.Has ref) :
    (List.filterAuxM (fun ref => liftM (Build.hasAny ref)) refs kept :
      Elaborate (List Ref)).Yields state graph
        (fun rest after later => rest = (refs.filter graph.covers).reverse ++ kept ∧
        after = state ∧ later = graph) failed := by
  induction refs generalizing kept with
  | nil => exact yields_pure ⟨rfl, rfl, rfl⟩
  | cons head tail induction =>
      apply yields_lift_bind (Build.yields_hasAny_covers (named head List.mem_cons_self))
      rintro covered _ ⟨rfl, rfl⟩
      apply (induction _ fun ref member => named ref (List.mem_cons_of_mem _ member)).imp
      rintro rest after later ⟨rfl, rfl, rfl⟩
      refine ⟨?_, rfl, rfl⟩
      rw [List.filter_cons]
      cases later.covers head <;> simp

theorem yields_filterM_covers {refs : List Ref} (named : ∀ ref ∈ refs, graph.Has ref) :
    (refs.filterM fun ref => liftM (Build.hasAny ref) : Elaborate (List Ref)).Yields
      state graph (fun rest after later => rest = refs.filter graph.covers ∧
        after = state ∧ later = graph) failed := by
  apply (yields_filterAuxM_covers [] named).bind
  rintro rest after later ⟨rfl, rfl, rfl⟩
  refine yields_pure ⟨?_, rfl, rfl⟩
  rw [List.append_nil, List.reverse_reverse]

/-! ## Items of a list -/

variable {original : TypeGraph} {unfolding base low : Nat} {type : Ref} {calm : Prop}
  {cover : ItemCover}

theorem same_startItemIn (order : SetOrder) (has : graph.Has type)
    (within : cover.Within base graph) :
    Same (startItemIn order type cover) (startItem type cover) state graph := by
  have cleared : (Build.clearAny type).Yields graph
      (fun _ later => graph.size = later.size)
      fun _ _ => True := Build.yields_update has (size_update ..).symm
  apply same_lift_bind cleared
  intro _ middle size
  have named : ∀ ref ∈ cover.met, middle.Has ref := fun ref member =>
    (within.met ref member).1.mono size.le
  have loops : Same ((order.list cover.met).forM fun ref =>
      liftM (Build.clearAny ref) : Elaborate Unit)
      (cover.met.forM fun ref => liftM (Build.clearAny ref)) state middle := by
    rw [forM_liftM, forM_liftM]
    exact same_lift (Build.on_forM_remark_perm _ (order.perm_list cover.met) named)
  exact loops.followed _

def extendCover (cover : ItemCover) (type : Ref) (state : Elaboration)
    (graph : TypeGraph) : ItemCover where
  met := mergeRefs cover.met (state.gathered.getD [])
  covered := some ((candidates cover state).filter graph.covers)
  any := cover.any && graph.covers type

theorem yields_finishItem_covers (has : graph.Has type)
    (named : ∀ ref ∈ candidates cover state, graph.Has ref) :
    (finishItem type cover).Yields state graph (fun result after later =>
      result = extendCover cover type state graph ∧ after = state ∧ later =
        graph) failed := by
  apply yields_get_bind
  apply (yields_filterM_covers named).bind
  rintro _ _ _ ⟨rfl, rfl, rfl⟩
  apply yields_lift_bind (Build.yields_hasAny_covers has)
  rintro _ _ ⟨rfl, rfl⟩
  exact yields_pure ⟨rfl, rfl, rfl⟩

theorem yields_finishItemIn_covers (order : SetOrder) (has : graph.Has type)
    (named : ∀ ref ∈ candidates cover state, graph.Has ref) :
    (finishItemIn order type cover).Yields state graph (fun result after later =>
      result = extendCover cover type state graph ∧ after = state ∧ later =
        graph) failed := by
  apply yields_get_bind
  apply (yields_filterM_covers fun ref member =>
    named ref (SetOrder.mem_list.1 member)).bind
  rintro _ state graph ⟨rfl, rfl, rfl⟩
  apply yields_lift_bind (Build.yields_hasAny_covers has)
  rintro _ _ ⟨rfl, rfl⟩
  refine yields_pure ⟨?_, rfl, rfl⟩
  have kept : (candidates cover state).filter
      ((order.list (candidates cover state)).filter graph.covers).contains =
        (candidates cover state).filter graph.covers := by
    apply List.filter_congr
    intro ref member
    simp [SetOrder.mem_list, member]
  rw [extendCover, ← kept]
  rfl

theorem same_finishItemIn (order : SetOrder) (has : graph.Has type)
    (named : ∀ ref ∈ candidates cover state, graph.Has ref) :
    Same (finishItemIn order type cover) (finishItem type cover) state graph :=
  same_of_yields (yields_finishItemIn_covers order has named)
    (yields_finishItem_covers has named)

theorem on_settleItemsIn (order : SetOrder) (within : cover.Within base graph) :
    (settleItemsIn order type cover).on graph = (settleItems type cover).on graph := by
  have loops : ((order.list cover.met).forM fun ref =>
      Build.putAny ref ((cover.covered.getD []).contains ref)).on graph =
        (cover.met.forM fun ref =>
          Build.putAny ref ((cover.covered.getD []).contains ref)).on graph :=
    Build.on_forM_remark_perm _ (order.perm_list cover.met) fun ref member =>
      (within.met ref member).1
  unfold settleItemsIn settleItems
  rw [Build.on_bind, Build.on_bind, loops]

/-! ## Every pattern -/

theorem same_reject_bind {α β : Type} (place : Position) (cause : CompileCause)
    (left right : α → Elaborate β) :
    Same (liftM (Build.reject place cause : Build α) >>= left)
      (liftM (Build.reject place cause : Build α) >>= right) state graph := by
  have fails : (Build.reject place cause : Build α).Yields graph (fun _ _ => False)
      fun _ _ => True :=
    Build.yields_throw trivial
  exact same_lift_bind fails fun _ _ => False.elim

theorem same_entering (tidy : original.Tidy)
    (ready : state.Ready original unfolding base low graph) (has : graph.Has type)
    (high : base < type.number) (pattern : Expr) {left right : Elaborate Pattern}
    (rest : ∀ after middle, after.Continues original unfolding base low graph middle →
      middle.Has type → Same left right after middle) :
    Same (pattern.entering type left) (pattern.entering type right) state graph := by
  apply same_lift_bind (Build.yields_hasAny has)
  rintro covered _ rfl
  dsimp only
  split
  · exact same_reject_bind _ _ _ _
  · apply same_lift_bind (yields_expand_copying tidy ready.copying has high)
    intro _ first proceeds
    have begun := ready.proceeded proceeds
    apply same_bind (yields_gather begun.ready (proceeds.has has) high)
    intro _ after second gathering
    have entered := begun.trans gathering
    exact rest after second entered (entered.has has)

end Elaborate

/-! ## All patterns -/

open Elaborate Elaboration Stateful

section Walk

variable {original : TypeGraph} {unfolding : Nat}

variable {setting : Setting} {level : Nat}

/-- A pattern is checked in the same way whatever the order of sets. -/
def Expr.SameInOrder (original : TypeGraph) (unfolding : Nat) (setting : Setting)
    (level : Nat) (pattern : Expr) : Prop :=
  ∀ (order : SetOrder) (inside : Bool) (type : Ref) (base low : Nat) (graph : TypeGraph)
    (state : Elaboration), state.Ready original unfolding base low graph →
    graph.Has type → base < type.number →
      Same (pattern.elaborateIn setting level order inside type)
        (pattern.elaborate setting level inside type) state graph

def Exprs.SameInOrder (original : TypeGraph) (unfolding : Nat) (setting : Setting)
    (level : Nat) (items : Exprs) : Prop :=
  ∀ (order : SetOrder) (itemType : Ref) (cover : ItemCover) (base low : Nat)
    (graph : TypeGraph) (state : Elaboration),
    state.Ready original unfolding base low graph → graph.Has itemType →
    base < itemType.number → cover.Within base graph →
      Same (items.elaborateIn setting level order itemType cover)
        (items.elaborate setting level itemType cover) state graph

def Fields.SameInOrder (original : TypeGraph) (unfolding : Nat) (setting : Setting)
    (level : Nat) (fields : Fields) : Prop :=
  ∀ (order : SetOrder) (inside : Bool) (type : Ref) (seen : List String)
    (base low : Nat) (graph : TypeGraph) (state : Elaboration),
    state.Ready original unfolding base low graph → graph.Has type →
    base < type.number →
      Same (fields.elaborateIn setting level order inside type seen)
        (fields.elaborate setting level inside type seen) state graph

theorem Expr.sameInOrder_list (tidy : original.Tidy) (place : Position) {head : Expr}
    {tail : Exprs}
    (items : (Exprs.cons head tail).SameInOrder original unfolding setting level) :
    (Expr.list place (.cons head tail)).SameInOrder original unfolding setting level := by
  intro order inside type base low graph state ready has high
  rw [Expr.elaborate_list]
  apply same_entering tidy ready has high
  intro after start continues typeHas
  -- The items are checked above all nodes that there are.
  apply same_lift_bind (Build.yields_newVar_copying continues.ready.copying.rebase)
  rintro itemType first ⟨allocated, itemNew, itemHas, nodes, tree⟩
  apply same_get_bind
  have begun := continues.ready.rebase.proceeded allocated
  apply (items (order.under 0) itemType {} start.size low first after begun.ready itemHas
    itemNew .empty).bind
    (Exprs.yields_elaborate tidy setting level (.cons head tail) itemType {} start.size
      low first after begun.ready itemHas itemNew .empty).ifDone
  rintro ⟨patterns, cover⟩ last second ⟨_, _, within⟩
  apply same_modify_bind
  exact (same_lift (on_settleItemsIn (order.under 1) within)).followed _

theorem Expr.sameInOrder_apply (tidy : original.Tidy) (place : Position) (tag : String)
    {argument : Expr} (same : argument.SameInOrder original unfolding setting level) :
    (Expr.apply place tag argument).SameInOrder original unfolding setting level := by
  intro order inside type base low graph state ready has high
  rw [Expr.elaborate_apply]
  apply same_entering tidy ready has high
  intro after middle continues typeHas
  have enters :
      (enterTag inside place tag type).Yields after middle _ (Harmless original True) :=
    yields_enterTag tidy continues.ready typeHas high inside place tag
  apply same_bind enters.ifDone
  rintro payload entered second ⟨entering, payloadHas, payloadHigh⟩
  exact (same order inside payload base low second entered entering.ready payloadHas
    payloadHigh).followed _

theorem Expr.sameInOrder_cons (tidy : original.Tidy) (place : Position)
    {head tail : Expr} (headSame : head.SameInOrder original unfolding setting level)
    (tailSame : tail.SameInOrder original unfolding setting level) :
    (Expr.binary place .cons head tail).SameInOrder original unfolding setting level := by
  intro order inside type base low graph state ready has high
  rw [Expr.elaborate_cons]
  apply same_entering tidy ready has high
  intro after start continues typeHas
  have makesList : (elementType place type).Yields start _ (Harmless original True) :=
    yields_elementType tidy continues.ready.copying typeHas high place
  apply same_lift_bind makesList.ifDone
  rintro element first ⟨proceeds, elementHas, elementHigh⟩
  have begun := continues.ready.proceeded proceeds
  -- The head is checked above all nodes that there are.
  apply same_lift_bind (Build.yields_newVar_copying begun.ready.copying.rebase)
  rintro headType second ⟨allocated, headNew, headHas, nodes, tree⟩
  have prepared := begun.ready.rebase.proceeded allocated
  apply (headSame (order.under 0) true headType first.size low second after
    prepared.ready headHas headNew).bind
    (Expr.yields_elaborate tidy setting level head true headType first.size low second
      after prepared.ready headHas headNew).ifDone
  intro headPattern headState third headChecked
  have built := prepared.trans headChecked
  rcases headChecked.proceeds.spares.forests headType nodes headHas.2 tree
    with ⟨all, headTree⟩
  have joins :
      (joinHead head.position element headType).Yields third _ (Harmless original True) :=
    yields_joinHead tidy begun.ready.copying built.proceeds elementHas elementHigh
      (headChecked.has headHas) headNew headTree head.position
  apply same_lift_bind joins.ifDone
  rintro _ fourth ⟨joined, grown⟩
  have resumed := built.ready.resumed joined grown begun.ready.small
  have typeStays := (begun.trans resumed).has typeHas
  rcases has_iff.1 typeStays with ⟨node, found⟩
  apply same_lift_bind (Build.yields_marks found)
  rintro before _ rfl
  rcases resumed.ready.copying.wellFormed.settles type typeStays with
    ⟨target, targetNode, rooted⟩
  apply same_lift_bind (Build.yields_listForms rooted.root)
  rintro forms _ rfl
  exact (tailSame (order.under 1) true type base low fourth headState resumed.ready
    typeStays high).followed _

theorem Expr.sameInOrder_record (tidy : original.Tidy) (place fieldPlace : Position)
    (name : String) {value : Expr} {tail : Fields}
    (fields : (Fields.cons fieldPlace name value tail).SameInOrder original unfolding
      setting level) :
    (Expr.record place (.cons fieldPlace name value tail)).SameInOrder original unfolding
      setting level := by
  intro order inside type base low graph state ready has high
  rw [Expr.elaborate_record]
  apply same_entering tidy ready has high
  intro after middle continues typeHas
  exact (fields order inside type [] base low middle after continues.ready typeHas
    high).followed _

theorem Exprs.sameInOrder_cons (tidy : original.Tidy) {head : Expr} {tail : Exprs}
    (headSame : head.SameInOrder original unfolding setting level)
    (tailSame : tail.SameInOrder original unfolding setting level) :
    (Exprs.cons head tail).SameInOrder original unfolding setting level := by
  intro order itemType cover base low graph state ready has high within
  rw [Exprs.elaborate_cons]
  apply (same_startItemIn (order.under 0) has within).bind
    (yields_startItem ready has high within)
  intro _ started first starting
  apply (headSame (order.under 1) true itemType base base first started starting.ready
    (starting.has has) high).bind
    (Expr.yields_elaborate tidy setting level head true itemType base base first started
      starting.ready (starting.has has) high).ifDone
  intro pattern after second checked
  have begun := starting.trans checked
  have withinSecond := within.mono begun.proceeds.grown
  apply (same_finishItemIn (order.under 2) (begun.has has)
    (has_of_mem_candidates begun.ready withinSecond)).bind
    (yields_finishItem begun.ready (begun.has has) withinSecond)
  rintro own _ _ ⟨ownWithin, rfl, rfl⟩
  exact (tailSame (order.under 3) itemType own base base second after begun.ready
    (begun.has has) high ownWithin).followed _

theorem Fields.sameInOrder_cons (tidy : original.Tidy) (place : Position) (name : String)
    {value : Expr} {tail : Fields}
    (valueSame : value.SameInOrder original unfolding setting level)
    (tailSame : tail.SameInOrder original unfolding setting level) :
    (Fields.cons place name value tail).SameInOrder original unfolding setting level := by
  intro order inside type seen base low graph state ready has high
  rw [Fields.elaborate_cons, Fields.elaborateIn]
  dsimp only
  split
  · exact same_reject_bind _ _ _ _
  · have enters :
        (enterField value.position name type).Yields graph _ (Harmless original True) :=
      yields_enterField tidy ready.copying has high value.position name
    apply same_lift_bind enters.ifDone
    rintro field first ⟨proceeds, fieldHas, fieldHigh⟩
    have begun := ready.proceeded proceeds
    apply (valueSame (order.under 0) inside field base low first state begun.ready
      fieldHas fieldHigh).bind
      (Expr.yields_elaborate tidy setting level value inside field base low first state
        begun.ready fieldHas fieldHigh).ifDone
    intro pattern after second checked
    apply same_lift_bind (Build.yields_hasAny (checked.has fieldHas))
    rintro covered _ rfl
    have both := begun.trans checked
    exact (tailSame (order.under 1) inside type (name :: seen) base low second after
      both.ready (both.has has) high).followed _

mutual

theorem Expr.same_elaborateIn (tidy : original.Tidy) (setting : Setting) (level : Nat) :
    (pattern : Expr) → pattern.SameInOrder original unfolding setting level
  | .list place (.cons head tail) =>
      Expr.sameInOrder_list tidy place
        (Exprs.same_elaborateIn tidy setting level (.cons head tail))
  | .apply place tag argument =>
      Expr.sameInOrder_apply tidy place tag
        (Expr.same_elaborateIn tidy setting level argument)
  | .binary place .cons head tail =>
      Expr.sameInOrder_cons tidy place (Expr.same_elaborateIn tidy setting level head)
        (Expr.same_elaborateIn tidy setting level tail)
  | .record place (.cons fieldPlace name value tail) =>
      Expr.sameInOrder_record tidy place fieldPlace name
        (Fields.same_elaborateIn tidy setting level (.cons fieldPlace name value tail))
  | .symbol _ _ | .unit _ | .number _ _ _ | .string _ _ | .static _ _ _ | .list _ .nil
  | .record _ .nil | .binary _ .add _ _ | .binary _ .subtract _ _
  | .binary _ .multiply _ _ | .select _ _ _ | .caseOf _ _ _ =>
      fun _ _ _ _ _ _ _ _ _ _ => .refl ..
termination_by structural pattern => pattern

theorem Exprs.same_elaborateIn (tidy : original.Tidy) (setting : Setting) (level : Nat) :
    (items : Exprs) → items.SameInOrder original unfolding setting level
  | .nil => fun _ _ _ _ _ _ _ _ _ _ _ => .refl ..
  | .cons head tail =>
      Exprs.sameInOrder_cons tidy (Expr.same_elaborateIn tidy setting level head)
        (Exprs.same_elaborateIn tidy setting level tail)
termination_by structural items => items

theorem Fields.same_elaborateIn (tidy : original.Tidy) (setting : Setting) (level : Nat) :
    (fields : Fields) → fields.SameInOrder original unfolding setting level
  | .nil => fun _ _ _ _ _ _ _ _ _ _ _ => .refl ..
  | .cons place name value tail =>
      Fields.sameInOrder_cons tidy place name
        (Expr.same_elaborateIn tidy setting level value)
        (Fields.same_elaborateIn tidy setting level tail)
termination_by structural fields => fields

end

end Walk

end Casework
