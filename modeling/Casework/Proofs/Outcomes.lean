import Casework.Proofs.Links
import Casework.Proofs.Narrowing
import Casework.Typing.Pattern

/-!
Both outcomes of a computation.

A run of a computation on a type graph ends with a value or with a failure, and either way
it leaves a graph. A statement about a run says what holds in the one case and what holds
in the other, so it also says which failures there are.
-/

namespace Casework

namespace Build

variable {α β : Type} {graph : TypeGraph} {failed : Failure → TypeGraph → Prop}

/-- What holds of the value or the failure that a run ends with, and of the graph that it
leaves. -/
def Yields (build : Build α) (graph : TypeGraph) (done : α → TypeGraph → Prop)
    (failed : Failure → TypeGraph → Prop) : Prop :=
  match build.on graph with
  | (.ok value, later) => done value later
  | (.error failure, later) => failed failure later

section Rules

variable {build : Build α} {done other : α → TypeGraph → Prop}
  {last : β → TypeGraph → Prop}

theorem Yields.mono {refused : Failure → TypeGraph → Prop}
    (yields : build.Yields graph done failed)
    (implies : ∀ value later, done value later → other value later)
    (fails : ∀ failure later, failed failure later → refused failure later) :
    build.Yields graph other refused := by
  unfold Yields at yields ⊢
  split <;> rename_i ran <;> rw [ran] at yields
  · exact implies _ _ yields
  · exact fails _ _ yields

theorem Yields.imp (yields : build.Yields graph done failed)
    (implies : ∀ value later, done value later → other value later) :
    build.Yields graph other failed :=
  yields.mono implies fun _ _ fails => fails

theorem Yields.and (first : build.Yields graph done failed)
    (second : build.Yields graph other failed) :
    build.Yields graph
      (fun value later => done value later ∧ other value later) failed := by
  unfold Yields at first second ⊢
  split <;> rename_i ran <;> rw [ran] at first second
  · exact ⟨first, second⟩
  · exact first

theorem Yields.of_ok {value : α} {later : TypeGraph}
    (yields : build.Yields graph done failed)
    (ran : build.on graph = (.ok value, later)) : done value later := by
  unfold Yields at yields
  rw [ran] at yields
  exact yields

theorem Yields.of_error {failure : Failure} {later : TypeGraph}
    (yields : build.Yields graph done failed)
    (ran : build.on graph = (.error failure, later)) :
    failed failure later := by
  unfold Yields at yields
  rw [ran] at yields
  exact yields

/-- What holds of the graph that is left, however the run ends. -/
theorem Yields.leaves {holds : TypeGraph → Prop}
    (yields : build.Yields graph (fun _ later => holds later)
      (fun _ later => holds later)) :
    holds (build.on graph).2 := by
  unfold Yields at yields
  split at yields
  next ran => rwa [ran]
  next ran => rwa [ran]

/-- What two computations do alike can be shown of either. -/
theorem Yields.congr {same : Build α} (yields : same.Yields graph done failed)
    (equal : build.on graph = same.on graph) : build.Yields graph done failed := by
  rwa [Yields, equal]

theorem yields_anyhow (build : Build α) :
    build.Yields graph (fun _ _ => True) fun _ _ => True := by
  unfold Yields
  split <;> trivial

theorem Yields.exists_ok (yields : build.Yields graph done fun _ _ => False) :
    ∃ value later, build.on graph = (.ok value, later) ∧ done value later := by
  rcases ran : build.on graph with ⟨failure | value, later⟩
  · exact (yields.of_error ran).elim
  · exact ⟨value, later, rfl, yields.of_ok ran⟩

theorem yields_pure {value : α} (holds : done value graph) :
    (pure value : Build α).Yields graph done failed := holds

theorem yields_throw {failure : Failure} (fails : failed failure graph) :
    (throw failure : Build α).Yields graph done failed := fails

theorem Yields.bind {next : α → Build β} (first : build.Yields graph done failed)
    (second : ∀ value later, done value later → (next value).Yields later last failed) :
    (build >>= next).Yields graph last failed := by
  unfold Yields
  rw [on_bind]
  unfold Yields at first
  rcases ran : build.on graph with ⟨failure | value, later⟩ <;> rw [ran] at first
  · exact first
  · exact second value later first

theorem yields_bind_anyhow {next : α → Build β}
    (rest : ∀ value later, (next value).Yields later last fun _ _ => True) :
    (build >>= next).Yields graph last fun _ _ => True :=
  (yields_anyhow build).bind fun value later _ => rest value later

theorem Yields.stop {next : α → Build β}
    (first : build.Yields graph (fun _ _ => False) failed) :
    (build >>= next).Yields graph last failed :=
  first.bind fun _ _ => False.elim

theorem yields_bind_of_on {next : α → Build β} {value : α} {middle : TypeGraph}
    (ran : build.on graph = (.ok value, middle))
    (rest : (next value).Yields middle last failed) :
    (build >>= next).Yields graph last failed := by
  unfold Yields
  rw [on_bind, ran]
  exact rest

theorem yields_bind_of_error {next : α → Build β} {failure : Failure} {later : TypeGraph}
    (ran : build.on graph = (.error failure, later)) (fails : failed failure later) :
    (build >>= next).Yields graph last failed := by
  unfold Yields
  rw [on_bind, ran]
  exact fails

theorem Yields.tryCatch {handle : Failure → Build α} {caught : Failure → TypeGraph → Prop}
    (first : build.Yields graph done caught)
    (handled : ∀ failure later, caught failure later →
      (handle failure).Yields later done failed) :
    (MonadExcept.tryCatch build handle).Yields graph done failed := by
  unfold Yields
  rw [on_tryCatch]
  unfold Yields at first
  rcases ran : build.on graph with ⟨failure | value, later⟩ <;> rw [ran] at first
  · exact handled failure later first
  · exact first

theorem yields_look {query : TypeGraph → Except Fault α} {value : α}
    (found : query graph = .ok value) (holds : done value graph) :
    (look query).Yields graph done failed := by
  unfold Yields
  rw [on_look, found]
  exact holds

theorem yields_look_bind {query : TypeGraph → Except Fault α} {value : α}
    {next : α → Build β} (found : query graph = .ok value)
    (rest : (next value).Yields graph last failed) :
    (look query >>= next).Yields graph last failed := by
  unfold Yields
  rw [on_bind, on_look, found]
  exact rest

theorem on_read_iff {query : TypeGraph → Except Fault α} {read : α → β} {value : β} :
    (look query >>= fun answer => pure (read answer)).on graph = (.ok value, graph) ↔
      ∃ answer, query graph = .ok answer ∧ read answer = value := by
  rw [on_bind, on_look]
  constructor
  · intro ran
    cases answered : query graph with
    | error fault =>
        rw [answered] at ran
        cases ran
    | ok answer =>
        rw [answered] at ran
        cases ran
        exact ⟨answer, rfl, rfl⟩
  · rintro ⟨answer, answered, rfl⟩
    rw [answered]
    rfl

theorem on_look_of_error {query : TypeGraph → Except Fault α} {fault : Fault}
    (unanswered : query graph = .error fault) :
    (look query).on graph = (.error (.fault fault), graph) := by
  rw [on_look, unanswered]
  rfl

theorem yields_look_cases {query : TypeGraph → Except Fault α} {next : α → Build β}
    (fails : ∀ fault, failed (.fault fault) graph)
    (rest : ∀ value, query graph = .ok value → (next value).Yields graph last failed) :
    (look query >>= next).Yields graph last failed := by
  unfold Yields
  rw [on_bind, on_look]
  cases answer : query graph with
  | ok value => exact rest value answer
  | error fault => exact fails fault

theorem yields_read {query : TypeGraph → Except Fault α} {value : α} {read : α → β}
    (found : query graph = .ok value) (holds : last (read value) graph) :
    (look query >>= fun value => pure (read value)).Yields graph last failed :=
  yields_look_bind found holds

theorem yields_read_bind {γ : Type} {query : TypeGraph → Except Fault α}
    {value : α} {read : α → β} {next : β → Build γ} {final : γ → TypeGraph → Prop}
    (found : query graph = .ok value)
    (rest : (next (read value)).Yields graph final failed) :
    ((look query >>= fun value => pure (read value)) >>= next).Yields graph
      final failed := by
  rw [bind_assoc]
  exact yields_look_bind found rest

theorem yields_get_bind {next : TypeGraph → Build β}
    (rest : (next graph).Yields graph last failed) :
    (get >>= next).Yields graph last failed := rest

theorem yields_modify {change : TypeGraph → TypeGraph} {done : PUnit → TypeGraph → Prop}
    (holds : done () (change graph)) :
    (modify change : Build PUnit).Yields graph done failed := holds

theorem yields_modify_bind {change : TypeGraph → TypeGraph} {next : PUnit → Build β}
    (rest : (next ⟨⟩).Yields (change graph) last failed) :
    ((modify change : Build PUnit) >>= next).Yields graph last failed := rest

theorem yields_allocate {node : Node} {done : Ref → TypeGraph → Prop}
    (holds : done (graph.allocate node).1 (graph.allocate node).2) :
    (allocate node).Yields graph done failed := holds

theorem yields_allocate_bind {node : Node} {next : Ref → Build β}
    (rest : (next (graph.allocate node).1).Yields (graph.allocate node).2 last failed) :
    (allocate node >>= next).Yields graph last failed := rest

theorem yields_update {ref : Ref} {change : Node → Node} {done : Unit → TypeGraph → Prop}
    (names : graph.Has ref) (holds : done () (graph.update ref change)) :
    (update ref change).Yields graph done failed := by
  rcases TypeGraph.has_iff.1 names with ⟨node, found⟩
  unfold Yields
  rw [on_update, found]
  exact holds

theorem yields_update_bind {ref : Ref} {change : Node → Node} {next : Unit → Build β}
    (names : graph.Has ref)
    (rest : (next ()).Yields (graph.update ref change) last failed) :
    (update ref change >>= next).Yields graph last failed := by
  rcases TypeGraph.has_iff.1 names with ⟨node, found⟩
  unfold Yields
  rw [on_bind, on_update, found]
  exact rest

theorem yields_update_cases {ref : Ref} {change : Node → Node} {next : Unit → Build β}
    (fails : ∀ fault, failed (.fault fault) graph)
    (rest : graph.Has ref → (next ()).Yields (graph.update ref change) last failed) :
    (update ref change >>= next).Yields graph last failed := by
  unfold Yields
  rw [on_bind, on_update]
  cases found : graph.node ref with
  | ok node => exact rest (TypeGraph.has_of_node found)
  | error fault => exact fails fault

theorem yields_updateRoot {ref target : Ref} {node : Node} {change : Node → Node}
    {done : Unit → TypeGraph → Prop} (rooted : graph.Rooted ref target node)
    (holds : done () (graph.update target change)) :
    (updateRoot ref change).Yields graph done failed :=
  yields_look_bind rooted.deref (yields_update rooted.has holds)

theorem yields_updateRoot_bind {ref target : Ref} {node : Node} {change : Node → Node}
    {next : Unit → Build β} (rooted : graph.Rooted ref target node)
    (rest : (next ()).Yields (graph.update target change) last failed) :
    (updateRoot ref change >>= next).Yields graph last failed := by
  unfold updateRoot
  rw [bind_assoc]
  exact yields_look_bind rooted.deref (yields_update_bind rooted.has rest)

end Rules

/-! ## Loops

What each pass keeps, the whole loop keeps. -/

section Loops

variable (invariant : TypeGraph → Prop)

theorem yields_forM {items : List α} {act : α → Build Unit} (start : invariant graph)
    (each : ∀ item ∈ items, ∀ middle, invariant middle →
      (act item).Yields middle (fun _ later => invariant later) failed) :
    (items.forM act).Yields graph (fun _ later => invariant later) failed := by
  induction items generalizing graph with
  | nil => exact start
  | cons head tail induction =>
      apply (each head List.mem_cons_self graph start).bind
      intro _ later kept
      exact induction kept fun item member => each item (List.mem_cons_of_mem _ member)

theorem yields_forIn {items : List α} {act : α → PUnit → Build (ForInStep PUnit)}
    (start : invariant graph)
    (each : ∀ item ∈ items, ∀ middle, invariant middle →
      (act item ⟨⟩).Yields middle
        (fun step later => step = .yield ⟨⟩ ∧ invariant later) failed) :
    (forIn items PUnit.unit act).Yields graph
      (fun _ later => invariant later) failed := by
  induction items generalizing graph with
  | nil => exact start
  | cons head tail induction =>
      rw [List.forIn_cons]
      apply (each head List.mem_cons_self graph start).bind
      rintro step later ⟨rfl, kept⟩
      exact induction kept fun item member => each item (List.mem_cons_of_mem _ member)

theorem yields_mapM {items : List α} {act : α → Build β} {good : β → Prop}
    (start : invariant graph) (each : ∀ item ∈ items, ∀ middle, invariant middle →
      (act item).Yields middle (fun value later => good value ∧ invariant later) failed) :
    (items.mapM act).Yields graph
      (fun values later => (∀ value ∈ values, good value) ∧ invariant later)
      failed := by
  induction items generalizing graph with
  | nil => exact yields_pure ⟨nofun, start⟩
  | cons head tail induction =>
      rw [List.mapM_cons]
      apply (each head List.mem_cons_self graph start).bind
      rintro value later ⟨valueGood, kept⟩
      apply (induction kept fun item member =>
        each item (List.mem_cons_of_mem _ member)).bind
      rintro values last ⟨valuesGood, keptLast⟩
      apply yields_pure
      refine ⟨fun own member => ?_, keptLast⟩
      rcases List.mem_cons.1 member with rfl | further
      · exact valueGood
      · exact valuesGood own further

end Loops

end Build

/-! ## Computations with a state

Checking patterns and parsing types keep a state of their own beside the graph. -/

namespace Stateful

variable {σ α β : Type} {graph : TypeGraph} {state : σ}
  {failed : Failure → TypeGraph → Prop}

def Yields (act : StateT σ Build α) (state : σ) (graph : TypeGraph)
    (done : α → σ → TypeGraph → Prop) (failed : Failure → TypeGraph → Prop) : Prop :=
  (act.run state).Yields graph (fun result later => done result.1 result.2 later) failed

variable {act : StateT σ Build α} {done other : α → σ → TypeGraph → Prop}
  {last : β → σ → TypeGraph → Prop}

theorem Yields.mono {refused : Failure → TypeGraph → Prop}
    (yields : Yields act state graph done failed)
    (implies : ∀ value after later, done value after later → other value after later)
    (fails : ∀ failure later, failed failure later → refused failure later) :
    Yields act state graph other refused :=
  Build.Yields.mono yields (fun result later => implies result.1 result.2 later) fails

theorem Yields.imp (yields : Yields act state graph done failed)
    (implies : ∀ value after later, done value after later → other value after later) :
    Yields act state graph other failed :=
  yields.mono implies fun _ _ fails => fails

theorem Yields.mono_failed {refused : Failure → TypeGraph → Prop}
    (yields : Yields act state graph done failed)
    (implies : ∀ failure later, failed failure later → refused failure later) :
    Yields act state graph done refused :=
  yields.mono (fun _ _ _ holds => holds) implies

theorem yields_pure {value : α} (holds : done value state graph) :
    Yields (pure value : StateT σ Build α) state graph done failed := holds

theorem Yields.bind {next : α → StateT σ Build β}
    (first : Yields act state graph done failed)
    (second : ∀ value after later, done value after later →
      Yields (next value) after later last failed) :
    Yields (act >>= next) state graph last failed := by
  unfold Yields
  rw [StateT.run_bind]
  exact Build.Yields.bind first fun result later => second result.1 result.2 later

theorem yields_bind_anyhow {next : α → StateT σ Build β}
    (rest : ∀ value after later, Yields (next value) after later last fun _ _ => True) :
    Yields (act >>= next) state graph last fun _ _ => True :=
  have first : Yields act state graph (fun _ _ _ => True) fun _ _ => True :=
    Build.yields_anyhow _
  first.bind fun value after later _ => rest value after later

theorem yields_lift {build : Build α} {done : α → TypeGraph → Prop}
    (yields : build.Yields graph done failed) :
    Yields (liftM build : StateT σ Build α) state graph (fun value after later =>
      after = state ∧ done value later) failed := by
  apply Build.Yields.bind yields
  intro value later holds
  exact Build.yields_pure ⟨rfl, holds⟩

theorem yields_lift_bind {build : Build α} {done : α → TypeGraph → Prop}
    {next : α → StateT σ Build β} (yields : build.Yields graph done failed)
    (rest : ∀ value later, done value later →
      Yields (next value) state later last failed) :
    Yields ((liftM build : StateT σ Build α) >>= next) state graph last failed := by
  apply (yields_lift yields).bind
  rintro value _ later ⟨rfl, holds⟩
  exact rest value later holds

theorem yields_lift_stop {build : Build α} {next : α → StateT σ Build β}
    (fails : build.Yields graph (fun _ _ => False) failed) :
    Yields ((liftM build : StateT σ Build α) >>= next) state graph last failed :=
  yields_lift_bind fails fun _ _ => False.elim

theorem yields_get_bind {next : σ → StateT σ Build β}
    (rest : Yields (next state) state graph last failed) :
    Yields (get >>= next) state graph last failed := rest

theorem yields_modify {change : σ → σ} {done : PUnit → σ → TypeGraph → Prop}
    (holds : done ⟨⟩ (change state) graph) :
    Yields (modify change : StateT σ Build PUnit) state graph done failed := holds

theorem yields_modify_bind {change : σ → σ} {next : PUnit → StateT σ Build β}
    (rest : Yields (next ⟨⟩) (change state) graph last failed) :
    Yields ((modify change : StateT σ Build PUnit) >>= next) state graph last failed :=
  rest

theorem yields_set {new : σ} {done : PUnit → σ → TypeGraph → Prop}
    (holds : done ⟨⟩ new graph) :
    Yields (set new : StateT σ Build PUnit) state graph done failed := holds

end Stateful

/-- What holds after patterns have been checked, or of the failure. -/
abbrev Elaborate.Yields {α : Type} (act : Elaborate α) :=
  Stateful.Yields act

end Casework
