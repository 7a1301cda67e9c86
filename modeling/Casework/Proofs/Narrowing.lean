import Casework.Proofs.Meaning
import Casework.TypeGraph.Unfolding

/-!
Building types narrows the models of a graph.

A computation on a graph may bind type variables, link types and add members to rows. A
model of the graph afterwards is a model of the graph before, so nothing that was once
said of a type is ever taken back. What a computation has found out about types is said of
all models of the graph it leaves. Such facts stay true, whatever is done to the graph
later.
-/

namespace Casework

namespace Build

variable {α β : Type} {graph later : TypeGraph}

/-! ## Runs -/

theorem on_bind (first : Build α) (next : α → Build β) (graph : TypeGraph) :
    (first >>= next).on graph =
      match first.on graph with
      | (.ok value, later) => (next value).on later
      | (.error failure, later) => (.error failure, later) := by
  change (match first.on graph with
    | (value, later) => ExceptT.bindCont next value later) = _
  rcases first.on graph with ⟨value | value, later⟩ <;> rfl

theorem on_tryCatch (build : Build α) (handle : Failure → Build α) (graph : TypeGraph) :
    (tryCatch build handle).on graph =
      match build.on graph with
      | (.ok value, later) => (.ok value, later)
      | (.error failure, later) => (handle failure).on later := by
  simp only [on, ExceptT.run_tryCatch, StateT.run_bind]
  rcases (ExceptT.run build).run graph with ⟨value | value, later⟩ <;> rfl

theorem on_get (graph : TypeGraph) :
    (get : Build TypeGraph).on graph = (.ok graph, graph) := rfl

theorem on_look (query : TypeGraph → Except Fault α) (graph : TypeGraph) :
    (look query).on graph = ((query graph).mapError Failure.fault, graph) := by
  rw [look, on_bind, on_get]
  dsimp only
  cases query graph <;> rfl

theorem on_update (ref : Ref) (change : Node → Node) (graph : TypeGraph) :
    (update ref change).on graph =
      match graph.node ref with
      | .ok _ => (.ok (), graph.update ref change)
      | .error fault => (.error (.fault fault), graph) := by
  rw [update, on_bind, node, on_look]
  cases graph.node ref <;> rfl

theorem of_on_bind {first : Build α} {next : α → Build β} {value : β}
    (done : (first >>= next).on graph = (.ok value, later)) :
    ∃ given middle, first.on graph = (.ok given, middle) ∧
      (next given).on middle = (.ok value, later) := by
  rw [on_bind] at done
  split at done
  next given middle ran => exact ⟨given, middle, ran, done⟩
  next => cases done

theorem of_on_toOption {action : Build α} {value : α}
    (evaluated : (action.on graph).1.toOption = some value) :
    ∃ later, action.on graph = (.ok value, later) := by
  cases ran : action.on graph with
  | mk result later =>
      rw [ran] at evaluated
      cases result with
      | error => cases evaluated
      | ok =>
          cases evaluated
          exact ⟨later, rfl⟩

theorem of_on_look {query : TypeGraph → Except Fault α} {value : α}
    (done : (look query).on graph = (.ok value, later)) :
    query graph = .ok value ∧ later = graph := by
  rw [on_look] at done
  cases found : query graph with
  | error fault =>
      rw [found] at done
      cases done
  | ok own =>
      rw [found] at done
      cases done
      exact ⟨rfl, rfl⟩

theorem of_on_update {ref : Ref} {change : Node → Node} {value : Unit}
    (done : (update ref change).on graph = (.ok value, later)) :
    (∃ node, graph.node ref = .ok node) ∧ later = graph.update ref change := by
  rw [on_update] at done
  split at done
  next node found =>
      cases done
      exact ⟨⟨node, found⟩, rfl⟩
  next => cases done

/-! ## What computations ensure -/

/-- A computation that succeeds only narrows the models of the graph, and what it claims
holds in those that are left. -/
def Ensures (build : Build α) (claim : Meaning → α → Prop) : Prop :=
  ∀ graph value later, build.on graph = (.ok value, later) →
    ∀ meaning : Meaning, meaning.Models later → meaning.Models graph ∧ claim meaning value

abbrev Narrows (build : Build α) : Prop :=
  build.Ensures fun _ _ => True

namespace Ensures

variable {claim other : Meaning → α → Prop} {last : Meaning → β → Prop} {build : Build α}

theorem mono (ensures : build.Ensures claim)
    (implies : ∀ meaning value, claim meaning value → other meaning value) :
    build.Ensures other := by
  intro graph value later done meaning models
  have parts := ensures graph value later done meaning models
  exact ⟨parts.1, implies meaning value parts.2⟩

theorem narrows (ensures : build.Ensures claim) : build.Narrows :=
  ensures.mono fun _ _ _ => trivial

theorem pure {value : α} (holds : ∀ meaning, claim meaning value) :
    (Pure.pure value : Build α).Ensures claim := by
  intro graph given later done meaning models
  cases done
  exact ⟨models, holds meaning⟩

theorem throw (failure : Failure) :
    (MonadExcept.throw failure : Build α).Ensures claim := by
  intro graph value later done
  cases done

/-- What the first part has found out can be used for the second. -/
theorem bind {next : α → Build β} (first : build.Ensures claim)
    (second : ∀ value, (next value).Ensures fun meaning result =>
      claim meaning value → last meaning result) :
    (build >>= next).Ensures last := by
  intro graph result later done meaning models
  rcases of_on_bind done with ⟨value, middle, ran, done⟩
  have rest := second value middle result later done meaning models
  have start := first graph value middle ran meaning rest.1
  exact ⟨start.1, rest.2 start.2⟩

theorem seq {next : α → Build β} (first : build.Narrows)
    (second : ∀ value, (next value).Ensures last) : (build >>= next).Ensures last :=
  first.bind fun value => (second value).mono fun _ _ holds _ => holds

theorem look {query : TypeGraph → Except Fault α}
    (found : ∀ graph value, query graph = .ok value →
      ∀ meaning : Meaning, meaning.Models graph → claim meaning value) :
    (Build.look query).Ensures claim := by
  intro graph value later done meaning models
  rcases of_on_look done with ⟨answer, rfl⟩
  exact ⟨models, found _ value answer meaning models⟩

theorem tryCatch {handle : Failure → Build α} (ensures : build.Ensures claim)
    (handled : ∀ failure, (handle failure).Ensures fun _ _ => False) :
    (MonadExcept.tryCatch build handle).Ensures claim := by
  intro graph value later done meaning models
  rw [on_tryCatch] at done
  split at done
  next own middle ran =>
      cases done
      exact ensures graph _ _ ran meaning models
  next failure middle ran => exact (handled failure _ _ _ done meaning models).2.elim

end Ensures

theorem narrows_look (query : TypeGraph → Except Fault α) : (look query).Narrows :=
  .look fun _ _ _ _ _ => trivial

theorem narrows_get : (get : Build TypeGraph).Narrows := by
  intro graph value later done meaning models
  cases done
  exact ⟨models, trivial⟩

theorem narrows_forM {items : List α} {act : α → Build Unit}
    (each : ∀ item, (act item).Narrows) :
    (items.forM act).Narrows := by
  induction items with
  | nil => exact .pure fun _ => trivial
  | cons head tail induction =>
      exact (each head).seq fun _ => induction

theorem narrows_mapM {items : List α} {act : α → Build β}
    (each : ∀ item, (act item).Narrows) :
    (items.mapM act).Narrows := by
  induction items with
  | nil => exact .pure fun _ => trivial
  | cons head tail induction =>
      rw [List.mapM_cons]
      exact (each head).seq fun _ => induction.seq fun _ => .pure fun _ => trivial

theorem narrows_forIn {items : List α} {start : PUnit}
    {act : α → PUnit → Build (ForInStep PUnit)} (each : ∀ item state,
      (act item state).Narrows) : (forIn items start act).Narrows := by
  induction items generalizing start with
  | nil => exact .pure fun _ => trivial
  | cons head tail induction =>
      rw [List.forIn_cons]
      refine (each head start).seq fun step => ?_
      cases step with
      | done state => exact .pure fun _ => trivial
      | yield state => exact induction

end Build

/-! ## Growth -/

def Form.Keeps (before after : Form) : Prop :=
  before = after ∨ ∃ kind members bound more other,
    before = row kind members bound ∧ after = row kind more other ∧
      (∀ name type, members.get? name = some type → more.get? name = some type) ∧
        ∀ tag, more.Permits other tag → members.Permits bound tag

theorem Form.exists_var_of_kind {form : Form} (kind : form.kind = .var) :
    ∃ origin, form = .var origin := by
  cases form with
  | var origin => exact ⟨origin, rfl⟩
  | row rowKind members bound => cases rowKind <;> cases kind
  | _ => cases kind

theorem Form.kind_ne_var {form : Form} (notVar : ∀ origin, form ≠ .var origin) :
    form.kind ≠ .var := by
  intro isVar
  rcases Form.exists_var_of_kind isVar with ⟨origin, isOrigin⟩
  exact notVar origin isOrigin

theorem Form.kind_row_ne_var (kind : RowKind) (members : Row) (bound : Option Row) :
    (row kind members bound).kind ≠ .var :=
  Form.kind_ne_var nofun

/-- What a node says is said by another one. A type variable says nothing. -/
def Node.Keeps (before after : Node) : Prop :=
  match before.link with
  | some target => after.link = some target
  | none => (∃ origin, before.form = .var origin) ∨
      after.link = none ∧ before.form.Keeps after.form

theorem Form.Keeps.holds {before after : Form} (keeps : before.Keeps after)
    {meaning : Meaning} {values : Value → Prop} (holds : after.Holds meaning values) :
    before.Holds meaning values := by
  rcases keeps with rfl | ⟨kind, members, bound, more, other, rfl, rfl, kept, permitted⟩
  · exact holds
  · exact holds.row (fun name type found => ⟨type, kept name type found, rfl⟩) permitted

theorem Form.Keeps.trans {first second third : Form} (left : first.Keeps second)
    (right : second.Keeps third) : first.Keeps third := by
  rcases left with rfl | ⟨kind, members, bound, more, other, rfl, rfl, kept, permitted⟩
  · exact right
  · rcases right with rfl | ⟨_, _, _, most, last, equal, rfl, keptLater, permittedLater⟩
    · exact .inr ⟨kind, members, bound, more, other, rfl, rfl, kept, permitted⟩
    · cases equal
      exact .inr ⟨kind, members, bound, most, last, rfl, rfl,
        fun name type found => keptLater name type (kept name type found),
        fun tag permits => permitted tag (permittedLater tag permits)⟩

namespace Node.Keeps

variable {before after : Node}

theorem holds (keeps : before.Keeps after) {meaning : Meaning} {ref : Ref}
    (holds : after.Holds meaning ref) : before.Holds meaning ref := by
  unfold Node.Keeps at keeps
  unfold Node.Holds at holds ⊢
  cases linked : before.link with
  | some target =>
      rw [linked] at keeps
      rw [show after.link = some target from keeps] at holds
      exact holds
  | none =>
      rw [linked] at keeps
      rcases keeps with ⟨origin, form⟩ | ⟨unlinked, kept⟩
      · rw [form]
        trivial
      · rw [unlinked] at holds
        exact kept.holds holds

theorem of_same (link : after.link = before.link) (form : before.form.Keeps after.form) :
    before.Keeps after := by
  unfold Node.Keeps
  cases linked : before.link with
  | some target => exact link.trans linked
  | none => exact .inr ⟨link.trans linked, form⟩

theorem of_var {origin : Option Origin} (unlinked : before.link = none)
    (form : before.form = .var origin) : before.Keeps after := by
  unfold Node.Keeps
  rw [unlinked]
  exact .inl ⟨origin, form⟩

theorem refl (node : Node) : node.Keeps node := of_same rfl (.inl rfl)

theorem trans {third : Node} (left : before.Keeps after) (right : after.Keeps third) :
    before.Keeps third := by
  unfold Node.Keeps at left right ⊢
  cases linked : before.link with
  | some target =>
      rw [linked] at left
      rw [show after.link = some target from left] at right
      exact right
  | none =>
      rw [linked] at left
      rcases left with var | ⟨unlinked, kept⟩
      · exact .inl var
      · rw [unlinked] at right
        rcases right with ⟨origin, form⟩ | ⟨unlinkedLater, keptLater⟩
        · -- Only a type variable is kept by a type variable.
          rcases kept with equal | ⟨_, _, _, _, _, _, equal, _, _⟩
          · exact .inl ⟨origin, equal.trans form⟩
          · rw [form] at equal
            cases equal
        · exact .inr ⟨unlinkedLater, kept.trans keptLater⟩

end Node.Keeps

namespace TypeGraph

variable {graph middle later : TypeGraph}

/-- What each node of a graph says is said by the node of the same name in another
graph. -/
def Grows (graph later : TypeGraph) : Prop :=
  ∀ ref node, graph.node ref = .ok node → ∃ other, later.node ref = .ok other ∧
    node.Keeps other

theorem Grows.models (grows : graph.Grows later) {meaning : Meaning}
    (models : meaning.Models later) : meaning.Models graph := by
  intro ref node found
  rcases grows ref node found with ⟨other, otherFound, keeps⟩
  exact keeps.holds (models ref other otherFound)

theorem Grows.refl (graph : TypeGraph) : graph.Grows graph :=
  fun _ node found => ⟨node, found, .refl node⟩

theorem Grows.trans (left : graph.Grows middle) (right : middle.Grows later) :
    graph.Grows later := by
  intro ref node found
  rcases left ref node found with ⟨other, otherFound, keeps⟩
  rcases right ref other otherFound with ⟨last, lastFound, keepsLater⟩
  exact ⟨last, lastFound, keeps.trans keepsLater⟩

theorem Grows.of_nodes (same : later.nodes = graph.nodes) : graph.Grows later := by
  intro ref node found
  rcases graph with ⟨nodes, unfoldings⟩
  rcases later with ⟨laterNodes, laterUnfoldings⟩
  cases same
  exact ⟨node, found, .refl node⟩

theorem grows_allocate (graph : TypeGraph) (node : Node) :
    graph.Grows (graph.allocate node).2 :=
  fun _ old found => ⟨old, node_allocate_of_ok found node, .refl old⟩

theorem node_ne_ok_of_allocate (graph : TypeGraph) (node old : Node) :
    graph.node (graph.allocate node).1 ≠ .ok old := by
  intro found
  cases place : graph.index? (graph.allocate node).1 with
  | none => simp [TypeGraph.node, place] at found
  | some index =>
      have small := (index?_eq_some_iff graph _ index).1 place
      have number := congrArg Ref.number small.2
      change (graph.size + 1 : Int) = index + 1 at number
      omega

/-- A node may be changed after a while if the change keeps what the node said at
first. -/
theorem Grows.update (grows : graph.Grows later) {ref : Ref} {change : Node → Node}
    (keeps : ∀ node, graph.node ref = .ok node →
      ∃ other, later.node ref = .ok other ∧ node.Keeps (change other)) :
    graph.Grows (later.update ref change) := by
  intro own node found
  by_cases equal : own = ref
  · subst equal
    rcases keeps node found with ⟨other, otherFound, kept⟩
    exact ⟨change other, node_update_self otherFound change, kept⟩
  · rw [node_update_of_ne later equal]
    exact grows own node found

end TypeGraph

namespace Build

variable {α : Type}

theorem narrows_of_grows {build : Build α}
    (grows : ∀ graph value later, build.on graph = (.ok value, later) →
      graph.Grows later) :
    build.Narrows :=
  fun graph value later done _ models =>
    ⟨(grows graph value later done).models models, trivial⟩

theorem narrows_modify {change : TypeGraph → TypeGraph}
    (same : ∀ graph, (change graph).nodes = graph.nodes) :
    (modify change : Build Unit).Narrows := by
  apply narrows_of_grows
  intro graph value later done
  cases done
  exact .of_nodes (same graph)

/-! ## Changing nodes -/

theorem narrows_update {ref : Ref} {change : Node → Node}
    (keeps : ∀ node : Node, node.Keeps (change node)) : (update ref change).Narrows := by
  apply narrows_of_grows
  intro graph value later done
  rcases of_on_update done with ⟨_, rfl⟩
  exact (TypeGraph.Grows.refl graph).update fun node found => ⟨node, found, keeps node⟩

theorem narrows_remark (ref : Ref) (change : Marks → Marks) :
    (remark ref change).Narrows :=
  narrows_update fun _ => .of_same rfl (.inl rfl)

theorem ensures_deref (ref : Ref) :
    (deref ref).Ensures fun meaning target => meaning ref = meaning target :=
  .look fun _ _ found meaning models => (TypeGraph.of_deref found).2 meaning models

theorem ensures_root (ref : Ref) :
    (root ref).Ensures fun meaning node => node.form.Holds meaning (meaning ref) :=
  .look fun _ _ found meaning models => (TypeGraph.of_root found).2 meaning models

theorem ensures_allocate (form : Form) :
    (allocate { form := form }).Ensures fun meaning ref =>
      ref.number ≠ 0 ∧ form.Holds meaning (meaning ref) := by
  intro graph ref later done meaning models
  cases done
  refine ⟨(graph.grows_allocate _).models models, ?_, ?_⟩
  · change (graph.size + 1 : Int) ≠ 0
    omega
  · exact models.form (graph.node_allocate_self _) rfl

theorem ensures_newVar : newVar.Ensures fun _ ref => ref.number ≠ 0 :=
  (ensures_allocate _).mono fun _ _ holds => holds.1

theorem ensures_newPrimitive (primitive : Primitive) :
    (newPrimitive primitive).Ensures fun meaning ref =>
      ∀ value, meaning ref value ↔ primitive.Has value :=
  (ensures_allocate _).mono fun _ _ holds => holds.2

theorem ensures_newList (element : Ref) :
    (newList element).Ensures fun meaning ref =>
      ∀ value, meaning ref value ↔ value.IsListOf (meaning element) :=
  (ensures_allocate _).mono fun _ _ holds => holds.2

theorem narrows_updateRoot {ref : Ref} {change : Node → Node}
    (keeps : ∀ node : Node, node.Keeps (change node)) : (updateRoot ref change).Narrows :=
  (narrows_look _).seq fun _ => narrows_update keeps

theorem narrows_noteMatched (ref : Ref) (tag : String) : (noteMatched ref tag).Narrows :=
  narrows_updateRoot fun _ => .of_same rfl (.inl rfl)

theorem narrows_noteForms (ref : Ref) (forms : Marks) : (noteForms ref forms).Narrows :=
  (narrows_look _).seq fun _ => narrows_remark _ _

theorem narrows_restoreForms (ref : Ref) (forms : Marks) :
    (restoreForms ref forms).Narrows :=
  (narrows_look _).seq fun _ => narrows_remark _ _

theorem ensures_bind (ref target : Ref) :
    (bind ref target).Ensures fun meaning _ => target.number ≠ 0 → meaning ref =
      meaning target := by
  intro graph value later done meaning models
  rcases of_on_bind done with ⟨unbound, middle, read, afterRead⟩
  rcases of_on_bind read with ⟨node, same, looked, answered⟩
  rcases of_on_look looked with ⟨found, rfl⟩
  cases answered
  cases free : node.form.kind == .var && node.link.isNone with
  | false =>
      rw [free] at afterRead
      cases afterRead
  | true =>
      rw [free] at afterRead
      rcases of_on_update afterRead with ⟨_, rfl⟩
      rw [Bool.and_eq_true, beq_iff_eq, Option.isNone_iff_eq_none] at free
      rcases Form.exists_var_of_kind free.1 with ⟨origin, form⟩
      have grows : middle.Grows (middle.update ref fun node =>
          { node with link := if target.number = 0 then none else some target }) := by
        apply (TypeGraph.Grows.refl middle).update
        intro own ownFound
        rw [found] at ownFound
        cases ownFound
        exact ⟨node, found, .of_var free.2 form⟩
      refine ⟨grows.models models, fun numbered => ?_⟩
      refine models.link (TypeGraph.node_update_self found _) ?_
      exact if_neg numbered

theorem of_on_updateRoot {ref : Ref} {change : Node → Node}
    {graph later : TypeGraph} {value : Unit} {node : Node}
    (done : (updateRoot ref change).on graph = (.ok value, later))
    (rooted : graph.root ref = .ok node) (keeps : node.Keeps (change node))
    (unlinked : (change node).link = none) {meaning : Meaning}
    (models : meaning.Models later) :
    meaning.Models graph ∧ (change node).form.Holds meaning (meaning ref) := by
  rcases of_on_bind done with ⟨target, middle, followed, updated⟩
  rcases of_on_look followed with ⟨found, rfl⟩
  rcases of_on_update updated with ⟨_, rfl⟩
  rw [TypeGraph.root, found] at rooted
  have nodeFound : middle.node target = .ok node := rooted
  have grows : middle.Grows (middle.update target change) := by
    apply (TypeGraph.Grows.refl middle).update
    intro own ownFound
    rw [nodeFound] at ownFound
    cases ownFound
    exact ⟨node, nodeFound, keeps⟩
  have earlier := grows.models models
  rw [(TypeGraph.of_deref found).2 meaning earlier]
  exact ⟨earlier, models.form (TypeGraph.node_update_self nodeFound change) unlinked⟩

theorem narrows_sealVariant (ref : Ref) : (sealVariant ref).Narrows := by
  intro graph value later done meaning models
  rcases of_on_bind done with ⟨node, middle, looked, rest⟩
  rcases of_on_look looked with ⟨rooted, rfl⟩
  have unlinked := (TypeGraph.of_root rooted).1
  split at rest
  next members equal =>
      rcases of_on_bind rest with ⟨_, _, updated, returned⟩
      cases returned
      refine ⟨(of_on_updateRoot updated rooted ?_ unlinked models).1, trivial⟩
      refine .of_same rfl
        (.inr ⟨.variant, members, none, members, some members, equal, rfl, ?_⟩)
      exact ⟨fun _ _ found => found, fun _ _ => nofun⟩
  next =>
      cases rest
      exact ⟨models, trivial⟩

/-! ## Members -/

theorem of_on_members {ref : Ref} {graph later : TypeGraph} {row : Row}
    (done : (members ref).on graph = (.ok row, later)) :
    ∃ node, graph.root ref = .ok node ∧ row = node.form.members?.getD .empty ∧
      later = graph := by
  rcases of_on_bind done with ⟨node, middle, looked, returned⟩
  rcases of_on_look looked with ⟨rooted, rfl⟩
  cases returned
  exact ⟨node, rooted, rfl, rfl⟩

theorem of_on_member? {ref : Ref} {name : String} {graph later : TypeGraph}
    {type? : Option Ref} (done : (member? ref name).on graph = (.ok type?, later)) :
    ∃ node, graph.root ref = .ok node ∧ type? =
      (node.form.members?.getD .empty).get? name ∧
      later = graph := by
  rcases of_on_bind done with ⟨row, middle, looked, returned⟩
  rcases of_on_members looked with ⟨node, rooted, rfl, rfl⟩
  cases returned
  exact ⟨node, rooted, rfl, rfl⟩

/-- A new member that the bound has is added to those that are there. -/
theorem of_on_putMember {ref type : Ref} {name : String}
    {graph later : TypeGraph} {value : Unit} {node : Node}
    (done : (putMember ref name type).on graph = (.ok value, later))
    (rooted : graph.root ref = .ok node)
    (absent : (node.form.members?.getD .empty).get? name = none)
    (allowed : ∀ row ∈ node.form.bound?, row.contains name) {meaning : Meaning}
    (models : meaning.Models later) :
    meaning.Models graph ∧
      ∀ payload, meaning ref (.tagged name payload) → meaning type payload := by
  rcases of_on_bind done with ⟨own, middle, looked, rest⟩
  rcases of_on_look looked with ⟨ownRooted, rfl⟩
  rw [rooted] at ownRooted
  cases ownRooted
  split at rest
  next kind members bound equal =>
      have keeps :
          node.Keeps { node with form := .row kind (members.put name type) bound } := by
        rw [equal] at absent allowed
        refine .of_same rfl (.inr ⟨kind, members, bound, _, bound, equal, rfl, ?_, ?_⟩)
        · intro other otherType found
          by_cases same : other = name
          · subst same
            rw [show members.get? other = none from absent] at found
            cases found
          · rw [members.get?_put_of_ne same]
            exact found
        · intro tag permits row bounded
          by_cases same : tag = name
          · exact .inr (same ▸ allowed row bounded)
          · have listed := permits row bounded
            rw [Row.contains, members.get?_put_of_ne same] at listed
            exact listed
      have parts := of_on_updateRoot rest rooted keeps (TypeGraph.of_root rooted).1 models
      refine ⟨parts.1, fun payload has => parts.2.payload ?_ has⟩
      exact members.get?_put_self name type
  next => cases rest

/-! ## Unfoldings -/

/-- Every run of a computation makes the graph grow. -/
def Extends (build : Build α) : Prop :=
  ∀ graph value later, build.on graph = (.ok value, later) → graph.Grows later

theorem Extends.bind {β : Type} {build : Build α} {next : α → Build β}
    (first : build.Extends) (second : ∀ value, (next value).Extends) :
    (build >>= next).Extends := by
  intro graph result later done
  rcases of_on_bind done with ⟨value, middle, ran, rest⟩
  exact (first graph value middle ran).trans (second value middle result later rest)

theorem extends_pure (value : α) : (pure value : Build α).Extends := by
  intro graph given later done
  cases done
  exact .refl graph

theorem extends_look (query : TypeGraph → Except Fault α) : (look query).Extends := by
  intro graph value later done
  rcases of_on_look done with ⟨_, rfl⟩
  exact .refl later

theorem extends_updateUnfolding (unfolding : Nat) (change : Unfolding → Unfolding) :
    (updateUnfolding unfolding change).Extends := by
  intro graph value later done
  cases done
  exact .of_nodes rfl

theorem extends_newPosition (unfolding : Nat) (copied : Ref) :
    (newPosition unfolding copied).Extends := by
  refine (extends_look _).bind fun target => (extends_look _).bind fun node => ?_
  refine .bind ?_ fun position =>
    (extends_updateUnfolding _ _).bind fun _ => extends_pure _
  intro graph value later done
  cases done
  exact graph.grows_allocate _

theorem extends_newPositions (unfolding : Nat) (known : Row)
    (entries : List (String × Ref)) :
    (newPositions unfolding known entries).Extends := by
  induction entries generalizing known with
  | nil => exact extends_pure _
  | cons entry rest induction =>
      rcases entry with ⟨name, copied⟩
      rw [newPositions]
      split
      · exact (induction known).bind fun _ => extends_pure _
      · refine (extends_newPosition unfolding copied).bind fun position => ?_
        exact (induction (known.put name position)).bind fun _ => extends_pure _

theorem extends_copyForm (unfolding : Nat) (form : Form) :
    (copyForm unfolding form).Extends := by
  cases form with
  | var origin => exact extends_pure _
  | primitive own => exact extends_pure _
  | function argument result =>
      refine (extends_newPosition unfolding argument).bind fun _ => ?_
      exact (extends_newPosition unfolding result).bind fun _ => extends_pure _
  | list element =>
      exact (extends_newPosition unfolding element).bind fun _ => extends_pure _
  | row kind members bound =>
      refine (extends_newPositions unfolding .empty members.entries).bind
        fun positions => ?_
      cases bound with
      | none => exact extends_pure _
      | some bound =>
          refine (extends_newPositions unfolding positions.2 bound.entries).bind fun _ =>
            ?_
          exact extends_pure _

/-- A position that is expanded was a type variable before, so it can be made anything. -/
theorem extends_expandWithin (fuel : Nat) (ref : Ref) :
    (expandWithin fuel ref).Extends := by
  induction fuel generalizing ref with
  | zero =>
      intro graph value later done
      cases done
  | succ fuel induction =>
      intro graph value later done
      rcases of_on_bind done with ⟨target, start, followed, afterDeref⟩
      rcases of_on_look followed with ⟨found, rfl⟩
      rcases of_on_bind afterDeref with ⟨node, start, looked, afterNode⟩
      rcases of_on_look looked with ⟨nodeFound, rfl⟩
      split at afterNode
      next origin form =>
          rcases of_on_bind afterNode with ⟨_, copied, expanded, afterCopied⟩
          have grown := induction origin.copied start _ copied expanded
          rcases of_on_bind afterCopied with ⟨source, middle, rooted, afterRoot⟩
          rcases of_on_look rooted with ⟨_, rfl⟩
          dsimp only at afterRoot
          split at afterRoot
          · cases afterRoot
            exact grown
          · rcases of_on_bind afterRoot with ⟨copy, allocated, added, afterCopy⟩
            cases added
            rcases of_on_bind afterCopy with ⟨shape, filled, copying, afterForm⟩
            rcases of_on_bind afterForm with ⟨_, named, updated, linked⟩
            have namedEqual := (of_on_update updated).2
            rcases of_on_update linked with ⟨_, rfl⟩
            -- The node of the copy is new, and the position is a type variable in the
            -- first graph.
            have inner : middle.Grows filled :=
              (middle.grows_allocate _).trans (extends_copyForm _ _ _ _ _ copying)
            have completed : middle.Grows named := by
              rw [namedEqual]
              apply inner.update
              intro own ownFound
              exact absurd ownFound (middle.node_ne_ok_of_allocate default own)
            apply (grown.trans completed).update
            intro own ownFound
            rcases (grown.trans completed) target own ownFound with ⟨other, otherFound, _⟩
            rcases (TypeGraph.of_deref found).1 with ⟨same, sameFound, unlinked⟩
            rw [sameFound] at nodeFound ownFound
            cases nodeFound
            cases ownFound
            exact ⟨other, otherFound, .of_var unlinked form⟩
      next =>
          cases afterNode
          exact .refl later

theorem narrows_expand (ref : Ref) : (expand ref).Narrows :=
  narrows_get.seq fun _ => narrows_of_grows (extends_expandWithin _ ref)

theorem narrows_foldPosition (position : Ref) : (foldPosition position).Narrows := by
  apply narrows_update
  intro node
  split
  next origin form =>
      cases linked : node.link with
      | some target =>
          unfold Node.Keeps
          rw [linked]
          rfl
      | none => exact .of_var linked form
  next => exact .refl node

theorem narrows_fold (unfolding : Nat) : (fold unfolding).Narrows :=
  narrows_get.seq fun _ => (narrows_forM narrows_foldPosition).seq fun _ =>
    narrows_of_grows (extends_updateUnfolding _ _)

theorem narrows_unfold (ref : Ref) : (unfold ref).Narrows := by
  refine (narrows_look _).seq fun copied => narrows_get.seq fun _ => ?_
  refine .seq (narrows_modify fun _ => rfl) fun _ => ?_
  refine (narrows_of_grows (extends_newPosition _ _)).seq fun _ => ?_
  exact (narrows_of_grows (extends_updateUnfolding _ _)).seq fun _ =>
    .pure fun _ => trivial

end Build

end Casework
