import Casework.Proofs.Edits
import Casework.Proofs.Frames

/-!
Bounds are final.

Structs and variants are merged with others, over and over, and then other nodes stand for
them. They gain names that way, and lose none. Once there is a bound, every name is a
member already, and then no name can be added: the main statement is that the names of a
bounded type never change again, whatever is done to the graph, and whether it succeeds or
fails.

Nothing but the fairness of rows is needed, so positions of unfoldings may be anywhere in
the graph.
-/

namespace Casework

/-! ## What a row retains -/

/-- No name is lost. A bound stays a bound, and no name comes in. -/
structure Row.Retains (members : Row) (bound : Option Row) (laterMembers : Row)
    (laterBound : Option Row) : Prop where
  kept : ∀ name, members.contains name → laterMembers.contains name
  bounded : bound.isSome → laterBound.isSome
  final : bound.isSome → ∀ name, laterMembers.contains name → members.contains name

theorem Row.Retains.refl (members : Row) (bound : Option Row) :
    members.Retains bound members bound :=
  ⟨fun _ listed => listed, id, fun _ _ listed => listed⟩

theorem Row.Retains.trans {members middle last : Row}
    {bound middleBound lastBound : Option Row}
    (first : members.Retains bound middle middleBound)
    (second : middle.Retains middleBound last lastBound) :
    members.Retains bound last lastBound where
  kept name listed := second.kept name (first.kept name listed)
  bounded isBounded := second.bounded (first.bounded isBounded)
  final isBounded name listed :=
    first.final isBounded name (second.final (first.bounded isBounded) name listed)

theorem Row.Fair.retains_put {members : Row} {bound : Option Row}
    (fair : members.Fair bound) {name : String}
    (allowed : bound.all (·.contains name)) (type : Ref) :
    members.Retains bound (members.put name type) bound where
  kept other listed := Row.contains_put.2 (.inl listed)
  bounded := id
  final isBounded other listed := by
    rcases Option.isSome_iff_exists.1 isBounded with ⟨row, rfl⟩
    rcases Row.contains_put.1 listed with old | rfl
    · exact old
    · exact (fair.agreed row rfl other).1 allowed

namespace Build

variable {leftMembers rightMembers : Row} {leftBound rightBound : Option Row}

theorem bounded_mergeRows (either : leftBound.isSome ∨ rightBound.isSome) :
    (mergeRows leftMembers leftBound rightMembers rightBound).bound.isSome := by
  cases leftBound with
  | none => exact either.resolve_left Bool.false_ne_true
  | some left =>
      cases rightBound with
      | none => rfl
      | some right => rfl

theorem retains_mergeRows (left : leftMembers.Fair leftBound)
    (right : rightMembers.Fair rightBound)
    (allowed : NamesAllowed leftMembers leftBound rightMembers rightBound) :
    leftMembers.Retains leftBound
      (mergeRows leftMembers leftBound rightMembers rightBound).members
        (mergeRows leftMembers leftBound rightMembers rightBound).bound ∧
      rightMembers.Retains rightBound
        (mergeRows leftMembers leftBound rightMembers rightBound).members
        (mergeRows leftMembers leftBound rightMembers rightBound).bound := by
  have inside := (namesAllowed_iff left right).1 allowed
  constructor
  · refine ⟨fun name listed => contains_mergeRows.2 (.inl listed),
      fun isBounded => bounded_mergeRows (.inl isBounded),
      fun isBounded name listed => ?_⟩
    rcases Option.isSome_iff_exists.1 isBounded with ⟨row, isRow⟩
    rcases contains_mergeRows.1 listed with own | other
    · exact own
    · exact (left.agreed row isRow name).1 (inside.1 row isRow name other)
  · refine ⟨fun name listed => contains_mergeRows.2 (.inr listed),
      fun isBounded => bounded_mergeRows (.inr isBounded),
      fun isBounded name listed => ?_⟩
    rcases Option.isSome_iff_exists.1 isBounded with ⟨row, isRow⟩
    rcases contains_mergeRows.1 listed with other | own
    · exact (right.agreed row isRow name).1 (inside.2 row isRow name other)
    · exact own

end Build

def Form.Retains (form later : Form) : Prop :=
  ∀ kind members bound, form = .row kind members bound →
    ∃ laterMembers laterBound, later = .row kind laterMembers laterBound ∧
      members.Retains bound laterMembers laterBound

namespace Form

variable {left right form : Form} {pairs : List (Ref × Ref)}

theorem Retains.refl (form : Form) : form.Retains form :=
  fun _ members bound isRow => ⟨members, bound, isRow, .refl members bound⟩

theorem exists_row_of_kind {kind : RowKind} (same : form.kind = kind.kind) :
    ∃ members bound, form = .row kind members bound := by
  cases form with
  | row own members bound =>
      refine ⟨members, bound, ?_⟩
      cases own <;> cases kind <;> first | rfl | cases same
  | _ => cases kind <;> cases same

theorem retains_of_var {origin : Option Origin} (isVar : form = .var origin)
    (later : Form) :
    form.Retains later := by
  intro kind members bound isRow
  rw [isVar] at isRow
  cases isRow

theorem retains_of_join? (leftFair : left.Fair) (rightFair : right.Fair)
    (joined : left.join? right = some (form, pairs)) :
    left.Retains form ∧ right.Retains form := by
  rcases join?_cases joined with
    ⟨own, rfl, rfl, rfl, _⟩ | ⟨_, _, _, _, rfl, rfl, rfl, _⟩ |
    ⟨_, _, rfl, rfl, rfl, _⟩ | ⟨kind, members, bound, otherMembers, otherBound, rfl,
      rfl, fits, rfl, _⟩
  · exact ⟨.refl _, .refl _⟩
  · exact ⟨.refl _, fun _ _ _ isRow => nomatch isRow⟩
  · exact ⟨.refl _, fun _ _ _ isRow => nomatch isRow⟩
  · have retains :=
      Build.retains_mergeRows leftFair rightFair (namesAllowed_of_rowsFit fits)
    constructor
    · rintro _ _ _ ⟨⟩
      exact ⟨_, _, rfl, retains.1⟩
    · rintro _ _ _ ⟨⟩
      exact ⟨_, _, rfl, retains.2⟩

end Form

/-! ## What a graph retains -/

namespace TypeGraph

variable {graph middle later : TypeGraph} {ref target : Ref} {node : Node}

def RowAt (graph : TypeGraph) (ref : Ref) (kind : RowKind) (members : Row)
    (bound : Option Row) : Prop :=
  ∃ target node, graph.Rooted ref target node ∧ node.form = .row kind members bound

theorem RowAt.fair {kind : RowKind} {members : Row} {bound : Option Row}
    (row : graph.RowAt ref kind members bound) (fair : graph.Fair) :
    members.Fair bound := by
  rcases row with ⟨target, node, rooted, form⟩
  have formFair := fair.root rooted.root
  rwa [form] at formFair

/-- A fair graph in which structs and variants retain their names. -/
structure Retains (graph later : TypeGraph) : Prop where
  fair : later.Fair
  rows : ∀ {ref kind members bound}, graph.RowAt ref kind members bound →
    ∃ laterMembers laterBound, later.RowAt ref kind laterMembers laterBound ∧
      members.Retains bound laterMembers laterBound

theorem Retains.refl (fair : graph.Fair) : graph.Retains graph :=
  ⟨fair, fun row => ⟨_, _, row, .refl _ _⟩⟩

theorem Retains.trans (first : graph.Retains middle) (second : middle.Retains later) :
    graph.Retains later where
  fair := second.fair
  rows row := by
    rcases first.rows row with ⟨middleMembers, middleBound, middleRow, retains⟩
    rcases second.rows middleRow with ⟨laterMembers, laterBound, laterRow, retainsLater⟩
    exact ⟨laterMembers, laterBound, laterRow, retains.trans retainsLater⟩

theorem Frames.retains (frames : graph.Frames later) : graph.Retains later where
  fair := frames.fair
  rows := by
    rintro ref kind members bound ⟨target, node, rooted, form⟩
    have notVar : node.form.kind ≠ .var := by
      rw [form]
      exact Form.kind_row_ne_var _ _ _
    exact ⟨members, bound, ⟨target, node, frames.rooted rooted notVar, form⟩, .refl _ _⟩

theorem Alters.retains {before after : Node}
    (alters : graph.Alters later target before after) (fair : graph.Fair)
    (link : after.link = before.link) (afterFair : after.form.Fair)
    (retains : before.form.Retains after.form) : graph.Retains later where
  fair own node found := by
    rcases alters.node_cases found with ⟨_, rfl⟩ | ⟨_, old⟩
    · exact afterFair
    · exact fair own node old
  rows := by
    rintro ref kind members bound ⟨root, node, rooted, form⟩
    have laterRooted := alters.rooted link rooted
    by_cases equal : root = target
    · subst equal
      have same := rooted.found
      rw [alters.found] at same
      cases same
      rw [if_pos rfl] at laterRooted
      rcases retains kind members bound form with
        ⟨laterMembers, laterBound, laterForm, kept⟩
      exact ⟨laterMembers, laterBound, ⟨root, after, laterRooted, laterForm⟩, kept⟩
    · rw [if_neg equal] at laterRooted
      exact ⟨members, bound, ⟨root, node, laterRooted, form⟩, .refl _ _⟩

theorem Unites.retains {gone kept : Ref} {goneNode keptNode : Node} {form : Form}
    (unites : graph.Unites later gone kept goneNode form)
    (keptFound : graph.node kept = .ok keptNode) (fair : graph.Fair)
    (formFair : form.Fair) (goneRetains : goneNode.form.Retains form)
    (keptRetains : keptNode.form.Retains form) : graph.Retains later where
  fair own node found := by
    rcases unites.node_cases found with ⟨_, same, _⟩ | ⟨_, new, _⟩ | ⟨_, _, old⟩
    · rw [same]
      exact fair gone goneNode unites.goneFound
    · rw [new]
      exact formFair
    · exact fair own node old
  rows := by
    rintro ref kind members bound ⟨root, node, rooted, isRow⟩
    rcases unites.rooted rooted with ⟨laterRoot, after, laterRooted, cases⟩
    rcases cases with ⟨either, _, newForm⟩ | ⟨_, _, _, rfl⟩
    · have retains : node.form.Retains form := by
        rcases either with rfl | rfl
        · have same := rooted.found
          rw [unites.goneFound] at same
          cases same
          exact goneRetains
        · have same := rooted.found
          rw [keptFound] at same
          cases same
          exact keptRetains
      rcases retains kind members bound isRow with
        ⟨laterMembers, laterBound, laterForm, kept⟩
      exact ⟨laterMembers, laterBound,
        ⟨laterRoot, after, laterRooted, newForm.trans laterForm⟩, kept⟩
    · exact ⟨members, bound, ⟨laterRoot, after, laterRooted, isRow⟩, .refl _ _⟩

theorem Step.retains {left right : Ref} {leftNode rightNode : Node}
    {pairs : List (Ref × Ref)}
    (step : graph.Step later left right leftNode rightNode pairs) (fair : graph.Fair)
    (leftFound : graph.node left = .ok leftNode)
    (rightFound : graph.node right = .ok rightNode) :
    graph.Retains later := by
  have leftFair := fair left leftNode leftFound
  have rightFair := fair right rightNode rightFound
  cases step with
  | same _ unchanged =>
      rw [unchanged]
      exact .refl fair
  | bindLeft isVar unites =>
      exact unites.retains rightFound fair rightFair
        (Form.retains_of_var isVar _) (.refl _)
  | bindRight _ isVar unites =>
      exact unites.retains leftFound fair leftFair (Form.retains_of_var isVar _) (.refl _)
  | join joined unites =>
      have retains := Form.retains_of_join? leftFair rightFair joined
      exact unites.retains leftFound fair (Form.fair_of_join? leftFair rightFair joined)
        retains.2 retains.1

end TypeGraph

/-! ## Runs -/

namespace Build

open TypeGraph

variable {α β : Type} {graph : TypeGraph}

def Preserves (build : Build α) (graph : TypeGraph) : Prop :=
  build.Yields graph (fun _ later => graph.Retains later)
    (fun _ later => graph.Retains later)

theorem Preserves.bind {build : Build α} {next : α → Build β}
    (first : build.Preserves graph)
    (second : ∀ value later, later.Fair → (next value).Preserves later) :
    (build >>= next).Preserves graph := by
  apply Yields.bind first
  intro value middle retains
  apply (second value middle retains.fair).mono
  · exact fun _ _ more => retains.trans more
  · exact fun _ _ more => retains.trans more

theorem preserves_of_frames {build : Build α}
    (frames : build.Yields graph (fun _ later => graph.Frames later)
      (fun _ later => graph.Frames later)) :
    build.Preserves graph :=
  frames.mono (fun _ _ frames => frames.retains) fun _ _ frames => frames.retains

theorem preserves_pure (fair : graph.Fair) (value : α) :
    (pure value : Build α).Preserves graph :=
  yields_pure (.refl fair)

theorem preserves_allocate (fair : graph.Fair) (form : Form) (formFair : form.Fair) :
    (allocate { form := form }).Preserves graph :=
  yields_allocate ((Frames.refl fair).allocate formFair).retains

theorem preserves_updateRoot (fair : graph.Fair) (ref : Ref) {change : Node → Node}
    (link : ∀ node, (change node).link = node.link)
    (form : ∀ node, graph.root ref = .ok node →
      (change node).form.Fair ∧ node.form.Retains (change node).form) :
    (updateRoot ref change).Preserves graph := by
  apply yields_look_cases fun _ => .refl fair
  intro target followed
  rcases rooted_of_deref followed with ⟨node, rooted⟩
  rcases form node rooted.root with ⟨changedFair, retains⟩
  exact yields_update rooted.has
    ((alters_update rooted.found change).retains fair (link node) changedFair retains)

theorem refuses_of_any {left right : Ref} {failed : Failure → TypeGraph → Prop}
    (fails : ∀ failure, failed failure graph) : Refuses graph left right failed := by
  intro α reason done
  apply yields_look_cases fun _ => fails _
  intro leftText _
  apply yields_look_cases fun _ => fails _
  intro rightText _
  exact yields_throw (fails _)

theorem preserves_unifyStep (fair : graph.Fair) (left right : Ref) :
    (unifyStep left right).Preserves graph := by
  have first := frames_expand (Frames.refl fair) left
  rcases firstRan : (expand left).on graph with ⟨failure | _, middle⟩
  · exact yields_bind_of_error firstRan (first.of_error firstRan).retains
  have second := frames_expand (first.of_ok firstRan) right
  rcases secondRan : (expand right).on middle with ⟨failure | _, start⟩
  · exact yields_bind_of_on firstRan
      (yields_bind_of_error secondRan (second.of_error secondRan).retains)
  have expanded := (second.of_ok secondRan).retains
  cases leftFollowed : start.deref left with
  | error fault =>
      apply yields_bind_of_on firstRan
      apply yields_bind_of_on secondRan
      exact yields_bind_of_error (on_look_of_error leftFollowed) expanded
  | ok leftRoot =>
      cases rightFollowed : start.deref right with
      | error fault =>
          apply yields_bind_of_on firstRan
          apply yields_bind_of_on secondRan
          apply yields_look_bind leftFollowed
          exact yields_bind_of_error (on_look_of_error rightFollowed) expanded
      | ok rightRoot =>
          rcases rooted_of_deref leftFollowed with ⟨leftNode, leftRooted⟩
          rcases rooted_of_deref rightFollowed with ⟨rightNode, rightRooted⟩
          apply yields_unifyStep_of_refuses firstRan secondRan leftRooted rightRooted
          · intro pairs later step
            exact expanded.trans
              (step.retains expanded.fair leftRooted.found rightRooted.found)
          · exact fun _ => refuses_of_any fun _ => expanded

theorem preserves_unifyPairs (fair : graph.Fair) (fuel : Nat) (pairs : List (Ref × Ref)) :
    (unifyPairs fuel pairs).Preserves graph := by
  induction fuel generalizing graph pairs with
  | zero =>
      cases pairs with
      | nil => exact preserves_pure fair ()
      | cons pair waiting => exact yields_throw (.refl fair)
  | succ fuel induction =>
      cases pairs with
      | nil => exact preserves_pure fair ()
      | cons pair waiting =>
          apply (preserves_unifyStep fair pair.1 pair.2).bind
          intro found later fairLater
          exact induction fairLater (found ++ waiting)

theorem preserves_unify (fair : graph.Fair) (left right : Ref) :
    (unify left right).Preserves graph :=
  preserves_unifyPairs fair _ _

theorem preserves_bind (fair : graph.Fair) {ref : Ref}
    (unbound : Operation.Unbound graph ref) (target : Ref) :
    (Build.bind ref target).Preserves graph := by
  rcases unbound with ⟨node, found, isVar, unlinked⟩
  unfold Build.bind
  apply yields_read_bind found
  rw [isVar, unlinked]
  apply preserves_of_frames
  apply frames_update (Frames.refl fair) (fun _ => ⟨node, found, isVar, unlinked⟩)
  exact fair ref

theorem preserves_sealVariant (fair : graph.Fair) (ref : Ref) :
    (sealVariant ref).Preserves graph := by
  apply yields_look_cases fun _ => .refl fair
  intro node found
  split
  next members form =>
      apply Preserves.bind
      · refine preserves_updateRoot fair ref (fun _ => rfl) ?_
        intro own again
        rw [found] at again
        cases again
        have rowFair := fair.root found
        rw [form] at rowFair ⊢
        refine ⟨Row.Fair.seal rowFair, ?_⟩
        rintro _ _ _ ⟨⟩
        exact ⟨members, some members, rfl, fun _ listed => listed, nofun, nofun⟩
      · exact fun _ _ fairLater => preserves_pure fairLater true
  next => exact preserves_pure fair false

theorem preserves_putMember (fair : graph.Fair) {ref : Ref} {name : String}
    (allows : graph.Allows ref name) (type : Ref) :
    (putMember ref name type).Preserves graph := by
  rcases allows with ⟨node, found, allowed⟩
  apply yields_look_bind found
  split
  next kind members bound form =>
      refine preserves_updateRoot fair ref (fun _ => rfl) ?_
      intro own again
      rw [found] at again
      cases again
      have rowFair : members.Fair bound := by
        have formFair := fair.root found
        rwa [form] at formFair
      rw [form] at allowed ⊢
      refine ⟨rowFair.put allowed, ?_⟩
      rintro _ _ _ ⟨⟩
      exact ⟨members.put name type, bound, rfl, rowFair.retains_put allowed type⟩
  next => exact yields_throw (.refl fair)

theorem preserves_note (fair : graph.Fair) (ref : Ref) {change : Node → Node}
    (link : ∀ node, (change node).link = node.link)
    (form : ∀ node, (change node).form = node.form) :
    (updateRoot ref change).Preserves graph := by
  refine preserves_updateRoot fair ref link fun node found => ?_
  rw [form]
  exact ⟨fair.root found, .refl _⟩

theorem preserves_noteMatched (fair : graph.Fair) (ref : Ref) (tag : String) :
    (noteMatched ref tag).Preserves graph :=
  preserves_note fair ref (fun _ => rfl) fun _ => rfl

theorem preserves_noteForms (fair : graph.Fair) (ref : Ref) (forms : Marks) :
    (noteForms ref forms).Preserves graph :=
  preserves_note fair ref (fun _ => rfl) fun _ => rfl

end Build

open Build TypeGraph

variable {graph : TypeGraph}

theorem Operation.preserves_run (fair : graph.Fair) {operation : Operation}
    (allowed : operation.Allowed graph) : operation.run.Preserves graph := by
  have done : ∀ {α : Type} (_ : α) (later : TypeGraph), later.Fair →
      (pure () : Build Unit).Preserves later := fun _ _ fairLater =>
      preserves_pure fairLater ()
  cases operation with
  | newVar => exact (preserves_allocate fair (.var none) trivial).bind done
  | newPrimitive primitive =>
      exact (preserves_allocate fair (.primitive primitive) trivial).bind done
  | newFunction argument result =>
      exact (preserves_allocate fair (.function argument result) trivial).bind done
  | newList element => exact (preserves_allocate fair (.list element) trivial).bind done
  | newOpen kind entries =>
      exact (preserves_allocate fair (.row kind _ none) (Row.fair_ofList entries)).bind
        done
  | newClosed kind entries =>
      exact (preserves_allocate fair (.row kind _ (some _))
        (Row.fair_ofList entries).seal).bind done
  | bind ref target => exact preserves_bind fair allowed.1 target
  | sealVariant ref => exact (preserves_sealVariant fair ref).bind done
  | unify left right => exact preserves_unify fair left right

theorem Edit.preserves_run (fair : graph.Fair) {edit : Edit}
    (allowed : edit.Allowed graph) :
    edit.run.Preserves graph := by
  cases edit with
  | operation own => exact Operation.preserves_run fair allowed
  | noteMatched ref tag => exact preserves_noteMatched fair ref tag
  | noteForms ref forms => exact preserves_noteForms fair ref forms
  | putMember ref name type => exact preserves_putMember fair allowed.1 type

namespace TypeGraph

theorem Fair.edited (fair : graph.Fair) {edits : List Edit}
    (permits : graph.Permits edits) :
    graph.Retains (graph.edited edits) := by
  induction edits generalizing graph with
  | nil => exact .refl fair
  | cons edit rest induction =>
      have retains := (Edit.preserves_run fair permits.1).leaves
      exact retains.trans (induction retains.fair permits.2)

/-! ## Bounded types -/

/-- A graph that was made in any way, unfoldings included. -/
inductive Made : TypeGraph → Prop where
  | empty : Made {}
  | edit {graph : TypeGraph} (made : Made graph) (edit : Edit)
    (allowed : edit.Allowed graph) :
      Made (edit.run.on graph).2
  | mark {graph : TypeGraph} (made : Made graph) (ref : Ref) (change : Node → Node)
      (form : ∀ node, (change node).form = node.form)
      (link : ∀ node, (change node).link = node.link) :
      Made (graph.update ref change)
  | unfold {graph : TypeGraph} (made : Made graph) (ref : Ref) :
    Made ((Build.unfold ref).on graph).2
  | expand {graph : TypeGraph} (made : Made graph) (ref : Ref) :
    Made ((Build.expand ref).on graph).2
  | fold {graph : TypeGraph} (made : Made graph) (unfolding : Nat) :
      Made ((Build.fold unfolding).on graph).2

theorem Made.edited (made : graph.Made) {edits : List Edit}
    (permits : graph.Permits edits) :
    (graph.edited edits).Made := by
  induction edits generalizing graph with
  | nil => exact made
  | cons edit rest induction => exact induction (made.edit edit permits.1) permits.2

theorem fair_unfold (fair : graph.Fair) (ref : Ref) :
    ((Build.unfold ref).on graph).2.Fair := by
  have frames : (Build.unfold ref).Yields graph (fun _ later => graph.Frames later)
      (fun _ later => graph.Frames later) := by
    apply yields_look_cases fun _ => .refl fair
    intro copied _
    apply yields_get_bind
    apply yields_modify_bind
    have started : graph.Frames
        { graph with unfoldings := graph.unfoldings.push { root := copied } } :=
      ⟨fair, fun _ _ found _ => found⟩
    apply (frames_newPosition started graph.unfoldings.size copied).bind
    intro root later framesLater
    exact yields_modify_bind (yields_pure ⟨framesLater.fair, framesLater.kept⟩)
  exact frames.leaves.fair

theorem fair_fold (fair : graph.Fair) (unfolding : Nat) :
    ((Build.fold unfolding).on graph).2.Fair := by
  have folded : (Build.fold unfolding).Yields graph (fun _ later => later.Fair)
      (fun _ later => later.Fair) := by
    apply yields_get_bind
    refine (yields_forM TypeGraph.Fair fair fun position _ middle fairMiddle => ?_).bind
      ?_
    · apply yields_look_cases fun _ => fairMiddle
      intro node _
      apply yields_modify
      apply fairMiddle.update
      intro own found
      split
      · trivial
      · exact fairMiddle position own found
    · intro _ later fairLater
      exact yields_modify fairLater
  exact folded.leaves

theorem Made.fair (made : graph.Made) : graph.Fair := by
  induction made with
  | empty => exact tidy_empty.wellFormed.fair
  | edit _ edit allowed fair => exact (Edit.preserves_run fair allowed).leaves.fair
  | mark _ ref change form _ fair =>
      apply Fair.update fair
      intro node found
      rw [form]
      exact fair ref node found
  | expand _ ref fair => exact (frames_expand (.refl fair) ref).leaves.fair
  | unfold _ ref fair => exact fair_unfold fair ref
  | fold _ unfolding fair => exact fair_fold fair unfolding

structure ReadsRow (graph : TypeGraph) (ref : Ref) (kind : RowKind) (members : Row)
    (bound : Option Row) : Prop where
  kind : (Build.kind ref).on graph = (.ok kind.kind, graph)
  members : (Build.members ref).on graph = (.ok members, graph)
  bound : (Build.bound? ref).on graph = (.ok bound, graph)

theorem readsRow_iff {ref : Ref} {kind : RowKind} {members : Row} {bound : Option Row} :
    graph.ReadsRow ref kind members bound ↔ graph.RowAt ref kind members bound := by
  constructor
  · rintro ⟨isKind, isMembers, isBound⟩
    rcases on_read_iff.1 isKind with ⟨node, found, kinds⟩
    rcases on_read_iff.1 isMembers with ⟨_, again, rfl⟩
    rcases on_read_iff.1 isBound with ⟨_, andAgain, rfl⟩
    rw [found] at again andAgain
    cases again
    cases andAgain
    rcases rooted_of_root found with ⟨target, rooted⟩
    refine ⟨target, node, rooted, ?_⟩
    rcases Form.exists_row_of_kind kinds with ⟨members, bound, form⟩
    rw [form]
    rfl
  · rintro ⟨target, node, rooted, form⟩
    refine ⟨on_read_iff.2 ⟨node, rooted.root, ?_⟩, on_read_iff.2 ⟨node, rooted.root, ?_⟩,
      on_read_iff.2 ⟨node, rooted.root, ?_⟩⟩
    all_goals
      rw [form]
      rfl

/-- A struct or a variant loses no name, and once it has a bound its names are final. -/
theorem names_final (made : graph.Made) {ref : Ref} {kind : RowKind} {members : Row}
    {bound : Option Row} (reads : graph.ReadsRow ref kind members bound)
    {edits : List Edit} (permits : graph.Permits edits) :
    ∃ laterMembers laterBound,
      (graph.edited edits).ReadsRow ref kind laterMembers laterBound ∧
      (∀ name, members.contains name → laterMembers.contains name) ∧
      ∀ row, bound = some row → ∃ laterRow, laterBound = some laterRow ∧
        (∀ name, laterMembers.contains name ↔ members.contains name) ∧
        ∀ name, laterRow.contains name ↔ row.contains name := by
  have rowAt := readsRow_iff.1 reads
  have retained := made.fair.edited permits
  rcases retained.rows rowAt with ⟨laterMembers, laterBound, laterAt, retains⟩
  refine ⟨laterMembers, laterBound, readsRow_iff.2 laterAt, retains.kept, ?_⟩
  rintro row rfl
  rcases Option.isSome_iff_exists.1 (retains.bounded rfl) with ⟨laterRow, rfl⟩
  have same : ∀ name, laterMembers.contains name ↔ members.contains name :=
    fun name => ⟨retains.final rfl name, retains.kept name⟩
  refine ⟨laterRow, rfl, same, fun name => ?_⟩
  calc laterRow.contains name
      ↔ laterMembers.contains name :=
      (laterAt.fair retained.fair).agreed laterRow rfl name
    _ ↔ members.contains name := same name
    _ ↔ row.contains name := ((rowAt.fair made.fair).agreed row rfl name).symm

def sealing : List Edit :=
  [.operation (.newPrimitive .unit), .operation (.newOpen .variant [("A", ⟨1⟩)]),
    .operation (.sealVariant ⟨2⟩)]

/-- It refuses another tag, and is merged with a variant that stands for it then. -/
def merging : List Edit :=
  [.operation (.newOpen .variant [("A", ⟨1⟩), ("B", ⟨1⟩)]), .operation (.unify ⟨3⟩ ⟨2⟩),
    .operation (.newOpen .variant [("A", ⟨1⟩)]), .operation (.unify ⟨4⟩ ⟨2⟩),
    .putMember ⟨2⟩ "A" ⟨1⟩]

theorem names_final_merging :
    (({} : TypeGraph).edited sealing).Made ∧
    (({} : TypeGraph).edited sealing).ReadsRow ⟨2⟩ .variant ⟨[("A", ⟨1⟩)]⟩
      (some ⟨[("A", ⟨1⟩)]⟩) ∧
    (({} : TypeGraph).edited sealing).Permits merging ∧
    ∃ members bound : Row,
      ((({} : TypeGraph).edited sealing).edited merging).ReadsRow
        ⟨2⟩ .variant members (some bound) ∧
      (∀ name, members.contains name ↔ Row.contains ⟨[("A", ⟨1⟩)]⟩ name) ∧
      ∀ name, bound.contains name ↔ Row.contains ⟨[("A", ⟨1⟩)]⟩ name := by
  have made : (({} : TypeGraph).edited sealing).Made := Made.empty.edited (by decide)
  have reads : (({} : TypeGraph).edited sealing).ReadsRow ⟨2⟩ .variant ⟨[("A", ⟨1⟩)]⟩
      (some ⟨[("A", ⟨1⟩)]⟩) := ⟨rfl, rfl, rfl⟩
  have permits : (({} : TypeGraph).edited sealing).Permits merging := by decide
  rcases names_final made reads permits with ⟨members, _, laterReads, _, final⟩
  rcases final _ rfl with ⟨bound, rfl, sameMembers, sameBound⟩
  exact ⟨made, reads, permits, members, bound, laterReads, sameMembers, sameBound⟩

end TypeGraph

end Casework
