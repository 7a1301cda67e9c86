import Casework.Proofs.Reachability

/-!
What expanding leaves alone.

Expanding a position adds nodes and gives a form to the position, which was a type
variable without a link. No other node changes, whatever the graph looks like and whether
the expansion succeeds or fails. New rows have the labels of the rows they copy, so they
are fair as well.
-/

namespace Casework

namespace TypeGraph

variable {start graph later : TypeGraph} {ref target : Ref} {node : Node}

def Fair (graph : TypeGraph) : Prop :=
  ∀ ref node, graph.node ref = .ok node → node.form.Fair

theorem Fair.root (fair : graph.Fair) (found : graph.root ref = .ok node) :
    node.form.Fair := by
  rcases rooted_of_root found with ⟨target, rooted⟩
  exact fair target node rooted.found

theorem Fair.update (fair : graph.Fair) {change : Node → Node}
    (stays : ∀ node, graph.node ref = .ok node → (change node).form.Fair) :
    (graph.update ref change).Fair := by
  intro own node found
  by_cases equal : own = ref
  · subst equal
    rcases has_iff.1 ((has_of_node found).mono (graph.size_update own change).le)
      with ⟨before, old⟩
    rw [node_update_self old] at found
    cases found
    exact stays before old
  · rw [graph.node_update_of_ne equal] at found
    exact fair own node found

/-- The reference names no node, or a type variable that is not bound. -/
def Loose (graph : TypeGraph) (ref : Ref) : Prop :=
  graph.Has ref → Operation.Unbound graph ref

/-- A fair graph in which only type variables that were not bound have changed. -/
structure Frames (start later : TypeGraph) : Prop where
  fair : later.Fair
  kept : ∀ ref node, start.node ref = .ok node → ¬ Operation.Unbound start ref →
    later.node ref = .ok node

namespace Frames

theorem refl (fair : graph.Fair) : graph.Frames graph := ⟨fair, fun _ _ found _ => found⟩

theorem loose (frames : start.Frames graph) (unbound : Operation.Unbound graph ref) :
    start.Loose ref := by
  intro has
  by_contra bound
  rcases has_iff.1 has with ⟨node, found⟩
  rcases unbound with ⟨same, sameFound, isVar, unlinked⟩
  rw [frames.kept ref node found bound] at sameFound
  cases sameFound
  exact bound ⟨node, found, isVar, unlinked⟩

theorem loose_of_new (frames : start.Frames graph) (new : ¬ graph.Has ref) :
    start.Loose ref := by
  intro has
  by_contra bound
  rcases has_iff.1 has with ⟨node, found⟩
  exact new (has_of_node (frames.kept ref node found bound))

theorem allocate (frames : start.Frames graph) {added : Node} (fair : added.form.Fair) :
    start.Frames (graph.allocate added).2 where
  fair ref node found := by
    rcases node_allocate_cases found with old | ⟨_, rfl⟩
    · exact frames.fair ref node old
    · exact fair
  kept ref node found bound :=
    node_allocate_of_ok (frames.kept ref node found bound) added

theorem update (frames : start.Frames graph) (loose : start.Loose ref)
    {change : Node → Node}
    (fair : ∀ node, graph.node ref = .ok node → (change node).form.Fair) :
    start.Frames (graph.update ref change) where
  fair := frames.fair.update fair
  kept own node found bound := by
    have different : own ≠ ref := by
      rintro rfl
      exact bound (loose (has_of_node found))
    rw [graph.node_update_of_ne different]
    exact frames.kept own node found bound

theorem rooted (frames : start.Frames later) (rooted : start.Rooted ref target node)
    (notVar : node.form.kind ≠ .var) : later.Rooted ref target node := by
  refine ⟨?_, ?_, rooted.unlinked⟩
  · apply rooted.leads.mono
    rintro own next ⟨ownNode, found, linked⟩
    refine ⟨ownNode, frames.kept own ownNode found ?_, linked⟩
    rintro ⟨same, sameFound, _, unlinked⟩
    rw [found] at sameFound
    cases sameFound
    rw [unlinked] at linked
    cases linked
  · apply frames.kept target node rooted.found
    rintro ⟨same, sameFound, isVar, _⟩
    rw [rooted.found] at sameFound
    cases sameFound
    exact notVar isVar

end Frames

end TypeGraph

/-! ## Expanding -/

namespace Build

open TypeGraph

variable {start graph : TypeGraph}

theorem frames_update (frames : start.Frames graph) {ref : Ref} (loose : start.Loose ref)
    {change : Node → Node}
    (fair : ∀ node, graph.node ref = .ok node → (change node).form.Fair) :
    (update ref change).Yields graph (fun _ later => start.Frames later)
      (fun _ later => start.Frames later) := by
  apply yields_look_cases fun _ => frames
  intro node _
  exact yields_modify (frames.update loose fair)

theorem frames_newPosition (frames : start.Frames graph) (unfolding : Nat)
    (copied : Ref) :
    (newPosition unfolding copied).Yields graph (fun _ later => start.Frames later)
      (fun _ later => start.Frames later) := by
  apply yields_look_cases fun _ => frames
  intro target _
  apply yields_look_cases fun _ => frames
  intro node _
  apply yields_allocate_bind
  apply yields_modify_bind
  have allocated :
      start.Frames (graph.allocate { form := .var (some ⟨target, unfolding⟩) }).2 :=
    frames.allocate trivial
  exact yields_pure ⟨allocated.fair, allocated.kept⟩

theorem frames_newPositions (frames : start.Frames graph) (unfolding : Nat) (known : Row)
    (entries : List (String × Ref)) :
    (newPositions unfolding known entries).Yields graph
      (fun result later => result.1.map Prod.fst = entries.map Prod.fst ∧
        start.Frames later)
      (fun _ later => start.Frames later) := by
  induction entries generalizing known graph with
  | nil => exact yields_pure ⟨rfl, frames⟩
  | cons entry rest induction =>
      rcases entry with ⟨name, copied⟩
      rw [newPositions]
      split
      next position =>
          apply (induction frames known).bind
          rintro ⟨entries, further⟩ later ⟨labels, framesLater⟩
          exact yields_pure ⟨congrArg (name :: ·) labels, framesLater⟩
      next =>
          apply (frames_newPosition frames unfolding copied).bind
          intro position middle framesMiddle
          apply (induction framesMiddle (known.put name position)).bind
          rintro ⟨entries, further⟩ later ⟨labels, framesLater⟩
          exact yields_pure ⟨congrArg (name :: ·) labels, framesLater⟩

theorem frames_copyForm (frames : start.Frames graph) (unfolding : Nat) {form : Form}
    (fair : form.Fair) :
    (copyForm unfolding form).Yields graph
      (fun copy later => copy.Fair ∧ start.Frames later)
      (fun _ later => start.Frames later) := by
  cases form with
  | var origin => exact yields_pure ⟨trivial, frames⟩
  | primitive own => exact yields_pure ⟨trivial, frames⟩
  | function argument result =>
      apply (frames_newPosition frames unfolding argument).bind
      intro _ middle framesMiddle
      apply (frames_newPosition framesMiddle unfolding result).bind
      intro _ later framesLater
      exact yields_pure ⟨trivial, framesLater⟩
  | list element =>
      apply (frames_newPosition frames unfolding element).bind
      intro _ later framesLater
      exact yields_pure ⟨trivial, framesLater⟩
  | row kind members bound =>
      apply (frames_newPositions frames unfolding .empty members.entries).bind
      rintro ⟨entries, known⟩ middle ⟨labels, framesMiddle⟩
      cases bound with
      | none => exact yields_pure ⟨Row.Fair.of_labels fair labels rfl, framesMiddle⟩
      | some bound =>
          apply (frames_newPositions framesMiddle unfolding known bound.entries).bind
          rintro ⟨bounds, further⟩ later ⟨boundLabels, framesLater⟩
          exact yields_pure
            ⟨Row.Fair.of_labels fair labels (congrArg some boundLabels), framesLater⟩

theorem frames_expandWithin (frames : start.Frames graph) (fuel : Nat) (ref : Ref) :
    (expandWithin fuel ref).Yields graph (fun _ later => start.Frames later)
      (fun _ later => start.Frames later) := by
  induction fuel generalizing graph ref with
  | zero => exact yields_throw frames
  | succ fuel induction =>
      rw [expandWithin]
      apply yields_look_cases fun _ => frames
      intro position followed
      apply yields_look_cases fun _ => frames
      intro node found
      split
      next origin form =>
          -- Whatever becomes of the position in between, it was a variable without a link
          -- before.
          have loose : start.Loose position := by
            rcases rooted_of_deref followed with ⟨same, rooted⟩
            have equal := rooted.found
            rw [found] at equal
            cases equal
            exact frames.loose ⟨node, found, by rw [form]; rfl, rooted.unlinked⟩
          apply (induction frames origin.copied).bind
          intro _ middle framesMiddle
          apply yields_look_cases fun _ => framesMiddle
          intro original originalFound
          dsimp only
          split
          · exact yields_pure framesMiddle
          · apply yields_allocate_bind
            have new : start.Loose (middle.allocate { form := .var none }).1 :=
              framesMiddle.loose_of_new (middle.not_has_allocate _)
            have allocated : start.Frames (middle.allocate { form := .var none }).2 :=
              framesMiddle.allocate trivial
            apply (frames_copyForm allocated origin.unfolding
              (framesMiddle.fair.root originalFound)).bind
            rintro copy copied ⟨copyFair, framesCopied⟩
            apply (frames_update framesCopied new fun _ _ => copyFair).bind
            intro _ filled framesFilled
            exact frames_update framesFilled loose fun _ _ => trivial
      next => exact yields_pure frames

theorem frames_expand (frames : start.Frames graph) (ref : Ref) :
    (expand ref).Yields graph (fun _ later => start.Frames later)
      (fun _ later => start.Frames later) :=
  frames_expandWithin frames _ ref

end Build

end Casework
