import Casework.Coverage
import Casework.Proofs.Narrowing

/-!
The search for a gap, without marks.

The search marks the nodes whose parts it searches. Another way to the same answer is to
list these nodes, to search a graph that stays as it is, and to write the text once a gap
has been found. Both agree because nothing but the search looks at its marks: a node can
be marked before or after a type is expanded or shown.
-/

namespace Casework

inductive Gap where
  | emptyList
  | nonEmptyList
  | value (text : String)
  | missing (tag : String) (payload : Ref)
  | element (gap : Gap)
  | field (name : String) (gap : Gap)
  | payload (tag : String) (gap : Gap)
deriving DecidableEq, Repr

namespace TypeGraph

def settleAround (graph : TypeGraph) (path : List Ref) :
    (fuel : Nat) → Ref → Except Fault (Option (Ref × Node))
  | 0, _ => .error .endless
  | fuel + 1, ref => do
      let node ← graph.node ref
      if node.walked || path.contains ref || node.marks.any then return none
      match node.link with
      | some next => settleAround graph path fuel next
      | none => return some (ref, node)

def partialGap (graph : TypeGraph) (ref : Ref) (node : Node) :
    Except Fault (Option Gap) := do
  match node.form with
  | .list _ => return some (if node.marks.emptyForm then .nonEmptyList else .emptyList)
  | _ =>
      let text ← graph.text ref
      return if text.isEmpty then none else some (.value text)

/-- The first gap that can be reached from a type around the nodes of a path. -/
def findGap (graph : TypeGraph) :
    (fuel : Nat) → (path : List Ref) → Ref → Except Fault (Option Gap)
  | 0, _, _ => .error .endless
  | fuel + 1, path, ref => do
      match ← graph.settleAround path (graph.size + 1) ref with
      | none => return none
      | some (ref, node) =>
          if node.marks.partly then graph.partialGap ref node
          else
            let inner := graph.findGap fuel (ref :: path)
            match node.form with
            | .var _ => return none
            | .primitive _ => return none
            | .list element => return (← inner element).map .element
            | .function argument result => [argument, result].findSomeM? inner
            | .row .struct members _ =>
                members.entries.findSomeM? fun (name, type) => do
                  return (← inner type).map (.field name)
            | .row .variant members _ =>
                match missingTag node members with
                | some (tag, payload) => return some (.missing tag payload)
                | none =>
                    members.entries.findSomeM? fun (tag, type) => do
                      return (← inner type).map (.payload tag)

def gap? (graph : TypeGraph) (ref : Ref) : Except Fault (Option Gap) :=
  graph.findGap (graph.size + 1) [] ref

def entered (graph : TypeGraph) (root : Ref) : TypeGraph :=
  graph.update root fun node => { node with walked := true }

end TypeGraph

namespace Build

def gapText : Gap → Build String
  | .emptyList => return "[]"
  | .nonEmptyList => return "_::_"
  | .value text => return text
  | .missing tag payload => return tag ++ " " ++ (← payloadText payload)
  | .element gap => do return "(" ++ (← gapText gap) ++ ")::_"
  | .field name gap => do return "." ++ name ++ " (" ++ (← gapText gap) ++ ")"
  | .payload tag gap => do return tag ++ " (" ++ (← gapText gap) ++ ")"

/-- The text of what a search without marks has found. -/
def told (found : Except Fault (Option Gap)) : Build (Option String) := do
  match ← look fun _ => found with
  | none => return none
  | some gap => return some (← gapText gap)

end Build

/-! ## Looking at a graph where a node is being walked -/

namespace TypeGraph

variable {graph : TypeGraph} {root ref : Ref} {node : Node} {path around : List Ref}

@[simp] theorem size_entered (graph : TypeGraph) (root : Ref) :
    (graph.entered root).size = graph.size := size_update ..

theorem node_entered_self (found : graph.node root = .ok node) :
    (graph.entered root).node root = .ok { node with walked := true } :=
  node_update_self found _

theorem node_entered_of_ne (apart : ref ≠ root) :
    (graph.entered root).node ref = graph.node ref :=
  node_update_of_ne graph apart _

theorem node_entered_cases (graph : TypeGraph) (root ref : Ref) :
    (graph.entered root).node ref = graph.node ref ∨
      ∃ node, ref = root ∧ graph.node ref = .ok node ∧
        (graph.entered root).node ref = .ok { node with walked := true } := by
  by_cases equal : ref = root
  · subst equal
    cases found : graph.node ref with
    | ok node => exact .inr ⟨node, rfl, rfl, node_entered_self found⟩
    | error fault => exact .inl (node_update_of_error found _)
  · exact .inl (node_entered_of_ne equal)

theorem follow_entered (fuel : Nat) (ref : Ref) :
    (graph.entered root).follow fuel ref = graph.follow fuel ref := by
  induction fuel generalizing ref with
  | zero => rfl
  | succ fuel induction =>
      unfold follow
      rw [show (graph.entered root).follow fuel = graph.follow fuel from funext induction]
      rcases node_entered_cases graph root ref with same | ⟨node, _, found, marked⟩
      · rw [same]
      · rw [marked, found]
        rfl

theorem deref_entered (ref : Ref) : (graph.entered root).deref ref = graph.deref ref := by
  rw [deref, size_entered, follow_entered, deref]

theorem shown_entered (fuel : Nat) (ref : Ref) :
    (graph.entered root).shown fuel ref = graph.shown fuel ref := by
  induction fuel generalizing ref with
  | zero => rfl
  | succ fuel induction =>
      unfold shown
      rw [show (graph.entered root).shown fuel = graph.shown fuel from
        funext induction, deref_entered]
      cases graph.deref ref with
      | error fault => rfl
      | ok target =>
          change ((graph.entered root).node target >>= _) = (graph.node target >>= _)
          rcases node_entered_cases graph root target with same | ⟨node, _, found, marked⟩
          · rw [same]
          · rw [marked, found]
            rfl

theorem print_entered (fuel : Nat) :
    (graph.entered root).print fuel = graph.print fuel := by
  induction fuel with
  | zero => rfl
  | succ fuel induction =>
      funext around nested ref
      rw [print, print, induction, size_entered, shown_entered]

theorem text_entered (ref : Ref) : (graph.entered root).text ref = graph.text ref := by
  rw [text, text, size_entered, print_entered]

/-! ## Changing a graph where a node is being walked -/

/-- A change that neither looks at whether a node is being walked nor changes that. -/
def Indifferent (change : Node → Node) : Prop :=
  ∀ node, change { node with walked := true } = { change node with walked := true } ∧
    (change node).walked = node.walked

theorem entered_update (graph : TypeGraph) {change : Node → Node}
    (indifferent : Indifferent change) (root ref : Ref) :
    (graph.entered root).update ref change = (graph.update ref change).entered root := by
  by_cases equal : ref = root
  · subst equal
    cases place : graph.index? ref with
    | none =>
        have later := (index?_update graph ref ref change).trans place
        rw [entered, update_of_no_index place, entered, update_of_no_index later]
    | some index =>
        have later := (index?_update graph ref ref change).trans place
        rw [entered, update_of_index? ((index?_update ..).trans place),
          update_of_index? place, entered, update_of_index? later, update_of_index? place]
        congr 1
        apply Array.ext
        · simp
        · intro own _ _
          by_cases same : index = own <;>
            simp [Array.getElem_modify, same, (indifferent _).1]
  · exact update_comm graph (Ne.symm equal) _ change

theorem entered_allocate (has : graph.node root = .ok node) (new : Node) :
    (graph.entered root).allocate new =
      ((graph.allocate new).1, (graph.allocate new).2.entered root) := by
  cases place : graph.index? root with
  | none => simp [TypeGraph.node, place] at has
  | some index =>
      rcases (index?_eq_some_iff graph root index).1 place with ⟨small, named⟩
      have later : (graph.allocate new).2.index? root = some index := by
        rw [index?_eq_some_iff, size_allocate]
        exact ⟨by omega, named⟩
      rw [entered, entered, update_of_index? place, update_of_index? later]
      simp only [allocate, size, Array.size_modify, Prod.mk.injEq, mk.injEq,
        and_true, true_and]
      apply Array.ext
      · simp
      · intro own _ _
        have inside : index < graph.nodes.size := small
        by_cases same : index = own
        · subst same
          simp [Array.getElem_push, Array.getElem_modify, inside]
        · by_cases old : own < graph.nodes.size <;>
            simp [Array.getElem_push, Array.getElem_modify, old, same]

theorem entered_unfoldings (change : Array Unfolding → Array Unfolding) :
    { graph.entered root with unfoldings := change (graph.entered root).unfoldings } =
      { graph with unfoldings := change graph.unfoldings : TypeGraph }.entered root := by
  have later :
      { graph with unfoldings := change graph.unfoldings : TypeGraph }.index? root =
      graph.index? root := rfl
  cases place : graph.index? root with
  | none =>
      rw [entered, entered, update_of_no_index place,
        update_of_no_index (later.trans place)]
  | some index =>
      rw [entered, entered, update_of_index? place, update_of_index? (later.trans place)]

theorem leave_entered (found : graph.node root = .ok node)
    (unwalked : node.walked = false) :
    (graph.entered root).update root
      (fun node => { node with walked := false }) = graph := by
  cases place : graph.index? root with
  | none => simp [TypeGraph.node, place] at found
  | some index =>
      have small : index < graph.nodes.size :=
        ((index?_eq_some_iff graph root index).1 place).1
      have isNode : graph.nodes[index] = node := by
        simpa [TypeGraph.node, place, Array.getElem?_eq_getElem small] using found
      rw [entered, update_of_index? ((index?_update ..).trans place),
        update_of_index? place]
      rcases graph with ⟨nodes, unfoldings⟩
      congr 1
      apply Array.ext
      · simp
      · intro own _ _
        by_cases same : index = own
        · subst same
          rcases node with ⟨form, link, matched, marks, walked⟩
          cases unwalked
          simp [Array.getElem_modify, isNode]
        · simp [Array.getElem_modify, same]

/-! ## Searching a graph where a node is being walked -/

theorem settle_succ (fuel : Nat) (ref : Ref) :
    graph.settle (fuel + 1) ref = (graph.node ref).bind fun node =>
      if node.walked || node.marks.any then .ok none
      else match node.link with
        | some next => graph.settle fuel next
        | none => .ok (some (ref, node)) := rfl

theorem settleAround_succ (path : List Ref) (fuel : Nat) (ref : Ref) :
    graph.settleAround path (fuel + 1) ref = (graph.node ref).bind fun node =>
      if node.walked || path.contains ref || node.marks.any then .ok none
      else match node.link with
        | some next => graph.settleAround path fuel next
        | none => .ok (some (ref, node)) := rfl

theorem settle_eq (fuel : Nat) (ref : Ref) :
    graph.settle fuel ref = graph.settleAround [] fuel ref := by
  induction fuel generalizing ref with
  | zero => rfl
  | succ fuel induction =>
      simp only [settle_succ, settleAround_succ, induction,
        List.contains_nil, Bool.or_false]

theorem unwalked_of_settleAround {fuel : Nat} {target : Ref}
    (settled : graph.settleAround path fuel ref = .ok (some (target, node))) :
    graph.node target = .ok node ∧ node.walked = false := by
  induction fuel generalizing ref with
  | zero => cases settled
  | succ fuel induction =>
      rw [settleAround_succ] at settled
      cases found : graph.node ref with
      | error fault =>
          rw [found] at settled
          cases settled
      | ok own =>
          rw [found, Except.bind] at settled
          split at settled
          next => cases settled
          next free =>
              cases linked : own.link with
              | some next =>
                  rw [linked] at settled
                  exact induction settled
              | none =>
                  rw [linked] at settled
                  cases settled
                  simp only [Bool.or_eq_true, not_or, Bool.not_eq_true] at free
                  exact ⟨found, free.1.1⟩

theorem settleAround_entered
    (lists : ∀ own, own ∈ around ↔ own = root ∨ own ∈ path) (fuel : Nat) (ref : Ref) :
    (graph.entered root).settleAround path fuel ref =
      graph.settleAround around fuel ref := by
  induction fuel generalizing ref with
  | zero => rfl
  | succ fuel induction =>
      have contains : around.contains ref =
          (decide (ref = root) || path.contains ref) := by
        rw [Bool.eq_iff_iff]
        simp [lists]
      simp only [settleAround_succ, induction, contains]
      by_cases same : ref = root
      · subst same
        cases found : graph.node ref with
        | error fault =>
            rw [show (graph.entered ref).node ref = .error fault from
              node_update_of_error found _]
            rfl
        | ok node => simp [node_entered_self found, Except.bind]
      · rw [node_entered_of_ne same, decide_eq_false same, Bool.false_or]

theorem partialGap_entered (ref : Ref) (node : Node) :
    (graph.entered root).partialGap ref node = graph.partialGap ref node := by
  rw [TypeGraph.partialGap, text_entered, TypeGraph.partialGap]

theorem findGap_entered (fuel : Nat)
    (lists : ∀ own, own ∈ around ↔ own = root ∨ own ∈ path) (ref : Ref) :
    (graph.entered root).findGap fuel path ref = graph.findGap fuel around ref := by
  induction fuel generalizing path around ref with
  | zero => rfl
  | succ fuel induction =>
      have inner (target : Ref) : (graph.entered root).findGap fuel (target :: path) =
          graph.findGap fuel (target :: around) :=
        funext fun part => induction (fun own => by simp [lists, or_left_comm]) part
      unfold TypeGraph.findGap
      rw [size_entered, settleAround_entered lists]
      simp only [inner, partialGap_entered]

end TypeGraph

namespace Build

open TypeGraph

variable {α β : Type} {graph : TypeGraph} {root ref : Ref} {node : Node}

/-- A computation that does the same while a node is being walked, and leaves it so. -/
def Blind (build : Build α) : Prop :=
  ∀ graph root node, graph.node root = .ok node →
    build.on (graph.entered root) =
    ((build.on graph).1, (build.on graph).2.entered root) ∧
      ∃ after, (build.on graph).2.node root = .ok after ∧ after.walked = node.walked

theorem blind_pure (value : α) : (pure value : Build α).Blind :=
  fun _ _ node found => ⟨rfl, node, found, rfl⟩

theorem blind_throw (failure : Failure) : (throw failure : Build α).Blind :=
  fun _ _ node found => ⟨rfl, node, found, rfl⟩

theorem Blind.bind {build : Build α} {next : α → Build β} (first : build.Blind)
    (rest : ∀ value, (next value).Blind) : (build >>= next).Blind := by
  intro graph root node found
  rcases first graph root node found with ⟨same, after, afterFound, walked⟩
  rw [on_bind, on_bind, same]
  cases ran : build.on graph with
  | mk result middle =>
      rw [ran] at afterFound
      cases result with
      | error failure => exact ⟨rfl, after, afterFound, walked⟩
      | ok value =>
          rcases rest value middle root after afterFound with
            ⟨restSame, last, lastFound, lastWalked⟩
          exact ⟨restSame, last, lastFound, lastWalked.trans walked⟩

theorem blind_look {query : TypeGraph → Except Fault α}
    (same : ∀ graph root, query (graph.entered root) = query graph) :
    (look query).Blind := by
  intro graph root node found
  rw [on_look, on_look, same]
  exact ⟨rfl, node, found, rfl⟩

theorem blind_deref (ref : Ref) : (deref ref).Blind :=
  blind_look fun _ _ => deref_entered ref

theorem blind_text (ref : Ref) : (text ref).Blind :=
  blind_look fun _ _ => text_entered ref

theorem blind_read {query : TypeGraph → Except Fault Node} {next : Node → Build β}
    (read : ∀ graph root, query (graph.entered root) = query graph ∨
      ∃ node, query graph = .ok node ∧
        query (graph.entered root) = .ok { node with walked := true })
    (same : ∀ node, next { node with walked := true } = next node)
    (rest : ∀ node, (next node).Blind) : (look query >>= next).Blind := by
  intro graph root node found
  rw [on_bind, on_bind, on_look, on_look]
  cases ran : query graph with
  | error fault =>
      rcases read graph root with equal | ⟨own, ownFound, _⟩
      · rw [equal, ran]
        exact ⟨rfl, node, found, rfl⟩
      · rw [ran] at ownFound
        cases ownFound
  | ok own =>
      have equal : query (graph.entered root) = .ok own ∨
          query (graph.entered root) = .ok { own with walked := true } := by
        rcases read graph root with equal | ⟨_, ownFound, marked⟩
        · exact .inl (equal.trans ran)
        · rw [ran] at ownFound
          cases ownFound
          exact .inr marked
      rcases equal with equal | equal <;> rw [equal]
      · exact rest own graph root node found
      · change ((next { own with walked := true }).on _ = _) ∧ _
        rw [same]
        exact rest own graph root node found

theorem blind_node_bind {next : Node → Build β}
    (same : ∀ node, next { node with walked := true } = next node)
    (rest : ∀ node, (next node).Blind) : (Build.node ref >>= next).Blind := by
  refine blind_read (fun graph root => ?_) same rest
  rcases node_entered_cases graph root ref with equal | ⟨own, _, ownFound, marked⟩
  · exact .inl equal
  · exact .inr ⟨own, ownFound, marked⟩

theorem blind_root_bind {next : Node → Build β}
    (same : ∀ node, next { node with walked := true } = next node)
    (rest : ∀ node, (next node).Blind) : (Build.root ref >>= next).Blind := by
  refine blind_read (fun graph root => ?_) same rest
  rw [TypeGraph.root, TypeGraph.root, deref_entered]
  cases graph.deref ref with
  | error fault => exact .inl rfl
  | ok target =>
      rcases node_entered_cases graph root target with equal | ⟨own, _, ownFound, marked⟩
      · exact .inl equal
      · exact .inr ⟨own, ownFound, marked⟩

theorem blind_get_bind {next : TypeGraph → Build β}
    (same : ∀ graph root, next (graph.entered root) = next graph)
    (rest : ∀ graph, (next graph).Blind) : (get >>= next : Build β).Blind := by
  intro graph root node found
  rw [on_bind, on_bind, on_get, on_get]
  change ((next (graph.entered root)).on _ = _) ∧ _
  rw [same]
  exact rest graph graph root node found

theorem blind_update {change : Node → Node}
    (indifferent : Indifferent change) (ref : Ref) :
    (update ref change).Blind := by
  intro graph root node found
  rw [on_update, on_update]
  have kept : ∃ after, (graph.update ref change).node root = .ok after ∧
      after.walked = node.walked := by
    by_cases same : root = ref
    · subst same
      exact ⟨_, node_update_self found change, (indifferent node).2⟩
    · exact ⟨node, (node_update_of_ne graph same change).trans found, rfl⟩
  cases read : graph.node ref with
  | error fault =>
      rcases node_entered_cases graph root ref with equal | ⟨own, _, ownFound, _⟩
      · rw [equal, read]
        exact ⟨rfl, node, found, rfl⟩
      · rw [read] at ownFound
        cases ownFound
  | ok own =>
      refine ⟨?_, kept⟩
      rw [← entered_update graph indifferent]
      rcases node_entered_cases graph root ref with equal | ⟨_, _, _, marked⟩
      · rw [equal, read]
      · rw [marked]

theorem blind_allocate (new : Node) : (allocate new).Blind := by
  intro graph root node found
  refine ⟨?_, node, node_allocate_of_ok found new, rfl⟩
  change (Except.ok ((graph.entered root).allocate new).1,
    ((graph.entered root).allocate new).2) = _
  rw [entered_allocate found]
  rfl

theorem blind_updateUnfolding (unfolding : Nat) (change : Unfolding → Unfolding) :
    (updateUnfolding unfolding change).Blind := by
  intro graph root node found
  refine ⟨?_, node, found, rfl⟩
  exact congrArg (Prod.mk _) (entered_unfoldings (·.modify unfolding change))

/-! ## Expanding and showing types where a node is being walked -/

theorem blind_newPosition (unfolding : Nat) (copied : Ref) :
    (newPosition unfolding copied).Blind := by
  refine (blind_deref copied).bind fun target => ?_
  refine blind_node_bind (fun _ => rfl) fun node => ?_
  refine (blind_allocate _).bind fun position => ?_
  exact (blind_updateUnfolding _ _).bind fun _ => blind_pure _

theorem blind_newPositions (unfolding : Nat) (known : Row)
    (entries : List (String × Ref)) :
    (newPositions unfolding known entries).Blind := by
  induction entries generalizing known with
  | nil => exact blind_pure _
  | cons entry rest induction =>
      rcases entry with ⟨name, copied⟩
      rw [newPositions]
      split
      · exact (induction known).bind fun _ => blind_pure _
      · refine (blind_newPosition unfolding copied).bind fun position => ?_
        exact (induction (known.put name position)).bind fun _ => blind_pure _

theorem blind_copyForm (unfolding : Nat) (form : Form) :
    (copyForm unfolding form).Blind := by
  cases form with
  | var origin => exact blind_pure _
  | primitive own => exact blind_pure _
  | function argument result =>
      refine (blind_newPosition unfolding argument).bind fun _ => ?_
      exact (blind_newPosition unfolding result).bind fun _ => blind_pure _
  | list element => exact (blind_newPosition unfolding element).bind fun _ => blind_pure _
  | row kind members bound =>
      refine (blind_newPositions unfolding .empty members.entries).bind
        fun positions => ?_
      cases bound with
      | none => exact blind_pure _
      | some bound =>
          exact (blind_newPositions unfolding positions.2 bound.entries).bind
            fun _ => blind_pure _

theorem blind_expandWithin (fuel : Nat) (ref : Ref) : (expandWithin fuel ref).Blind := by
  induction fuel generalizing ref with
  | zero => exact blind_throw _
  | succ fuel induction =>
      refine (blind_deref ref).bind fun target =>
        blind_node_bind (fun _ => rfl) fun node => ?_
      split
      next origin form =>
          refine (induction origin.copied).bind fun _ => ?_
          refine blind_root_bind (fun _ => rfl) fun source => ?_
          dsimp only
          split
          · exact blind_pure _
          · refine (blind_allocate _).bind fun copy => ?_
            refine (blind_copyForm _ _).bind fun shape => ?_
            have fills : Indifferent fun node => { node with form := shape } :=
              fun _ => ⟨rfl, rfl⟩
            have links : Indifferent fun node =>
                { node with form := .var none, link := some copy } :=
              fun _ => ⟨rfl, rfl⟩
            exact (blind_update fills copy).bind fun _ => blind_update links target
      next => exact blind_pure _

theorem blind_expand (ref : Ref) : (expand ref).Blind :=
  blind_get_bind (fun graph root => by rw [size_entered]) fun _ =>
    blind_expandWithin _ ref

theorem blind_kind (ref : Ref) : (kind ref).Blind :=
  blind_root_bind (fun _ => rfl) fun _ => blind_pure _

theorem blind_payloadText (payload : Ref) : (payloadText payload).Blind := by
  refine (blind_expand payload).bind fun _ => (blind_kind payload).bind fun kind => ?_
  split
  · exact blind_pure _
  · exact (blind_text payload).bind fun _ => blind_pure _

theorem blind_gapText (gap : Gap) : (gapText gap).Blind := by
  induction gap with
  | emptyList | nonEmptyList | value => exact blind_pure _
  | missing tag payload => exact (blind_payloadText payload).bind fun _ => blind_pure _
  | element gap induction | field _ gap induction | payload _ gap induction =>
      exact induction.bind fun _ => blind_pure _

theorem blind_told (found : Except Fault (Option Gap)) : (told found).Blind := by
  refine (blind_look fun _ _ => rfl).bind fun gap? => ?_
  cases gap? with
  | none => exact blind_pure _
  | some gap => exact (blind_gapText gap).bind fun _ => blind_pure _

/-! ## The marks of the search -/

theorem on_finally {build : Build α} {final : Build Unit} {result : Except Failure α}
    {later last : TypeGraph} (ran : build.on graph = (result, later))
    (finished : final.on later = (.ok (), last)) :
    (tryFinally build final).on graph = (result, last) := by
  have first : build graph = (result, later) := ran
  have second : final later = (.ok (), last) := finished
  simp only [on, tryFinally, MonadFinally.tryFinally', ExceptT.run_map, StateT.run_map,
    ExceptT.run_mk, StateT.run_bind]
  simp only [StateT.run, Bind.bind, Functor.map, pure, first]
  cases result <;> dsimp only <;> rw [second] <;> rfl

/-- Walking a node does what is done inside, if that does not depend on the mark. -/
theorem on_walking {inside plain : Build (Option String)}
    (found : graph.node root = .ok node) (unwalked : node.walked = false)
    (blind : plain.Blind)
    (same : inside.on (graph.entered root) = plain.on (graph.entered root)) :
    (walking root inside).on graph = plain.on graph := by
  rcases blind graph root node found with ⟨ran, after, afterFound, afterWalked⟩
  have entering : (enter root).on graph = (.ok true, graph.entered root) := by
    have read : (Build.node root).on graph = (.ok node, graph) := by
      rw [Build.node, on_look, found]
      rfl
    rw [enter, on_bind, read]
    simp only [unwalked]
    change (update root _ >>= _).on graph = _
    rw [on_bind, on_update, found]
    rfl
  have leaving : (leave root).on ((plain.on graph).2.entered root) =
      (.ok (), (plain.on graph).2) := by
    rw [leave, on_update, node_entered_self afterFound]
    exact congrArg (Prod.mk _) (leave_entered afterFound (afterWalked.trans unwalked))
  rw [walking, on_bind, entering]
  change (tryFinally inside (leave root)).on (graph.entered root) = _
  exact on_finally (same.trans ran) leaving

theorem on_told_some (gap : Gap) (graph : TypeGraph) :
    (told (.ok (some gap))).on graph =
      (do return some (← gapText gap) : Build _).on graph := rfl

theorem on_map {run : Build (Option String)} {found : Except Fault (Option Gap)}
    {wrap : Gap → Gap} {wrapText : String → String}
    (wraps : ∀ gap, gapText (wrap gap) = do return wrapText (← gapText gap))
    (same : run.on graph = (told found).on graph) :
    (do return (← run).map wrapText : Build (Option String)).on graph =
      (told (do return (← found).map wrap)).on graph := by
  rw [on_bind, same]
  rcases found with fault | _ | gap
  · rfl
  · rfl
  · change _ = (told (.ok (some (wrap gap)))).on graph
    rw [on_told_some, on_told_some, wraps, bind_assoc, on_bind, on_bind]
    rcases (gapText gap).on graph with ⟨_ | _, later⟩ <;> rfl

theorem on_findSomeM? {items : List α} {act : α → Build (Option String)}
    {search : α → Except Fault (Option Gap)}
    (each : ∀ item ∈ items, (act item).on graph = (told (search item)).on graph) :
    (items.findSomeM? act).on graph = (told (items.findSomeM? search)).on graph := by
  induction items with
  | nil => rfl
  | cons head tail induction =>
      rw [List.findSomeM?, List.findSomeM?, on_bind, each head List.mem_cons_self]
      rcases search head with fault | _ | gap
      · rfl
      · exact induction fun item member => each item (List.mem_cons_of_mem _ member)
      · change _ = (told (.ok (some gap))).on graph
        rw [on_told_some, on_bind]
        rcases (gapText gap).on graph with ⟨_ | _, later⟩ <;> rfl

theorem on_partialGap (ref : Ref) (node : Node) (graph : TypeGraph) :
    (partialGap ref node).on graph = (told (graph.partialGap ref node)).on graph := by
  rw [partialGap, TypeGraph.partialGap]
  cases node.form with
  | list element =>
      change (pure (some (if _ then "_::_" else "[]")) : Build _).on graph =
        (told (.ok (some (if _ then .nonEmptyList else .emptyList)))).on graph
      split <;> rfl
  | var | primitive | function | row =>
      change ((look (·.text ref) >>= fun text => _) : Build _).on graph =
        (told (graph.text ref >>= fun text => _)).on graph
      rw [on_bind, on_look]
      cases graph.text ref with
      | error fault => rfl
      | ok text =>
          change (pure (if text.isEmpty then none else some text) : Build _).on graph =
            (told (.ok (if text.isEmpty then none else some (.value text)))).on graph
          split <;> rfl

/-- The search that marks the nodes it walks is the search that lists them. -/
theorem on_findGap (fuel : Nat) (ref : Ref) (graph : TypeGraph) :
    (findGap fuel ref).on graph = (told (graph.findGap fuel [] ref)).on graph := by
  induction fuel generalizing ref graph with
  | zero => rfl
  | succ fuel induction =>
      rw [findGap, TypeGraph.findGap, ← settle_eq, on_bind, on_look]
      cases settled : graph.settle (graph.size + 1) ref with
      | error fault => rfl
      | ok place? =>
          rcases place? with _ | ⟨target, node⟩
          · rfl
          rcases unwalked_of_settleAround (settle_eq .. ▸ settled) with ⟨found, unwalked⟩
          have walk {inside : Build (Option String)} {plain : Except Fault (Option Gap)}
              (same : inside.on (graph.entered target) =
                (told plain).on (graph.entered target)) :
              (walking target inside).on graph = (told plain).on graph :=
            on_walking found unwalked (blind_told plain) same
          have inner (part : Ref) : (findGap fuel part).on (graph.entered target) =
              (told (graph.findGap fuel [target] part)).on (graph.entered target) := by
            rw [induction]
            exact congrArg (fun found => (told found).on _)
              (findGap_entered fuel (by simp) part)
          change (if node.marks.partly = true then partialGap target node else
            _ : Build _).on graph =
            (told (if node.marks.partly = true then
              graph.partialGap target node else _)).on graph
          split
          next => exact on_partialGap target node graph
          next =>
              cases node.form with
              | var origin => rfl
              | primitive own => exact @walk _ (.ok none) rfl
              | function argument result =>
                  exact walk (on_findSomeM? fun part _ => inner part)
              | list element => exact walk (on_map (fun _ => rfl) (inner element))
              | row kind members bound =>
                  cases kind with
                  | struct =>
                      exact walk (on_findSomeM? fun entry _ =>
                        on_map (fun _ => rfl) (inner entry.2))
                  | variant =>
                      dsimp only
                      cases missingTag node members with
                      | none =>
                          exact walk (on_findSomeM? fun entry _ =>
                            on_map (fun _ => rfl) (inner entry.2))
                      | some entry =>
                          apply walk
                          change (payloadText entry.2 >>= fun text =>
                            pure (some (entry.1 ++ " " ++ text))).on _ =
                            (gapText (.missing entry.1 entry.2) >>= fun text =>
                              pure (some text)).on _
                          rw [gapText, bind_assoc]
                          rfl

theorem on_gap? (ref : Ref) (graph : TypeGraph) :
    (gap? ref).on graph = (told (graph.gap? ref)).on graph := by
  rw [gap?, on_bind, on_get]
  exact on_findGap _ ref graph

end Build

end Casework
