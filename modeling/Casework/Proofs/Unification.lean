import Casework.Proofs.Narrowing
import Casework.TypeGraph.Unify

/-!
Unification makes two types the same.

In every model of the graph that unification leaves, the two types have the same values.
One step links two types and gives back the pairs of their parts. It takes for granted
that these will be made the same: only a model in which they are is a model of the graph
before.
-/

namespace Casework

namespace Row

theorem get?_foldl_put (entries : List (String × Ref)) (row : Row) (label : String) :
    (entries.foldl
      (fun row (name, type) => if row.contains name then row else row.put name type)
      row).get? label = (row.get? label).or (findEntry label entries) := by
  induction entries generalizing row with
  | nil => simp [findEntry]
  | cons entry rest induction =>
      rcases entry with ⟨name, type⟩
      rw [List.foldl_cons, induction]
      dsimp only
      by_cases equal : name = label
      · subst equal
        rw [findEntry, if_pos rfl]
        cases found : row.get? name with
        | none => simp [contains, found]
        | some own => simp [contains, found]
      · rw [findEntry, if_neg equal]
        by_cases has : row.contains name = true
        · rw [if_pos has]
        · rw [if_neg has, row.get?_put_of_ne (Ne.symm equal)]

theorem mem_of_findEntry {label : String} {type : Ref} {entries : List (String × Ref)}
    (found : findEntry label entries = some type) : (label, type) ∈ entries := by
  induction entries with
  | nil => cases found
  | cons entry rest induction =>
      rcases entry with ⟨name, own⟩
      rw [findEntry] at found
      split at found
      next equal =>
          cases found
          subst equal
          exact List.mem_cons_self
      next => exact List.mem_cons_of_mem _ (induction found)

theorem findEntry_isSome_iff {label : String} {entries : List (String × Ref)} :
    (findEntry label entries).isSome ↔ label ∈ entries.map Prod.fst := by
  induction entries with
  | nil => simp [findEntry]
  | cons entry rest induction =>
      rcases entry with ⟨name, own⟩
      by_cases equal : name = label
      · simp [findEntry, equal]
      · rw [findEntry, if_neg equal, induction, List.map_cons, List.mem_cons]
        exact ⟨.inr, fun either => either.resolve_left (Ne.symm equal)⟩

theorem contains_iff {row : Row} {label : String} :
    row.contains label ↔ label ∈ row.labels :=
  findEntry_isSome_iff

theorem labels_within_subset (row other : Row) : (row.within other).labels ⊆ row.labels :=
  List.map_subset _ List.filter_sublist.subset

theorem mem_labels_of_within {row other : Row} {label : String}
    (listed : label ∈ (row.within other).labels) : label ∈ other.labels := by
  rcases List.mem_map.1 listed with ⟨entry, member, rfl⟩
  exact contains_iff.1 (List.mem_filter.1 member).2

end Row

namespace Build

variable {leftMembers rightMembers : Row} {leftBound rightBound : Option Row}

theorem get?_mergeRows (label : String) :
    (mergeRows leftMembers leftBound rightMembers rightBound).members.get? label =
      (leftMembers.get? label).or (rightMembers.get? label) :=
  Row.get?_foldl_put rightMembers.entries leftMembers label

def NamesAllowed (leftMembers : Row) (leftBound : Option Row) (rightMembers : Row)
    (rightBound : Option Row) : Prop :=
  ∀ allowed, jointBound leftBound rightBound = some allowed →
    ∀ name ∈ leftMembers.labels ++ rightMembers.labels, name ∈ allowed

theorem jointBound_eq : jointBound leftBound rightBound =
    (mergeRows leftMembers leftBound rightMembers rightBound).bound.map Row.labels := by
  cases leftBound <;> cases rightBound <;> rfl

theorem mem_bound_of_permits {tag : String} {bound : Row}
    (allowed : NamesAllowed leftMembers leftBound rightMembers rightBound)
    (permits : (mergeRows leftMembers leftBound rightMembers rightBound).members.Permits
      (mergeRows leftMembers leftBound rightMembers rightBound).bound tag)
    (bounded : (mergeRows leftMembers leftBound rightMembers rightBound).bound =
      some bound) :
    tag ∈ bound.labels := by
  have inside := allowed bound.labels (by rw [jointBound_eq, bounded]; rfl) tag
  rcases permits bound bounded with listed | bounds
  · apply inside
    rw [Row.contains, get?_mergeRows, Option.isSome_or, Bool.or_eq_true] at listed
    exact List.mem_append.2 (listed.imp Row.contains_iff.1 Row.contains_iff.1)
  · exact Row.contains_iff.1 bounds

theorem permits_left_of_mergeRows {tag : String}
    (allowed : NamesAllowed leftMembers leftBound rightMembers rightBound)
    (permits : (mergeRows leftMembers leftBound rightMembers rightBound).members.Permits
      (mergeRows leftMembers leftBound rightMembers rightBound).bound tag) :
    leftMembers.Permits leftBound tag := by
  rintro row ⟨⟩
  refine .inr (Row.contains_iff.2 ?_)
  cases rightBound with
  | none => exact mem_bound_of_permits allowed permits rfl
  | some other =>
      exact row.labels_within_subset other (mem_bound_of_permits allowed permits rfl)

theorem permits_right_of_mergeRows {tag : String}
    (allowed : NamesAllowed leftMembers leftBound rightMembers rightBound)
    (permits : (mergeRows leftMembers leftBound rightMembers rightBound).members.Permits
      (mergeRows leftMembers leftBound rightMembers rightBound).bound tag) :
    rightMembers.Permits rightBound tag := by
  rintro row ⟨⟩
  refine .inr (Row.contains_iff.2 ?_)
  cases leftBound with
  | none => exact mem_bound_of_permits allowed permits rfl
  | some other =>
      exact Row.mem_labels_of_within (mem_bound_of_permits allowed permits rfl)

theorem holds_of_mergeRows {kind : RowKind} {meaning : Meaning} {values : Value → Prop}
    {bound : Option Row}
    (holds :
      (Form.row kind (mergeRows leftMembers leftBound rightMembers rightBound).members
      bound).Holds meaning values)
    (permitted : ∀ tag,
      (mergeRows leftMembers leftBound rightMembers rightBound).members.Permits
      bound tag → rightMembers.Permits rightBound tag)
    (equal : ∀ pair ∈ (mergeRows leftMembers leftBound rightMembers rightBound).pairs,
      meaning pair.1 = meaning pair.2) :
    (Form.row kind rightMembers rightBound).Holds meaning values := by
  refine holds.row (fun name type found => ?_) permitted
  rw [get?_mergeRows, found]
  cases own : leftMembers.get? name with
  | none => exact ⟨type, rfl, rfl⟩
  | some left =>
      refine ⟨left, rfl, equal (left, type) ?_⟩
      have entry : (name, type) ∈ rightMembers.entries := Row.mem_of_findEntry found
      have pair : (left, type) ∈ rightMembers.entries.filterMap fun (name, right) =>
          (leftMembers.get? name).map (·, right) :=
        List.mem_filterMap.2 ⟨(name, type), entry, by simp [own]⟩
      exact List.mem_append_left _ (List.mem_append_left _ pair)

/-! ## Linking -/

/-- One type is linked to another one, which goes on to say what it said. A model of the
graph is a model of the graph before if the first type said nothing else. -/
theorem of_on_forward {left right : Ref} {leftNode rightNode : Node}
    {graph later : TypeGraph} {value : Unit}
    (done : (forward right left).on graph = (.ok value, later)) (different : left ≠ right)
    (leftFound : graph.node left = .ok leftNode) (leftUnlinked : leftNode.link = none)
    (rightFound : graph.node right = .ok rightNode) (rightUnlinked : rightNode.link =
      none) {meaning : Meaning} (models : meaning.Models later) :
    meaning right = meaning left ∧ leftNode.form.Holds meaning (meaning left) ∧
      (rightNode.form.Holds meaning (meaning right) → meaning.Models graph) := by
  rcases of_on_bind done with ⟨own, start, looked, afterOwn⟩
  rcases of_on_look looked with ⟨ownFound, rfl⟩
  rcases of_on_bind afterOwn with ⟨other, start, looked, afterOther⟩
  rcases of_on_look looked with ⟨otherFound, rfl⟩
  rcases of_on_bind afterOther with ⟨_, linked, updated, remarked⟩
  have linkedEqual := (of_on_update updated).2
  have rightLinked : ∃ node, linked.node right = .ok node ∧ node.link = some left := by
    rw [linkedEqual, TypeGraph.node_update_self rightFound]
    exact ⟨_, rfl, rfl⟩
  have unchanged : ∀ ref, ref ≠ right → linked.node ref = start.node ref := by
    intro ref isOther
    rw [linkedEqual, TypeGraph.node_update_of_ne _ isOther]
  have earlier : meaning.Models linked :=
    (narrows_remark left _ linked value later remarked meaning models).1
  have leftHolds : leftNode.form.Holds meaning (meaning left) :=
    earlier.form ((unchanged left different).trans leftFound) leftUnlinked
  rcases rightLinked with ⟨node, nodeFound, nodeLinked⟩
  refine ⟨earlier.link nodeFound nodeLinked, leftHolds,
    fun rightHolds ref node found => ?_⟩
  by_cases isRight : ref = right
  · subst isRight
    rw [rightFound] at found
    cases found
    rw [Node.Holds, rightUnlinked]
    exact rightHolds
  · exact earlier ref node ((unchanged ref isRight).trans found)

theorem not_on_refuse {α : Type} {left right : Ref} {reason : String}
    {graph later : TypeGraph} {value : α} :
    ¬ (refuse left right reason).on graph = (.ok value, later) := by
  intro done
  rcases of_on_bind done with ⟨_, _, _, rest⟩
  rcases of_on_bind rest with ⟨_, _, _, thrown⟩
  cases thrown

/-- A step of a computation makes two types the same as far as their parts are. -/
def Joins (graph later : TypeGraph) (left right : Ref) (pairs : List (Ref × Ref)) :
    Prop :=
  ∀ meaning : Meaning, meaning.Models later →
    (∀ pair ∈ pairs, meaning pair.1 = meaning pair.2) →
    meaning.Models graph ∧ meaning left = meaning right

section Steps

variable {graph later : TypeGraph} {left right : Ref} {leftNode rightNode : Node}

/-- Two different types without links, as unification looks at them. -/
structure Apart (graph : TypeGraph) (left right : Ref) (leftNode rightNode : Node) :
    Prop where
  different : left ≠ right
  leftFound : graph.node left = .ok leftNode
  leftUnlinked : leftNode.link = none
  rightFound : graph.node right = .ok rightNode
  rightUnlinked : rightNode.link = none

theorem joins_forward {value : Unit} {pairs : List (Ref × Ref)}
    (apart : Apart graph left right leftNode rightNode)
    (done : (forward right left).on graph = (.ok value, later))
    (holds : ∀ (meaning : Meaning) (values : Value → Prop),
      (∀ pair ∈ pairs, meaning pair.1 = meaning pair.2) →
      leftNode.form.Holds meaning values → rightNode.form.Holds meaning values) :
    Joins graph later left right pairs := by
  intro meaning models equal
  rcases of_on_forward done apart.different apart.leftFound apart.leftUnlinked
    apart.rightFound
    apart.rightUnlinked models with ⟨same, leftHolds, earlier⟩
  refine ⟨earlier ?_, same.symm⟩
  rw [same]
  exact holds meaning _ equal leftHolds

theorem joins_link {value : Unit} {origin : Option Origin}
    (found : graph.node left = .ok leftNode) (unlinked : leftNode.link = none)
    (form : leftNode.form = .var origin)
    (done : (update left fun node => { node with link := some right }).on graph =
      (.ok value, later)) : Joins graph later left right [] := by
  intro meaning models _
  rcases of_on_update done with ⟨_, rfl⟩
  have grows :
      graph.Grows (graph.update left fun node => { node with link := some right }) := by
    apply (TypeGraph.Grows.refl graph).update
    intro own ownFound
    rw [found] at ownFound
    cases ownFound
    exact ⟨leftNode, found, .of_var unlinked form⟩
  exact ⟨grows.models models, models.link (TypeGraph.node_update_self found _) rfl⟩

theorem Joins.symm {pairs : List (Ref × Ref)}
    (joins : Joins graph later left right pairs) :
    Joins graph later right left pairs := by
  intro meaning models equal
  have parts := joins meaning models equal
  exact ⟨parts.1, parts.2.symm⟩

theorem joins_merged {kind : RowKind} {leftMembers rightMembers : Row}
    {leftBound rightBound : Option Row} {pairs : List (Ref × Ref)}
    (apart : Apart graph left right leftNode rightNode)
    (leftForm : leftNode.form = .row kind leftMembers leftBound)
    (rightForm : rightNode.form = .row kind rightMembers rightBound)
    (allowed : NamesAllowed leftMembers leftBound rightMembers rightBound)
    (done : (do
      let merged := mergeRows leftMembers leftBound rightMembers rightBound
      let matched := (← node right).matched
      update left fun node =>
        { node with
          form := .row kind merged.members merged.bound
          matched := matched.foldl (fun own tag => own.insert tag) node.matched }
      forward right left
      return merged.pairs : Build (List (Ref × Ref))).on graph = (.ok pairs, later)) :
    Joins graph later left right pairs := by
  rcases of_on_bind done with ⟨node, start, looked, afterNode⟩
  rcases of_on_look looked with ⟨_, rfl⟩
  rcases of_on_bind afterNode with ⟨_, merged, updated, afterUpdate⟩
  rcases of_on_bind afterUpdate with ⟨_, _, forwarded, returned⟩
  cases returned
  rcases of_on_update updated with ⟨_, rfl⟩
  have leftLater := TypeGraph.node_update_self apart.leftFound fun own =>
    { own with
      form := .row kind (mergeRows leftMembers leftBound rightMembers rightBound).members
        (mergeRows leftMembers leftBound rightMembers rightBound).bound
      matched := node.matched.foldl (fun own tag => own.insert tag) own.matched }
  have rightLater := apart.rightFound
  rw [← TypeGraph.node_update_of_ne start apart.different.symm] at rightLater
  have joined :=
    joins_forward ⟨apart.different, leftLater, apart.leftUnlinked, rightLater,
      apart.rightUnlinked⟩ forwarded fun meaning values equal holds => by
      rw [rightForm]
      exact holds_of_mergeRows holds (fun tag => permits_right_of_mergeRows allowed) equal
  intro meaning models equal
  have parts := joined meaning models equal
  refine ⟨TypeGraph.Grows.models ?_ parts.1, parts.2⟩
  apply (TypeGraph.Grows.refl start).update
  intro own ownFound
  rw [apart.leftFound] at ownFound
  cases ownFound
  refine ⟨leftNode, apart.leftFound, .of_same rfl ?_⟩
  refine .inr ⟨kind, leftMembers, leftBound, _, _, leftForm, rfl,
    fun name type found => ?_,
    fun tag => permits_left_of_mergeRows allowed⟩
  rw [get?_mergeRows, found]
  rfl

theorem joins_mergeRows {kind : RowKind} {leftMembers rightMembers : Row}
    {leftBound rightBound : Option Row} {pairs : List (Ref × Ref)}
    (apart : Apart graph left right leftNode rightNode)
    (leftForm : leftNode.form = .row kind leftMembers leftBound)
    (rightForm : rightNode.form = .row kind rightMembers rightBound)
    (done :
      (unifyRows kind left right leftMembers leftBound rightMembers rightBound).on graph =
      (.ok pairs, later)) : Joins graph later left right pairs := by
  unfold unifyRows at done
  dsimp only at done
  split at done
  next unbounded =>
      refine joins_merged apart leftForm rightForm (fun allowed bounded => ?_) done
      rw [unbounded] at bounded
      cases bounded
  next names bounded =>
      split at done
      · rcases of_on_bind done with ⟨_, _, refused, _⟩
        exact absurd refused not_on_refuse
      · split at done
        · rcases of_on_bind done with ⟨_, _, refused, _⟩
          exact absurd refused not_on_refuse
        next inside =>
            refine joins_merged apart leftForm rightForm
              (fun allowed equal name member => ?_) done
            rw [bounded] at equal
            cases equal
            have allowed := List.find?_eq_none.1 inside name member
            simpa using allowed

theorem joins_unifyStep {pairs : List (Ref × Ref)}
    (done : (unifyStep left right).on graph = (.ok pairs, later)) :
    Joins graph later left right pairs := by
  rcases of_on_bind done with ⟨_, first, leftExpanded, afterLeft⟩
  rcases of_on_bind afterLeft with ⟨_, start, rightExpanded, afterRight⟩
  rcases of_on_bind afterRight with ⟨leftRoot, middle, looked, afterLeftRoot⟩
  rcases of_on_look looked with ⟨leftDeref, rfl⟩
  rcases of_on_bind afterLeftRoot with ⟨rightRoot, middle, looked, afterRightRoot⟩
  rcases of_on_look looked with ⟨rightDeref, rfl⟩
  -- It is enough to join what stands for the two types.
  suffices joins : Joins middle later leftRoot rightRoot pairs by
    intro meaning models equal
    have parts := joins meaning models equal
    have afterFirst := (narrows_expand right _ _ _ rightExpanded meaning parts.1).1
    refine ⟨(narrows_expand left _ _ _ leftExpanded meaning afterFirst).1, ?_⟩
    rw [(TypeGraph.of_deref leftDeref).2 meaning parts.1, parts.2,
      (TypeGraph.of_deref rightDeref).2 meaning parts.1]
  rcases (TypeGraph.of_deref leftDeref).1 with ⟨leftNode, leftFound, leftUnlinked⟩
  rcases (TypeGraph.of_deref rightDeref).1 with ⟨rightNode, rightFound, rightUnlinked⟩
  split at afterRightRoot
  next same =>
      cases afterRightRoot
      subst same
      exact fun meaning models _ => ⟨models, rfl⟩
  next different =>
      rcases of_on_bind afterRightRoot with ⟨own, final, looked, afterOwn⟩
      rcases of_on_look looked with ⟨ownFound, rfl⟩
      rw [leftFound] at ownFound
      cases ownFound
      rcases of_on_bind afterOwn with ⟨other, final, looked, afterOther⟩
      rcases of_on_look looked with ⟨otherFound, rfl⟩
      rw [rightFound] at otherFound
      cases otherFound
      have apart : Apart final leftRoot rightRoot leftNode rightNode :=
        ⟨different, leftFound, leftUnlinked, rightFound, rightUnlinked⟩
      split at afterOther
      next origin leftForm =>
          rcases of_on_bind afterOther with ⟨_, _, updated, returned⟩
          cases returned
          exact joins_link leftFound leftUnlinked leftForm updated
      next origin rightForm _ =>
          rcases of_on_bind afterOther with ⟨_, _, updated, returned⟩
          cases returned
          exact (joins_link rightFound rightUnlinked rightForm updated).symm
      next own other leftForm rightForm =>
          split at afterOther
          next equal =>
              rcases of_on_bind afterOther with ⟨_, _, forwarded, returned⟩
              cases returned
              apply joins_forward apart forwarded
              intro meaning values _ holds
              rw [rightForm, ← equal, ← leftForm]
              exact holds
          next => exact absurd afterOther not_on_refuse
      next argument result otherArgument otherResult leftForm rightForm =>
          rcases of_on_bind afterOther with ⟨_, _, forwarded, returned⟩
          cases returned
          apply joins_forward apart forwarded
          intro meaning values _ holds
          rw [leftForm] at holds
          rw [rightForm]
          exact holds
      next element otherElement leftForm rightForm =>
          rcases of_on_bind afterOther with ⟨_, _, forwarded, returned⟩
          cases returned
          apply joins_forward apart forwarded
          intro meaning values equal holds
          rw [leftForm] at holds
          rw [rightForm, Form.Holds, ← equal (element, otherElement) List.mem_cons_self]
          exact holds
      next kind members bound otherKind otherMembers otherBound leftForm rightForm =>
          split at afterOther
          next equal =>
              subst equal
              exact joins_mergeRows apart leftForm rightForm afterOther
          next => exact absurd afterOther not_on_refuse
      next => exact absurd afterOther not_on_refuse

end Steps

/-! ## Pairs of types -/

theorem ensures_unifyPairs (fuel : Nat) (pairs : List (Ref × Ref)) :
    (unifyPairs fuel pairs).Ensures fun meaning _ =>
      ∀ pair ∈ pairs, meaning pair.1 = meaning pair.2 := by
  induction fuel generalizing pairs with
  | zero =>
      cases pairs with
      | nil => exact .pure fun _ _ member => nomatch member
      | cons pair waiting => exact .throw _
  | succ fuel induction =>
      cases pairs with
      | nil => exact .pure fun _ _ member => nomatch member
      | cons pair waiting =>
          rcases pair with ⟨left, right⟩
          intro graph value later done meaning models
          rcases of_on_bind done with ⟨parts, middle, stepped, rest⟩
          have others :=
            induction (parts ++ waiting) middle value later rest meaning models
          have joined := joins_unifyStep stepped meaning others.1 fun pair member =>
            others.2 pair (List.mem_append_left _ member)
          refine ⟨joined.1, fun pair member => ?_⟩
          rcases List.mem_cons.1 member with equal | waits
          · rw [equal]
            exact joined.2
          · exact others.2 pair (List.mem_append_right _ waits)

theorem ensures_unify (left right : Ref) :
    (unify left right).Ensures fun meaning _ => meaning left = meaning right := by
  refine narrows_get.seq fun graph =>
    (ensures_unifyPairs _ _).mono fun meaning _ equal => ?_
  exact equal (left, right) List.mem_cons_self

/-! ## Reading -/

theorem narrows_kind (ref : Ref) : (kind ref).Narrows :=
  (narrows_look _).seq fun _ => .pure fun _ => trivial

theorem narrows_marks (ref : Ref) : (marks ref).Narrows :=
  (narrows_look _).seq fun _ => .pure fun _ => trivial

theorem narrows_hasAny (ref : Ref) : (hasAny ref).Narrows :=
  (narrows_marks ref).seq fun _ => .pure fun _ => trivial

theorem narrows_listForms (ref : Ref) : (listForms ref).Narrows :=
  (narrows_look _).seq fun _ => .pure fun _ => trivial

theorem narrows_isUnbound (ref : Ref) : (isUnbound ref).Narrows :=
  (narrows_look _).seq fun _ => .pure fun _ => trivial

theorem of_on_allows {ref : Ref} {name : String} {graph later : TypeGraph}
    {allowed : Bool} (done : (allows ref name).on graph = (.ok allowed, later)) :
    later = graph ∧ ∃ node, graph.root ref = .ok node ∧
      allowed = node.form.bound?.all (·.contains name) := by
  rcases of_on_bind done with ⟨_, _, bounded, returned⟩
  cases returned
  rcases of_on_bind bounded with ⟨node, _, looked, returned⟩
  cases returned
  rcases of_on_look looked with ⟨rooted, rfl⟩
  exact ⟨rfl, node, rooted, rfl⟩

theorem ensures_kind (ref : Ref) :
    (kind ref).Ensures fun meaning kind => kind = .variant →
      ∀ value, meaning ref value → ∃ tag payload, value = .tagged tag payload := by
  refine (ensures_root ref).bind fun node => .pure fun meaning holds isVariant => ?_
  cases form : node.form with
  | row rowKind members bound =>
      rw [form] at holds isVariant
      cases rowKind with
      | struct => cases isVariant
      | variant =>
          intro value has
          rcases holds.1 value has with ⟨tag, payload, equal, _⟩
          exact ⟨tag, payload, equal⟩
  | _ =>
      rw [form] at isVariant
      cases isVariant

end Build

end Casework
