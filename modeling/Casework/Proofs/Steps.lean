import Casework.Proofs.Outcomes
import Casework.Proofs.WellFormed

/-!
One step of unification.

Two nodes without links are made one. Either one of them is a type variable and is bound
to the other, or the second is linked to the first, which takes over its members. What
becomes of two forms does not depend on the graph, so it is said for forms alone.
-/

namespace Casework

/-! ## Two forms -/

def rowsFit (members : Row) (bound : Option Row) (otherMembers : Row)
    (otherBound : Option Row) : Bool :=
  match Build.jointBound bound otherBound with
  | none => true
  | some allowed =>
      !(bound.isSome && otherBound.isSome && allowed.isEmpty) &&
        (Build.firstOutside allowed (members.labels ++ otherMembers.labels)).isNone

/-- The form of two types with parts that are made one, and the types that have to become
the same for it. There is none if they clash. -/
def Form.join? : Form → Form → Option (Form × List (Ref × Ref))
  | .primitive own, .primitive other => if own = other then
      some (.primitive own, []) else none
  | .function argument result, .function otherArgument otherResult =>
      some (.function argument result, [(argument, otherArgument), (result, otherResult)])
  | .list element, .list otherElement => some (.list element, [(element, otherElement)])
  | .row kind members bound, .row otherKind otherMembers otherBound =>
      if kind = otherKind && rowsFit members bound otherMembers otherBound then
        let merged := Build.mergeRows members bound otherMembers otherBound
        some (.row kind merged.members merged.bound, merged.pairs)
      else none
  | _, _ => none

namespace Build

variable {leftMembers rightMembers : Row} {leftBound rightBound : Option Row}

theorem rowsFit_of_labels (fair : leftMembers.Fair leftBound)
    (labels : rightMembers.labels = leftMembers.labels)
    (bounds : rightBound.map Row.labels = leftBound.map Row.labels)
    (nonempty : ∀ bound ∈ leftBound, bound.entries ≠ []) :
    rowsFit leftMembers leftBound rightMembers rightBound := by
  cases leftBound with
  | none =>
      cases rightBound with
      | none => rfl
      | some other => cases bounds
  | some bound =>
      cases rightBound with
      | none => cases bounds
      | some other =>
          have same : other.labels = bound.labels := Option.some.inj bounds
          have whole : bound.within other = bound :=
            Row.within_eq_self fun label listed =>
            Row.contains_iff.2 (same ▸ listed)
          have allowed : firstOutside bound.labels
              (leftMembers.labels ++ rightMembers.labels) = none := by
            apply List.find?_eq_none.2
            intro name listed
            rw [labels, List.mem_append, or_self, ← Row.contains_iff,
              ← fair.agreed bound rfl name, Row.contains_iff] at listed
            simpa using listed
          have filled : bound.labels ≠ [] := fun empty =>
            nonempty bound rfl (List.map_eq_nil_iff.1 empty)
          simp [rowsFit, jointBound, whole, allowed, filled]

end Build

namespace Form

variable {left right form : Form} {pairs : List (Ref × Ref)}

theorem join?_cases (joined : left.join? right = some (form, pairs)) :
    (∃ own, left = .primitive own ∧ right = .primitive own ∧ form = left ∧ pairs = []) ∨
    (∃ argument result otherArgument otherResult, left = .function argument result ∧
      right = .function otherArgument otherResult ∧ form = left ∧
        pairs = [(argument, otherArgument), (result, otherResult)]) ∨
    (∃ element otherElement, left = .list element ∧ right =
      .list otherElement ∧ form = left ∧
      pairs = [(element, otherElement)]) ∨
    ∃ kind members bound otherMembers otherBound, left = .row kind members bound ∧
      right = .row kind otherMembers otherBound ∧
        rowsFit members bound otherMembers otherBound ∧
        form = .row kind (Build.mergeRows members bound otherMembers otherBound).members
          (Build.mergeRows members bound otherMembers otherBound).bound ∧
        pairs = (Build.mergeRows members bound otherMembers otherBound).pairs := by
  unfold join? at joined
  split at joined
  next own other =>
      split at joined
      next equal =>
          cases joined
          exact .inl ⟨own, rfl, by rw [equal], rfl, rfl⟩
      next => cases joined
  next argument result otherArgument otherResult =>
      cases joined
      exact .inr (.inl ⟨argument, result, otherArgument, otherResult, rfl, rfl, rfl, rfl⟩)
  next element otherElement =>
      cases joined
      exact .inr (.inr (.inl ⟨element, otherElement, rfl, rfl, rfl, rfl⟩))
  next kind members bound otherKind otherMembers otherBound =>
      split at joined
      next fits =>
          rw [Bool.and_eq_true, decide_eq_true_eq] at fits
          rcases fits with ⟨rfl, fits⟩
          cases joined
          exact .inr
            (.inr (.inr ⟨kind, members, bound, otherMembers, otherBound, rfl, rfl,
              fits, rfl, rfl⟩))
      next => cases joined
  next => cases joined

theorem join?_eq_none
    (noPrimitives : ∀ own other, left = .primitive own → right ≠ .primitive other)
    (noFunctions : ∀ argument result otherArgument otherResult, left =
      .function argument result →
      right ≠ .function otherArgument otherResult)
    (noLists : ∀ element otherElement, left = .list element → right ≠ .list otherElement)
    (noRows : ∀ kind members bound otherKind otherMembers otherBound, left =
      .row kind members bound →
      right ≠ .row otherKind otherMembers otherBound) : left.join? right = none := by
  unfold join?
  split
  next => exact absurd rfl (noPrimitives _ _ rfl)
  next => exact absurd rfl (noFunctions _ _ _ _ rfl)
  next => exact absurd rfl (noLists _ _ rfl)
  next => exact absurd rfl (noRows _ _ _ _ _ _ rfl)
  next => rfl

theorem kind_of_join? (joined : left.join? right = some (form, pairs)) :
    form.kind = left.kind ∧ right.kind = left.kind ∧ left.kind ≠ .var := by
  rcases join?_cases joined with
    ⟨own, rfl, rfl, rfl, _⟩ | ⟨_, _, _, _, rfl, rfl, rfl, _⟩ |
    ⟨_, _, rfl, rfl, rfl, _⟩ | ⟨kind, _, _, _, _, rfl, rfl, _, rfl, _⟩
  · exact ⟨rfl, rfl, nofun⟩
  · exact ⟨rfl, rfl, nofun⟩
  · exact ⟨rfl, rfl, nofun⟩
  · exact ⟨rfl, rfl, kind_row_ne_var kind _ _⟩

theorem parameters_of_join? (joined : left.join? right = some (form, pairs)) :
    form.parameters = left.parameters := by
  rcases join?_cases joined with
    ⟨own, rfl, rfl, rfl, _⟩ | ⟨_, _, _, _, rfl, rfl, rfl, _⟩ |
    ⟨_, _, rfl, rfl, rfl, _⟩ | ⟨kind, _, _, _, _, rfl, rfl, _, rfl, _⟩ <;> rfl

theorem namesAllowed_of_rowsFit {members otherMembers : Row}
    {bound otherBound : Option Row}
    (fits : rowsFit members bound otherMembers otherBound) :
    Build.NamesAllowed members bound otherMembers otherBound := by
  intro allowed joint name listed
  rw [rowsFit, joint, Bool.and_eq_true, Build.firstOutside] at fits
  have inside := List.find?_eq_none.1 (Option.isNone_iff_eq_none.1 fits.2) name listed
  simpa using inside

theorem bounds_of_not_rowsFit {members otherMembers : Row} {bound otherBound : Option Row}
    (allowed : Build.NamesAllowed members bound otherMembers otherBound)
    (unfit : rowsFit members bound otherMembers otherBound = false) :
    ∃ row twin, bound = some row ∧ otherBound = some twin ∧
      (row.within twin).labels = [] := by
  unfold rowsFit at unfit
  split at unfit
  · cases unfit
  next names joint =>
      have inside : Build.firstOutside names
          (members.labels ++ otherMembers.labels) = none := by
        apply List.find?_eq_none.2
        intro name listed
        simpa using allowed names joint name listed
      rw [inside, Option.isNone_none, Bool.and_true, Bool.not_eq_false', Bool.and_eq_true,
        Bool.and_eq_true] at unfit
      rcases unfit with ⟨⟨bounded, boundedToo⟩, empty⟩
      rcases Option.isSome_iff_exists.1 bounded with ⟨row, rfl⟩
      rcases Option.isSome_iff_exists.1 boundedToo with ⟨twin, rfl⟩
      cases joint
      exact ⟨row, twin, rfl, rfl, List.isEmpty_iff.1 empty⟩

theorem rows_of_join?_eq_none (notVar : left.kind ≠ .var) (kinds : left.kind = right.kind)
    (unjoined : left.join? right = none) :
    ∃ kind members bound otherMembers otherBound, left = .row kind members bound ∧
      right = .row kind otherMembers otherBound ∧
        rowsFit members bound otherMembers otherBound = false := by
  have noRow : ∀ {kind : RowKind} {other : Kind}, kind.kind = other → other = .struct ∨
      other = .variant := by
    rintro kind _ rfl
    cases kind
    · exact .inl rfl
    · exact .inr rfl
  cases left with
  | var origin => exact absurd rfl notVar
  | primitive own =>
      cases right with
      | primitive other =>
          cases kinds
          simp [join?] at unjoined
      | row kind members bound =>
          rcases noRow kinds.symm with isStruct | isVariant <;> contradiction
      | _ => cases kinds
  | function argument result =>
      cases right with
      | function otherArgument otherResult => cases unjoined
      | row kind members bound =>
          rcases noRow kinds.symm with isStruct | isVariant <;> contradiction
      | _ => cases kinds
  | list element =>
      cases right with
      | list otherElement => cases unjoined
      | row kind members bound =>
          rcases noRow kinds.symm with isStruct | isVariant <;> contradiction
      | _ => cases kinds
  | row kind members bound =>
      cases right with
      | row otherKind otherMembers otherBound =>
          have same : kind = otherKind := by
            cases kind <;> cases otherKind <;> first | rfl | cases kinds
          subst same
          refine ⟨kind, members, bound, otherMembers, otherBound, rfl, rfl, ?_⟩
          cases fits : rowsFit members bound otherMembers otherBound with
          | false => rfl
          | true => simp [join?, fits] at unjoined
      | _ => rcases noRow kinds with isStruct | isVariant <;> contradiction

theorem fair_of_join? (leftFair : left.Fair) (rightFair : right.Fair)
    (joined : left.join? right = some (form, pairs)) : form.Fair := by
  rcases join?_cases joined with
    ⟨own, rfl, rfl, rfl, _⟩ | ⟨_, _, _, _, rfl, rfl, rfl, _⟩ |
    ⟨_, _, rfl, rfl, rfl, _⟩ | ⟨kind, _, _, _, _, rfl, rfl, fits, rfl, _⟩
  · trivial
  · trivial
  · trivial
  · exact Build.fair_mergeRows leftFair rightFair (namesAllowed_of_rowsFit fits)

theorem mem_refs_of_join? (joined : left.join? right = some (form, pairs)) {part : Ref}
    (member : part ∈ form.refs) : part ∈ left.refs ∨ part ∈ right.refs := by
  rcases join?_cases joined with
    ⟨own, rfl, rfl, rfl, _⟩ | ⟨_, _, _, _, rfl, rfl, rfl, _⟩ |
    ⟨_, _, rfl, rfl, rfl, _⟩ | ⟨kind, _, _, _, _, rfl, rfl, fits, rfl, _⟩
  · exact .inl member
  · exact .inl member
  · exact .inl member
  · exact Build.mem_refs_mergeRows member

theorem isPosition_of_join? (joined : left.join? right = some (form, pairs)) :
    form.isPosition = false := by
  rcases join?_cases joined with
    ⟨own, rfl, rfl, rfl, _⟩ | ⟨_, _, _, _, rfl, rfl, rfl, _⟩ |
    ⟨_, _, rfl, rfl, rfl, _⟩ | ⟨kind, _, _, _, _, rfl, rfl, fits, rfl, _⟩ <;> rfl

theorem mem_refs_of_pair (joined : left.join? right = some (form, pairs))
    {pair : Ref × Ref} (member : pair ∈ pairs) :
    (pair.1 ∈ left.refs ∨ pair.1 ∈ right.refs) ∧
      (pair.2 ∈ left.refs ∨ pair.2 ∈ right.refs) := by
  rcases join?_cases joined with
    ⟨own, rfl, rfl, rfl, rfl⟩ | ⟨_, _, _, _, rfl, rfl, rfl, rfl⟩ |
    ⟨_, _, rfl, rfl, rfl, rfl⟩ | ⟨kind, members, bound, otherMembers, otherBound, rfl,
      rfl, fits, rfl, rfl⟩
  · cases member
  · simp only [List.mem_cons, List.not_mem_nil, or_false] at member
    rcases member with rfl | rfl <;> simp [refs, parameters]
  · simp only [List.mem_cons, List.not_mem_nil, or_false] at member
    subst member
    simp [refs, parameters]
  · have stored : ∀ {row : Row} {name : String} {type : Ref}, (name, type) ∈ row.entries →
        type ∈ row.refs := fun listed => Row.mem_refs_iff.2 ⟨_, listed⟩
    have whole : ∀ part,
        part ∈ (Build.mergeRows members bound otherMembers otherBound).members.refs ∨
        part ∈ (((Build.mergeRows members bound otherMembers otherBound).bound.map
          Row.refs).getD []) →
        part ∈ (Form.row kind members bound).refs ∨
        part ∈ (Form.row kind otherMembers otherBound).refs :=
      fun part either => Build.mem_refs_mergeRows (List.mem_append.2 either)
    rcases Build.of_mem_pairs member with ⟨name, found, listed⟩ |
      ⟨name, own, other, rfl, rfl, listed, found⟩ | ⟨name, row, bounded, listed, found, _⟩
    · exact ⟨.inl (List.mem_append_left _ (Row.mem_refs_of_get? found)),
        .inr (List.mem_append_left _ (stored listed))⟩
    · exact ⟨.inl (List.mem_append_right _ (stored listed)),
        .inr (List.mem_append_right _ (Row.mem_refs_of_get? found))⟩
    · refine ⟨whole _ (.inl (stored listed)), whole _ (.inr ?_)⟩
      rw [bounded]
      exact Row.mem_refs_of_get? found

end Form

/-! ## Two nodes -/

namespace TypeGraph

/-- A node without a link is linked to another one, which is given a form. -/
structure Unites (graph later : TypeGraph) (gone kept : Ref) (goneNode : Node)
    (form : Form) : Prop where
  size : later.size = graph.size
  unfoldings : later.unfoldings = graph.unfoldings
  apart : kept ≠ gone
  goneFound : graph.node gone = .ok goneNode
  goneUnlinked : goneNode.link = none
  goneLater : ∃ after, later.node gone = .ok after ∧ after.form = goneNode.form ∧
    after.link = some kept
  keptFound : ∃ before, graph.node kept = .ok before ∧ before.link = none
  keptLater : ∃ after, later.node kept = .ok after ∧ after.form = form ∧ after.link = none
  others : ∀ other, other ≠ gone → other ≠ kept → later.node other = graph.node other

variable {graph middle later : TypeGraph} {ref gone kept target : Ref}
  {goneNode node : Node} {form : Form}

theorem Alters.unites {keptNode : Node}
    (alters : graph.Alters later gone goneNode { goneNode with link := some kept })
    (apart : kept ≠ gone) (goneUnlinked : goneNode.link = none)
    (keptFound : graph.node kept = .ok keptNode) (keptUnlinked : keptNode.link = none) :
    graph.Unites later gone kept goneNode keptNode.form where
  size := alters.size
  unfoldings := alters.unfoldings
  apart := apart
  goneFound := alters.found
  goneUnlinked := goneUnlinked
  goneLater := ⟨_, alters.changed, rfl, rfl⟩
  keptFound := ⟨keptNode, keptFound, keptUnlinked⟩
  keptLater := ⟨keptNode, (alters.others kept apart).trans keptFound, rfl, keptUnlinked⟩
  others other notGone _ := alters.others other notGone

theorem unites_of_alters {goneAfter keptBefore keptAfter : Node} (apart : kept ≠ gone)
    (first : graph.Alters middle gone goneNode goneAfter)
    (second : middle.Alters later kept keptBefore keptAfter)
    (goneUnlinked : goneNode.link = none) (goneForm : goneAfter.form = goneNode.form)
    (goneLink : goneAfter.link = some kept) (keptUnlinked : keptBefore.link = none)
    (keptForm : keptAfter.form = form) (keptLink : keptAfter.link = none) :
    graph.Unites later gone kept goneNode form where
  size := second.size.trans first.size
  unfoldings := second.unfoldings.trans first.unfoldings
  apart := apart
  goneFound := first.found
  goneUnlinked := goneUnlinked
  goneLater :=
    ⟨goneAfter, (second.others gone apart.symm).trans first.changed, goneForm, goneLink⟩
  keptFound :=
    ⟨keptBefore, (first.others kept apart).symm.trans second.found, keptUnlinked⟩
  keptLater := ⟨keptAfter, second.changed, keptForm, keptLink⟩
  others other notGone notKept :=
    (second.others other notKept).trans (first.others other notGone)

namespace Unites

theorem of_altered {before after : Node}
    (unites : middle.Unites later gone kept goneNode form)
    (alters : graph.Alters middle kept before after) (unlinked : before.link = none) :
    graph.Unites later gone kept goneNode form where
  size := unites.size.trans alters.size
  unfoldings := unites.unfoldings.trans alters.unfoldings
  apart := unites.apart
  goneFound := (alters.others gone unites.apart.symm).symm.trans unites.goneFound
  goneUnlinked := unites.goneUnlinked
  goneLater := unites.goneLater
  keptFound := ⟨before, alters.found, unlinked⟩
  keptLater := unites.keptLater
  others other notGone notKept :=
    (unites.others other notGone notKept).trans (alters.others other notKept)

theorem has_iff (unites : graph.Unites later gone kept goneNode form) :
    later.Has ref ↔ graph.Has ref := by
  unfold Has
  rw [unites.size]

theorem node_cases (unites : graph.Unites later gone kept goneNode form)
    (found : later.node ref = .ok node) :
    ref = gone ∧ node.form = goneNode.form ∧ node.link = some kept ∨
    ref = kept ∧ node.form = form ∧ node.link = none ∨
    ref ≠ gone ∧ ref ≠ kept ∧ graph.node ref = .ok node := by
  by_cases isGone : ref = gone
  · subst isGone
    rcases unites.goneLater with ⟨after, laterFound, sameForm, linked⟩
    rw [laterFound] at found
    cases found
    exact .inl ⟨rfl, sameForm, linked⟩
  · by_cases isKept : ref = kept
    · subst isKept
      rcases unites.keptLater with ⟨after, laterFound, newForm, unlinked⟩
      rw [laterFound] at found
      cases found
      exact .inr (.inl ⟨rfl, newForm, unlinked⟩)
    · rw [unites.others ref isGone isKept] at found
      exact .inr (.inr ⟨isGone, isKept, found⟩)

theorem linksTo (unites : graph.Unites later gone kept goneNode form) {next : Ref}
    (linked : graph.LinksTo ref next) : later.LinksTo ref next := by
  rcases linked with ⟨node, found, isLinked⟩
  have notGone : ref ≠ gone := by
    rintro rfl
    rw [unites.goneFound] at found
    cases found
    rw [unites.goneUnlinked] at isLinked
    cases isLinked
  have notKept : ref ≠ kept := by
    rintro rfl
    rcases unites.keptFound with ⟨before, keptFound, unlinked⟩
    rw [keptFound] at found
    cases found
    rw [unlinked] at isLinked
    cases isLinked
  exact ⟨node, (unites.others ref notGone notKept).trans found, isLinked⟩

theorem leads (unites : graph.Unites later gone kept goneNode form)
    (leads : graph.Leads ref target) :
    later.Leads ref target :=
  leads.mono fun _ _ => unites.linksTo

theorem rooted_of_ne (unites : graph.Unites later gone kept goneNode form)
    (rooted : graph.Rooted ref target node) (notGone : target ≠ gone)
    (notKept : target ≠ kept) :
    later.Rooted ref target node :=
  ⟨unites.leads rooted.leads, (unites.others target notGone notKept).trans rooted.found,
    rooted.unlinked⟩

theorem rooted_of_leads (unites : graph.Unites later gone kept goneNode form)
    (leads : graph.Leads ref gone ∨ graph.Leads ref kept) :
    ∃ after, later.Rooted ref kept after ∧ after.form = form := by
  rcases unites.keptLater with ⟨after, found, newForm, unlinked⟩
  refine ⟨after, ⟨?_, found, unlinked⟩, newForm⟩
  rcases leads with toGone | toKept
  · rcases unites.goneLater with ⟨own, goneFound, _, linked⟩
    exact (unites.leads toGone).trans (.link ⟨own, goneFound, linked⟩ (.refl kept))
  · exact unites.leads toKept

theorem rooted (unites : graph.Unites later gone kept goneNode form)
    (rooted : graph.Rooted ref target node) :
    ∃ root after, later.Rooted ref root after ∧
      ((target = gone ∨ target = kept) ∧ root = kept ∧ after.form = form ∨
        target ≠ gone ∧ target ≠ kept ∧ root = target ∧ after = node) := by
  by_cases either : target = gone ∨ target = kept
  · have leads : graph.Leads ref gone ∨ graph.Leads ref kept := by
      rcases either with rfl | rfl
      · exact .inl rooted.leads
      · exact .inr rooted.leads
    rcases unites.rooted_of_leads leads with ⟨after, laterRooted, newForm⟩
    exact ⟨kept, after, laterRooted, .inl ⟨either, rfl, newForm⟩⟩
  · rw [not_or] at either
    exact ⟨target, node, unites.rooted_of_ne rooted either.1 either.2,
      .inr ⟨either.1, either.2, rfl, rfl⟩⟩

theorem leads_kept_iff (unites : graph.Unites later gone kept goneNode form)
    (rooted : graph.Rooted ref target node) :
    later.Leads ref kept ↔ graph.Leads ref gone ∨ graph.Leads ref kept := by
  constructor
  · intro leads
    rcases unites.rooted rooted with ⟨root, after, laterRooted, cases⟩
    rcases unites.keptLater with ⟨keptAfter, keptFound, _, unlinked⟩
    have equal := (laterRooted.unique ⟨leads, keptFound, unlinked⟩).1
    rcases cases with ⟨isGone | isKept, _⟩ | ⟨_, notKept, same, _⟩
    · exact .inl (isGone ▸ rooted.leads)
    · exact .inr (isKept ▸ rooted.leads)
    · exact absurd (same.symm.trans equal.symm) notKept
  · intro leads
    rcases unites.rooted_of_leads leads with ⟨after, laterRooted, _⟩
    exact laterRooted.leads

theorem leads_iff_of_ne (unites : graph.Unites later gone kept goneNode form)
    (rooted : graph.Rooted ref target node) {other : Ref} {otherNode : Node}
    (notGone : other ≠ gone) (notKept : other ≠ kept)
    (found : graph.node other = .ok otherNode) (unlinked : otherNode.link = none) :
    later.Leads ref other ↔ graph.Leads ref other := by
  constructor
  · intro leads
    rcases unites.rooted rooted with ⟨root, after, laterRooted, cases⟩
    have laterFound := (unites.others other notGone notKept).trans found
    have equal := (laterRooted.unique ⟨leads, laterFound, unlinked⟩).1
    rcases cases with ⟨_, isKept, _⟩ | ⟨_, _, same, _⟩
    · exact absurd (equal.trans isKept) notKept
    · rw [equal, same]
      exact rooted.leads
  · exact unites.leads

theorem wellFormed (unites : graph.Unites later gone kept goneNode form)
    (wellFormed : graph.WellFormed) (parts : ∀ part ∈ form.refs, graph.Has part)
    (fair : form.Fair) :
    later.WellFormed where
  stored own node found part member := by
    rw [unites.has_iff]
    rcases unites.node_cases found with
      ⟨rfl, same, linked⟩ | ⟨rfl, new, unlinked⟩ | ⟨_, _, old⟩
    · rw [Node.stored, linked, same] at member
      rcases List.mem_append.1 member with isLink | inside
      · rw [List.mem_singleton.1 isLink]
        rcases unites.keptFound with ⟨before, keptFound, _⟩
        exact has_of_node keptFound
      · exact wellFormed.has_part unites.goneFound inside
    · rw [Node.stored, unlinked, new] at member
      exact parts part member
    · exact wellFormed.stored own node old part member
  settles own has := by
    rcases wellFormed.settles own (unites.has_iff.1 has) with ⟨root, rootNode, rooted⟩
    rcases unites.rooted rooted with ⟨target, after, laterRooted, _⟩
    exact ⟨target, after, laterRooted⟩
  fair own node found := by
    rcases unites.node_cases found with ⟨rfl, same, _⟩ | ⟨rfl, new, _⟩ | ⟨_, _, old⟩
    · rw [same]
      exact wellFormed.fair _ _ unites.goneFound
    · rw [new]
      exact fair
    · exact wellFormed.fair own node old

theorem folded (unites : graph.Unites later gone kept goneNode form)
    (folded : graph.Folded) (plain : form.isPosition = false) : later.Folded := by
  intro own node found
  rcases unites.node_cases found with ⟨rfl, same, _⟩ | ⟨rfl, new, _⟩ | ⟨_, _, old⟩
  · rw [same]
    exact folded _ _ unites.goneFound
  · rw [new]
    exact plain
  · exact folded own node old

end Unites

/-- What one step of unification does to two nodes without links. -/
inductive Step (graph later : TypeGraph) (left right : Ref) (leftNode rightNode : Node) :
    List (Ref × Ref) → Prop where
  | same (equal : left = right) (unchanged : later = graph) :
      Step graph later left right leftNode rightNode []
  | bindLeft {origin : Option Origin} (form : leftNode.form = .var origin)
      (unites : graph.Unites later left right leftNode rightNode.form) :
      Step graph later left right leftNode rightNode []
  | bindRight (notVar : leftNode.form.kind ≠ .var) {origin : Option Origin}
      (form : rightNode.form = .var origin)
      (unites : graph.Unites later right left rightNode leftNode.form) :
      Step graph later left right leftNode rightNode []
  | join {form : Form} {pairs : List (Ref × Ref)}
      (joined : leftNode.form.join? rightNode.form = some (form, pairs))
      (unites : graph.Unites later right left rightNode form) :
      Step graph later left right leftNode rightNode pairs

structure Clash (left right : Ref) (leftNode rightNode : Node) : Prop where
  different : left ≠ right
  leftNotVar : leftNode.form.kind ≠ .var
  rightNotVar : rightNode.form.kind ≠ .var
  unjoined : leftNode.form.join? rightNode.form = none

end TypeGraph

namespace Build

open TypeGraph

variable {graph : TypeGraph} {left right : Ref} {leftNode rightNode : Node}

/-- What holds when two types are refused, for whatever reason. -/
def Refuses (graph : TypeGraph) (left right : Ref) (failed : Failure → TypeGraph → Prop) :
    Prop :=
  ∀ {α : Type} (reason : String) (done : α → TypeGraph → Prop),
    (refuse left right reason : Build α).Yields graph done failed

theorem refuses_of_wellFormed {failed : Failure → TypeGraph → Prop}
    (wellFormed : graph.WellFormed) (grounded : graph.Grounded) (leftHas : graph.Has left)
    (rightHas : graph.Has right) (fails : ∀ clash, failed (.mismatch clash) graph) :
    Refuses graph left right failed := by
  intro α reason done
  rcases wellFormed.text grounded leftHas with ⟨leftText, leftShown⟩
  rcases wellFormed.text grounded rightHas with ⟨rightText, rightShown⟩
  apply yields_look_bind leftShown
  apply yields_look_bind rightShown
  exact yields_throw (fails _)

theorem yields_forward {failed : Failure → TypeGraph → Prop}
    (apart : Apart graph left right leftNode rightNode) :
    (forward right left).Yields graph
      (fun _ later => graph.Unites later right left rightNode leftNode.form) failed := by
  apply yields_look_bind apart.rightFound
  apply yields_look_bind apart.leftFound
  have linked := alters_update apart.rightFound fun node =>
    { node with link := some left, marks := node.marks.staying }
  have leftFound := (linked.others left apart.different).trans apart.leftFound
  apply yields_update_bind (has_of_node apart.rightFound)
  apply yields_update (has_of_node leftFound)
  have marked := alters_update leftFound fun node =>
    { node with marks :=
        (fun marks : Marks =>
          let marks := marks.union rightNode.marks.moving
          if leftNode.form.kind = .list then marks.settleForms else marks) node.marks }
  exact unites_of_alters apart.different linked marked apart.rightUnlinked rfl rfl
    apart.leftUnlinked
    rfl apart.leftUnlinked

theorem yields_unifyRows {kind : RowKind} {members otherMembers : Row}
    {bound otherBound : Option Row} {done : List (Ref × Ref) → TypeGraph → Prop}
    {failed : Failure → TypeGraph → Prop}
    (apart : Apart graph left right leftNode rightNode)
    (holds : rowsFit members bound otherMembers otherBound →
      ∀ later, graph.Unites later right left rightNode
        (.row kind (mergeRows members bound otherMembers otherBound).members
          (mergeRows members bound otherMembers otherBound).bound) →
        done (mergeRows members bound otherMembers otherBound).pairs later)
    (refuses : rowsFit members bound otherMembers otherBound = false →
      Refuses graph left right failed) :
    (unifyRows kind left right members bound otherMembers otherBound).Yields graph
      done failed := by
  have merge : rowsFit members bound otherMembers otherBound → (do
      let merged := mergeRows members bound otherMembers otherBound
      let matched := (← node right).matched
      update left fun node =>
        { node with
          form := .row kind merged.members merged.bound
          matched := matched.foldl (fun own tag => own.insert tag) node.matched }
      forward right left
      return merged.pairs : Build (List (Ref × Ref))).Yields graph done failed := by
    intro fits
    apply yields_look_bind apart.rightFound
    apply yields_update_bind (has_of_node apart.leftFound)
    have altered := alters_update apart.leftFound fun node =>
      { node with
        form := .row kind (mergeRows members bound otherMembers otherBound).members
          (mergeRows members bound otherMembers otherBound).bound
        matched := rightNode.matched.foldl (fun own tag => own.insert tag) node.matched }
    have rightFound := (altered.others right apart.different.symm).trans apart.rightFound
    apply (yields_forward
      ⟨apart.different, altered.changed, apart.leftUnlinked, rightFound,
        apart.rightUnlinked⟩).bind
    intro _ later unites
    exact holds fits later (unites.of_altered altered apart.leftUnlinked)
  unfold unifyRows
  split
  next unbounded => exact merge (by rw [rowsFit, unbounded])
  next allowed joint =>
      dsimp only
      split
      next empty =>
          apply Yields.stop
          exact refuses (by rw [rowsFit, joint]; simp [empty]) _ _
      next nonempty =>
          split
          next name outside =>
              apply Yields.stop
              exact refuses (by rw [rowsFit, joint]; simp [outside]) _ _
          next inside =>
              apply merge
              rw [rowsFit, joint]
              simp only [Bool.and_eq_true, Bool.not_eq_true', inside,
                Option.isNone_none, and_true]
              simpa using nonempty

theorem yields_unifyStep_of_refuses {first second : Ref} {middle start : TypeGraph}
    {done : List (Ref × Ref) → TypeGraph → Prop} {failed : Failure → TypeGraph → Prop}
    (firstExpanded : (expand first).on graph = (.ok (), middle))
    (secondExpanded : (expand second).on middle = (.ok (), start))
    (firstRooted : start.Rooted first left leftNode)
    (secondRooted : start.Rooted second right rightNode) (holds : ∀ pairs later,
      start.Step later left right leftNode rightNode pairs → done pairs later)
    (refuses : Clash left right leftNode rightNode → Refuses start left right failed) :
    (unifyStep first second).Yields graph done failed := by
  apply yields_bind_of_on firstExpanded
  apply yields_bind_of_on secondExpanded
  apply yields_look_bind firstRooted.deref
  apply yields_look_bind secondRooted.deref
  split
  next equal => exact yields_pure (holds [] start (.same equal rfl))
  next different =>
      have apart : Apart start left right leftNode rightNode :=
        ⟨different, firstRooted.found, firstRooted.unlinked, secondRooted.found,
          secondRooted.unlinked⟩
      have clashing : leftNode.form.kind ≠ .var → rightNode.form.kind ≠ .var →
          leftNode.form.join? rightNode.form = none →
          (refuse left right "" : Build (List (Ref × Ref))).Yields start done failed := by
        intro leftNotVar rightNotVar unjoined
        exact refuses ⟨different, leftNotVar, rightNotVar, unjoined⟩ _ _
      have joining : ∀ pairs, leftNode.form.join? rightNode.form =
          some (leftNode.form, pairs) →
          (do forward right left; return pairs : Build (List (Ref × Ref))).Yields start
          done failed := by
        intro pairs joined
        apply (yields_forward apart).bind
        intro _ later unites
        exact yields_pure (holds pairs later (.join joined unites))
      apply yields_look_bind firstRooted.found
      apply yields_look_bind secondRooted.found
      split
      next origin form =>
          apply yields_update_bind firstRooted.has
          apply yields_pure
          apply holds
          apply Step.bindLeft form
          exact (alters_update firstRooted.found _).unites (Ne.symm different)
            firstRooted.unlinked
            secondRooted.found secondRooted.unlinked
      next origin form notVar =>
          apply yields_update_bind secondRooted.has
          apply yields_pure
          apply holds
          apply Step.bindRight _ form
          · exact (alters_update secondRooted.found _).unites different
              secondRooted.unlinked
              firstRooted.found firstRooted.unlinked
          · exact Form.kind_ne_var notVar
      next own other leftForm rightForm =>
          rw [leftForm, rightForm] at joining clashing
          split
          next equal => exact joining [] (by simp [Form.join?, equal])
          next unequal => exact clashing nofun nofun (by simp [Form.join?, unequal])
      next leftForm rightForm =>
          rw [leftForm, rightForm] at joining
          exact joining _ rfl
      next leftForm rightForm =>
          rw [leftForm, rightForm] at joining
          exact joining _ rfl
      next kind members bound otherKind otherMembers otherBound leftForm rightForm =>
          rw [leftForm, rightForm] at clashing
          split
          next equal =>
              subst equal
              apply yields_unifyRows apart
              · intro fits later unites
                apply holds
                apply Step.join _ unites
                rw [leftForm, rightForm, Form.join?, if_pos (by simp [fits])]
              · intro unfit
                refine refuses ⟨different, ?_, ?_, ?_⟩
                · rw [leftForm]
                  exact Form.kind_row_ne_var _ _ _
                · rw [rightForm]
                  exact Form.kind_row_ne_var _ _ _
                · rw [leftForm, rightForm, Form.join?, if_neg (by simp [unfit])]
          next unequal =>
              apply clashing (Form.kind_row_ne_var _ _ _) (Form.kind_row_ne_var _ _ _)
              rw [Form.join?, if_neg (by simp [unequal])]
      next leftNotVar rightNotVar noPrimitives noFunctions noLists noRows =>
          exact clashing (Form.kind_ne_var leftNotVar) (Form.kind_ne_var rightNotVar)
            (Form.join?_eq_none noPrimitives noFunctions noLists noRows)

theorem yields_unifyStep {first second : Ref} {middle start : TypeGraph}
    {done : List (Ref × Ref) → TypeGraph → Prop} {failed : Failure → TypeGraph → Prop}
    (firstExpanded : (expand first).on graph = (.ok (), middle))
    (secondExpanded : (expand second).on middle = (.ok (), start))
    (wellFormed : start.WellFormed) (grounded : start.Grounded)
    (firstRooted : start.Rooted first left leftNode)
    (secondRooted : start.Rooted second right rightNode) (holds : ∀ pairs later,
      start.Step later left right leftNode rightNode pairs → done pairs later)
    (fails : Clash left right leftNode rightNode → ∀ clash,
      failed (.mismatch clash) start) :
    (unifyStep first second).Yields graph done failed :=
  yields_unifyStep_of_refuses firstExpanded secondExpanded firstRooted secondRooted holds
    fun clash => refuses_of_wellFormed wellFormed grounded firstRooted.has
    secondRooted.has (fails clash)

end Build

end Casework
