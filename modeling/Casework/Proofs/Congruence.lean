import Mathlib.Data.List.Forall2
import Casework.Proofs.Reachability

/-!
Unification computes a congruence.

Making two types the same makes more types the same: what they hold under the same name,
and what holds of these in turn. The least relation closed in this way is fixed by the
graph before, with no regard to the order in which pairs are looked at. Unification
succeeds exactly if no two types that it relates clash, and then two types are one type if
and only if they are related.
-/

namespace Casework

namespace Form

def member? (form : Form) (name : String) : Option Ref :=
  form.members?.bind (·.get? name)

def Stores (form : Form) (name : String) (type : Ref) : Prop :=
  form.member? name = some type ∨ ∃ row ∈ form.bound?, row.get? name = some type

theorem Fair.contains_iff {form : Form} (fair : form.Fair) {row : Row}
    (bounded : form.bound? = some row) (name : String) :
    row.contains name ↔ (form.member? name).isSome := by
  cases form with
  | row kind members bound => exact Row.Fair.agreed fair row bounded name
  | _ => cases bounded

def Clashes (form other : Form) : Prop :=
  form.kind ≠ other.kind ∨
    (∃ row ∈ form.bound?, ∃ name, (other.member? name).isSome ∧ ¬ row.contains name) ∨
      ∃ row ∈ form.bound?, ∃ twin ∈ other.bound?, ∀ name,
      ¬ (row.contains name ∧ twin.contains name)

end Form

namespace TypeGraph

/-- A node without a link that is no type variable. -/
def Stands (graph : TypeGraph) (ref : Ref) (form : Form) : Prop :=
  ∃ node, graph.node ref = .ok node ∧ node.link = none ∧ node.form = form ∧
    form.kind ≠ .var

/-- The types that become the same when two types do. -/
inductive Congruent (graph : TypeGraph) (left right : Ref) : Ref → Ref → Prop where
  | given : Congruent graph left right left right
  | link {ref next : Ref} (linked : graph.LinksTo ref next) :
    Congruent graph left right ref next
  | refl (ref : Ref) : Congruent graph left right ref ref
  | symm {first second : Ref} (related : Congruent graph left right first second) :
      Congruent graph left right second first
  | trans {first second third : Ref} (related : Congruent graph left right first second)
      (onwards : Congruent graph left right second third) :
      Congruent graph left right first third
  | parameter {first second : Ref} {form other : Form} {part twin : Ref}
      (related : Congruent graph left right first second) (different : first ≠ second)
      (stands : graph.Stands first form) (standsToo : graph.Stands second other)
      (kind : form.kind = other.kind)
      (parts : (part, twin) ∈ form.parameters.zip other.parameters) :
      Congruent graph left right part twin
  | stored {first second : Ref} {form other : Form} {name : String} {type twin : Ref}
      (related : Congruent graph left right first second) (different : first ≠ second)
      (stands : graph.Stands first form) (standsToo : graph.Stands second other)
      (kind : form.kind = other.kind)
      (here : form.Stores name type ∨ other.Stores name type)
      (there : form.Stores name twin ∨ other.Stores name twin) :
      Congruent graph left right type twin

theorem Stands.unique {graph : TypeGraph} {ref : Ref} {form other : Form}
    (stands : graph.Stands ref form) (same : graph.Stands ref other) : form = other := by
  rcases stands with ⟨node, found, _, rfl, _⟩
  rcases same with ⟨twin, twinFound, _, rfl, _⟩
  rw [found] at twinFound
  cases twinFound
  rfl

def Clashing (graph : TypeGraph) (left right : Ref) : Prop :=
  ∃ first second form other, graph.Congruent left right first second ∧ first ≠ second ∧
    graph.Stands first form ∧ graph.Stands second other ∧ form.Clashes other

/-! ## What a node has taken over

While types are unified, a node without a link holds what the nodes held that lead to
it. -/

inductive Near (graph : TypeGraph) (waiting : List (Ref × Ref)) : Ref → Ref → Prop where
  | link {ref next : Ref} (linked : graph.LinksTo ref next) : Near graph waiting ref next
  | pair {left right : Ref} (waits : (left, right) ∈ waiting) :
    Near graph waiting left right
  | refl (ref : Ref) : Near graph waiting ref ref
  | symm {left right : Ref} (near : Near graph waiting left right) :
    Near graph waiting right left
  | trans {first second third : Ref} (near : Near graph waiting first second)
      (onwards : Near graph waiting second third) : Near graph waiting first third

theorem near_equivalence (graph : TypeGraph) (waiting : List (Ref × Ref)) :
    Equivalence (graph.Near waiting) :=
  ⟨.refl, .symm, .trans⟩

end TypeGraph

/-- What the form of a node has to do with the forms that were joined in it. Types that
wait to become the same are near each other. -/
structure Gathers (joined : Ref → Form → Prop) (near : Ref → Ref → Prop) (form : Form) :
    Prop where
  kind : ∀ {ref own}, joined ref own → own.kind = form.kind
  parameters : ∀ {ref own}, joined ref own →
    List.Forall₂ near own.parameters form.parameters
  member : ∀ {ref own name type}, joined ref own → own.member? name = some type →
    ∃ kept, form.member? name = some kept ∧ near type kept
  bound : ∀ {ref own row}, joined ref own → own.bound? = some row →
    ∃ whole, form.bound? = some whole ∧
    (∀ name, whole.contains name → row.contains name) ∧
      ∀ {name type kept}, row.get? name = some type → whole.get? name =
      some kept → near type kept
  memberSource : ∀ {name type}, form.member? name = some type →
    ∃ ref own, joined ref own ∧ own.member? name = some type
  bounded : ∀ {whole}, form.bound? = some whole → ∃ ref own row, joined ref own ∧
    own.bound? = some row
  boundSource : ∀ {whole name type}, form.bound? = some whole →
    whole.get? name = some type →
    ∃ ref own row, joined ref own ∧ own.bound? = some row ∧ row.get? name = some type
  outside : ∀ {whole name}, form.bound? = some whole → ¬ whole.contains name →
    ∃ ref own row, joined ref own ∧ own.bound? = some row ∧ ¬ row.contains name
  cross : ∀ {first second own other whole name type twin}, joined first own →
    joined second other →
    first ≠ second → form.bound? = some whole → form.member? name = some type →
      whole.get? name = some twin → near type twin
  shared : ∀ {first second own other row twin whole}, joined first own →
    joined second other →
    first ≠ second → own.bound? = some row → other.bound? = some twin →
    form.bound? = some whole →
      ∃ name, whole.contains name

namespace Gathers

variable {joined more : Ref → Form → Prop} {near wider : Ref → Ref → Prop}
  {form left right : Form}

theorem mono (gathers : Gathers joined near form)
    (same : ∀ {ref own}, more ref own ↔ joined ref own)
    (weaker : ∀ {first second}, near first second → wider first second) :
    Gathers more wider form where
  kind member := gathers.kind (same.1 member)
  parameters member := (gathers.parameters (same.1 member)).imp fun _ _ => weaker
  member member found := by
    rcases gathers.member (same.1 member) found with ⟨kept, keptFound, close⟩
    exact ⟨kept, keptFound, weaker close⟩
  bound member bounded := by
    rcases gathers.bound (same.1 member) bounded with ⟨whole, isWhole, inside, close⟩
    exact ⟨whole, isWhole, inside, fun here there => weaker (close here there)⟩
  memberSource found := by
    rcases gathers.memberSource found with ⟨ref, own, member, source⟩
    exact ⟨ref, own, same.2 member, source⟩
  bounded isWhole := by
    rcases gathers.bounded isWhole with ⟨ref, own, row, member, source⟩
    exact ⟨ref, own, row, same.2 member, source⟩
  boundSource isWhole found := by
    rcases gathers.boundSource isWhole found with ⟨ref, own, row, member, source⟩
    exact ⟨ref, own, row, same.2 member, source⟩
  outside isWhole absent := by
    rcases gathers.outside isWhole absent with ⟨ref, own, row, member, source⟩
    exact ⟨ref, own, row, same.2 member, source⟩
  cross here there different isWhole found twin :=
    weaker (gathers.cross (same.1 here) (same.1 there) different isWhole found twin)
  shared here there different bounded boundedToo isWhole :=
    gathers.shared (same.1 here) (same.1 there) different bounded boundedToo isWhole

theorem single (root : Ref)
    (alone : ∀ {ref own}, joined ref own → ref = root ∧ own = form)
    (itself : form.kind ≠ .var → joined root form) (refl : ∀ ref, near ref ref) :
    Gathers joined near form where
  kind member := by rw [(alone member).2]
  parameters member := by
    rw [(alone member).2]
    exact List.forall₂_same.2 fun ref _ => refl ref
  member member found := by
    rw [(alone member).2] at found
    exact ⟨_, found, refl _⟩
  bound member bounded := by
    rw [(alone member).2] at bounded
    refine ⟨_, bounded, fun _ listed => listed, fun here there => ?_⟩
    rw [here] at there
    cases there
    exact refl _
  memberSource found := by
    refine ⟨root, form, itself fun isVar => ?_, found⟩
    rcases Form.exists_var_of_kind isVar with ⟨origin, rfl⟩
    cases found
  bounded isWhole := by
    refine ⟨root, form, _, itself fun isVar => ?_, isWhole⟩
    rcases Form.exists_var_of_kind isVar with ⟨origin, rfl⟩
    cases isWhole
  boundSource isWhole found := by
    refine ⟨root, form, _, itself fun isVar => ?_, isWhole, found⟩
    rcases Form.exists_var_of_kind isVar with ⟨origin, rfl⟩
    cases isWhole
  outside isWhole absent := by
    refine ⟨root, form, _, itself fun isVar => ?_, isWhole, absent⟩
    rcases Form.exists_var_of_kind isVar with ⟨origin, rfl⟩
    cases isWhole
  cross here there different :=
    absurd ((alone here).1.trans (alone there).1.symm) different
  shared here there different :=
    absurd ((alone here).1.trans (alone there).1.symm) different

theorem forall₂_trans {first second third : List Ref} (equivalence : Equivalence near)
    (close : List.Forall₂ near first second) (onwards : List.Forall₂ near second third) :
    List.Forall₂ near first third := by
  induction close generalizing third with
  | nil => exact onwards
  | cons head _ induction =>
      cases onwards with
      | cons next rest => exact .cons (equivalence.trans head next) (induction rest)

theorem join_of_parts (first : Gathers joined near left)
    (second : Gathers more near right) (equivalence : Equivalence near)
    (kind : right.kind = left.kind) (leftPlain : left.members? = none)
    (leftFree : left.bound? = none) (rightPlain : right.members? = none)
    (rightFree : right.bound? = none)
    (close : List.Forall₂ near right.parameters left.parameters) :
    Gathers (fun ref own => joined ref own ∨ more ref own) near left := by
  have noMember : ∀ {ref own name type}, joined ref own ∨ more ref own →
      own.member? name ≠ some type := by
    rintro ref own name type (member | member) found
    · rcases first.member member found with ⟨kept, keptFound, _⟩
      rw [Form.member?, leftPlain] at keptFound
      cases keptFound
    · rcases second.member member found with ⟨kept, keptFound, _⟩
      rw [Form.member?, rightPlain] at keptFound
      cases keptFound
  have noBound : ∀ {ref own row}, joined ref own ∨ more ref own →
      own.bound? ≠ some row := by
    rintro ref own row (member | member) bounded
    · rcases first.bound member bounded with ⟨whole, isWhole, _⟩
      rw [leftFree] at isWhole
      cases isWhole
    · rcases second.bound member bounded with ⟨whole, isWhole, _⟩
      rw [rightFree] at isWhole
      cases isWhole
  constructor
  case kind =>
    rintro ref own (member | member)
    · exact first.kind member
    · exact (second.kind member).trans kind
  case parameters =>
    rintro ref own (member | member)
    · exact first.parameters member
    · exact forall₂_trans equivalence (second.parameters member) close
  case member => exact fun member found => absurd found (noMember member)
  case bound => exact fun member bounded => absurd bounded (noBound member)
  case memberSource =>
    intro name type found
    rw [Form.member?, leftPlain] at found
    cases found
  case shared => exact fun here _ _ bounded => absurd bounded (noBound here)
  all_goals
    intros
    simp_all

section Rows

variable {kind : RowKind} {members otherMembers : Row} {bound otherBound : Option Row}

theorem member?_mergeRows (kind : RowKind) {name : String} {type : Ref} :
    (Form.row kind (Build.mergeRows members bound otherMembers otherBound).members
      (Build.mergeRows members bound otherMembers otherBound).bound).member?
        name = some type ↔
      members.get? name = some type ∨ members.get? name = none ∧
        otherMembers.get? name = some type := by
  change (Build.mergeRows members bound otherMembers otherBound).members.get?
    name = some type ↔ _
  rw [Build.get?_mergeRows]
  cases members.get? name <;> simp

theorem exists_stored_of_mem_pairs {stored : String → Ref → Prop} {pair : Ref × Ref}
    (fair : members.Fair bound) (otherFair : otherMembers.Fair otherBound)
    (allowed : Build.NamesAllowed members bound otherMembers otherBound)
    (fromMember : ∀ {name type}, members.get? name = some type ∨
      otherMembers.get? name = some type →
      stored name type)
    (fromBound : ∀ {row name type}, bound = some row ∨ otherBound = some row →
      row.get? name = some type → stored name type)
    (member : pair ∈ (Build.mergeRows members bound otherMembers otherBound).pairs) :
    ∃ name, stored name pair.1 ∧ stored name pair.2 := by
  rcases Build.of_mem_pairs member with ⟨name, found, listed⟩ |
    ⟨name, row, twin, rfl, rfl, listed, found⟩ | ⟨name, row, bounded, listed, found, _⟩
  · have foundToo := (Row.get?_eq_some_iff otherFair.distinct).2 listed
    exact ⟨name, fromMember (.inl found), fromMember (.inr foundToo)⟩
  · have foundToo := (Row.get?_eq_some_iff (fair.bounded row rfl)).2 listed
    exact ⟨name, fromBound (.inl rfl) foundToo, fromBound (.inr rfl) found⟩
  · have merged := (Row.get?_eq_some_iff
      (Build.fair_mergeRows fair otherFair allowed).distinct).2 listed
    refine ⟨name, fromMember ?_, ?_⟩
    · exact ((member?_mergeRows .struct).1 merged).imp id And.right
    · rcases Build.bound_mergeRows_cases bounded with
        ⟨rfl, rfl⟩ | ⟨rfl, rfl⟩ | ⟨own, _, rfl, rfl, rfl⟩
      · exact fromBound (.inl rfl) found
      · exact fromBound (.inr rfl) found
      · exact fromBound (.inl rfl) (Row.get?_of_within (fair.bounded own rfl) found).1

theorem exists_contains_of_rowsFit {row twin : Row}
    (fits : rowsFit members (some row) otherMembers (some twin)) :
    ∃ name, (row.within twin).contains name := by
  unfold rowsFit at fits
  change (!((row.within twin).labels.isEmpty) && _) = true at fits
  rw [Bool.and_eq_true, Bool.not_eq_true'] at fits
  rcases List.exists_mem_of_ne_nil _ (List.isEmpty_eq_false_iff.1 fits.1)
    with ⟨name, listed⟩
  exact ⟨name, Row.contains_iff.2 listed⟩

theorem member_of_rows (equivalence : Equivalence near)
    (close : ∀ pair ∈ (Build.mergeRows members bound otherMembers otherBound).pairs,
      near pair.1 pair.2)
    {name : String} {type twin : Ref} (found : otherMembers.get? name = some twin)
    (nearTwin : near type twin) :
    ∃ kept, (Form.row kind (Build.mergeRows members bound otherMembers otherBound).members
      (Build.mergeRows members bound otherMembers otherBound).bound).member?
        name = some kept ∧
        near type kept := by
  cases here : members.get? name with
  | none => exact ⟨twin, (member?_mergeRows kind).2 (.inr ⟨here, found⟩), nearTwin⟩
  | some kept =>
      have pair := close (kept, twin) (Build.mem_pairs_of_members here found)
      exact ⟨kept, (member?_mergeRows kind).2 (.inl here),
        equivalence.trans nearTwin (equivalence.symm pair)⟩

theorem exists_bound_of_left {whole : Row} (fair : members.Fair (some whole)) :
    ∃ merged,
      (Build.mergeRows members (some whole) otherMembers otherBound).bound = some merged ∧
      (∀ name, merged.contains name → whole.contains name) ∧
      ∀ {name kept}, merged.get? name = some kept → whole.get? name = some kept := by
  cases otherBound with
  | none => exact ⟨whole, rfl, fun _ listed => listed, fun found => found⟩
  | some other =>
      exact ⟨whole.within other, rfl, fun name listed => (Row.contains_within.1 listed).1,
        fun found => (Row.get?_of_within (fair.bounded whole rfl) found).1⟩

theorem exists_bound_of_right (equivalence : Equivalence near)
    (fair : members.Fair bound) {whole : Row}
    (close : ∀ pair ∈ (Build.mergeRows members bound otherMembers (some whole)).pairs,
      near pair.1 pair.2) :
    ∃ merged,
      (Build.mergeRows members bound otherMembers (some whole)).bound = some merged ∧
      (∀ name, merged.contains name → whole.contains name) ∧
      ∀ {name kept}, merged.get? name = some kept →
        ∃ twin, whole.get? name = some twin ∧ near twin kept := by
  cases bound with
  | none =>
      exact ⟨whole, rfl, fun _ listed => listed, fun found =>
        ⟨_, found, equivalence.refl _⟩⟩
  | some other =>
      refine ⟨other.within whole, rfl, fun name listed =>
        (Row.contains_within.1 listed).2,
        fun found => ?_⟩
      rcases Row.get?_of_within (fair.bounded other rfl) found with ⟨kept, also⟩
      rcases Row.exists_get?_of_contains also with ⟨twin, twinFound⟩
      have pair := close _ (Build.mem_pairs_of_bounds kept twinFound)
      exact ⟨twin, twinFound, equivalence.symm pair⟩

theorem exists_source_of_rows (property : Row → Prop) {whole : Row}
    (isWhole : (Build.mergeRows members bound otherMembers otherBound).bound = some whole)
    (holds : property whole)
    (parts : ∀ row twin, bound = some row → property (row.within twin) →
      property row ∨ property twin)
    (left : ∀ row, bound = some row → property row →
      ∃ ref own row, joined ref own ∧ own.bound? = some row ∧ property row)
    (right : ∀ row, otherBound = some row → property row →
      ∃ ref own row, more ref own ∧ own.bound? = some row ∧ property row) :
    ∃ ref own row, (joined ref own ∨ more ref own) ∧ own.bound? = some row ∧
      property row := by
  have either : (∃ row, bound = some row ∧ property row) ∨
      ∃ row, otherBound = some row ∧ property row := by
    rcases Build.bound_mergeRows_cases isWhole with
      ⟨rfl, rfl⟩ | ⟨rfl, rfl⟩ | ⟨row, twin, rfl, rfl, rfl⟩
    · exact .inl ⟨whole, rfl, holds⟩
    · exact .inr ⟨whole, rfl, holds⟩
    · exact (parts row twin rfl holds).imp (⟨row, rfl, ·⟩) (⟨twin, rfl, ·⟩)
  rcases either with ⟨row, isRow, own⟩ | ⟨row, isRow, own⟩
  · rcases left row isRow own with ⟨ref, form, found, member, source⟩
    exact ⟨ref, form, found, .inl member, source⟩
  · rcases right row isRow own with ⟨ref, form, found, member, source⟩
    exact ⟨ref, form, found, .inr member, source⟩

theorem exists_contains_of_rows (first : Gathers joined near (.row kind members bound))
    (second : Gathers more near (.row kind otherMembers otherBound))
    (fits : rowsFit members bound otherMembers otherBound) {left right : Ref}
    {own other : Form} {row twin whole : Row} (here : joined left own ∨ more left own)
    (there : joined right other ∨ more right other) (different : left ≠ right)
    (bounded : own.bound? = some row) (boundedToo : other.bound? = some twin)
    (isWhole : (Build.mergeRows members bound otherMembers otherBound).bound =
      some whole) :
    ∃ name, whole.contains name := by
  rcases Build.bound_mergeRows_cases isWhole with
    ⟨rfl, rfl⟩ | ⟨rfl, rfl⟩ | ⟨row, twin, rfl, rfl, rfl⟩
  · rcases here with here | here
    · rcases there with there | there
      · exact first.shared here there different bounded boundedToo rfl
      · rcases second.bound there boundedToo with ⟨_, impossible, _⟩
        cases impossible
    · rcases second.bound here bounded with ⟨_, impossible, _⟩
      cases impossible
  · rcases here with here | here
    · rcases first.bound here bounded with ⟨_, impossible, _⟩
      cases impossible
    · rcases there with there | there
      · rcases first.bound there boundedToo with ⟨_, impossible, _⟩
        cases impossible
      · exact second.shared here there different bounded boundedToo rfl
  · exact exists_contains_of_rowsFit fits

theorem join_of_rows (first : Gathers joined near (.row kind members bound))
    (second : Gathers more near (.row kind otherMembers otherBound))
    (equivalence : Equivalence near) (fair : members.Fair bound)
    (fits : rowsFit members bound otherMembers otherBound)
    (close : ∀ pair ∈ (Build.mergeRows members bound otherMembers otherBound).pairs,
      near pair.1 pair.2) :
    Gathers (fun ref own => joined ref own ∨ more ref own) near
      (.row kind (Build.mergeRows members bound otherMembers otherBound).members
        (Build.mergeRows members bound otherMembers otherBound).bound) := by
  constructor
  case kind =>
    rintro ref own (member | member)
    · exact first.kind member
    · exact second.kind member
  case parameters =>
    rintro ref own (member | member)
    · exact first.parameters member
    · exact second.parameters member
  case member =>
    rintro ref own name type (member | member) found
    · rcases first.member member found with ⟨kept, keptFound, nearKept⟩
      exact ⟨kept, (member?_mergeRows kind).2 (.inl keptFound), nearKept⟩
    · rcases second.member member found with ⟨twin, twinFound, nearTwin⟩
      exact member_of_rows equivalence close twinFound nearTwin
  case bound =>
    rintro ref own row (member | member) bounded
    · rcases first.bound member bounded with ⟨whole, rfl, inside, nearWhole⟩
      rcases exists_bound_of_left fair with ⟨merged, isMerged, names, types⟩
      exact ⟨merged, isMerged, fun name listed => inside name (names name listed),
        fun here there => nearWhole here (types there)⟩
    · rcases second.bound member bounded with ⟨whole, rfl, inside, nearWhole⟩
      rcases exists_bound_of_right equivalence fair close with
        ⟨merged, isMerged, names, types⟩
      refine ⟨merged, isMerged, fun name listed => inside name (names name listed),
        fun here there => ?_⟩
      rcases types there with ⟨twin, twinFound, nearKept⟩
      exact equivalence.trans (nearWhole here twinFound) nearKept
  case memberSource =>
    intro name type found
    rcases (member?_mergeRows kind).1 found with here | ⟨_, there⟩
    · rcases first.memberSource here with ⟨ref, own, member, source⟩
      exact ⟨ref, own, .inl member, source⟩
    · rcases second.memberSource there with ⟨ref, own, member, source⟩
      exact ⟨ref, own, .inr member, source⟩
  case bounded =>
    intro whole isWhole
    have source := exists_source_of_rows (fun _ => True) isWhole trivial
      (fun _ _ _ => .inl)
      (fun _ isRow _ => by simpa using first.bounded isRow)
      (fun _ isRow _ => by simpa using second.bounded isRow)
    simpa using source
  case boundSource =>
    intro whole name type isWhole found
    exact exists_source_of_rows (·.get? name = some type) isWhole found
      (fun row _ isRow found =>
        .inl (Row.get?_of_within (fair.bounded row isRow) found).1)
      (fun _ => first.boundSource) (fun _ => second.boundSource)
  case outside =>
    intro whole name isWhole absent
    exact exists_source_of_rows (¬ ·.contains name) isWhole absent
      (fun _ _ _ absent => not_and_or.1 (Row.contains_within.not.1 absent))
      (fun _ => first.outside) (fun _ => second.outside)
  case cross =>
    intro _ _ _ _ whole name type twin _ _ _ isWhole found got
    rcases Build.eq_or_mem_pairs_of_cross found isWhole got with rfl | pair
    · exact equivalence.refl _
    · exact close _ pair
  case shared => exact exists_contains_of_rows first second fits

end Rows

theorem join {pairs : List (Ref × Ref)} (first : Gathers joined near left)
    (second : Gathers more near right) (equivalence : Equivalence near) (fair : left.Fair)
    (isJoined : left.join? right = some (form, pairs))
    (close : ∀ pair ∈ pairs, near pair.1 pair.2) :
    Gathers (fun ref own => joined ref own ∨ more ref own) near form := by
  rcases Form.join?_cases isJoined with
    ⟨own, rfl, rfl, rfl, rfl⟩ | ⟨_, _, _, _, rfl, rfl, rfl, rfl⟩ |
    ⟨_, _, rfl, rfl, rfl, rfl⟩ | ⟨kind, _, _, _, _, rfl, rfl, fits, rfl, rfl⟩
  · exact first.join_of_parts second equivalence rfl rfl rfl rfl rfl .nil
  · apply first.join_of_parts second equivalence rfl rfl rfl rfl rfl
    have second := close _ (List.mem_cons_of_mem _ List.mem_cons_self)
    exact .cons (equivalence.symm (close _ List.mem_cons_self))
      (.cons (equivalence.symm second) .nil)
  · apply first.join_of_parts second equivalence rfl rfl rfl rfl rfl
    exact .cons (equivalence.symm (close _ List.mem_cons_self)) .nil
  · exact first.join_of_rows second equivalence fair fits close

end Gathers

namespace TypeGraph

variable {start graph later : TypeGraph}
  {left right ref first second third leftRoot rightRoot : Ref}
  {leftNode rightNode node : Node} {waiting pairs : List (Ref × Ref)}

/-! ## Steps -/

theorem Near.of_leads (leads : graph.Leads first second) :
    graph.Near waiting first second := by
  induction leads with
  | refl ref => exact .refl ref
  | link linked _ induction => exact .trans (.link linked) induction

theorem Near.mono {more : List (Ref × Ref)} (near : graph.Near waiting first second)
    (links : ∀ {ref next}, graph.LinksTo ref next → later.LinksTo ref next)
    (waits : ∀ {left right}, (left, right) ∈ waiting → later.Near more left right) :
    later.Near more first second := by
  induction near with
  | link linked => exact .link (links linked)
  | pair member => exact waits member
  | refl ref => exact .refl ref
  | symm _ induction => exact .symm induction
  | trans _ _ induction onwards => exact .trans induction onwards

theorem Near.same (near : graph.Near [] first second) : graph.Same first second := by
  induction near with
  | link linked => exact Leads.same (.link linked (.refl _))
  | pair member => cases member
  | refl ref => exact .refl ref
  | symm _ induction => exact .symm induction
  | trans _ _ induction onwards => exact .trans induction onwards

theorem Step.near (step : graph.Step later leftRoot rightRoot leftNode rightNode pairs)
    (firstLeads : graph.Leads left leftRoot) (secondLeads : graph.Leads right rightRoot)
    (near : graph.Near ((left, right) :: waiting) first second) :
    later.Near (pairs ++ waiting) first second := by
  have links : ∀ {ref next}, graph.LinksTo ref next → later.LinksTo ref next := by
    intro ref next linked
    cases step with
    | same _ unchanged => rwa [unchanged]
    | bindLeft _ unites => exact unites.linksTo linked
    | bindRight _ _ unites => exact unites.linksTo linked
    | join _ unites => exact unites.linksTo linked
  have met : later.Same leftRoot rightRoot := by
    cases step with
    | same equal _ => rw [equal]; exact .refl _
    | bindLeft _ unites =>
        rcases unites.goneLater with ⟨after, found, _, linked⟩
        exact Leads.same (.link ⟨after, found, linked⟩ (.refl _))
    | bindRight _ _ unites =>
        rcases unites.goneLater with ⟨after, found, _, linked⟩
        exact (Leads.same (.link ⟨after, found, linked⟩ (.refl _))).symm
    | join _ unites =>
        rcases unites.goneLater with ⟨after, found, _, linked⟩
        exact (Leads.same (.link ⟨after, found, linked⟩ (.refl _))).symm
  apply near.mono links
  intro own other member
  rcases List.mem_cons.1 member with equal | waits
  · cases equal
    have leftLeads : later.Leads left leftRoot := firstLeads.mono fun _ _ => links
    have rightLeads : later.Leads right rightRoot := secondLeads.mono fun _ _ => links
    rcases met with ⟨target, here, there⟩
    exact .trans (.of_leads (leftLeads.trans here))
      (.symm (.of_leads (rightLeads.trans there)))
  · exact .pair (List.mem_append_right _ waits)

/-! ## Progress -/

structure Joined (start graph : TypeGraph) (root ref : Ref) (form : Form) : Prop where
  stands : start.Stands ref form
  leads : graph.Leads ref root

/-- Joined to one of the two roots that are about to become one. -/
def JoinedTo (start graph : TypeGraph) (leftRoot rightRoot ref : Ref) (form : Form) :
    Prop :=
  Joined start graph leftRoot ref form ∨ Joined start graph rightRoot ref form

structure Progress (start : TypeGraph) (left right : Ref) (graph : TypeGraph)
    (waiting : List (Ref × Ref)) : Prop where
  size : graph.size = start.size
  links : ∀ {ref next}, start.LinksTo ref next → graph.LinksTo ref next
  free : ∀ {ref node}, graph.node ref = .ok node → node.link = none →
    ∃ before, start.node ref = .ok before ∧ before.link = none ∧ before.form.kind =
    node.form.kind ∧
      before.form.parameters = node.form.parameters
  sound : ∀ {ref next}, graph.LinksTo ref next → start.Congruent left right ref next
  waits : ∀ pair ∈ waiting, start.Congruent left right pair.1 pair.2
  near : graph.Near waiting left right
  gathers : ∀ {root node}, graph.node root = .ok node → node.link = none →
    Gathers (Joined start graph root) (graph.Near waiting) node.form

namespace Progress

theorem initial (graph : TypeGraph) (left right : Ref) :
    Progress graph left right graph [(left, right)] where
  size := rfl
  links linked := linked
  free found unlinked := ⟨_, found, unlinked, rfl, rfl⟩
  sound linked := .link linked
  waits pair member := by
    rw [List.mem_singleton.1 member]
    exact .given
  near := .pair List.mem_cons_self
  gathers {root node} found unlinked := by
    apply Gathers.single root
    · rintro ref own ⟨⟨node, ownFound, ownUnlinked, rfl, _⟩, leads⟩
      have equal := leads.eq_of_unlinked ownFound ownUnlinked
      subst equal
      rw [found] at ownFound
      cases ownFound
      exact ⟨rfl, rfl⟩
    · exact fun notVar => ⟨⟨node, found, unlinked, rfl, notVar⟩, .refl root⟩
    · exact .refl

theorem congruent_of_leads (progress : Progress start left right graph waiting)
    (leads : graph.Leads first second) : start.Congruent left right first second := by
  induction leads with
  | refl ref => exact .refl ref
  | link linked _ induction => exact .trans (progress.sound linked) induction

theorem stands (progress : Progress start left right graph waiting)
    (found : graph.node ref = .ok node) (unlinked : node.link = none)
    (notVar : node.form.kind ≠ .var) :
    ∃ form, start.Stands ref form ∧ form.kind = node.form.kind ∧
      form.parameters = node.form.parameters := by
  rcases progress.free found unlinked with
    ⟨before, beforeFound, beforeUnlinked, kind, parameters⟩
  exact ⟨before.form, ⟨before, beforeFound, beforeUnlinked, rfl, by rwa [kind]⟩,
    kind, parameters⟩

theorem ne_of_joined {form other : Form} (leftFound : graph.node leftRoot = .ok leftNode)
    (leftUnlinked : leftNode.link = none)
    (rightFound : graph.node rightRoot = .ok rightNode)
    (rightUnlinked : rightNode.link = none) (different : leftRoot ≠ rightRoot)
    (here : Joined start graph leftRoot first form)
    (there : Joined start graph rightRoot second other) :
    first ≠ second := by
  rintro rfl
  have leftRooted : graph.Rooted first leftRoot leftNode :=
    ⟨here.leads, leftFound, leftUnlinked⟩
  exact different (leftRooted.unique ⟨there.leads, rightFound, rightUnlinked⟩).1.symm

theorem congruent_of_roots
    (progress : Progress start left right graph ((first, second) :: waiting))
    (firstLeads : graph.Leads first leftRoot)
    (secondLeads : graph.Leads second rightRoot) :
    start.Congruent left right leftRoot rightRoot :=
  .trans (.symm (progress.congruent_of_leads firstLeads))
    (.trans (progress.waits (first, second) List.mem_cons_self)
      (progress.congruent_of_leads secondLeads))

theorem exists_stores_of_member {near : Ref → Ref → Prop} {leftForm rightForm : Form}
    {name : String} {type : Ref}
    (leftGathers : Gathers (Joined start graph leftRoot) near leftForm)
    (rightGathers : Gathers (Joined start graph rightRoot) near rightForm)
    (found : leftForm.member? name = some type ∨ rightForm.member? name = some type) :
    ∃ ref own, JoinedTo start graph leftRoot rightRoot ref own ∧
      own.Stores name type := by
  rcases found with here | there
  · rcases leftGathers.memberSource here with ⟨ref, own, member, source⟩
    exact ⟨ref, own, .inl member, .inl source⟩
  · rcases rightGathers.memberSource there with ⟨ref, own, member, source⟩
    exact ⟨ref, own, .inr member, .inl source⟩

theorem exists_stores_of_bound {near : Ref → Ref → Prop} {leftForm rightForm : Form}
    {row : Row} {name : String} {type : Ref}
    (leftGathers : Gathers (Joined start graph leftRoot) near leftForm)
    (rightGathers : Gathers (Joined start graph rightRoot) near rightForm)
    (bounded : leftForm.bound? = some row ∨ rightForm.bound? = some row)
    (found : row.get? name = some type) :
    ∃ ref own, JoinedTo start graph leftRoot rightRoot ref own ∧
      own.Stores name type := by
  rcases bounded with here | there
  · rcases leftGathers.boundSource here found with
      ⟨ref, own, _, member, bounded, source⟩
    exact ⟨ref, own, .inl member, .inr ⟨_, bounded, source⟩⟩
  · rcases rightGathers.boundSource there found with
      ⟨ref, own, _, member, bounded, source⟩
    exact ⟨ref, own, .inr member, .inr ⟨_, bounded, source⟩⟩

theorem congruent_of_joinedTo (progress : Progress start left right graph waiting)
    (leftRooted : graph.Rooted first leftRoot leftNode)
    (rightRooted : graph.Rooted second rightRoot rightNode)
    (sameKind : rightNode.form.kind = leftNode.form.kind)
    (related : start.Congruent left right leftRoot rightRoot) {own : Form}
    (joined : JoinedTo start graph leftRoot rightRoot ref own) :
    start.Stands ref own ∧ own.kind = leftNode.form.kind ∧
      start.Congruent left right ref leftRoot := by
  rcases joined with here | there
  · have gathers := progress.gathers leftRooted.found leftRooted.unlinked
    exact ⟨here.stands, gathers.kind here, progress.congruent_of_leads here.leads⟩
  · have gathers := progress.gathers rightRooted.found rightRooted.unlinked
    exact ⟨there.stands, (gathers.kind there).trans sameKind,
      .trans (progress.congruent_of_leads there.leads) (.symm related)⟩

/-- Each node that was joined has another one beside it, if only the root of the other
side. -/
theorem congruent_across {common leftForm rightForm own twin : Form}
    {other type kept : Ref} {name : String}
    (near : ∀ {ref own}, JoinedTo start graph leftRoot rightRoot ref own →
      start.Stands ref own ∧ own.kind = common.kind ∧
        start.Congruent left right ref leftRoot)
    (different : leftRoot ≠ rightRoot) (leftStands : start.Stands leftRoot leftForm)
    (rightStands : start.Stands rightRoot rightForm)
    (here : JoinedTo start graph leftRoot rightRoot ref own)
    (there : JoinedTo start graph leftRoot rightRoot other twin)
    (one : own.Stores name type) (another : twin.Stores name kept) :
    start.Congruent left right type kept := by
  have stored : ∀ {beside neighbour}, JoinedTo start graph leftRoot rightRoot beside
      neighbour → ref ≠ beside → own.Stores name kept ∨ neighbour.Stores name kept →
        start.Congruent left right type kept := by
    intro beside neighbour joined apart shared
    rcases near here with ⟨stands, kind, toRoot⟩
    rcases near joined with ⟨standsToo, kindToo, toRootToo⟩
    exact .stored (.trans toRoot (.symm toRootToo)) apart stands standsToo
      (kind.trans kindToo.symm) (.inl one) shared
  by_cases equal : ref = other
  · subst equal
    have same := Stands.unique (near here).1 (near there).1
    subst same
    by_cases isLeft : ref = leftRoot
    · apply stored (.inr ⟨rightStands, .refl rightRoot⟩) _ (.inl another)
      rw [isLeft]
      exact different
    · exact stored (.inl ⟨leftStands, .refl leftRoot⟩) isLeft (.inl another)
  · exact stored there equal (.inr another)

theorem congruent_of_pair
    (progress : Progress start left right graph ((first, second) :: waiting))
    (leftRooted : graph.Rooted first leftRoot leftNode)
    (rightRooted : graph.Rooted second rightRoot rightNode)
    (different : leftRoot ≠ rightRoot) (leftFair : leftNode.form.Fair)
    (rightFair : rightNode.form.Fair) {form : Form}
    (isJoined : leftNode.form.join? rightNode.form = some (form, pairs)) :
    ∀ pair ∈ pairs, start.Congruent left right pair.1 pair.2 := by
  have kinds := Form.kind_of_join? isJoined
  have leftNotVar := kinds.2.2
  have rightNotVar : rightNode.form.kind ≠ .var := kinds.2.1 ▸ leftNotVar
  have related := progress.congruent_of_roots leftRooted.leads rightRooted.leads
  rcases progress.stands leftRooted.found leftRooted.unlinked leftNotVar with
    ⟨leftForm, leftStands, leftKind, leftParts⟩
  rcases progress.stands rightRooted.found rightRooted.unlinked rightNotVar with
    ⟨rightForm, rightStands, rightKind, rightParts⟩
  have sameKind : leftForm.kind = rightForm.kind := by rw [leftKind, rightKind, kinds.2.1]
  have ofParts : ∀ pair ∈ leftNode.form.parameters.zip rightNode.form.parameters,
      start.Congruent left right pair.1 pair.2 := by
    rintro ⟨part, twin⟩ member
    rw [← leftParts, ← rightParts] at member
    exact .parameter related different leftStands rightStands sameKind member
  have near : ∀ {ref own}, JoinedTo start graph leftRoot rightRoot ref own →
      start.Stands ref own ∧ own.kind = leftNode.form.kind ∧
        start.Congruent left right ref leftRoot :=
    progress.congruent_of_joinedTo leftRooted rightRooted kinds.2.1 related
  have leftGathers := progress.gathers leftRooted.found leftRooted.unlinked
  have rightGathers := progress.gathers rightRooted.found rightRooted.unlinked
  rcases Form.join?_cases isJoined with ⟨own, leftIs, rightIs, rfl, rfl⟩ |
    ⟨_, _, _, _, leftIs, rightIs, rfl, rfl⟩ | ⟨_, _, leftIs, rightIs, rfl, rfl⟩ |
    ⟨kind, members, bound, otherMembers, otherBound, leftIs, rightIs, fits, rfl, rfl⟩
  · exact nofun
  · rw [leftIs, rightIs] at ofParts
    exact ofParts
  · rw [leftIs, rightIs] at ofParts
    exact ofParts
  · rw [leftIs] at leftGathers leftFair
    rw [rightIs] at rightGathers rightFair
    intro pair member
    rcases Gathers.exists_stored_of_mem_pairs leftFair rightFair
      (Form.namesAllowed_of_rowsFit fits)
      (exists_stores_of_member leftGathers rightGathers)
      (exists_stores_of_bound leftGathers rightGathers) member with
      ⟨name, ⟨_, _, here, one⟩, ⟨_, _, there, another⟩⟩
    exact congruent_across near different leftStands rightStands here there one another

theorem not_joined_of_var
    (progress : Progress start left right graph waiting) {root : Ref}
    (found : graph.node root = .ok node) (unlinked : node.link = none)
    (isVar : node.form.kind = .var) {form : Form} :
    ¬ Joined start graph root ref form := by
  intro joined
  have kind := (progress.gathers found unlinked).kind joined
  rcases joined.stands with ⟨_, _, _, _, notVar⟩
  exact notVar (kind.trans isVar)

theorem gathers_of_unites (progress : Progress start left right graph waiting)
    (wellFormed : graph.WellFormed) {gone kept : Ref} {goneNode : Node} {form : Form}
    {wider : Ref → Ref → Prop} (unites : graph.Unites later gone kept goneNode form)
    (weaker : ∀ {first second}, graph.Near waiting first second → wider first second)
    (united : Gathers
      (fun ref own => Joined start graph kept ref own ∨ Joined start graph gone ref own)
      wider form) :
    ∀ {root node}, later.node root = .ok node → node.link = none →
      Gathers (Joined start later root) wider node.form := by
  intro root node found unlinked
  have settled : ∀ {ref own}, start.Stands ref own → ∃ target node,
      graph.Rooted ref target node := by
    rintro ref own ⟨node, found, _⟩
    apply wellFormed.settles
    have has := has_of_node found
    rwa [Has, ← progress.size] at has
  rcases unites.node_cases found with
    ⟨_, _, linked⟩ | ⟨rfl, rfl, _⟩ | ⟨notGone, notKept, old⟩
  · rw [unlinked] at linked
    cases linked
  · apply united.mono _ id
    intro ref own
    constructor
    · rintro ⟨stands, leads⟩
      rcases settled stands with ⟨_, _, rooted⟩
      exact ((unites.leads_kept_iff rooted).1 leads).symm.imp (⟨stands, ·⟩) (⟨stands, ·⟩)
    · rintro (⟨stands, leads⟩ | ⟨stands, leads⟩)
      · exact ⟨stands, unites.leads leads⟩
      · rcases settled stands with ⟨_, _, rooted⟩
        exact ⟨stands, (unites.leads_kept_iff rooted).2 (.inl leads)⟩
  · apply (progress.gathers old unlinked).mono _ weaker
    intro ref own
    constructor
    · rintro ⟨stands, leads⟩
      rcases settled stands with ⟨_, _, rooted⟩
      exact ⟨stands, (unites.leads_iff_of_ne rooted notGone notKept old unlinked).1 leads⟩
    · rintro ⟨stands, leads⟩
      exact ⟨stands, unites.leads leads⟩

theorem free_of_unites (progress : Progress start left right graph waiting)
    {gone kept : Ref} {goneNode keptNode : Node} {form : Form}
    (unites : graph.Unites later gone kept goneNode form)
    (keptFound : graph.node kept = .ok keptNode) (keptUnlinked : keptNode.link = none)
    (kind : form.kind = keptNode.form.kind)
    (parameters : form.parameters = keptNode.form.parameters)
    (found : later.node ref = .ok node) (unlinked : node.link = none) :
    ∃ before, start.node ref = .ok before ∧ before.link = none ∧
      before.form.kind = node.form.kind ∧ before.form.parameters =
        node.form.parameters := by
  rcases unites.node_cases found with ⟨_, _, linked⟩ | ⟨rfl, rfl, _⟩ | ⟨_, _, old⟩
  · rw [unlinked] at linked
    cases linked
  · rw [kind, parameters]
    exact progress.free keptFound keptUnlinked
  · exact progress.free old unlinked

theorem sound_of_unites (progress : Progress start left right graph waiting)
    {gone kept next : Ref} {goneNode : Node} {form : Form}
    (unites : graph.Unites later gone kept goneNode form)
    (related : start.Congruent left right gone kept) (linked : later.LinksTo ref next) :
    start.Congruent left right ref next := by
  rcases linked with ⟨node, found, isLinked⟩
  rcases unites.node_cases found with ⟨rfl, _, toKept⟩ | ⟨_, _, unlinked⟩ | ⟨_, _, old⟩
  · rw [toKept] at isLinked
    cases isLinked
    exact related
  · rw [unlinked] at isLinked
    cases isLinked
  · exact progress.sound ⟨node, old, isLinked⟩

/-- Everything that is known stays known when a pair has been looked at. -/
theorem step (progress : Progress start left right graph ((first, second) :: waiting))
    (wellFormed : graph.WellFormed) (leftRooted : graph.Rooted first leftRoot leftNode)
    (rightRooted : graph.Rooted second rightRoot rightNode)
    (step : graph.Step later leftRoot rightRoot leftNode rightNode pairs) :
    Progress start left right later (pairs ++ waiting) := by
  have weaker : ∀ {one another}, graph.Near ((first, second) :: waiting) one another →
      later.Near (pairs ++ waiting) one another :=
      step.near leftRooted.leads rightRooted.leads
  have related := progress.congruent_of_roots leftRooted.leads rightRooted.leads
  have oldWaits : ∀ pair ∈ waiting, start.Congruent left right pair.1 pair.2 :=
    fun pair member => progress.waits pair (List.mem_cons_of_mem _ member)
  have leftGathers := progress.gathers leftRooted.found leftRooted.unlinked
  have rightGathers := progress.gathers rightRooted.found rightRooted.unlinked
  cases step with
  | same equal unchanged =>
      subst unchanged
      refine ⟨progress.size, progress.links, progress.free, progress.sound, oldWaits,
        weaker progress.near, fun found unlinked => ?_⟩
      exact (progress.gathers found unlinked).mono Iff.rfl weaker
  | bindLeft form unites =>
      refine ⟨unites.size.trans progress.size, fun linked =>
        unites.linksTo (progress.links linked),
        progress.free_of_unites unites rightRooted.found rightRooted.unlinked rfl rfl,
        progress.sound_of_unites unites related, oldWaits, weaker progress.near,
        progress.gathers_of_unites wellFormed unites weaker (rightGathers.mono ?_ weaker)⟩
      intro ref own
      apply or_iff_left
      exact progress.not_joined_of_var leftRooted.found leftRooted.unlinked
        (by rw [form]; rfl)
  | bindRight notVar form unites =>
      refine ⟨unites.size.trans progress.size, fun linked =>
        unites.linksTo (progress.links linked),
        progress.free_of_unites unites leftRooted.found leftRooted.unlinked rfl rfl,
        progress.sound_of_unites unites (.symm related), oldWaits, weaker progress.near,
        progress.gathers_of_unites wellFormed unites weaker (leftGathers.mono ?_ weaker)⟩
      intro ref own
      apply or_iff_left
      exact progress.not_joined_of_var rightRooted.found rightRooted.unlinked
        (by rw [form]; rfl)
  | join isJoined unites =>
      have leftFair := wellFormed.fair leftRoot leftNode leftRooted.found
      have rightFair := wellFormed.fair rightRoot rightNode rightRooted.found
      have newWaits := progress.congruent_of_pair leftRooted rightRooted unites.apart
        leftFair rightFair
        isJoined
      have united :=
        (leftGathers.mono Iff.rfl weaker).join (rightGathers.mono Iff.rfl weaker)
        (near_equivalence _ _) leftFair isJoined
        fun pair member => .pair (List.mem_append_left _ member)
      refine ⟨unites.size.trans progress.size, fun linked =>
        unites.linksTo (progress.links linked),
        progress.free_of_unites unites leftRooted.found leftRooted.unlinked
          (Form.kind_of_join? isJoined).1 (Form.parameters_of_join? isJoined),
        progress.sound_of_unites unites (.symm related), fun pair member =>
        ?_, weaker progress.near,
        progress.gathers_of_unites wellFormed unites weaker united⟩
      exact (List.mem_append.1 member).elim (newWaits pair) (oldWaits pair)

/-! ## Success -/

section Success

variable {root : Ref} {form other : Form}

theorem exists_root (progress : Progress start left right graph waiting)
    (fair : graph.WellFormed) (stands : start.Stands first form)
    (same : graph.Same first second) :
    ∃ root node, graph.Rooted first root node ∧ graph.Rooted second root node := by
  rcases stands with ⟨before, found, _⟩
  have has := has_of_node found
  rw [Has, ← progress.size] at has
  rcases fair.settles first has with ⟨root, node, rooted⟩
  exact ⟨root, node, rooted, rooted.of_same same⟩

theorem near_of_stored (progress : Progress start left right graph waiting)
    (startFair : start.WellFormed) (fair : graph.WellFormed)
    (found : graph.node root = .ok node) (unlinked : node.link = none)
    (here : Joined start graph root first form)
    (there : Joined start graph root second other)
    (different : first ≠ second) {name : String} {type : Ref}
    (stored : form.Stores name type ∨ other.Stores name type) :
    ∃ kept, node.form.member? name = some kept ∧ graph.Near waiting type kept := by
  have gathers := progress.gathers found unlinked
  suffices one : ∀ {ref own}, Joined start graph root ref own → own.Stores name type →
      ∃ kept, node.form.member? name = some kept ∧ graph.Near waiting type kept from
    stored.elim (one here) (one there)
  rintro ref own joined (isMember | ⟨row, bounded, inBound⟩)
  · exact gathers.member joined isMember
  · -- The bound has the names of the members, so there is a member to compare with.
    rcases joined.stands with ⟨ownNode, ownFound, _, rfl, _⟩
    have named : row.contains name := Option.isSome_iff_exists.2 ⟨type, inBound⟩
    have isMember :=
      ((startFair.fair ref ownNode ownFound).contains_iff bounded name).1 named
    rcases Option.isSome_iff_exists.1 isMember with ⟨own, ownMember⟩
    rcases gathers.member joined ownMember with ⟨kept, keptFound, _⟩
    rcases gathers.bound joined bounded with ⟨whole, isWhole, _, close⟩
    have inWhole := ((fair.fair root node found).contains_iff isWhole name).2
      (Option.isSome_iff_exists.2 ⟨kept, keptFound⟩)
    rcases Row.exists_get?_of_contains inWhole with ⟨twin, twinFound⟩
    refine ⟨kept, keptFound, .trans (close inBound twinFound) (.symm ?_)⟩
    exact gathers.cross here there different isWhole keptFound twinFound

theorem same_of_congruent (progress : Progress start left right graph [])
    (startFair : start.WellFormed) (fair : graph.WellFormed)
    (related : start.Congruent left right first second) : graph.Same first second := by
  induction related with
  | given => exact progress.near.same
  | link linked => exact Leads.same (.link (progress.links linked) (.refl _))
  | refl ref => exact .refl ref
  | symm _ induction => exact .symm induction
  | trans _ _ induction onwards => exact .trans induction onwards
  | @parameter first second form other part twin _ different stands standsToo kind
    parts induction =>
      rcases progress.exists_root fair stands induction with
        ⟨root, node, rooted, rootedToo⟩
      have gathers := progress.gathers rooted.found rooted.unlinked
      have close := gathers.parameters ⟨stands, rooted.leads⟩
      have closeToo := gathers.parameters ⟨standsToo, rootedToo.leads⟩
      have both := Gathers.forall₂_trans (near_equivalence _ _) close
        (closeToo.flip.imp fun _ _ => Near.symm)
      exact (List.forall₂_iff_zip.1 both).2 parts |>.same
  | @stored first second form other name type twin _ different stands
    standsToo kind here there
      induction =>
      rcases progress.exists_root fair stands induction with
        ⟨root, node, rooted, rootedToo⟩
      have joined : Joined start graph root first form := ⟨stands, rooted.leads⟩
      have joinedToo : Joined start graph root second other :=
        ⟨standsToo, rootedToo.leads⟩
      rcases progress.near_of_stored startFair fair rooted.found rooted.unlinked
        joined joinedToo
        different here with ⟨kept, keptFound, close⟩
      rcases progress.near_of_stored startFair fair rooted.found rooted.unlinked
        joined joinedToo
        different there with ⟨own, ownFound, closeToo⟩
      rw [keptFound] at ownFound
      cases ownFound
      exact Near.same (.trans close (.symm closeToo))

theorem not_clashing (progress : Progress start left right graph [])
    (startFair : start.WellFormed) (fair : graph.WellFormed) :
    ¬ start.Clashing left right := by
  rintro ⟨first, second, form, other, related, different, stands, standsToo, clashes⟩
  have same := progress.same_of_congruent startFair fair related
  rcases progress.exists_root fair stands same with ⟨root, node, rooted, rootedToo⟩
  have gathers := progress.gathers rooted.found rooted.unlinked
  have joined : Joined start graph root first form := ⟨stands, rooted.leads⟩
  have joinedToo : Joined start graph root second other := ⟨standsToo, rootedToo.leads⟩
  rcases clashes with kinds | ⟨row, bounded, name, isMember, absent⟩
    | ⟨row, bounded, twin, boundedToo, none⟩
  · exact kinds ((gathers.kind joined).trans (gathers.kind joinedToo).symm)
  · rcases Option.isSome_iff_exists.1 isMember with ⟨type, found⟩
    rcases gathers.member joinedToo found with ⟨kept, keptFound, _⟩
    rcases gathers.bound joined bounded with ⟨whole, isWhole, inside, _⟩
    apply absent
    apply inside
    exact ((fair.fair root node rooted.found).contains_iff isWhole name).2
      (Option.isSome_iff_exists.2 ⟨kept, keptFound⟩)
  · rcases gathers.bound joined bounded with ⟨whole, isWhole, inside, _⟩
    rcases gathers.bound joinedToo boundedToo with ⟨same, isSame, insideToo, _⟩
    rw [isWhole] at isSame
    cases isSame
    rcases gathers.shared joined joinedToo different bounded boundedToo isWhole
      with ⟨name, listed⟩
    exact none name ⟨inside name listed, insideToo name listed⟩

end Success

/-! ## Failure -/

theorem clashing_of_rows (progress : Progress start left right graph waiting)
    (startFair : start.WellFormed) (leftFound : graph.node leftRoot = .ok leftNode)
    (leftUnlinked : leftNode.link = none)
    (rightFound : graph.node rightRoot = .ok rightNode)
    (rightUnlinked : rightNode.link = none) (different : leftRoot ≠ rightRoot)
    (related : start.Congruent left right leftRoot rightRoot) {kind : RowKind}
    {members otherMembers : Row} {bound otherBound : Option Row}
    (leftForm : leftNode.form = .row kind members bound) (rightForm : rightNode.form =
      .row kind otherMembers otherBound) (fair : members.Fair bound)
    (otherFair : otherMembers.Fair otherBound)
    (unfit : rowsFit members bound otherMembers otherBound = false) :
    start.Clashing left right := by
  have leftGathers := progress.gathers leftFound leftUnlinked
  have rightGathers := progress.gathers rightFound rightUnlinked
  rw [leftForm] at leftGathers
  rw [rightForm] at rightGathers
  have clashing : ∀ {ref own other twin}, Joined start graph leftRoot ref own →
      Joined start graph rightRoot other twin → own.Clashes twin ∨ twin.Clashes own →
        start.Clashing left right := by
    intro ref own other twin here there clash
    have apart := ne_of_joined leftFound leftUnlinked rightFound rightUnlinked
      different here there
    have close : start.Congruent left right ref other :=
      .trans (progress.congruent_of_leads here.leads)
        (.trans related (.symm (progress.congruent_of_leads there.leads)))
    rcases clash with forwards | backwards
    · exact ⟨ref, other, own, twin, close, apart, here.stands, there.stands, forwards⟩
    · exact ⟨other, ref, twin, own, close.symm, apart.symm, there.stands,
        here.stands, backwards⟩
  by_cases allowed : Build.NamesAllowed members bound otherMembers otherBound
  · -- All names are allowed, so two bounds have no name in common: there are none at all.
    rcases Form.bounds_of_not_rowsFit allowed unfit with ⟨row, twin, rfl, rfl, empty⟩
    have noMember : ∀ name, name ∉ members.labels ++ otherMembers.labels := by
      intro name listed
      have inside := allowed _ rfl name listed
      rw [empty] at inside
      cases inside
    rcases leftGathers.bounded rfl with ⟨ref, own, ownRow, here, bounded⟩
    rcases rightGathers.bounded rfl with ⟨other, otherForm, otherRow, there, boundedToo⟩
    apply clashing here there
    refine .inl (.inr (.inr ⟨ownRow, bounded, otherRow, boundedToo, fun name both => ?_⟩))
    rcases here.stands with ⟨ownNode, ownFound, _, rfl, _⟩
    have isMember :=
      ((startFair.fair ref ownNode ownFound).contains_iff bounded name).1 both.1
    rcases Option.isSome_iff_exists.1 isMember with ⟨type, found⟩
    rcases leftGathers.member here found with ⟨kept, keptFound, _⟩
    apply noMember name
    exact List.mem_append_left _
      (Row.contains_iff.1 (Option.isSome_iff_exists.2 ⟨kept, keptFound⟩))
  · rw [Build.namesAllowed_iff fair otherFair, not_and_or] at allowed
    push Not at allowed
    rcases allowed with ⟨row, bounded, name, listed, absent⟩
      | ⟨row, bounded, name, listed, absent⟩
    · rcases leftGathers.outside bounded absent with
        ⟨ref, own, ownRow, here, ownBounded, ownAbsent⟩
      rcases Row.exists_get?_of_contains listed with ⟨type, found⟩
      rcases rightGathers.memberSource found with ⟨other, twin, there, source⟩
      apply clashing here there
      exact .inl (.inr (.inl
        ⟨ownRow, ownBounded, name, Option.isSome_iff_exists.2 ⟨type, source⟩, ownAbsent⟩))
    · rcases rightGathers.outside bounded absent with
        ⟨ref, own, ownRow, there, ownBounded, ownAbsent⟩
      rcases Row.exists_get?_of_contains listed with ⟨type, found⟩
      rcases leftGathers.memberSource found with ⟨other, twin, here, source⟩
      apply clashing here there
      exact .inr (.inr (.inl
        ⟨ownRow, ownBounded, name, Option.isSome_iff_exists.2 ⟨type, source⟩, ownAbsent⟩))

theorem clashing (progress : Progress start left right graph ((first, second) :: waiting))
    (startFair : start.WellFormed) (wellFormed : graph.WellFormed)
    (leftRooted : graph.Rooted first leftRoot leftNode)
    (rightRooted : graph.Rooted second rightRoot rightNode)
    (clash : Clash leftRoot rightRoot leftNode rightNode) :
    start.Clashing left right := by
  have related := progress.congruent_of_roots leftRooted.leads rightRooted.leads
  by_cases kinds : leftNode.form.kind = rightNode.form.kind
  · rcases Form.rows_of_join?_eq_none clash.leftNotVar kinds clash.unjoined with
      ⟨kind, members, bound, otherMembers, otherBound, leftForm, rightForm, unfit⟩
    have fair := wellFormed.fair leftRoot leftNode leftRooted.found
    have otherFair := wellFormed.fair rightRoot rightNode rightRooted.found
    rw [leftForm] at fair
    rw [rightForm] at otherFair
    exact progress.clashing_of_rows startFair leftRooted.found leftRooted.unlinked
      rightRooted.found
      rightRooted.unlinked clash.different related leftForm rightForm fair otherFair unfit
  · rcases progress.stands leftRooted.found leftRooted.unlinked clash.leftNotVar with
      ⟨form, stands, kind, _⟩
    rcases progress.stands rightRooted.found rightRooted.unlinked clash.rightNotVar with
      ⟨other, standsToo, kindToo, _⟩
    refine ⟨leftRoot, rightRoot, form, other, related, clash.different, stands,
      standsToo, .inl ?_⟩
    rwa [kind, kindToo]

end Progress

/-- Unification of two types ends, and fails only because types clash that have to become
the same. If there are none, it makes exactly those types the same that have to become the
same. -/
theorem unify_least_congruence (reachable : graph.Reachable) (leftHas : graph.Has left)
    (rightHas : graph.Has right) :
    ∃ outcome later, (Build.unify left right).on graph = (outcome, later) ∧
      (outcome = .ok () ∨ ∃ mismatch, outcome = .error (.mismatch mismatch)) ∧
      (outcome = .ok () ↔ ¬ graph.Clashing left right) ∧
      (outcome = .ok () → ∀ first second, graph.Has first → graph.Has second →
        ((∃ target, later.deref first = .ok target ∧ later.deref second = .ok target) ↔
          graph.Congruent left right first second)) := by
  have tidy := reachable.tidy
  have yields := Build.yields_unify (Progress graph left right)
    (fun wellFormed leftRooted rightRooted step progress =>
      progress.step wellFormed leftRooted rightRooted step)
    tidy.wellFormed tidy.folded leftHas rightHas (.initial graph left right)
  rcases ran : (Build.unify left right).on graph with ⟨failure | value, later⟩
  · rcases yields.of_error ran with
      ⟨⟨mismatch, rfl⟩, wellFormed, _, _, first, second, waiting, leftRoot, rightRoot,
        leftNode, rightNode, leftRooted, rightRooted, clash, progress⟩
    have clashing := progress.clashing tidy.wellFormed wellFormed leftRooted
      rightRooted clash
    exact ⟨_, later, rfl, .inr ⟨mismatch, rfl⟩,
      ⟨nofun, fun none => absurd clashing none⟩, nofun⟩
  · rcases yields.of_ok ran with ⟨wellFormed, _, size, progress⟩
    refine ⟨_, later, rfl, .inl rfl,
      ⟨fun _ => progress.not_clashing tidy.wellFormed wellFormed,
      fun _ => rfl⟩, fun _ first second firstHas secondHas => ?_⟩
    rw [Has, ← size] at firstHas secondHas
    constructor
    · rintro ⟨target, firstDeref, secondDeref⟩
      exact .trans (progress.congruent_of_leads (leads_of_follow firstDeref))
        (.symm (progress.congruent_of_leads (leads_of_follow secondDeref)))
    · intro related
      rcases wellFormed.settles first firstHas with ⟨root, node, rooted⟩
      have same := progress.same_of_congruent tidy.wellFormed wellFormed related
      exact ⟨root, rooted.deref, (rooted.of_same same).deref⟩

theorem unify_endlessLists :
    endlessLists.Reachable ∧ endlessLists.Has ⟨2⟩ ∧ endlessLists.Has ⟨4⟩ ∧
      ¬ endlessLists.Clashing ⟨2⟩ ⟨4⟩ ∧ endlessLists.Congruent ⟨2⟩ ⟨4⟩ ⟨1⟩ ⟨3⟩ := by
  have leftHas : endlessLists.Has ⟨2⟩ := by decide
  have rightHas : endlessLists.Has ⟨4⟩ := by decide
  rcases unify_least_congruence reachable_endlessLists leftHas rightHas with
    ⟨outcome, later, ran, ends, succeeds, same⟩
  have isOk : ((Build.unify ⟨2⟩ ⟨4⟩).on endlessLists).1.isOk := by decide +kernel
  have firstDeref : ((Build.unify ⟨2⟩ ⟨4⟩).on endlessLists).2.deref ⟨1⟩ = .ok ⟨2⟩ := by
    decide +kernel
  have secondDeref : ((Build.unify ⟨2⟩ ⟨4⟩).on endlessLists).2.deref ⟨3⟩ = .ok ⟨2⟩ := by
    decide +kernel
  rw [ran] at isOk firstDeref secondDeref
  have done : outcome = .ok () := ends.resolve_right fun ⟨_, failed⟩ => by
    rw [failed] at isOk
    cases isOk
  exact ⟨reachable_endlessLists, leftHas, rightHas, succeeds.1 done,
    (same done ⟨1⟩ ⟨3⟩ (by decide) (by decide)).1 ⟨_, firstDeref, secondDeref⟩⟩

end TypeGraph

end Casework
