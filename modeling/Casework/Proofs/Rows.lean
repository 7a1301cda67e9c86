import Casework.Proofs.Unification

/-!
Rows and what becomes of them.

A row has each label once. The bound of a row has the labels of its members, in any order.
Both stay so when a member is stored, when a variant is sealed and when two rows are made
one.
-/

namespace Casework

namespace Row

variable {row : Row} {label : String} {ref : Ref}

/-! ## Entries -/

theorem mem_refs_iff : ref ∈ row.refs ↔ ∃ label, (label, ref) ∈ row.entries := by
  simp [refs]

theorem mem_of_get? (found : row.get? label = some ref) : (label, ref) ∈ row.entries :=
  mem_of_findEntry found

theorem mem_refs_of_get? (found : row.get? label = some ref) : ref ∈ row.refs :=
  mem_refs_iff.2 ⟨label, mem_of_get? found⟩

theorem findEntry_of_mem {entries : List (String × Ref)}
    (distinct : (entries.map Prod.fst).Nodup) (member : (label, ref) ∈ entries) :
    findEntry label entries = some ref := by
  induction entries with
  | nil => cases member
  | cons entry rest induction =>
      rcases entry with ⟨name, own⟩
      rw [List.map_cons, List.nodup_cons] at distinct
      rcases List.mem_cons.1 member with equal | further
      · cases equal
        exact if_pos rfl
      · have different : name ≠ label := by
          rintro rfl
          exact distinct.1 (List.mem_map.2 ⟨_, further, rfl⟩)
        rw [findEntry, if_neg different]
        exact induction distinct.2 further

theorem get?_eq_some_iff (distinct : row.labels.Nodup) :
    row.get? label = some ref ↔ (label, ref) ∈ row.entries :=
  ⟨mem_of_get?, findEntry_of_mem distinct⟩

theorem get?_eq_none_iff : row.get? label = none ↔ row.contains label = false := by
  rw [contains, Option.isSome_eq_false_iff, Option.isNone_iff_eq_none]

theorem exists_get?_of_contains (has : row.contains label) :
    ∃ ref, row.get? label = some ref :=
  Option.isSome_iff_exists.1 has

/-! ## Storing -/

theorem putEntry_of_absent {entries : List (String × Ref)}
    (absent : findEntry label entries = none) :
    putEntry label ref entries = entries ++ [(label, ref)] := by
  induction entries with
  | nil => rfl
  | cons entry rest induction =>
      rcases entry with ⟨name, own⟩
      rw [findEntry] at absent
      split at absent
      · cases absent
      next different =>
          rw [putEntry, if_neg different, induction absent, List.cons_append]

theorem entries_put_of_absent (absent : row.get? label = none) :
    (row.put label ref).entries = row.entries ++ [(label, ref)] :=
  putEntry_of_absent absent

theorem map_fst_putEntry {entries : List (String × Ref)}
    (present : (findEntry label entries).isSome) :
    (putEntry label ref entries).map Prod.fst = entries.map Prod.fst := by
  induction entries with
  | nil => cases present
  | cons entry rest induction =>
      rcases entry with ⟨name, own⟩
      rw [findEntry] at present
      split at present
      next equal => simp [putEntry, equal]
      next different => simp [putEntry, different, induction present]

theorem nodup_labels_put (distinct : row.labels.Nodup) :
    (row.put label ref).labels.Nodup := by
  cases found : row.get? label with
  | none =>
      have absent : label ∉ row.labels := by
        rw [← contains_iff, contains, found]
        exact Bool.false_ne_true
      rw [labels, entries_put_of_absent found, List.map_append, List.nodup_append]
      refine ⟨distinct, by simp, fun own listed other single equal => ?_⟩
      rw [equal, List.mem_singleton.1 single] at listed
      exact absent listed
  | some own =>
      rw [labels, put, map_fst_putEntry (by rw [← get?, found]; rfl)]
      exact distinct

theorem mem_putEntry {entries : List (String × Ref)} {entry : String × Ref}
    (member : entry ∈ putEntry label ref entries) :
    entry ∈ entries ∨ entry = (label, ref) := by
  induction entries with
  | nil => exact .inr (List.mem_singleton.1 member)
  | cons head rest induction =>
      rcases head with ⟨name, own⟩
      rw [putEntry] at member
      split at member
      next equal =>
          rcases List.mem_cons.1 member with same | further
          · exact .inr same
          · exact .inl (List.mem_cons_of_mem _ further)
      next =>
          rcases List.mem_cons.1 member with same | further
          · exact .inl (same ▸ List.mem_cons_self)
          · exact (induction further).imp (List.mem_cons_of_mem _) id

theorem mem_refs_put {own : Ref} (member : own ∈ (row.put label ref).refs) :
    own ∈ row.refs ∨ own = ref := by
  rcases mem_refs_iff.1 member with ⟨name, stored⟩
  rcases mem_putEntry stored with old | new
  · exact .inl (mem_refs_iff.2 ⟨name, old⟩)
  · cases new
    exact .inr rfl

theorem contains_put {other : String} :
    (row.put label ref).contains other ↔ row.contains other ∨ other = label := by
  by_cases equal : other = label
  · subst equal
    simp [contains]
  · simp [contains, row.get?_put_of_ne equal, equal]

theorem foldl_put_spec (entries : List (String × Ref)) (row : Row)
    (distinct : row.labels.Nodup) :
    (entries.foldl (fun row (label, ref) => row.put label ref) row).labels.Nodup ∧
      ∀ own ∈ (entries.foldl (fun row (label, ref) => row.put label ref) row).refs,
        own ∈ row.refs ∨ own ∈ entries.map Prod.snd := by
  induction entries generalizing row with
  | nil => exact ⟨distinct, fun own member => .inl member⟩
  | cons entry rest induction =>
      rcases entry with ⟨name, type⟩
      have parts := induction (row.put name type) (nodup_labels_put distinct)
      refine ⟨parts.1, fun own member => ?_⟩
      rcases parts.2 own member with stored | further
      · rcases mem_refs_put stored with old | rfl
        · exact .inl old
        · exact .inr List.mem_cons_self
      · exact .inr (List.mem_cons_of_mem _ further)

theorem ofList_spec (entries : List (String × Ref)) :
    (ofList entries).labels.Nodup ∧ ∀ own ∈ (ofList entries).refs,
      own ∈ entries.map Prod.snd := by
  have parts := foldl_put_spec entries empty List.nodup_nil
  exact ⟨parts.1, fun own member => (parts.2 own member).resolve_left List.not_mem_nil⟩

/-! ## Restricting -/

theorem nodup_labels_within {other : Row} (distinct : row.labels.Nodup) :
    (row.within other).labels.Nodup :=
  distinct.sublist (List.filter_sublist.map _)

theorem contains_within {other : Row} :
    (row.within other).contains label ↔ row.contains label ∧ other.contains label := by
  simp only [contains_iff]
  constructor
  · intro listed
    exact ⟨row.labels_within_subset other listed, mem_labels_of_within listed⟩
  · rintro ⟨listed, also⟩
    rcases List.mem_map.1 listed with ⟨entry, member, rfl⟩
    exact List.mem_map_of_mem (List.mem_filter.2 ⟨member, contains_iff.2 also⟩)

theorem get?_within {other : Row} (distinct : row.labels.Nodup)
    (also : other.contains label) :
    (row.within other).get? label = row.get? label := by
  apply Option.ext
  intro ref
  rw [get?_eq_some_iff distinct, get?_eq_some_iff (nodup_labels_within distinct)]
  simp [within, also]

theorem get?_of_within {other : Row} (distinct : row.labels.Nodup)
    (found : (row.within other).get? label = some ref) :
    row.get? label = some ref ∧ other.contains label := by
  have listed : (row.within other).contains label := by
    rw [contains, found]
    rfl
  have also := (contains_within.1 listed).2
  rw [get?_within distinct also] at found
  exact ⟨found, also⟩

theorem within_eq_self {other : Row}
    (inside : ∀ label ∈ row.labels, other.contains label) : row.within other = row := by
  rcases row with ⟨entries⟩
  rw [within, Row.mk.injEq]
  apply List.filter_eq_self.2
  rintro ⟨label, ref⟩ member
  exact inside label (List.mem_map.2 ⟨_, member, rfl⟩)

theorem refs_within_sublist {other : Row} : (row.within other).refs.Sublist row.refs :=
  List.filter_sublist.map _

/-! ## Fairness -/

/-- Each label stands once among the members, and a bound has the labels of the
members. -/
structure Fair (members : Row) (bound : Option Row) : Prop where
  distinct : members.labels.Nodup
  bounded : ∀ row ∈ bound, row.labels.Nodup
  agreed : ∀ row ∈ bound, ∀ label, row.contains label ↔ members.contains label

theorem fair_ofList (entries : List (String × Ref)) : (ofList entries).Fair none :=
  ⟨(ofList_spec entries).1, nofun, nofun⟩

theorem Fair.seal {members : Row} {bound : Option Row} (fair : members.Fair bound) :
    members.Fair (some members) where
  distinct := fair.distinct
  bounded := by
    rintro row ⟨⟩
    exact fair.distinct
  agreed := by
    rintro row ⟨⟩ label
    exact Iff.rfl

/-- A name that a bound allows is stored without new names, and any name where there is no
bound. -/
theorem Fair.put {members : Row} {bound : Option Row} (fair : members.Fair bound)
    (allowed : bound.all (·.contains label)) : (members.put label ref).Fair bound where
  distinct := nodup_labels_put fair.distinct
  bounded := fair.bounded
  agreed := by
    rintro row ⟨⟩ name
    rw [contains_put, fair.agreed row rfl name]
    constructor
    · exact .inl
    · rintro (listed | rfl)
      · exact listed
      · exact (fair.agreed row rfl name).1 allowed

theorem Fair.put_unbounded {members : Row} (fair : members.Fair none) :
    (members.put label ref).Fair none := fair.put rfl

theorem contains_congr {row other : Row} (labels : row.labels = other.labels)
    (label : String) :
    row.contains label ↔ other.contains label := by
  rw [contains_iff, contains_iff, labels]

theorem Fair.of_labels {members other : Row} {bound otherBound : Option Row}
    (fair : members.Fair bound) (labels : other.labels = members.labels)
    (bounds : otherBound.map Row.labels = bound.map Row.labels) :
    other.Fair otherBound := by
  have twin : ∀ row ∈ otherBound, ∃ own ∈ bound, row.labels = own.labels := by
    rintro row ⟨⟩
    rcases Option.map_eq_some_iff.1 bounds.symm with ⟨own, isOwn, same⟩
    exact ⟨own, isOwn, same.symm⟩
  constructor
  · rw [labels]
    exact fair.distinct
  · intro row isBound
    rcases twin row isBound with ⟨own, isOwn, same⟩
    rw [same]
    exact fair.bounded own isOwn
  · intro row isBound label
    rcases twin row isBound with ⟨own, isOwn, same⟩
    rw [contains_congr same, contains_congr labels]
    exact fair.agreed own isOwn label

theorem Fair.unbounded {members : Row} {bound : Option Row} (fair : members.Fair bound)
    (absent : members.get? label = none) (allowed : bound.all (·.contains label)) :
    bound = none := by
  cases bound with
  | none => rfl
  | some row =>
      have listed := (fair.agreed row rfl label).1 allowed
      rw [get?_eq_none_iff.1 absent] at listed
      cases listed

end Row

def Form.Fair : Form → Prop
  | .row _ members bound => members.Fair bound
  | _ => True

/-! ## Two rows made one -/

namespace Build

variable {leftMembers rightMembers : Row} {leftBound rightBound : Option Row}

theorem foldl_put_entries (entries : List (String × Ref)) (row : Row)
    (distinct : (entries.map Prod.fst).Nodup) :
    (entries.foldl
      (fun row (name, type) => if row.contains name then row else row.put name type)
      row).entries = row.entries ++ entries.filter fun (name, _) =>
        !row.contains name := by
  induction entries generalizing row with
  | nil => simp
  | cons entry rest induction =>
      rcases entry with ⟨name, type⟩
      rw [List.map_cons, List.nodup_cons] at distinct
      rw [List.foldl_cons, induction _ distinct.2]
      dsimp only
      by_cases has : row.contains name = true
      · rw [if_pos has, List.filter_cons_of_neg (by simp [has])]
      · have absent : row.get? name = none := Row.get?_eq_none_iff.2 (by simpa using has)
        rw [if_neg has, Row.entries_put_of_absent absent, List.append_assoc,
          List.filter_cons_of_pos (by simpa using has), List.singleton_append]
        congr 2
        apply List.filter_congr
        rintro ⟨other, own⟩ member
        have different : other ≠ name := by
          rintro rfl
          exact distinct.1 (List.mem_map.2 ⟨_, member, rfl⟩)
        simp [Row.contains, row.get?_put_of_ne different]

/-- The members of the second row that the first one lacks come after those of the
first. -/
theorem entries_mergeRows (distinct : rightMembers.labels.Nodup) :
    (mergeRows leftMembers leftBound rightMembers rightBound).members.entries =
      leftMembers.entries ++ rightMembers.entries.filter fun (name, _) =>
        !leftMembers.contains name :=
  foldl_put_entries rightMembers.entries leftMembers distinct

theorem contains_mergeRows {label : String} :
    (mergeRows leftMembers leftBound rightMembers rightBound).members.contains label ↔
      leftMembers.contains label ∨ rightMembers.contains label := by
  simp [Row.contains, get?_mergeRows, Option.isSome_or]

theorem bound_mergeRows_cases {whole : Row}
    (isWhole : (mergeRows leftMembers leftBound rightMembers rightBound).bound =
      some whole) :
    leftBound = some whole ∧ rightBound = none ∨ leftBound = none ∧
      rightBound = some whole ∨
      ∃ left right, leftBound = some left ∧ rightBound = some right ∧ whole =
        left.within right := by
  cases leftBound with
  | none => exact .inr (.inl ⟨rfl, isWhole⟩)
  | some left =>
      cases rightBound with
      | none => exact .inl ⟨isWhole, rfl⟩
      | some right =>
          cases isWhole
          exact .inr (.inr ⟨left, right, rfl, rfl, rfl⟩)

theorem namesAllowed_iff (left : leftMembers.Fair leftBound)
    (right : rightMembers.Fair rightBound) :
    NamesAllowed leftMembers leftBound rightMembers rightBound ↔
      (∀ row ∈ leftBound, ∀ label, rightMembers.contains label → row.contains label) ∧
        ∀ row ∈ rightBound, ∀ label, leftMembers.contains label → row.contains label := by
  unfold NamesAllowed jointBound
  cases leftBound with
  | none =>
      cases rightBound with
      | none => simp
      | some other =>
          have own := right.agreed other rfl
          simp only [Option.some.injEq, forall_eq', List.mem_append, ← Row.contains_iff,
            Option.mem_def, reduceCtorEq, false_implies, implies_true, true_and]
          constructor
          · exact fun allowed label listed => allowed label (.inl listed)
          · rintro allowed label (listed | listed)
            · exact allowed label listed
            · exact (own label).2 listed
  | some row =>
      have own := left.agreed row rfl
      cases rightBound with
      | none =>
          simp only [Option.some.injEq, forall_eq', List.mem_append, ← Row.contains_iff,
            Option.mem_def, reduceCtorEq, false_implies, implies_true, and_true]
          constructor
          · exact fun allowed label listed => allowed label (.inr listed)
          · rintro allowed label (listed | listed)
            · exact (own label).2 listed
            · exact allowed label listed
      | some other =>
          have also := right.agreed other rfl
          simp only [Option.some.injEq, forall_eq', List.mem_append, ← Row.contains_iff,
            Option.mem_def, Row.contains_within]
          constructor
          · intro allowed
            exact ⟨fun label listed => (allowed label (.inr listed)).1,
              fun label listed => (allowed label (.inl listed)).2⟩
          · rintro ⟨first, second⟩ label (listed | listed)
            · exact ⟨(own label).2 listed, second label listed⟩
            · exact ⟨first label listed, (also label).2 listed⟩

theorem fair_mergeRows (left : leftMembers.Fair leftBound)
    (right : rightMembers.Fair rightBound)
    (allowed : NamesAllowed leftMembers leftBound rightMembers rightBound) :
    (mergeRows leftMembers leftBound rightMembers rightBound).members.Fair
      (mergeRows leftMembers leftBound rightMembers rightBound).bound where
  distinct := by
    rw [Row.labels, entries_mergeRows right.distinct, List.map_append, List.nodup_append]
    refine ⟨left.distinct, right.distinct.sublist (List.filter_sublist.map _), ?_⟩
    rintro label listed other also rfl
    rcases List.mem_map.1 also with ⟨entry, member, rfl⟩
    have absent := (List.mem_filter.1 member).2
    rw [Bool.not_eq_true', Bool.eq_false_iff] at absent
    exact absent (Row.contains_iff.2 listed)
  bounded := by
    intro row bounded
    cases leftBound with
    | none => exact right.bounded row bounded
    | some own =>
        cases rightBound with
        | none => exact left.bounded row bounded
        | some other =>
            cases bounded
            exact Row.nodup_labels_within (left.bounded own rfl)
  agreed := by
    intro row bounded label
    rw [contains_mergeRows]
    constructor
    · intro listed
      cases leftBound with
      | none => exact .inr ((right.agreed row bounded label).1 listed)
      | some own =>
          cases rightBound with
          | none => exact .inl ((left.agreed row bounded label).1 listed)
          | some other =>
              cases bounded
              exact .inl ((left.agreed own rfl label).1 (Row.contains_within.1 listed).1)
    · intro listed
      have joint : jointBound leftBound rightBound = some row.labels := by
        rw [jointBound_eq, bounded]
        rfl
      have inside := allowed row.labels joint label
      rw [List.mem_append, ← Row.contains_iff, ← Row.contains_iff,
        ← Row.contains_iff] at inside
      exact inside listed

theorem mem_refs_mergeRows {kind : RowKind} {own : Ref}
    (member : own ∈
      (Form.row kind (mergeRows leftMembers leftBound rightMembers rightBound).members
      (mergeRows leftMembers leftBound rightMembers rightBound).bound).refs) :
    own ∈ (Form.row kind leftMembers leftBound).refs ∨
      own ∈ (Form.row kind rightMembers rightBound).refs := by
  simp only [Form.refs, List.mem_append] at member ⊢
  rcases member with member | bounded
  · suffices kept : ∀ (entries : List (String × Ref)) (row : Row),
        own ∈ (entries.foldl (fun row (name, type) =>
          if row.contains name then row else row.put name type) row).refs →
        own ∈ row.refs ∨ own ∈ entries.map Prod.snd by
      rcases kept rightMembers.entries leftMembers member with left | right
      · exact .inl (.inl left)
      · exact .inr (.inl right)
    intro entries
    induction entries with
    | nil => exact fun row stored => .inl stored
    | cons entry rest induction =>
        intro row stored
        rcases entry with ⟨name, type⟩
        rcases induction _ stored with earlier | further
        · dsimp only at earlier
          split at earlier
          · exact .inl earlier
          · rcases Row.mem_refs_put earlier with old | rfl
            · exact .inl old
            · exact .inr List.mem_cons_self
        · exact .inr (List.mem_cons_of_mem _ further)
  · cases leftBound with
    | none =>
        cases rightBound with
        | none => cases bounded
        | some other => exact .inr (.inr bounded)
    | some row =>
        cases rightBound with
        | none => exact .inl (.inr bounded)
        | some other => exact .inl (.inr (Row.refs_within_sublist.subset bounded))

theorem members_mergeRows_of_labels (distinct : rightMembers.labels.Nodup)
    (labels : rightMembers.labels = leftMembers.labels) :
    (mergeRows leftMembers leftBound rightMembers rightBound).members = leftMembers := by
  have nothing :
      (rightMembers.entries.filter fun (name, _) => !leftMembers.contains name) = [] := by
    rw [List.filter_eq_nil_iff]
    rintro ⟨name, type⟩ member
    have listed : name ∈ rightMembers.labels := List.mem_map.2 ⟨_, member, rfl⟩
    rw [labels, ← Row.contains_iff] at listed
    simpa using listed
  have entries :
      (mergeRows leftMembers leftBound rightMembers rightBound).members.entries = _ :=
    entries_mergeRows distinct
  rw [nothing, List.append_nil] at entries
  cases leftMembers
  exact congrArg Row.mk entries

theorem bound_mergeRows_of_labels
    (bounds : rightBound.map Row.labels = leftBound.map Row.labels) :
    (mergeRows leftMembers leftBound rightMembers rightBound).bound = leftBound := by
  cases leftBound with
  | none =>
      cases rightBound with
      | none => rfl
      | some other => cases bounds
  | some bound =>
      cases rightBound with
      | none => cases bounds
      | some other =>
          have same : other.labels = bound.labels := Option.some.inj bounds
          exact congrArg some (Row.within_eq_self fun label listed =>
            Row.contains_iff.2 (same ▸ listed))

/-- Two types are stored under one name, each in one of two rows or in their bounds. -/
theorem of_mem_pairs {pair : Ref × Ref}
    (member : pair ∈ (mergeRows leftMembers leftBound rightMembers rightBound).pairs) :
    (∃ name, leftMembers.get? name = some pair.1 ∧
      (name, pair.2) ∈ rightMembers.entries) ∨
    (∃ name left right, leftBound = some left ∧ rightBound = some right ∧
      (name, pair.1) ∈ left.entries ∧ right.get? name = some pair.2) ∨
    ∃ name row,
      (mergeRows leftMembers leftBound rightMembers rightBound).bound = some row ∧
      (name, pair.1) ∈
        (mergeRows leftMembers leftBound rightMembers rightBound).members.entries ∧
        row.get? name = some pair.2 ∧ pair.2 ≠ pair.1 := by
  rcases List.mem_append.1 member with front | cross
  · rcases List.mem_append.1 front with first | second
    · rcases List.mem_filterMap.1 first with ⟨⟨name, right⟩, stored, made⟩
      rcases Option.map_eq_some_iff.1 made with ⟨left, found, rfl⟩
      exact .inl ⟨name, found, stored⟩
    · right
      left
      cases leftBound with
      | none => cases second
      | some left =>
          cases rightBound with
          | none => cases second
          | some right =>
              rcases List.mem_filterMap.1 second with ⟨⟨name, own⟩, stored, made⟩
              rcases Option.map_eq_some_iff.1 made with ⟨other, found, rfl⟩
              exact ⟨name, left, right, rfl, rfl, stored, found⟩
  · right
    right
    rcases List.mem_filterMap.1 cross with ⟨⟨name, type⟩, stored, made⟩
    dsimp only at made
    split at made
    next other found =>
        split at made
        · cases made
        next different =>
            cases made
            rcases Option.bind_eq_some_iff.1 found with ⟨row, bounded, got⟩
            exact ⟨name, row, bounded, stored, got, different⟩
    next => cases made

theorem mem_pairs_of_members {name : String} {left right : Ref}
    (leftFound : leftMembers.get? name = some left)
    (rightFound : rightMembers.get? name = some right) :
    (left, right) ∈ (mergeRows leftMembers leftBound rightMembers rightBound).pairs := by
  apply List.mem_append_left
  apply List.mem_append_left
  exact List.mem_filterMap.2
    ⟨(name, right), Row.mem_of_get? rightFound, by simp [leftFound]⟩

theorem mem_pairs_of_bounds {leftRow rightRow : Row} {name : String} {left right : Ref}
    (leftFound : leftRow.get? name = some left)
    (rightFound : rightRow.get? name = some right) :
    (left, right) ∈
      (mergeRows leftMembers (some leftRow) rightMembers (some rightRow)).pairs := by
  apply List.mem_append_left
  apply List.mem_append_right
  exact List.mem_filterMap.2
    ⟨(name, left), Row.mem_of_get? leftFound, by simp [rightFound]⟩

theorem crossPair_eq {allowed : Option Ref} {type other : Ref}
    (different : ¬ other = type) :
    allowed = some other → (match allowed with
      | some other => if other = type then none else some (type, other)
      | none => none) = some (type, other) := by
  rintro rfl
  exact if_neg different

theorem eq_or_mem_pairs_of_cross {row : Row} {name : String} {type other : Ref}
    (found : (mergeRows leftMembers leftBound rightMembers rightBound).members.get?
      name = some type)
    (bounded : (mergeRows leftMembers leftBound rightMembers rightBound).bound = some row)
    (got : row.get? name = some other) :
    other = type ∨ (type, other) ∈
      (mergeRows leftMembers leftBound rightMembers rightBound).pairs := by
  by_cases equal : other = type
  · exact .inl equal
  · right
    apply List.mem_append_right
    refine List.mem_filterMap.2 ⟨(name, type), Row.mem_of_get? found, ?_⟩
    have listed : ((mergeRows leftMembers leftBound rightMembers rightBound).bound.bind
        (·.get? name)) = some other := by
      rw [bounded]
      exact got
    exact crossPair_eq equal listed

end Build

end Casework
