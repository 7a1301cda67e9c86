import Casework.Proofs.Reordering

/-!
Variants are sealed in any order.

Sealing leaves links and coverage alone, so whether a variant is to be sealed for one type
does not depend on what was sealed before, except that it cannot be sealed twice. Two
types that stand for one variant seal it once, whichever comes first. The induction is on
the permutation of the types, and its only step that says something is the exchange of two
neighbours.
-/

namespace Casework

/-! ## Sorted texts -/

theorem sortTexts_perm {texts others : List String} (perm : texts.Perm others) :
    sortTexts texts = sortTexts others := by
  have transitive : ∀ first second third : String, (!decide (second < first)) = true →
      (!decide (third < second)) = true → (!decide (third < first)) = true := by
    intro first second third below above
    simp only [Bool.not_eq_true', decide_eq_false_iff_not, String.not_lt] at below above ⊢
    exact String.le_trans below above
  have total : ∀ first second : String,
      ((!decide (second < first)) || (!decide (first < second))) = true := by
    intro first second
    simp only [Bool.or_eq_true, Bool.not_eq_true', decide_eq_false_iff_not, String.not_lt]
    exact String.le_total first second
  have sorted : ∀ own : List String, (sortTexts own).Pairwise fun left right =>
      (!decide (right < left)) = true := List.pairwise_mergeSort transitive total
  refine List.Perm.eq_of_pairwise ?_ (sorted texts) (sorted others) ?_
  · intro first second _ _ below above
    simp only [Bool.not_eq_true', decide_eq_false_iff_not, String.not_lt] at below above
    exact String.le_antisymm below above
  · exact (List.mergeSort_perm texts _).trans
      (perm.trans (List.mergeSort_perm others _).symm)

/-! ## Sealing for one type -/

namespace Node

def sealTags (node : Node) : Node :=
  match node.form with
  | .row .variant members none =>
      { node with
        form := .row .variant members (some members)
        marks := { node.marks with collecting := false } }
  | _ => node

def isOpenVariant (node : Node) : Bool :=
  match node.form with
  | .row .variant _ none => true
  | _ => false

theorem sealTags_of_form {node : Node} {members : Row}
    (form : node.form = .row .variant members none) :
    node.sealTags = { node with
      form := .row .variant members (some members)
      marks := { node.marks with collecting := false } } := by
  rw [sealTags, form]

theorem exists_form_of_isOpenVariant {node : Node} (isOpen : node.isOpenVariant = true) :
    ∃ members, node.form = .row .variant members none := by
  unfold isOpenVariant at isOpen
  split at isOpen
  next members form => exact ⟨members, form⟩
  next => cases isOpen

theorem link_sealTags (node : Node) : node.sealTags.link = node.link := by
  unfold sealTags
  split <;> rfl

theorem any_sealTags (node : Node) : node.sealTags.marks.any = node.marks.any := by
  unfold sealTags
  split <;> rfl

theorem isOpenVariant_sealTags (node : Node) : node.sealTags.isOpenVariant = false := by
  cases isOpen : node.isOpenVariant with
  | true =>
      rcases exists_form_of_isOpenVariant isOpen with ⟨members, form⟩
      rw [sealTags_of_form form]
      rfl
  | false =>
      unfold sealTags
      split
      next members form => simp [isOpenVariant, form] at isOpen
      next => exact isOpen

end Node

namespace TypeGraph

variable {graph later : TypeGraph} {ref other root : Ref} {node : Node}

/-- The variant that is sealed for a type: the one that stands for it, if it is open and
no pattern covers it. -/
def toSeal (graph : TypeGraph) (ref : Ref) : Option Ref :=
  match graph.root ref with
  | .error _ => none
  | .ok node =>
      if node.isOpenVariant && !graph.covers ref && !node.marks.any then
        (graph.deref ref).toOption
      else none

/-- The graph after a variant has been sealed, if one is. -/
def sealed (graph : TypeGraph) : Option Ref → TypeGraph
  | some root => graph.update root Node.sealTags
  | none => graph

def sealings (graph : TypeGraph) : List Ref → List Ref × TypeGraph
  | [] => ([], graph)
  | ref :: rest =>
      let others := (graph.sealed (graph.toSeal ref)).sealings rest
      ((graph.toSeal ref).toList ++ others.1, others.2)

theorem toSeal_of_rooted (rooted : graph.Rooted ref root node) :
    graph.toSeal ref =
      if node.isOpenVariant && !graph.covers ref && !node.marks.any then
        some root else none := by
  rw [toSeal, rooted.deref, rooted.root]
  rfl

theorem covers_of_node (found : graph.node ref = .ok node) :
    graph.covers ref = node.marks.any := by
  rw [covers, found]

theorem Alters.covers {before after : Node}
    (alters : graph.Alters later root before after)
    (any : after.marks.any = before.marks.any) (has : graph.Has ref) :
    later.covers ref = graph.covers ref := by
  rcases TypeGraph.has_iff.1 has with ⟨node, found⟩
  by_cases equal : ref = root
  · subst equal
    rw [covers_of_node alters.changed, covers_of_node alters.found, any]
  · rw [covers_of_node ((alters.others ref equal).trans found), covers_of_node found]

theorem rooted_of_toSeal (wellFormed : graph.WellFormed) (has : graph.Has ref)
    (isSealing : graph.toSeal ref = some root) :
    ∃ node, graph.Rooted ref root node ∧ node.isOpenVariant = true := by
  rcases wellFormed.settles ref has with ⟨target, node, rooted⟩
  rw [toSeal_of_rooted rooted] at isSealing
  split at isSealing
  next chosen =>
      cases isSealing
      simp only [Bool.and_eq_true] at chosen
      exact ⟨node, rooted, chosen.1.1⟩
  next => cases isSealing

theorem size_sealed (graph : TypeGraph) (chosen : Option Ref) :
    (graph.sealed chosen).size = graph.size := by
  cases chosen with
  | none => rfl
  | some root => exact size_update graph root _

theorem wellFormed_sealed (wellFormed : graph.WellFormed) (has : graph.Has ref) :
    (graph.sealed (graph.toSeal ref)).WellFormed := by
  cases isSealing : graph.toSeal ref with
  | none => exact wellFormed
  | some root =>
      rcases rooted_of_toSeal wellFormed has isSealing with ⟨node, rooted, isOpen⟩
      rcases node.exists_form_of_isOpenVariant isOpen with ⟨members, form⟩
      have fair := wellFormed.fair root node rooted.found
      rw [form] at fair
      have alters := alters_update rooted.found Node.sealTags
      rw [Node.sealTags_of_form form] at alters
      refine alters.wellFormed rfl wellFormed (fun part listed => ?_) (Row.Fair.seal fair)
      refine wellFormed.has_part rooted.found ?_
      rw [form]
      exact List.mem_append_left _ ((List.mem_append.1 listed).elim id id)

theorem toSeal_sealed (wellFormed : graph.WellFormed) (has : graph.Has ref)
    (otherHas : graph.Has other) :
    (graph.sealed (graph.toSeal ref)).toSeal other =
      if graph.toSeal other = graph.toSeal ref then none else graph.toSeal other := by
  cases isSealing : graph.toSeal ref with
  | none =>
      split
      next same => exact same
      next => rfl
  | some root =>
      rcases rooted_of_toSeal wellFormed has isSealing with ⟨node, rooted, isOpen⟩
      rcases wellFormed.settles other otherHas with ⟨target, own, otherRooted⟩
      have alters := alters_update rooted.found Node.sealTags
      have laterRooted := alters.rooted node.link_sealTags otherRooted
      rw [sealed, toSeal_of_rooted laterRooted, toSeal_of_rooted otherRooted,
        alters.covers node.any_sealTags otherHas]
      by_cases equal : target = root
      · subst equal
        rw [if_pos rfl, Node.isOpenVariant_sealTags]
        simp
      · rw [if_neg equal]
        simp [equal]

theorem sealed_sealed (wellFormed : graph.WellFormed) (has : graph.Has ref)
    (otherHas : graph.Has other) :
    (graph.sealed (graph.toSeal ref)).sealed
      ((graph.sealed (graph.toSeal ref)).toSeal other) =
      (graph.sealed (graph.toSeal other)).sealed
        ((graph.sealed (graph.toSeal other)).toSeal ref) := by
  rw [toSeal_sealed wellFormed has otherHas, toSeal_sealed wellFormed otherHas has]
  by_cases same : graph.toSeal ref = graph.toSeal other
  · rw [if_pos same, if_pos same.symm, same]
  · rw [if_neg same, if_neg (Ne.symm same)]
    cases left : graph.toSeal ref with
    | none => cases graph.toSeal other <;> rfl
    | some own =>
        cases right : graph.toSeal other with
        | none => rfl
        | some twin =>
            have apart : own ≠ twin := by
              rintro rfl
              exact same (left.trans right.symm)
            exact update_comm graph apart _ _

/-! ## Sealing for many types -/

theorem sealings_perm {refs others : List Ref} (perm : refs.Perm others)
    (wellFormed : graph.WellFormed) (named : ∀ ref ∈ refs, graph.Has ref) :
    (graph.sealings refs).1.Perm (graph.sealings others).1 ∧
      (graph.sealings refs).2 = (graph.sealings others).2 := by
  have stays : ∀ {graph : TypeGraph} {ref other : Ref}, graph.Has other →
      (graph.sealed (graph.toSeal ref)).Has other :=
    fun has => has.mono (size_sealed ..).ge
  induction perm generalizing graph with
  | nil => exact ⟨.refl _, rfl⟩
  | @cons ref rest otherRest _ induction =>
      have has := named ref List.mem_cons_self
      rcases induction (wellFormed_sealed wellFormed has) fun own member =>
        stays (named own (List.mem_cons_of_mem _ member)) with ⟨same, left⟩
      exact ⟨same.append_left _, left⟩
  | swap ref other rest =>
      have has := named ref (List.mem_cons_of_mem _ List.mem_cons_self)
      have otherHas := named other List.mem_cons_self
      have commutes := sealed_sealed wellFormed otherHas has
      have chosen : ((graph.toSeal other).toList ++
          ((graph.sealed (graph.toSeal other)).toSeal ref).toList).Perm
          ((graph.toSeal ref).toList ++
            ((graph.sealed (graph.toSeal ref)).toSeal other).toList) := by
        rw [toSeal_sealed wellFormed otherHas has, toSeal_sealed wellFormed has otherHas]
        by_cases same : graph.toSeal ref = graph.toSeal other
        · rw [if_pos same, if_pos same.symm, same]
        · rw [if_neg same, if_neg (Ne.symm same)]
          exact List.perm_append_comm
      simp only [sealings, ← List.append_assoc, commutes]
      exact ⟨chosen.append_right _, trivial⟩
  | trans first _ induction inductionToo =>
      rcases induction wellFormed named with ⟨same, left⟩
      rcases inductionToo wellFormed fun ref member =>
        named ref (first.mem_iff.2 member) with
        ⟨sameToo, leftToo⟩
      exact ⟨same.trans sameToo, left.trans leftToo⟩

end TypeGraph

namespace Build

open TypeGraph

variable {graph : TypeGraph} {ref : Ref} {failed : Failure → TypeGraph → Prop}

theorem yields_sealVariant_sealTags {root : Ref} {node : Node}
    (rooted : graph.Rooted ref root node) :
    (sealVariant ref).Yields graph (fun wasOpen later => wasOpen = node.isOpenVariant ∧
      later = graph.sealed (if node.isOpenVariant then some root else none)) failed := by
  apply yields_look_bind rooted.root
  split
  next members form =>
      have isOpen : node.isOpenVariant = true := by rw [Node.isOpenVariant, form]
      apply yields_updateRoot_bind rooted
      refine yields_pure ⟨isOpen.symm, ?_⟩
      rw [if_pos isOpen]
      exact update_congr rooted.found (Node.sealTags_of_form form).symm
  next notOpen =>
      have isClosed : node.isOpenVariant = false := by
        cases isOpen : node.isOpenVariant with
        | false => rfl
        | true =>
            rcases node.exists_form_of_isOpenVariant isOpen with ⟨members, form⟩
            exact absurd form (notOpen members)
      refine yields_pure ⟨isClosed.symm, ?_⟩
      rw [isClosed]
      rfl

theorem yields_sealAll_sealings {refs : List Ref} (wellFormed : graph.WellFormed)
    (named : ∀ ref ∈ refs, graph.Has ref) :
    (sealAll refs).Yields graph
      (fun sealed later => (sealed, later) = graph.sealings refs) failed := by
  induction refs generalizing graph with
  | nil => exact yields_pure rfl
  | cons head tail induction =>
      have has := named head List.mem_cons_self
      rcases wellFormed.settles head has with ⟨root, node, rooted⟩
      have self : graph.Rooted root root node := .self rooted.found rooted.unlinked
      have isSealing := toSeal_of_rooted rooted
      have rest : ∀ (wasOpen : Bool) middle, (if wasOpen then some root else none) =
          graph.toSeal head →
          middle = graph.sealed (graph.toSeal head) →
          (do
            let others ← sealAll tail
            return if wasOpen then root :: others else
              others : Build (List Ref)).Yields middle
            (fun sealed later => (sealed, later) =
              graph.sealings (head :: tail)) failed := by
        rintro wasOpen _ chosen rfl
        have tailNamed : ∀ ref ∈ tail, (graph.sealed (graph.toSeal head)).Has ref :=
          fun ref member =>
          (named ref (List.mem_cons_of_mem _ member)).mono (size_sealed ..).ge
        apply (induction (wellFormed_sealed wellFormed has) tailNamed).bind
        intro others later result
        apply yields_pure
        rw [sealings, ← result, ← chosen]
        cases wasOpen <;> rfl
      apply yields_look_bind rooted.deref
      apply yields_read_bind self.root
      apply (yields_hasAny_covers has).bind
      rintro _ _ ⟨rfl, rfl⟩
      apply (yields_hasAny_covers self.has).bind
      rintro _ graph ⟨rfl, rfl⟩
      rw [covers_of_node self.found]
      dsimp only
      split
      next skipped =>
          have isNone : graph.toSeal head = none := by
            rw [isSealing, if_neg]
            intro chosen
            simp only [Bool.and_eq_true, Bool.not_eq_true'] at chosen
            rcases node.exists_form_of_isOpenVariant chosen.1.1 with ⟨members, form⟩
            simp [form, Form.kind, RowKind.kind, chosen.1.2, chosen.2] at skipped
          rw [isNone] at rest
          exact rest false graph rfl rfl
      next kept =>
          have chosen : graph.toSeal head = if node.isOpenVariant then
              some root else none := by
            simp only [Bool.or_eq_true, not_or, Bool.not_eq_true] at kept
            rw [isSealing, kept.1.2, kept.2, Bool.not_false, Bool.and_true, Bool.and_true]
          apply (yields_sealVariant_sealTags self).bind
          rintro _ _ ⟨rfl, rfl⟩
          rw [← chosen]
          exact rest _ _ chosen.symm rfl

end Build

end Casework
