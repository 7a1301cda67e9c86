import Casework.Proofs.Positions

/-!
Checking patterns against an unfolding.

Names, units, literals and tags are the patterns that look at one position each, apart
from the payload of a tag. Checking such a pattern at a position of a type without
variables leaves the marks of the patterns before it and of itself there, and nothing
else. So after all choices of a case have been checked, the root of the unfolding shows
their patterns. A pattern is refused as useless just where the marks show an earlier
pattern that takes everything.
-/

namespace Casework

/-- Patterns made of names, units, literals and tags. -/
def Expr.IsSimple : Expr → Prop
  | .symbol _ _ => True
  | .unit _ => True
  | .number _ text value => Number.read? text = some value
  | .string _ _ => True
  | .apply _ _ argument => argument.IsSimple
  | _ => False

def Expr.IsCovered : Expr → List Pattern → Prop
  | .apply _ tag argument, patterns =>
      (∃ earlier ∈ patterns, earlier.isIrrefutable = true) ∨ argument.IsCovered
        (payloads tag patterns)
  | _, patterns => ∃ earlier ∈ patterns, earlier.isIrrefutable = true

theorem Expr.isCovered_of_irrefutable {pattern : Expr} {patterns : List Pattern}
    {earlier : Pattern} (listed : earlier ∈ patterns)
    (irrefutable : earlier.isIrrefutable = true) :
    pattern.IsCovered patterns := by
  cases pattern with
  | apply => exact .inl ⟨earlier, listed, irrefutable⟩
  | _ => exact ⟨earlier, listed, irrefutable⟩

/-! ## Patterns that are refused -/

/-- Tells whether a pattern has been refused because it is useless. -/
def Failure.isUseless : Failure → Bool
  | .compile error =>
      match error.cause with
      | .useless _ => true
      | _ => false
  | _ => false

def NotUseless (failure : Failure) (_ : TypeGraph) : Prop := failure.isUseless = false

def Justified (pattern : Expr) (patterns : List Pattern) (failure : Failure)
    (_ : TypeGraph) : Prop :=
  failure.isUseless = true → pattern.IsCovered patterns

theorem NotUseless.justified {pattern : Expr} {patterns : List Pattern}
    {failure : Failure} {graph : TypeGraph} (other : NotUseless failure graph) :
    Justified pattern patterns failure graph :=
  fun isUseless => Bool.noConfusion (other.symm.trans isUseless)

theorem Build.yields_look_anyhow {α : Type} (query : TypeGraph → Except Fault α)
    (graph : TypeGraph) :
    (look query).Yields graph (fun _ _ => True) NotUseless := by
  unfold Yields
  rw [on_look]
  cases query graph with
  | ok => trivial
  | error => exact rfl

namespace TypeGraph

variable {ν : Type} {original graph later : TypeGraph} {unfolding : Nat}
  {tree : TypeTree ν} {position copy : Ref} {patterns : List Pattern}
  {nodes inner : List Ref}

/-- A position that is ready for a pattern: it has been expanded. -/
structure Entered (original : TypeGraph) (unfolding : Nat) (graph : TypeGraph)
    (tree : TypeTree ν) (position copy : Ref) (patterns : List Pattern)
    (inner : List Ref) : Prop where
  frozen : Frozen original graph
  owned : Owned original.size graph (position :: copy :: inner)
  found : graph.node position = .ok { form := .var none, link := some copy }
  opened : Opened original unfolding graph tree copy patterns inner

theorem Opened.refutable
    (opened : Opened original unfolding graph tree copy patterns inner)
    {pattern : Pattern} (listed : pattern ∈ patterns) :
    pattern.isIrrefutable = false := by
  have unmatched (none : patterns = []) : pattern.isIrrefutable = false := by
    rw [none] at listed
    cases listed
  cases tree with
  | var => exact opened.elim
  | primitive own =>
      have isLiteral := opened.2.2 pattern listed
      cases own with
      | number =>
          rcases isLiteral with ⟨_, _, rfl, _⟩
          rfl
      | text =>
          rcases isLiteral with ⟨_, _, rfl⟩
          rfl
      | unit | boolean => exact isLiteral.elim
  | function | list => exact unmatched opened.1
  | row kind =>
      cases kind with
      | struct => exact unmatched opened.1
      | variant =>
          rcases opened with ⟨_, _, _, _, tagged, _⟩
          rcases tagged pattern listed with ⟨_, _, rfl⟩
          rfl

def Receives (original : TypeGraph) (unfolding : Nat) (tree : TypeTree ν) (position : Ref)
    (patterns : List Pattern) (nodes : List Ref) (graph : TypeGraph) (pattern : Pattern)
    (later : TypeGraph) : Prop :=
  ∃ others, Replaces original.size unfolding nodes others graph later ∧
    Marked original unfolding later tree position (patterns ++ [pattern]) others

namespace Entered

variable (entered : Entered original unfolding graph tree position copy patterns inner)
include entered

theorem apart : position ≠ copy := by
  rintro rfl
  exact (List.nodup_cons.1 entered.owned.distinct).1 List.mem_cons_self

theorem refutable : ¬ ∃ pattern ∈ patterns, pattern.isIrrefutable = true := by
  rintro ⟨pattern, listed, irrefutable⟩
  rw [entered.opened.refutable listed] at irrefutable
  cases irrefutable

theorem small : original.size ≤ graph.size := by
  have inside := entered.owned.within position List.mem_cons_self
  have bounded := inside.2.2
  omega

theorem exists_rooted :
    ∃ node, graph.Rooted position copy node ∧ node.form.kind = tree.kind ∧
    tree.kind ≠ .var := by
  rcases entered.opened.exists_node with ⟨node, found, unlinked, isKind, notVar⟩
  exact ⟨node, (Rooted.self found unlinked).to_leads
    (.link ⟨_, entered.found, rfl⟩ (.refl _)), isKind, notVar⟩

end Entered

theorem Replaces.receives {pattern : Pattern} {node : Node} {others : List Ref}
    (replaces : Replaces original.size unfolding nodes others graph later)
    (own : position ∈ others) (found : later.node position = .ok node)
    (any : node.marks.any = true) (irrefutable : pattern.isIrrefutable = true) :
    Receives original unfolding tree position patterns nodes graph pattern later :=
  ⟨others, replaces, .covered found any own
    (List.mem_append_right _ (List.mem_singleton_self _)) irrefutable⟩

theorem Receives.after {others : List Ref} {middle : TypeGraph} {pattern : Pattern}
    (receives : Receives original unfolding tree position patterns others
      middle pattern later)
    (replaces : Replaces original.size unfolding nodes others graph middle) :
    Receives original unfolding tree position patterns nodes graph pattern later := by
  rcases receives with ⟨last, replacesToo, marked⟩
  exact ⟨last, replaces.trans replacesToo, marked⟩

end TypeGraph

namespace Elaborate

open TypeGraph Stateful

variable {ν : Type} {original graph : TypeGraph} {unfolding : Nat} {tree : TypeTree ν}
  {position copy : Ref} {patterns : List Pattern} {nodes inner : List Ref}
  {state : Elaboration} {failed : Failure → TypeGraph → Prop}

theorem yields_entering_plain {next : Elaborate Pattern}
    {done : Pattern → Elaboration → TypeGraph → Prop} (pattern : Expr)
    (tracks : Tracks original unfolding graph tree position patterns nodes)
    (written : tree.IsWritten False) (outside : state.gathered = none)
    (rest : ∀ copy inner later, Entered original unfolding later tree position copy
      patterns inner →
      Replaces original.size unfolding nodes (position :: copy :: inner) graph later →
        next.Yields state later done (Justified pattern patterns)) :
    (pattern.entering position next).Yields state graph done
      (Justified pattern patterns) := by
  rcases has_iff.1 (tracks.owned.within position tracks.marked.own).2 with ⟨node, found⟩
  have asked : (Build.hasAny position).Yields graph
      (fun any later => any = node.marks.any ∧ graph = later)
      (Justified pattern patterns) :=
      Build.yields_read_bind found (Build.yields_pure ⟨rfl, rfl⟩)
  apply yields_lift_bind asked
  rintro _ _ ⟨rfl, rfl⟩
  dsimp only
  split
  next any =>
      apply yields_lift_stop (Build.yields_throw _)
      intro _
      cases tracks.marked with
      | waiting _ isNode | expanded isNode =>
          cases isNode.symm.trans found
          cases any
      | covered _ _ _ listed irrefutable =>
          exact Expr.isCovered_of_irrefutable listed irrefutable
  next uncovered =>
      rw [Bool.not_eq_true] at uncovered
      apply yields_lift_bind (Build.yields_expand_plain tracks written found uncovered)
      rintro _ later ⟨copy, inner, replaces, isPosition, opened⟩
      unfold gather
      rw [bind_assoc]
      apply yields_get_bind
      rw [outside]
      exact rest copy inner later
        ⟨replaces.frozen tracks.owned tracks.frozen, replaces.owned, isPosition,
          opened⟩ replaces

/-! ## Names and units -/

theorem yields_symbol_plain
    (entered : Entered original unfolding graph tree position copy patterns inner)
    (outside : state.gathered = none) (level : Nat) (name : String) :
    (symbol level name position).Yields state graph
      (fun pattern after later => after.gathered = none ∧
      Receives original unfolding tree position patterns (position :: copy :: inner)
        graph pattern later)
      failed := by
  rcases entered.exists_rooted with ⟨own, rooted, _⟩
  have marks := alters_update entered.found fun node =>
    { node with marks := { node.marks with any := true } }
  have first : Replaces original.size unfolding _ _ graph _ :=
    .of_alters marks List.mem_cons_self entered.owned
  have copyFound := (marks.others copy entered.apart.symm).trans rooted.found
  have self := Rooted.self copyFound rooted.unlinked
  have covers : (coverAll position).Yields graph (fun _ later =>
      Replaces original.size unfolding (position :: copy :: inner)
        (position :: copy :: inner) graph later ∧
        ∃ node, later.node position = .ok node ∧ node.marks.any = true) failed := by
    apply Build.yields_update_bind (has_of_node entered.found)
    apply Build.yields_look_bind
      (self.to_leads (.link ⟨_, marks.changed, rfl⟩ (.refl _))).deref
    apply Build.yields_read_bind self.root
    split
    · have marksCopy := alters_update copyFound fun node =>
        { node with marks := { node.marks with any := true } }
      apply Build.yields_update (has_of_node copyFound)
      exact ⟨first.trans (.of_alters marksCopy (by simp) first.owned), _,
        (marksCopy.others position entered.apart).trans marks.changed, rfl⟩
    · exact Build.yields_pure ⟨first, _, marks.changed, rfl⟩
  apply yields_lift_bind covers
  rintro _ later ⟨replaces, node, found, any⟩
  split
  · exact yields_pure ⟨outside, replaces.receives List.mem_cons_self found any rfl⟩
  · exact And.intro outside (replaces.receives List.mem_cons_self found any rfl)

theorem yields_forward_plain {base : Nat} {ref target : Ref}
    (owned : Owned base graph nodes) (refMember : ref ∈ nodes)
    (targetMember : target ∈ nodes) :
    (Build.forward ref target).Yields graph
      (fun _ later => Replaces base unfolding nodes nodes graph later)
      failed := by
  rcases has_iff.1 (owned.within ref refMember).2 with ⟨node, found⟩
  rcases has_iff.1 (owned.within target targetMember).2 with ⟨other, targetFound⟩
  apply Build.yields_look_bind found
  apply Build.yields_look_bind targetFound
  have links := alters_update found fun node =>
    { node with link := some target, marks := node.marks.staying }
  have first : Replaces base unfolding nodes nodes graph _ :=
    .of_alters links refMember owned
  rcases has_iff.1 (first.owned.within target targetMember).2 with ⟨later, laterFound⟩
  apply Build.yields_update_bind (has_of_node found)
  apply Build.yields_update (has_of_node laterFound)
  exact first.trans (.of_alters (alters_update laterFound _) targetMember first.owned)

theorem yields_refuse_plain {α : Type} {done : α → TypeGraph → Prop} (left right : Ref)
    (reason : String) :
    (Build.refuse left right reason).Yields graph done NotUseless := by
  apply (Build.yields_look_anyhow _ _).bind
  intro _ _ _
  apply (Build.yields_look_anyhow _ _).bind
  intro _ _ _
  exact Build.yields_throw rfl

theorem yields_unifyStep_unit {base : Nat} {unit : Ref} {own : Node}
    (rooted : graph.Rooted position copy own) (notVar : own.form.kind ≠ .var)
    (found : graph.node unit = .ok { form := .primitive .unit })
    (owned : Owned base graph nodes) (copyMember : copy ∈ nodes)
    (unitMember : unit ∈ nodes) (different : copy ≠ unit) :
    (Build.unifyStep position unit).Yields graph (fun pairs later =>
      pairs = [] ∧ Replaces base unfolding nodes nodes graph later) NotUseless := by
  have unitRooted : graph.Rooted unit unit _ := .self found rfl
  unfold Build.unifyStep
  apply Build.yields_bind_of_on
    (Build.on_expand_of_rooted rooted (isPosition_of_kind notVar))
  apply Build.yields_bind_of_on (Build.on_expand_of_rooted unitRooted rfl)
  apply Build.yields_look_bind rooted.deref
  apply Build.yields_look_bind unitRooted.deref
  rw [if_neg different]
  apply Build.yields_look_bind rooted.found
  apply Build.yields_look_bind unitRooted.found
  cases form : own.form with
  | var => exact absurd (congrArg Form.kind form) notVar
  | primitive primitive =>
      dsimp only
      split
      · apply (yields_forward_plain owned unitMember copyMember).bind
        exact fun _ later replaces => Build.yields_pure ⟨rfl, replaces⟩
      · exact yields_refuse_plain _ _ _
  | _ => exact yields_refuse_plain _ _ _

theorem yields_unifyAt_unit {base : Nat} {unit : Ref} {own : Node} (place : Position)
    (rooted : graph.Rooted position copy own) (notVar : own.form.kind ≠ .var)
    (found : graph.node unit = .ok { form := .primitive .unit })
    (owned : Owned base graph nodes) (copyMember : copy ∈ nodes)
    (unitMember : unit ∈ nodes) (different : copy ≠ unit) :
    (Build.unifyAt place position unit).Yields graph (fun _ later =>
      Replaces base unfolding nodes nodes graph later) NotUseless := by
  have fuel : Build.unifyFuel graph ≠ 0 := (Nat.two_pow_pos _).ne'
  rcases Nat.exists_eq_succ_of_ne_zero fuel with ⟨less, isFuel⟩
  have unified : (Build.unify position unit).Yields graph (fun _ later =>
      Replaces base unfolding nodes nodes graph later) NotUseless := by
    apply Build.yields_get_bind
    rw [isFuel, Nat.succ_eq_add_one, Build.unifyPairs]
    apply (yields_unifyStep_unit rooted notVar found owned copyMember
      unitMember different).bind
    rintro _ later ⟨rfl, replaces⟩
    rw [List.append_nil, Build.unifyPairs]
    exact Build.yields_pure replaces
  apply unified.tryCatch
  intro failure later other
  cases failure with
  | mismatch => exact Build.yields_throw rfl
  | _ => exact Build.yields_throw other

theorem yields_unit_plain
    (entered : Entered original unfolding graph tree position copy patterns inner)
    (place : Position) :
    (unit place position).Yields graph (fun pattern later =>
      Receives original unfolding tree position patterns (position :: copy :: inner)
        graph pattern later)
      NotUseless := by
  rcases entered.exists_rooted with ⟨own, rooted, isKind, notVar⟩
  have allocates : Replaces original.size unfolding [] _ graph _ :=
    .of_allocate { form := .primitive .unit } entered.small
  have newFound := graph.node_allocate_self { form := .primitive .unit }
  have rootedLater := rooted.allocate { form := .primitive .unit }
  apply Build.yields_allocate_bind
  generalize (graph.allocate { form := .primitive .unit }).1 = new at *
  generalize (graph.allocate { form := .primitive .unit }).2 = first at *
  have both : Replaces original.size unfolding (position :: copy :: inner)
      (new :: position :: copy :: inner)
      graph first := allocates.append_right _ entered.owned
  have different : copy ≠ new := by
    rintro rfl
    exact (List.nodup_cons.1 both.owned.distinct).1 (by simp)
  apply (yields_unifyAt_unit place rootedLater (isKind ▸ notVar) newFound
    both.owned (by simp) List.mem_cons_self different).bind
  intro _ second unifies
  have unified := both.trans unifies
  rcases has_iff.1 (unified.owned.within position (by simp)).2 with ⟨node, found⟩
  have marks := alters_update found fun node =>
    { node with marks := { node.marks with any := true } }
  apply Build.yields_update_bind (has_of_node found)
  exact Build.yields_pure
    ((unified.trans (.of_alters marks (by simp) unified.owned)).receives (by simp)
      marks.changed rfl rfl)

/-! ## Literals -/

theorem yields_literal_plain {primitive : Primitive} {value : Constant}
    (entered : Entered original unfolding graph tree position copy patterns inner)
    (pattern : Expr)
    (literal : ∀ type, (Pattern.literal value type).IsLiteralOf primitive) :
    (do Elaborate.literal pattern (← Build.constant value primitive) position :
      Build Pattern).Yields graph
      (fun own later =>
        Receives original unfolding tree position patterns (position :: copy :: inner)
          graph own later)
      NotUseless := by
  rcases entered.exists_rooted with ⟨own, rooted, isKind, notVar⟩
  have allocates : Replaces original.size unfolding [] _ graph _ :=
    .of_allocate { form := .primitive primitive } entered.small
  have newFound := graph.node_allocate_self { form := .primitive primitive }
  have rootedLater := rooted.allocate { form := .primitive primitive }
  unfold Build.constant
  rw [bind_assoc]
  apply Build.yields_allocate_bind
  generalize (graph.allocate { form := .primitive primitive }).1 = new at *
  generalize (graph.allocate { form := .primitive primitive }).2 = first at *
  have both : Replaces original.size unfolding (position :: copy :: inner)
      (new :: position :: copy :: inner)
      graph first := allocates.append_right _ entered.owned
  have newRooted : first.Rooted new new _ := .self newFound rfl
  have self := Rooted.self rootedLater.found rootedLater.unlinked
  rw [pure_bind]
  apply Build.yields_read_bind newRooted.root
  apply Build.yields_look_bind rootedLater.deref
  apply Build.yields_read_bind self.root
  rw [if_neg (isKind ▸ notVar)]
  dsimp only
  split
  next same =>
      have isTree := isKind.symm.trans same
      cases tree with
      | primitive own =>
          cases isTree
          rcases entered.opened with ⟨rfl, copyFound, literals⟩
          have kept : ∀ ref ∈ [position, copy], first.node ref = graph.node ref :=
            fun ref member =>
            allocates.kept ref (entered.owned.within ref member).2 nofun
          have marks := alters_update ((kept copy (by simp)).trans copyFound) fun node =>
            { node with marks := { node.marks with partly := true } }
          have isPosition := (marks.others position entered.apart).trans
            ((kept position (by simp)).trans entered.found)
          have marked := both.trans (.of_alters marks (by simp) both.owned)
          apply Build.yields_update_bind (has_of_node marks.found)
          refine Build.yields_pure ⟨_, marked.sublist (List.sublist_cons_self _ _),
            .expanded isPosition ⟨rfl, ?_, fun other member => ?_⟩⟩
          · rw [show (patterns ++ [Pattern.literal value new]).isEmpty = false by simp]
            exact marks.changed
          · rcases List.mem_append.1 member with old | isNew
            · exact literals other old
            · rw [List.mem_singleton.1 isNew]
              exact literal new
      | row kind => cases kind <;> cases isTree
      | _ => cases isTree
  next =>
      apply (Build.yields_look_anyhow _ _).bind
      intro _ _ _
      apply (Build.yields_look_anyhow _ _).bind
      intro _ _ _
      exact Build.yields_throw rfl

/-! ## Tags -/

theorem yields_variantRoot_plain
    (entered : Entered original unfolding graph tree position copy patterns inner)
    (place : Position) (tag : String) :
    (variantRoot place tag position).Yields graph (fun variant later =>
      copy = variant ∧ graph = later ∧ tree.kind = .variant) NotUseless := by
  rcases entered.exists_rooted with ⟨own, rooted, isKind, notVar⟩
  apply Build.yields_look_bind rooted.deref
  apply Build.yields_read_bind (Rooted.self rooted.found rooted.unlinked).root
  rw [isKind]
  split
  next isVar => exact absurd isVar notVar
  next isVariant => exact Build.yields_pure ⟨rfl, rfl, isVariant⟩
  next =>
      apply (Build.yields_look_anyhow _ _).bind
      intro _ _ _
      exact Build.yields_throw rfl

theorem yields_touch_plain {row : Row} {matched : List String}
    {collecting : Bool} {base : Nat} (owned : Owned base graph [copy])
    (found : graph.node copy = .ok (.tested row matched collecting)) (inside : Bool) :
    (touch inside copy).Yields state graph
      (fun _ after later => after.gathered = state.gathered ∧
      Replaces base unfolding [copy] [copy] graph later ∧
        ∃ collecting, later.node copy = .ok (.tested row matched collecting)) failed := by
  apply yields_get_bind
  split
  · exact yields_pure ⟨rfl, .refl owned, collecting, found⟩
  · have marks := alters_update found fun node =>
      { node with marks := { node.marks with collecting := true } }
    have remarked :
        (Build.remark copy fun marks => { marks with collecting := true }).Yields graph
        (fun _ later => Replaces base unfolding [copy] [copy] graph later ∧
          later.node copy = .ok (.tested row matched true)) failed :=
      Build.yields_update (has_of_node found)
        ⟨.of_alters marks (List.mem_singleton_self _) owned, marks.changed⟩
    apply yields_lift_bind remarked
    rintro _ later ⟨replaces, isCopy⟩
    exact yields_set ⟨rfl, replaces, true, isCopy⟩

theorem yields_enterTag_plain {isOpen : Bool} {entries : TypeEntries ν}
    (entered : Entered original unfolding graph (.row .variant isOpen entries) position
      copy patterns inner)
    (inside : Bool) (place : Position) (tag : String) :
    (enterTag inside place tag position).Yields state graph (fun payload after later =>
      after.gathered = state.gathered ∧
        Replaces original.size unfolding (position :: copy :: inner)
          (position :: copy :: inner) graph later ∧
        later.node position = .ok { form := .var none, link := some copy } ∧
        ∃ row matched collecting, later.node copy = .ok (.tested row matched collecting) ∧
          row.get? tag = some payload ∧
          (∀ pattern ∈ patterns, pattern.IsTagged) ∧
          (∀ other, other ∈ matched ↔ other = tag ∨ payloads other patterns ≠ []) ∧
          OpenedAll original unfolding later entries row.entries patterns inner)
      NotUseless := by
  rcases entered.opened with ⟨row, matched, collecting, found, tagged, tested, opened⟩
  have self : graph.Rooted copy copy _ := .self found rfl
  have behind : Owned original.size graph ([copy] ++ inner) :=
    entered.owned.sublist (List.sublist_cons_self _ _)
  have copyOwned : Owned original.size graph [copy] :=
    behind.sublist (List.sublist_append_left _ _)
  unfold enterTag
  dsimp only
  split
  · apply yields_lift_bind (yields_variantRoot_plain entered place tag)
    rintro _ _ ⟨rfl, rfl, _⟩
    apply yields_lift_bind (Build.yields_allows self.root tag)
    rintro _ _ ⟨rfl, rfl⟩
    split
    next allowed =>
        rcases Row.exists_get?_of_contains allowed with ⟨payload, isPayload⟩
        apply (yields_touch_plain copyOwned found inside).bind
        rintro _ after first ⟨sameGathered, touches, collectingToo, touched⟩
        have selfTouched : first.Rooted copy copy _ := .self touched rfl
        have payloadRead : (payloadType copy tag).Yields first (fun type later =>
            type = payload ∧ first = later) NotUseless := by
          apply (Build.yields_member? selfTouched.root tag).bind
          rintro _ _ ⟨rfl, rfl⟩
          rw [show ((Form.row .variant row (some row)).members?.getD .empty).get? tag =
            _ from isPayload]
          exact Build.yields_pure ⟨rfl, rfl⟩
        apply yields_lift_bind payloadRead
        rintro _ _ ⟨rfl, rfl⟩
        have notes := alters_update touched fun node =>
          { node with matched := node.matched.insert tag }
        have noted : (Build.noteMatched copy tag).Yields first (fun _ later =>
            first.Alters later copy (.tested row matched collectingToo)
              (.tested row (matched.insert tag) collectingToo)) NotUseless :=
          Build.yields_updateRoot selfTouched notes
        apply yields_lift_bind noted
        intro _ later notes
        have both :=
          touches.trans (.of_alters notes (List.mem_singleton_self _) touches.owned)
        have apart : position ∉ [copy] := fun isCopy =>
          entered.apart (List.mem_singleton.1 isCopy)
        have isPosition :=
          (both.kept position (has_of_node entered.found) apart).trans entered.found
        have whole := (both.append_right inner behind).append_left
          [position] entered.owned
        refine yields_pure
          ⟨sameGathered, whole, isPosition, row, matched.insert tag, collectingToo,
            notes.changed, isPayload, tagged, fun other =>
            ?_, opened.frame entries fun ref member => ?_⟩
        · rw [List.mem_insert_iff, tested]
        · refine both.kept ref (behind.within ref (List.mem_append_right _ member)).2
            fun isCopy => ?_
          rw [List.mem_singleton.1 isCopy] at member
          exact (List.nodup_cons.1 behind.distinct).1 member
    next =>
        apply yields_lift_bind (Build.yields_look_anyhow _ _)
        intro _ _ _
        exact yields_lift_stop (Build.yields_throw rfl)
  · exact yields_lift_stop (Build.yields_throw rfl)

theorem yields_enterTag_refused {done : Ref → Elaboration → TypeGraph → Prop}
    (entered : Entered original unfolding graph tree position copy patterns inner)
    (notVariant : tree.kind ≠ .variant) (inside : Bool) (place : Position)
    (tag : String) :
    (enterTag inside place tag position).Yields state graph done NotUseless := by
  unfold enterTag
  dsimp only
  split
  · apply yields_lift_bind (yields_variantRoot_plain entered place tag)
    rintro _ _ ⟨_, _, isVariant⟩
    exact absurd isVariant notVariant
  · exact yields_lift_stop (Build.yields_throw rfl)

end Elaborate

theorem TypeTree.exists_of_kind_variant {ν : Type} {tree : TypeTree ν}
    (isVariant : tree.kind = .variant) :
    ∃ isOpen entries, tree = .row .variant isOpen entries := by
  cases tree with
  | row kind isOpen entries =>
      cases kind with
      | struct => cases isVariant
      | variant => exact ⟨isOpen, entries, rfl⟩
  | _ => cases isVariant

/-! ## Whole patterns -/

section Walk

open TypeGraph Elaborate Stateful

variable {ν : Type} {original : TypeGraph} {unfolding : Nat}

/-- Checking a pattern at a position leaves there what the pattern covers. It is accepted
only if earlier patterns leave something for it, and refused as useless only if they do
not. -/
def Expr.IsReceived (ν : Type) (original : TypeGraph) (unfolding : Nat)
    (setting : Setting) (level : Nat) (pattern : Expr) : Prop :=
  ∀ (inside : Bool) (tree : TypeTree ν) (position : Ref) (patterns : List Pattern)
    (nodes : List Ref) (graph : TypeGraph) (state : Elaboration), pattern.IsSimple →
    tree.IsWritten False → Tracks original unfolding graph tree position patterns nodes →
    state.gathered = none →
      (pattern.elaborate setting level inside position).Yields state graph
        (fun own after later => ¬ pattern.IsCovered patterns ∧ after.gathered = none ∧
          Receives original unfolding tree position patterns nodes graph own later)
        (Justified pattern patterns)

variable {setting : Setting} {level : Nat}

theorem Expr.isReceived_symbol (place : Position) (name : String) :
    (Expr.symbol place name).IsReceived ν original unfolding setting level := by
  intro inside tree position patterns nodes graph state _ written tracks outside
  rw [Expr.elaborate_symbol]
  apply yields_entering_plain _ tracks written outside
  intro copy inner first entered replaces
  apply (yields_symbol_plain entered outside level name).imp
  exact fun _ _ _ received => ⟨entered.refutable, received.1, received.2.after replaces⟩

theorem Expr.isReceived_unit (place : Position) :
    (Expr.unit place).IsReceived ν original unfolding setting level := by
  intro inside tree position patterns nodes graph state _ written tracks outside
  rw [Expr.elaborate_unit]
  apply yields_entering_plain _ tracks written outside
  intro copy inner first entered replaces
  apply (yields_lift (yields_unit_plain entered place)).mono
  · rintro _ _ _ ⟨rfl, received⟩
    exact ⟨entered.refutable, outside, received.after replaces⟩
  · exact fun _ _ => NotUseless.justified

theorem Expr.isReceived_number (place : Position) (text : String) (value : Number) :
    (Expr.number place text value).IsReceived ν original unfolding setting level := by
  intro inside tree position patterns nodes graph state simple written tracks outside
  rw [Expr.elaborate_number]
  apply yields_entering_plain _ tracks written outside
  intro copy inner first entered replaces
  have literal : ∀ type, (Pattern.literal (.number value) type).IsLiteralOf .number :=
    fun type => ⟨value, type, rfl, Number.isUnsigned_of_read? simple⟩
  apply (yields_lift (yields_literal_plain entered _ literal)).mono
  · rintro _ _ _ ⟨rfl, received⟩
    exact ⟨entered.refutable, outside, received.after replaces⟩
  · exact fun _ _ => NotUseless.justified

theorem Expr.isReceived_string (place : Position) (value : List UInt8) :
    (Expr.string place value).IsReceived ν original unfolding setting level := by
  intro inside tree position patterns nodes graph state _ written tracks outside
  rw [Expr.elaborate_string]
  apply yields_entering_plain _ tracks written outside
  intro copy inner first entered replaces
  have literal : ∀ type, (Pattern.literal (.text value) type).IsLiteralOf .text :=
    fun type => ⟨value, type, rfl⟩
  apply (yields_lift (yields_literal_plain entered _ literal)).mono
  · rintro _ _ _ ⟨rfl, received⟩
    exact ⟨entered.refutable, outside, received.after replaces⟩
  · exact fun _ _ => NotUseless.justified

theorem Expr.isReceived_apply (place : Position) (tag : String) {argument : Expr}
    (received : argument.IsReceived ν original unfolding setting level) :
    (Expr.apply place tag argument).IsReceived ν original unfolding setting level := by
  intro inside tree position patterns nodes graph state simple written tracks outside
  rw [Expr.elaborate_apply]
  apply yields_entering_plain _ tracks written outside
  intro copy inner first entered replaces
  by_cases isVariant : tree.kind = .variant
  · rcases TypeTree.exists_of_kind_variant isVariant with ⟨isOpen, entries, rfl⟩
    rcases written with ⟨admits, entriesWritten⟩
    apply ((yields_enterTag_plain entered inside place tag).mono_failed
      fun _ _ => NotUseless.justified).bind
    rintro payload after second ⟨sameGathered, noting, isPosition, row, matched,
      collecting, isCopy, isPayload, tagged, tested, opened⟩
    have innerOwned :=
      noting.owned.sublist (List.sublist_append_right [position, copy] inner)
    rcases opened.focus admits.distinct entriesWritten innerOwned isPayload with
      ⟨type, own, typeWritten, ownOwned, ownMarked, continues⟩
    have frozen := noting.frozen entered.owned entered.frozen
    apply ((received inside type payload _ own second after simple typeWritten
      ⟨frozen, ownOwned, ownMarked⟩ (sameGathered.trans outside)).mono_failed
      fun _ _ justified isUseless => .inr (justified isUseless)).bind
    rintro inner last later ⟨uncovered, lastOutside, others, replacesOwn, marked⟩
    rcases continues later inner others replacesOwn marked with
      ⟨made, replacesInner, openedLater⟩
    have kept := replacesInner.keeps [position, copy] noting.owned
    have whole := (replaces.trans noting).trans
      (replacesInner.append_left [position, copy] noting.owned)
    have isPositionLater := (kept position (by simp)).trans isPosition
    have isCopyLater := (kept copy (by simp)).trans isCopy
    refine yields_pure
      ⟨not_or.2 ⟨entered.refutable, uncovered⟩, lastOutside, _, whole,
        .expanded isPositionLater ⟨row, matched, collecting, isCopyLater,
          fun own member => ?_, fun other => ?_, openedLater⟩⟩
    · rcases List.mem_append.1 member with old | isNew
      · exact tagged own old
      · exact ⟨tag, inner, List.mem_singleton.1 isNew⟩
    · rw [tested, payloads_append]
      by_cases same : tag = other
      · subst same
        simp
      · simp [payloads_of_ne same, Ne.symm same]
  · apply ((yields_enterTag_refused entered isVariant inside place tag).mono_failed
      fun _ _ => NotUseless.justified).bind
    exact fun _ _ _ => False.elim

theorem Expr.yields_receives (setting : Setting) (level : Nat) :
    (pattern : Expr) → pattern.IsReceived ν original unfolding setting level
  | .symbol place name => Expr.isReceived_symbol place name
  | .unit place => Expr.isReceived_unit place
  | .number place text value => Expr.isReceived_number place text value
  | .string place value => Expr.isReceived_string place value
  | .apply place tag argument =>
      Expr.isReceived_apply place tag (argument.yields_receives setting level)
  | .static .. | .list .. | .binary .. | .record .. | .select .. | .caseOf .. =>
      fun _ _ _ _ _ _ _ simple => simple.elim
termination_by structural pattern => pattern

theorem yields_elaborateChoices_plain (setting : Setting) (level : Nat) (scope : Scope)
    {tree : TypeTree ν} {position : Ref} {choices : List Choice} {patterns : List Pattern}
    {nodes : List Ref} {graph : TypeGraph} {state : Elaboration}
    (simple : ∀ choice ∈ choices, choice.pattern.IsSimple)
    (written : tree.IsWritten False)
    (tracks : Tracks original unfolding graph tree position patterns nodes)
    (outside : state.gathered = none) :
    (elaborateChoices setting level scope position choices).Yields state graph
      (fun entries after later =>
      entries.length = choices.length ∧ after.gathered = none ∧ ∃ others,
        Replaces original.size unfolding nodes others graph later ∧
        Tracks original unfolding later tree position
          (patterns ++ entries.map Prod.fst) others)
      fun _ _ => True := by
  induction choices generalizing patterns nodes graph state with
  | nil =>
      refine yields_pure ⟨rfl, outside, nodes, .refl tracks.owned, ?_⟩
      rwa [List.map_nil, List.append_nil]
  | cons choice rest induction =>
      rcases List.forall_mem_cons.1 simple with ⟨choiceSimple, restSimple⟩
      apply yields_modify_bind
      apply ((choice.pattern.yields_receives setting level false tree position
        patterns nodes graph { state with scope := scope, nextSlot := 0 } choiceSimple
        written tracks outside).mono_failed
        fun _ _ _ => trivial).bind
      rintro pattern after middle ⟨_, afterOutside, others, replaces, marked⟩
      apply yields_get_bind
      apply (induction restSimple
        ⟨replaces.frozen tracks.owned tracks.frozen, replaces.owned, marked⟩
        afterOutside).bind
      rintro entries last later ⟨length, lastOutside, final, replacesToo, tracksLater⟩
      refine yields_pure ⟨congrArg Nat.succ length, lastOutside, final,
        replaces.trans replacesToo, ?_⟩
      rwa [List.append_assoc] at tracksLater

end Walk

end Casework
