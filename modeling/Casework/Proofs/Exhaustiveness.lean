import Casework.Proofs.Gaps
import Casework.Proofs.Marking
import Casework.Proofs.Taking
import Casework.Proofs.TypeReading

/-!
The check of coverage is exact.

The marks that names, units, literals and tags leave on an unfolding of a type without
variables show whether the patterns leave a value out. No finite number of literals covers
the numbers or the texts, and every type has a value, so a tag that is never tested leaves
one out.
-/

namespace Casework

/-! ## Values of a type -/

namespace TypeGraph

variable {ν : Type} {graph : TypeGraph} {instantiation : Instantiation}

mutual

theorem Shows.exists_fits {tree : TypeTree ν} {ref : Ref}
    (shows : graph.ShowsPlain tree ref) (written : tree.IsWritten False) :
    ∃ value, graph.Fits instantiation ref value := by
  match tree with
  | .var _ => exact written.elim
  | .primitive own =>
      have is : graph.Is ref (.primitive own) := ⟨_, shows, rfl, rfl⟩
      cases own with
      | unit => exact ⟨.null, .primitive is rfl⟩
      | text => exact ⟨.text [], .primitive is ⟨_, rfl⟩⟩
      | number => exact ⟨.number .zero, .primitive is ⟨_, rfl⟩⟩
      | boolean => exact ⟨.boolean false, .primitive is ⟨_, rfl⟩⟩
  | .function _ _ =>
      rcases shows with ⟨first, second, found, _⟩
      exact ⟨.function 0, .function ⟨_, found, rfl, rfl⟩⟩
  | .list _ =>
      rcases shows with ⟨inner, found, _⟩
      exact ⟨.null, .list ⟨_, found, rfl, rfl⟩ rfl nofun⟩
  | .row .struct isOpen entries =>
      rcases shows with ⟨row, found, _, entriesShow⟩
      rcases entriesShow.exists_fits written.2 with ⟨fields, names, parts⟩
      have same : ∀ other ∈ row :: (if isOpen then none else some row).toList,
          other = row := by
        cases isOpen <;> simp
      refine ⟨.struct fields, .struct ⟨_, found, rfl, rfl⟩ ?_ ?_ ?_⟩
      · intro other listed name has
        rw [same other listed] at has
        rcases Row.exists_get?_of_contains has with ⟨type, isType⟩
        rcases parts name type isType with ⟨value, isValue, _⟩
        rw [isValue, Option.isSome_some]
      · intro other listed name member
        rw [same other (List.mem_cons_of_mem _ (Option.mem_toList.2 listed)),
          Row.contains_iff]
        rwa [names] at member
      · intro other listed name type part isType isPart
        rw [same other listed] at isType
        rcases parts name type isType with ⟨value, isValue, fits⟩
        cases isValue.symm.trans isPart
        exact fits
  | .row .variant _ entries =>
      rcases shows with ⟨row, found, _, entriesShow⟩
      rcases entriesShow.exists_fits written.2 with ⟨fields, _, parts⟩
      rcases List.exists_mem_of_ne_nil _ (written.1.nonempty (.inl rfl))
        with ⟨label, member⟩
      rw [entriesShow.labels] at member
      rcases Row.exists_get?_of_contains (Row.contains_iff.2 member) with ⟨type, isType⟩
      rcases parts label type isType with ⟨value, _, fits⟩
      exact ⟨.tagged label value, .member ⟨_, found, rfl, rfl⟩ isType fits⟩

theorem ShowsAll.exists_fits {entries : TypeEntries ν} {found : List (String × Ref)}
    (shows : graph.ShowsPlainAll entries found) (written : entries.IsWritten False) :
    ∃ fields : Members, fields.names = found.map Prod.fst ∧
      ∀ label ref, Row.findEntry label found = some ref →
        ∃ value, fields.get? label = some value ∧ graph.Fits instantiation ref value := by
  match entries with
  | .nil =>
      cases shows
      exact ⟨.nil, rfl, nofun⟩
  | .cons label type rest =>
      rcases shows with ⟨ref, others, rfl, typeShows, restShow⟩
      rcases typeShows.exists_fits written.1 with ⟨value, fits⟩
      rcases restShow.exists_fits written.2 with ⟨fields, names, parts⟩
      refine ⟨.cons label value fields, by rw [Members.names, names, List.map_cons],
        fun own part found => ?_⟩
      rw [Row.findEntry] at found
      rw [Members.get?]
      split at found
      next same =>
          cases found
          exact ⟨value, if_pos same, fits⟩
      next different =>
          rw [if_neg different]
          exact parts own part found

end

end TypeGraph

/-! ## Values that are matched -/

def Value.IsMatchedBy (patterns : List Pattern) (value : Value) : Prop :=
  ∃ pattern ∈ patterns, (pattern.match? value).isSome

namespace Pattern

variable {patterns : List Pattern}

theorem isMatchedBy_of_irrefutable {pattern : Pattern} (listed : pattern ∈ patterns)
    (irrefutable : pattern.isIrrefutable = true) (value : Value) :
    value.IsMatchedBy patterns := by
  refine ⟨pattern, listed, ?_⟩
  cases pattern with
  | wildcard => rfl
  | bind => rfl
  | _ => cases irrefutable

theorem isMatchedBy_of_payloads {tag : String} {payload : Value}
    (matched : payload.IsMatchedBy (payloads tag patterns)) :
    (Value.tagged tag payload).IsMatchedBy patterns := by
  rcases matched with ⟨inner, listed, matched⟩
  refine ⟨.variant tag inner, mem_payloads.1 listed, ?_⟩
  rw [Pattern.match?, if_pos rfl]
  exact matched

theorem isMatchedBy_tagged
    (tagged : ∀ pattern ∈ patterns, pattern.IsTagged) {tag : String} {payload : Value} :
    (Value.tagged tag payload).IsMatchedBy patterns ↔ payload.IsMatchedBy
      (payloads tag patterns) := by
  constructor
  · rintro ⟨pattern, listed, matched⟩
    rcases tagged pattern listed with ⟨own, inner, rfl⟩
    rw [Pattern.match?] at matched
    split at matched
    next same =>
        subst same
        exact ⟨inner, mem_payloads.2 listed, matched⟩
    next => cases matched
  · exact isMatchedBy_of_payloads

def texts (patterns : List Pattern) : List (List UInt8) :=
  patterns.filterMap fun
    | .literal (.text bytes) _ => some bytes
    | _ => none

theorem exists_not_isMatchedBy {own : Primitive} (nonempty : patterns ≠ [])
    (literals : ∀ pattern ∈ patterns, pattern.IsLiteralOf own) :
    ∃ value, own.Has value ∧ ¬ value.IsMatchedBy patterns := by
  cases own with
  | number =>
      refine ⟨.number ⟨0xBFF0000000000000⟩, ⟨_, rfl⟩, ?_⟩
      rintro ⟨pattern, listed, matched⟩
      rcases literals pattern listed with ⟨value, type, rfl, unsigned⟩
      rw [match?, Value.ofConstant] at matched
      split at matched
      next same =>
          cases same
          exact absurd unsigned (by decide)
      next => cases matched
  | text =>
      rcases Infinite.exists_notMem_finset (texts patterns).toFinset with ⟨bytes, fresh⟩
      refine ⟨.text bytes, ⟨_, rfl⟩, ?_⟩
      rintro ⟨pattern, listed, matched⟩
      rcases literals pattern listed with ⟨own, type, rfl⟩
      rw [match?, Value.ofConstant] at matched
      split at matched
      next same =>
          cases same
          exact fresh (List.mem_toFinset.2 (List.mem_filterMap.2 ⟨_, listed, rfl⟩))
      next => cases matched
  | unit | boolean =>
      rcases List.exists_mem_of_ne_nil _ nonempty with ⟨pattern, listed⟩
      exact (literals pattern listed).elim

end Pattern

/-! ## The search for a gap -/

namespace TypeGraph

variable {ν : Type} {original graph : TypeGraph} {unfolding : Nat}
  {instantiation : Instantiation} {tree : TypeTree ν} {position copy copied : Ref}
  {patterns : List Pattern} {inner path : List Ref}

def Answers (original : TypeGraph) (copied : Ref) (patterns : List Pattern)
    (result : Except Fault (Option Gap)) : Prop :=
  ∃ answer, result = .ok answer ∧ answer ≠ some (.value "") ∧ ∀ instantiation,
    (answer = none ↔ ∀ value, original.Fits instantiation copied value →
      value.IsMatchedBy patterns)

theorem settle_expanded {node : Node}
    (found : graph.node position = .ok { form := .var none, link := some copy })
    (copyFound : graph.node copy = .ok node) (unlinked : node.link = none)
    (still : node.walked = false) (uncovered : node.marks.any = false)
    (outside : position ∉ path) (copyOutside : copy ∉ path) :
    graph.settleAround path (graph.size + 1) position = .ok (some (copy, node)) := by
  have positive : graph.size ≠ 0 := by
    have has := has_of_node found
    have low := has.1
    have high := has.2
    omega
  rcases Nat.exists_eq_succ_of_ne_zero positive with ⟨less, isSize⟩
  rw [settleAround_succ, found, isSize, Nat.succ_eq_add_one]
  simp only [Except.bind, List.contains_eq_mem, outside]
  rw [settleAround_succ, copyFound]
  simp [Except.bind, copyOutside, still, uncovered, unlinked]

theorem answers_covered {fuel : Nat} {node : Node} {pattern : Pattern}
    (found : graph.node position = .ok node) (any : node.marks.any = true)
    (listed : pattern ∈ patterns) (irrefutable : pattern.isIrrefutable = true) :
    Answers original copied patterns (graph.findGap (fuel + 1) path position) := by
  have settled : graph.settleAround path (graph.size + 1) position = .ok none := by
    rw [settleAround_succ, found]
    simp [Except.bind, any]
  refine ⟨none, ?_, nofun, ?_⟩
  · rw [findGap, settled]
    rfl
  · exact fun _ => iff_of_true rfl fun value _ =>
      Pattern.isMatchedBy_of_irrefutable listed irrefutable value

theorem answers_literals {own : Primitive} {fuel : Nat}
    (found : graph.node position = .ok { form := .var none, link := some copy })
    (opened : Opened original unfolding graph (.primitive own : TypeTree ν)
      copy patterns inner)
    (shows : original.ShowsPlain (.primitive own : TypeTree ν) copied)
    (nonempty : patterns ≠ []) (outside : position ∉ path) (copyOutside : copy ∉ path) :
    Answers original copied patterns (graph.findGap (fuel + 1) path position) := by
  rcases opened with ⟨_, copyFound, literals⟩
  rcases Pattern.exists_not_isMatchedBy nonempty literals with ⟨value, has, unmatched⟩
  have fits : ∀ instantiation, original.Fits instantiation copied value :=
    fun _ => .primitive ⟨_, shows, rfl, rfl⟩ has
  have partly : (!patterns.isEmpty) = true := by simpa using nonempty
  rw [partly] at copyFound
  have gap : graph.partialGap copy
      { form := .primitive own, marks := { partly := true } } =
      .ok (some (.value own.name)) := by
    rw [partialGap]
    change (graph.text copy >>= _) = _
    rw [text_primitive copyFound rfl rfl]
    cases own <;> rfl
  refine ⟨some (.value own.name), ?_, ?_,
    fun instantiation => iff_of_false (Option.some_ne_none _)
      fun all => unmatched (all value (fits instantiation))⟩
  · rw [findGap, settle_expanded found copyFound rfl rfl rfl outside copyOutside]
    exact gap
  · cases own <;> simp [Primitive.name]

def findGapUnder (graph : TypeGraph) (fuel : Nat) (path : List Ref)
    (entries : List (String × Ref)) :
    Except Fault (Option Gap) :=
  entries.findSomeM? fun (tag, type) => do
    return (← graph.findGap fuel path type).map (.payload tag)

theorem At.answers {opened : Ref → List Pattern → List Ref → Prop}
    {nodes : List Ref} {fuel : Nat} (marked : At original unfolding graph tree opened
      position patterns nodes) (nonempty : patterns ≠ [])
    (expanded : ∀ copy inner, nodes = position :: copy :: inner →
      graph.node position = .ok { form := .var none, link := some copy } →
        opened copy patterns inner →
        Answers original copied patterns (graph.findGap (fuel + 1) path position)) :
    Answers original copied patterns (graph.findGap (fuel + 1) path position) := by
  cases marked with
  | waiting => exact absurd rfl nonempty
  | covered found any _ listed irrefutable =>
      exact answers_covered found any listed irrefutable
  | expanded found opens => exact expanded _ _ rfl found opens

theorem findGapUnder_cons {fuel : Nat} {label : String} {entries : List (String × Ref)}
    {answer others : Option Gap} (first : graph.findGap fuel path position = .ok answer)
    (rest : graph.findGapUnder fuel path entries = .ok others) :
    graph.findGapUnder fuel path ((label, position) :: entries) =
      .ok ((answer.map (.payload label)).or others) := by
  rw [findGapUnder, List.findSomeM?]
  dsimp only
  rw [first]
  cases answer with
  | some gap => rfl
  | none => exact rest

theorem isMatchedBy_variant_iff {row : Row}
    (is : original.Is copied (.row .variant row (some row))) (distinct : row.labels.Nodup)
    (tagged : ∀ pattern ∈ patterns, pattern.IsTagged) :
    (∀ value, original.Fits instantiation copied value → value.IsMatchedBy patterns) ↔
      ∀ entry ∈ row.entries, ∀ value, original.Fits instantiation entry.2 value →
        value.IsMatchedBy (payloads entry.1 patterns) := by
  constructor
  · rintro all ⟨tag, type⟩ listed value fits
    have isType := (Row.get?_eq_some_iff distinct).2 listed
    exact (Pattern.isMatchedBy_tagged tagged).1 (all _ (.member is isType fits))
  · intro each value fits
    rcases fits.of_variant is with ⟨tag, payload, rfl, permits, parts⟩
    rcases Row.exists_get?_of_contains ((permits row rfl).elim id id) with ⟨type, isType⟩
    exact (Pattern.isMatchedBy_tagged tagged).2
      (each _ (Row.mem_of_get? isType) payload (parts type isType))

mutual

theorem Opened.answers (tree : TypeTree ν) (fuel : Nat) {position copy copied : Ref}
    {patterns : List Pattern} {inner path : List Ref}
    (found : graph.node position = .ok { form := .var none, link := some copy })
    (opened : Opened original unfolding graph tree copy patterns inner)
    (shows : original.ShowsPlain tree copied) (written : tree.IsWritten False)
    (nonempty : patterns ≠ []) (distinct : (position :: copy :: inner).Nodup)
    (outside : ∀ ref ∈ position :: copy :: inner, ref ∉ path)
    (enough : (position :: copy :: inner).length < fuel + 1) :
    Answers original copied patterns (graph.findGap (fuel + 1) path position) := by
  match tree with
  | .var _ => exact opened.elim
  | .function _ _ | .list _ | .row .struct _ _ => exact absurd opened.1 nonempty
  | .primitive own =>
      exact answers_literals found opened shows nonempty (outside position (by simp))
        (outside copy (by simp))
  | .row .variant isOpen entries =>
      rcases written with ⟨admits, entriesWritten⟩
      cases (admits.tags rfl).1
      rcases shows with ⟨row, copiedFound, _, entriesShow⟩
      rcases opened with ⟨ownRow, matched, collecting, copyFound, tagged, tested, opened⟩
      have is : original.Is copied (.row .variant row (some row)) :=
        ⟨_, copiedFound, rfl, rfl⟩
      have distinctLabels : row.labels.Nodup := by
        rw [Row.labels, ← entriesShow.labels]
        exact admits.distinct
      have labels : entries.labels = ownRow.labels := opened.labels.symm
      -- Some tag has been tested, since there are patterns.
      have someTested : matched ≠ [] := by
        rcases List.exists_mem_of_ne_nil _ nonempty with ⟨pattern, listed⟩
        rcases tagged pattern listed with ⟨tag, payload, rfl⟩
        exact List.ne_nil_of_mem
          ((tested tag).2 (List.ne_nil_of_mem (mem_payloads.2 listed)))
      have settled :=
        settle_expanded found copyFound rfl rfl rfl (outside position (by simp))
        (outside copy (by simp))
      rw [findGap, settled]
      change Answers original copied patterns (match missingTag _ ownRow with
        | some (tag, payload) => .ok (some (.missing tag payload))
        | none => graph.findGapUnder fuel (copy :: path) ownRow.entries)
      rw [missingTag, if_neg (by simpa using someTested)]
      split
      next tag payload isMissing =>
          -- The tag has a value, which no pattern matches.
          have listed : tag ∈ row.labels := by
            rw [Row.labels, ← entriesShow.labels, labels]
            exact List.mem_map_of_mem (List.mem_of_find?_eq_some isMissing)
          have untested : payloads tag patterns = [] := by
            simpa [tested] using List.find?_some isMissing
          rcases Row.exists_get?_of_contains (Row.contains_iff.2 listed)
            with ⟨type, isType⟩
          refine ⟨_, rfl, nofun, fun instantiation => iff_of_false nofun fun all => ?_⟩
          rcases entriesShow.exists_fits entriesWritten with ⟨_, _, parts⟩
          rcases parts tag type isType with ⟨value, _, fits⟩
          rcases (Pattern.isMatchedBy_tagged tagged).1 (all _ (.member is isType fits))
            with ⟨own, member, _⟩
          rw [untested] at member
          cases member
      next allTested =>
          have each : ∀ label ∈ entries.labels, payloads label patterns ≠ [] := by
            intro label member
            rw [labels] at member
            rcases List.mem_map.1 member with ⟨entry, listed, rfl⟩
            simpa [tested] using List.find?_eq_none.1 allTested entry listed
          rw [List.length_cons, List.length_cons] at enough
          rcases List.nodup_cons.1 distinct with ⟨_, copyDistinct⟩
          rcases List.nodup_cons.1 copyDistinct with ⟨copyApart, innerDistinct⟩
          have innerOutside : ∀ ref ∈ inner, ref ∉ copy :: path := by
            intro ref member
            rw [List.mem_cons, not_or]
            refine ⟨fun same => copyApart (same ▸ member), outside ref (by simp [member])⟩
          match fuel with
          | 0 => omega
          | less + 1 =>
              simp only [Answers, isMatchedBy_variant_iff is distinctLabels tagged]
              exact OpenedAll.answers entries less opened entriesShow entriesWritten
                each innerDistinct
                innerOutside (by omega)

theorem OpenedAll.answers (entries : TypeEntries ν) (fuel : Nat)
    {found copiedFound : List (String × Ref)} {patterns : List Pattern}
    {inner path : List Ref}
    (opened : OpenedAll original unfolding graph entries found patterns inner)
    (shows : original.ShowsPlainAll entries copiedFound)
    (written : entries.IsWritten False) (tested : ∀ label ∈ entries.labels,
      payloads label patterns ≠ []) (distinct : inner.Nodup)
    (outside : ∀ ref ∈ inner, ref ∉ path) (enough : inner.length < fuel + 1) :
    ∃ answer, graph.findGapUnder (fuel + 1) path found = .ok answer ∧
      answer ≠ some (.value "") ∧
      ∀ instantiation, (answer = none ↔ ∀ entry ∈ copiedFound, ∀ value,
        original.Fits instantiation entry.2 value →
          value.IsMatchedBy (payloads entry.1 patterns)) := by
  match entries with
  | .nil =>
      rcases opened with ⟨rfl, rfl⟩
      cases shows
      exact ⟨none, rfl, nofun, fun _ => iff_of_true rfl nofun⟩
  | .cons label type rest =>
      rcases opened with ⟨position, others, own, more, rfl, rfl, marked, openedRest⟩
      rcases shows with ⟨ref, copiedOthers, rfl, typeShows, restShow⟩
      rcases List.forall_mem_cons.1 tested with ⟨labelTested, restTested⟩
      rcases List.nodup_append.1 distinct with ⟨ownDistinct, moreDistinct, _⟩
      rw [List.length_append] at enough
      have head : Answers original ref (payloads label patterns)
          (graph.findGap (fuel + 1) path position) := by
        apply marked.answers labelTested
        rintro copy inside rfl found opens
        exact Opened.answers type fuel found opens typeShows written.1
          labelTested ownDistinct
          (fun own member => outside own (List.mem_append_left _ member)) (by omega)
      rcases head with ⟨answer, isAnswer, notEmpty, exact⟩
      rcases OpenedAll.answers rest fuel openedRest restShow written.2
        restTested moreDistinct
        (fun own member => outside own (List.mem_append_right _ member)) (by omega) with
        ⟨further, isFurther, furtherNotEmpty, furtherExact⟩
      refine ⟨_, findGapUnder_cons isAnswer isFurther, ?_, ?_⟩
      · cases answer with
        | none => exact furtherNotEmpty
        | some gap => exact nofun
      · intro instantiation
        rw [List.forall_mem_cons, ← exact instantiation, ← furtherExact instantiation]
        cases answer <;> simp

end

theorem Tracks.answers {nodes : List Ref}
    (tracks : Tracks original unfolding graph tree position patterns nodes)
    (shows : original.ShowsPlain tree copied) (written : tree.IsWritten False)
    (nonempty : patterns ≠ []) :
    Answers original copied patterns (graph.gap? position) := by
  rcases tracks with ⟨_, owned, marked⟩
  have short := length_le_size owned.distinct fun ref member =>
    (owned.within ref member).2
  apply At.answers marked nonempty
  rintro copy inner rfl found opened
  exact Opened.answers tree graph.size found opened shows written nonempty owned.distinct
    (fun _ _ => List.not_mem_nil) (by omega)

end TypeGraph

/-! ## The check of a case -/

mutual

theorem TypeTree.names_of_isWritten {ν : Type} {tree : TypeTree ν}
    (written : tree.IsWritten False) :
    tree.names = [] := by
  match tree with
  | .var _ => exact written.elim
  | .primitive _ => rfl
  | .function argument result =>
      rw [TypeTree.names, argument.names_of_isWritten written.1,
        result.names_of_isWritten written.2]
      rfl
  | .list element => exact element.names_of_isWritten written
  | .row _ _ entries => exact entries.names_of_isWritten written.2

theorem TypeEntries.names_of_isWritten {ν : Type} {entries : TypeEntries ν}
    (written : entries.IsWritten False) : entries.names = [] := by
  match entries with
  | .nil => rfl
  | .cons _ type rest =>
      rw [TypeEntries.names, type.names_of_isWritten written.1,
        rest.names_of_isWritten written.2]
      rfl

end

namespace Build

open TypeGraph

variable {ν : Type} {original graph : TypeGraph} {unfolding : Nat} {tree : TypeTree ν}
  {type root : Ref} {patterns : List Pattern}

theorem on_unfoldingRoot {own : Unfolding}
    (found : graph.unfoldings[unfolding]? = some own) (isRoot : own.root = root) :
    (unfoldingRoot unfolding).on graph = (.ok root, graph) := by
  change (Except.ok (graph.unfoldings[unfolding]?.getD default).root, graph) = _
  rw [found, Option.getD_some, isRoot]

theorem yields_unfold_plain (shows : graph.ShowsPlain tree type) :
    (unfold type).Yields graph (fun unfolding later => ∃ root,
      (unfoldingRoot unfolding).on later = (.ok root, later) ∧
        later.copiesOf unfolding = [] ∧
        Tracks graph unfolding later tree root [] [root]) fun _ _ => False := by
  rcases shows.exists_form with ⟨form, found, _, isKind, notVar⟩
  rw [← isKind] at notVar
  have rooted : graph.Rooted type type { form := form } := .self found rfl
  apply yields_look_bind rooted.deref
  apply yields_get_bind
  apply yields_modify_bind
  have frozen : ∀ ref, graph.Has ref → TypeGraph.node
      { graph with unfoldings := graph.unfoldings.push { root := type } } ref =
      graph.node ref :=
    fun ref _ => node_of_nodes rfl ref
  have here := rooted.of_frozen frozen
  unfold newPosition
  rw [bind_assoc]
  apply yields_look_bind here.deref
  rw [bind_assoc]
  apply yields_look_bind here.found
  rw [bind_assoc]
  apply yields_allocate_bind
  rw [bind_assoc]
  apply yields_modify_bind
  rw [pure_bind]
  apply yields_modify_bind
  apply yields_pure
  have started : ∀ change further : Unfolding → Unfolding,
      (((graph.unfoldings.push { root := type }).modify
        graph.unfoldings.size change).modify graph.unfoldings.size
        further)[graph.unfoldings.size]? =
          some (further (change { root := type })) := by
    intro change further
    rw [Array.getElem?_modify, if_pos rfl, Array.getElem?_modify, if_pos rfl,
      Array.getElem?_push_size]
    rfl
  have book := started (fun own =>
      { own with
        positions := own.positions ++ [⟨graph.size + 1⟩]
        copies := if form.kind = .var then addCopy type ⟨graph.size + 1⟩ own.copies
        else own.copies })
    fun own => { own with root := ⟨graph.size + 1⟩ }
  rw [if_neg notVar] at book
  have allocates : Replaces graph.size graph.unfoldings.size [] _ graph _ :=
    .of_allocate { form := .var (some ⟨type, graph.unfoldings.size⟩) } (Nat.le_refl _)
  refine ⟨⟨graph.size + 1⟩, on_unfoldingRoot book rfl, ?_, ⟨?_, ?_, .waiting shows ?_⟩⟩
  · exact congrArg (fun own : Option Unfolding => (own.getD default).copies) book
  · intro ref node isNode
    exact (node_of_nodes rfl ref).trans (node_allocate_of_ok isNode _)
  · exact ⟨allocates.owned.distinct, allocates.owned.within⟩
  · exact (node_of_nodes rfl _).trans (graph.node_allocate_self _)

theorem on_shareTags_of_copies (none : graph.copiesOf unfolding = []) :
    (shareTags unfolding).on graph = (.ok (), graph) := by
  have shared : (sharedPositions unfolding).on graph = (.ok [], graph) := by
    change (Except.ok (((graph.copiesOf unfolding).map Prod.snd).filter (1 < ·.length)),
      graph) = _
    rw [none]
    rfl
  unfold shareTags
  rw [on_bind, shared]
  rfl

theorem yields_gap?_exact {copied : Ref}
    (answers : Answers original copied patterns (graph.gap? root)) :
    (gap? root).Yields graph (fun answer _ => answer ≠ some "" ∧ ∀ instantiation,
      (answer = none ↔ ∀ value, original.Fits instantiation copied value →
        value.IsMatchedBy patterns))
      fun _ _ => True := by
  rcases answers with ⟨found, isFound, notEmpty, exact⟩
  refine .congr ?_ (on_gap? root graph)
  apply yields_look_bind isFound
  cases found with
  | none =>
      exact yields_pure
        ⟨nofun, fun instantiation => iff_of_true rfl ((exact instantiation).1 rfl)⟩
  | some gap =>
      apply (yields_gapText_nonempty fun isEmpty => notEmpty (congrArg some isEmpty)).bind
      intro text later nonempty
      refine yields_pure ⟨fun isEmpty => nonempty (Option.some.inj isEmpty),
        fun instantiation => ?_⟩
      rw [← exact instantiation]
      exact iff_of_false nofun nofun

end Build

section Check

open TypeGraph Build Stateful

variable {ν : Type} {graph unfolded elaborated : TypeGraph} {type root : Ref}
  {unfolding level : Nat} {setting : Setting} {scope : Scope} {choices : List Choice}
  {patterns : List (Pattern × Scope)} {state : Elaboration}

theorem exists_tracks_of_elaborateChoices {tree : TypeTree ν}
    (shows : graph.ShowsPlain tree type) (written : tree.IsWritten False)
    (unfolds : (unfold type).on graph = (.ok unfolding, unfolded))
    (isRoot : (unfoldingRoot unfolding).on unfolded = (.ok root, unfolded))
    (simple : ∀ choice ∈ choices, choice.pattern.IsSimple)
    (elaborates :
      ((elaborateChoices setting level scope root choices).run {}).on unfolded =
      (.ok (patterns, state), elaborated)) :
    patterns.length = choices.length ∧ state.gathered = none ∧
      elaborated.copiesOf unfolding = [] ∧
      ∃ nodes, Tracks graph unfolding elaborated tree root
        (patterns.map Prod.fst) nodes := by
  rcases (yields_unfold_plain shows).of_ok unfolds with ⟨own, isOwn, unshared, tracks⟩
  cases isOwn.symm.trans isRoot
  have outside : ({} : Elaboration).gathered = none := rfl
  have marks := yields_elaborateChoices_plain setting level scope simple
    written tracks outside
  rcases Build.Yields.of_ok marks elaborates with
    ⟨length, outsideLater, nodes, replaces, tracksLater⟩
  exact ⟨length, outsideLater, replaces.copies.trans unshared, nodes, tracksLater⟩

theorem exists_gap?_of_elaborateChoices {tree : TypeTree ν}
    (shows : graph.ShowsPlain tree type) (written : tree.IsWritten False)
    (tidy : graph.Tidy) (within : scope.Within graph)
    (unfolds : (unfold type).on graph = (.ok unfolding, unfolded))
    (isRoot : (unfoldingRoot unfolding).on unfolded = (.ok root, unfolded))
    (nonempty : choices ≠ []) (simple : ∀ choice ∈ choices, choice.pattern.IsSimple)
    (elaborates :
      ((elaborateChoices setting level scope root choices).run {}).on unfolded =
      (.ok (patterns, state), elaborated)) :
    ∃ answer final, (Build.gap? root).on elaborated = (.ok answer, final) ∧
      answer ≠ some "" ∧
      ∀ instantiation, (answer = none ↔ ∀ value, graph.Fits instantiation type value →
        value.IsMatchedBy (patterns.map Prod.fst)) := by
  rcases exists_tracks_of_elaborateChoices shows written unfolds isRoot
    simple elaborates with
    ⟨length, _, _, _, tracks⟩
  have reached : patterns.map Prod.fst ≠ [] := by
    intro isNil
    rw [List.map_eq_nil_iff] at isNil
    rw [isNil] at length
    exact nonempty (List.length_eq_zero_iff.1 length.symm)
  rcases ready_of_elaborateChoices tidy within shows.has unfolds isRoot elaborates with
    ⟨ready, rootHas, rootHigh⟩
  have total : (Build.gap? root).Yields elaborated _ fun _ _ => False :=
    yields_gap? tidy ready.copying rootHas rootHigh
  rcases total.exists_ok with ⟨answer, final, ran, _⟩
  exact ⟨answer, final, ran,
    (yields_gap?_exact (tracks.answers shows written reached)).of_ok ran⟩

theorem exists_gap?_of_showsPlain {tree : TypeTree ν} (shows : graph.ShowsPlain tree type)
    (written : tree.IsWritten False) (tidy : graph.Tidy) (within : scope.Within graph)
    (unfolds : (unfold type).on graph = (.ok unfolding, unfolded))
    (isRoot : (unfoldingRoot unfolding).on unfolded = (.ok root, unfolded))
    (nonempty : choices ≠ []) (simple : ∀ choice ∈ choices, choice.pattern.IsSimple)
    (elaborates :
      ((elaborateChoices setting level scope root choices).run {}).on unfolded =
      (.ok (patterns, state), elaborated)) :
    ∃ shared answer final, (shareTags unfolding).on elaborated = (.ok (), shared) ∧
      (Build.gap? root).on shared = (.ok answer, final) ∧ answer ≠ some "" ∧
      ∀ instantiation, (answer = none ↔ ∀ value, graph.Fits instantiation type value →
        value.IsMatchedBy (patterns.map Prod.fst)) := by
  rcases exists_tracks_of_elaborateChoices shows written unfolds isRoot
    simple elaborates with
    ⟨_, _, unshared, _⟩
  rcases exists_gap?_of_elaborateChoices shows written tidy within unfolds isRoot nonempty
    simple elaborates
    with ⟨answer, final, searched⟩
  exact ⟨elaborated, answer, final, on_shareTags_of_copies unshared, searched⟩

theorem exists_showsPlain_of_scan {source : Source} {tokens : List Token}
    {before typed : TypeGraph} (scanned : Token.scan source = .ok tokens)
    (closed : ∀ token ∈ tokens, token.lexeme ≠ .mark "...")
    (plain : ∀ token ∈ tokens, token.lexeme ≠ .mark "'")
    (parsed : (parseType source).on before = (.ok type, typed))
    (kept : ∀ ref node, typed.node ref = .ok node → graph.node ref = .ok node) :
    ∃ tree : TypeTree String, graph.ShowsPlain tree type ∧ tree.IsWritten False := by
  rcases exists_tree_of_parseType scanned closed plain parsed with
    ⟨_, tree, _, written, shows, _⟩
  have names := tree.names_of_isWritten written
  refine ⟨tree, shows.mono kept fun name member => ?_, written⟩
  rw [names] at member
  cases member

def Source.isPlain (source : Source) : Bool :=
  (Token.scan source).toOption.any fun tokens =>
    tokens.all fun token => token.lexeme ≠ .mark "..." && token.lexeme ≠ .mark "'"

theorem exists_showsPlain_of_isPlain {source : Source} {typed : TypeGraph}
    (plain : source.isPlain = true)
    (parsed : (parseType source).on {} = (.ok type, typed)) :
    ∃ tree : TypeTree String, typed.ShowsPlain tree type ∧ tree.IsWritten False := by
  rw [Source.isPlain] at plain
  cases scanned : Token.scan source with
  | error failure =>
      rw [scanned] at plain
      cases plain
  | ok tokens =>
      rw [scanned] at plain
      have each : ∀ token ∈ tokens, token.lexeme ≠ .mark "..." ∧
          token.lexeme ≠ .mark "'" := by
        simpa [Except.toOption] using plain
      exact exists_showsPlain_of_scan scanned (fun token member => (each token member).1)
        (fun token member => (each token member).2) parsed fun _ _ found => found

/-- The choices of a case over a type that has been written without variables and without
an open variant have patterns made of names, units, literals and tags. If they are all
accepted, then the check of coverage finds no gap if and only if every value of the type
is matched by one of them. -/
theorem gap?_eq_none_iff_isMatchedBy {source : Source} {tokens : List Token}
    {before typed : TypeGraph} (scanned : Token.scan source = .ok tokens)
    (closed : ∀ token ∈ tokens, token.lexeme ≠ .mark "...")
    (plain : ∀ token ∈ tokens, token.lexeme ≠ .mark "'")
    (parsed : (parseType source).on before = (.ok type, typed)) (tidy : graph.Tidy)
    (kept : ∀ ref node, typed.node ref = .ok node → graph.node ref = .ok node)
    (within : scope.Within graph)
    (unfolds : (unfold type).on graph = (.ok unfolding, unfolded))
    (isRoot : (unfoldingRoot unfolding).on unfolded = (.ok root, unfolded))
    (nonempty : choices ≠ []) (simple : ∀ choice ∈ choices, choice.pattern.IsSimple)
    (elaborates :
      ((elaborateChoices setting level scope root choices).run {}).on unfolded =
      (.ok (patterns, state), elaborated)) :
    ∃ shared answer final, (shareTags unfolding).on elaborated = (.ok (), shared) ∧
      (Build.gap? root).on shared = (.ok answer, final) ∧ answer ≠ some "" ∧
      ∀ instantiation, (answer = none ↔ ∀ value, graph.Fits instantiation type value →
        value.IsMatchedBy (patterns.map Prod.fst)) := by
  rcases exists_showsPlain_of_scan scanned closed plain parsed kept with
    ⟨tree, shows, written⟩
  exact exists_gap?_of_showsPlain shows written tidy within unfolds isRoot nonempty
    simple elaborates

/-- The choices `A 1`, `A _`, `B (C "x")`, `B (C s)` and `B (D ())`. -/
def nestedChoices : List Choice :=
  [.apply .first "A" (.number .first "1" ⟨0x3FF0000000000000⟩),
    .apply .first "A" (.symbol .first "_"),
    .apply .first "B" (.apply .first "C" (.string .first [120])),
    .apply .first "B" (.apply .first "C" (.symbol .first "s")),
    .apply .first "B" (.apply .first "D" (.unit .first))].map fun pattern =>
    ⟨.first, pattern, none⟩

theorem isMatchedBy_nestedChoices :
    ∃ type typed unfolding unfolded root patterns state elaborated,
      (parseType (.ofString "A number | B (C string | D ())")).on {} = (.ok type, typed) ∧
      (unfold type).on typed = (.ok unfolding, unfolded) ∧
      (unfoldingRoot unfolding).on unfolded = (.ok root, unfolded) ∧
      ((elaborateChoices {} 0 [] root nestedChoices).run {}).on unfolded =
        (.ok (patterns, state), elaborated) ∧
      ∀ instantiation value, typed.Fits instantiation type value →
        value.IsMatchedBy (patterns.map Prod.fst) := by
  have scans : (Token.scan (.ofString "A number | B (C string | D ())")).toOption.any
      (fun tokens =>
      decide ((∀ token ∈ tokens, token.lexeme ≠ .mark "...") ∧ ∀ token ∈ tokens,
        token.lexeme ≠ .mark "'")) =
      true := by decide +kernel
  have checks : ((do
      let type ← parseType (.ofString "A number | B (C string | D ())")
      let unfolding ← unfold type
      let root ← unfoldingRoot unfolding
      let _ ← (elaborateChoices {} 0 [] root nestedChoices).run {}
      shareTags unfolding
      gap? root : Build (Option String)).on {}).1.toOption =
        some none := by decide +kernel
  cases scanned : Token.scan (.ofString "A number | B (C string | D ())") with
  | error failure =>
      rw [scanned] at scans
      cases scans
  | ok tokens =>
      rw [scanned] at scans
      rcases of_decide_eq_true scans with ⟨closed, plain⟩
      rcases of_on_toOption checks with ⟨_, ran⟩
      rcases of_on_bind ran with ⟨type, typed, parsed, ran⟩
      rcases of_on_bind ran with ⟨unfolding, unfolded, unfolds, ran⟩
      rcases of_on_bind ran with ⟨root, sameUnfolded, isRoot, ran⟩
      rcases of_on_bind ran with ⟨⟨patterns, state⟩, elaborated, elaborates, ran⟩
      rcases of_on_bind ran with ⟨_, shared, shares, searched⟩
      cases (congrArg Prod.snd isRoot : unfolded = sameUnfolded)
      have tidy := ((yields_parseType tidy_empty _).of_ok parsed).1.tidy
      have within : Scope.Within typed [] := fun _ member =>
        (List.not_mem_nil member).elim
      have nonempty : nestedChoices ≠ [] := List.cons_ne_nil _ _
      have simple : ∀ choice ∈ nestedChoices, choice.pattern.IsSimple := by
        have isOne : Number.read? "1" = some ⟨0x3FF0000000000000⟩ := by decide +kernel
        simp [nestedChoices, Expr.IsSimple, isOne]
      rcases gap?_eq_none_iff_isMatchedBy scanned closed plain parsed tidy
        (fun _ _ found => found) within
        unfolds isRoot nonempty simple elaborates with
        ⟨_, answer, _, sharesToo, searchedToo, _, exact⟩
      cases shares.symm.trans sharesToo
      cases searched.symm.trans searchedToo
      exact ⟨type, typed, unfolding, unfolded, root, patterns, state, elaborated, parsed,
        unfolds, isRoot, elaborates, fun instantiation => (exact instantiation).1 rfl⟩

/-- A case with patterns made of names, units, literals and tags is accepted only if every
value is matched by one of them. -/
theorem isMatchedBy_of_checkChoices {tree : TypeTree ν} {place : Position}
    {checked : Checked} {later : TypeGraph} (shows : graph.ShowsPlain tree type)
    (written : tree.IsWritten False) (tidy : graph.Tidy) (within : scope.Within graph)
    (nonempty : choices ≠ []) (simple : ∀ choice ∈ choices, choice.pattern.IsSimple)
    (accepted : (checkChoices setting level scope place choices type).on graph =
      (.ok checked, later))
    {instantiation : Instantiation} {value : Value}
    (fits : graph.Fits instantiation type value) :
    value.IsMatchedBy (checked.choices.map Prod.fst) := by
  rcases of_on_bind accepted with ⟨unfolding, unfolded, unfolds, afterUnfold⟩
  rcases of_on_bind afterUnfold with ⟨_, _, checksAll, afterChecks⟩
  rcases of_on_bind afterChecks with ⟨_, _, _, returned⟩
  cases returned
  rcases of_on_bind checksAll with ⟨root, sameUnfolded, isRoot, checks⟩
  cases (congrArg Prod.snd isRoot : unfolded = sameUnfolded)
  rcases of_on_bind checks with ⟨⟨patterns, state⟩, elaborated, elaborates, afterPatterns⟩
  rcases of_on_bind afterPatterns with ⟨_, _, looked, afterText⟩
  rcases of_on_look looked with ⟨_, rfl⟩
  rcases of_on_bind afterText with ⟨_, shared, shares, afterSharing⟩
  rcases of_on_bind afterSharing with ⟨answer, final, searched, afterSearch⟩
  rcases exists_gap?_of_showsPlain shows written tidy within unfolds isRoot nonempty
    simple elaborates with
    ⟨_, _, _, sharesToo, searchedToo, _, exact⟩
  cases shares.symm.trans sharesToo
  cases searched.symm.trans searchedToo
  cases answer with
  | some path => cases afterSearch
  | none =>
      rcases of_on_bind afterSearch with ⟨_, _, _, afterSealing⟩
      rcases of_on_bind afterSealing with ⟨_, _, _, returned⟩
      cases returned
      exact (exact instantiation).1 rfl value fits

theorem isMatchedBy_of_checkChoices_nested :
    ∃ type typed checked later,
      (parseType (.ofString "A number | B (C string | D ())")).on {} = (.ok type, typed) ∧
      (checkChoices {} 0 [] .first nestedChoices type).on typed = (.ok checked, later) ∧
      ∀ instantiation value, typed.Fits instantiation type value →
        value.IsMatchedBy (checked.choices.map Prod.fst) := by
  have plain : (Source.ofString "A number | B (C string | D ())").isPlain = true := by
    decide +kernel
  have checks : ((do
      let type ← parseType (.ofString "A number | B (C string | D ())")
      let _ ← checkChoices {} 0 [] .first nestedChoices type
      : Build Unit).on {}).1.toOption = some () := by decide +kernel
  rcases of_on_toOption checks with ⟨_, ran⟩
  rcases of_on_bind ran with ⟨type, typed, parsed, ran⟩
  rcases of_on_bind ran with ⟨checked, later, accepted, _⟩
  rcases exists_showsPlain_of_isPlain plain parsed with ⟨tree, shows, written⟩
  have tidy := ((yields_parseType tidy_empty _).of_ok parsed).1.tidy
  have within : Scope.Within typed [] := fun _ member => (List.not_mem_nil member).elim
  have simple : ∀ choice ∈ nestedChoices, choice.pattern.IsSimple := by
    have isOne : Number.read? "1" = some ⟨0x3FF0000000000000⟩ := by decide +kernel
    simp [nestedChoices, Expr.IsSimple, isOne]
  exact ⟨type, typed, checked, later, parsed, accepted, fun _ _ fits =>
    isMatchedBy_of_checkChoices shows written tidy within (List.cons_ne_nil _ _)
      simple accepted fits⟩

/-- Fields are covered apart from each other: both tags of each field are tested here, and
no pattern takes a struct with different tags. -/
theorem gapLeft_crossedFields :
    let tagged (tag : String) : Expr := .apply .first tag (.unit .first)
    let both (tag : String) : Expr :=
      .record .first (.cons .first "a" (tagged tag) (.cons .first "b" (tagged tag) .nil))
    ((gapLeft "\x7ba is A () | B (), b is A () | B ()\x7d" [both "A", both "B"]).on
      {}).1.toOption =
      some none ∧
    ∀ pattern ∈ [both "A", both "B"], ¬ pattern.Takes {}
      (.struct (.cons "a" (.tagged "A" .null) (.cons "b" (.tagged "B" .null) .nil))) := by
  refine ⟨by decide +kernel, ?_⟩
  simp [Expr.Takes, Fields.Takes, Members.get?]

end Check

end Casework
