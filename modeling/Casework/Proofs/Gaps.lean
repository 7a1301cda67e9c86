import Casework.Proofs.Passing
import Casework.Proofs.TypeText

/-!
The search for a gap tests whether a place that is left out can be reached.

A step goes from a type to the type that stands for it, or from there to one of its parts.
It neither leaves nor enters a node that some pattern covers as a whole. The search enters
no node twice on one way, and it stops at the first gap. Still it finds a gap wherever
there is one: a walk that comes back to a node can leave out the way in between. A type
that is covered has no gap, even where it is matched partly as well.
-/

namespace Casework

def Form.opened (form : Form) : List Ref :=
  form.parameters ++ (form.members?.map Row.refs).getD []

theorem Form.mem_refs_of_opened {form : Form} {part : Ref} (member : part ∈ form.opened) :
    part ∈ form.refs := by
  cases form with
  | row kind members bound => exact List.mem_append_left _ member
  | function | list => simpa [opened, refs, parameters, members?] using member
  | var | primitive => simp [opened, parameters, members?] at member

namespace TypeGraph

variable {graph later : TypeGraph} {ref next root target : Ref} {node : Node}
  {path : List Ref}

/-! ## Walks -/

/-- A node that stands for itself is left out: it is matched partly, or some of its tags
have been tested but not all. -/
def IsUncovered (graph : TypeGraph) (ref : Ref) : Prop :=
  ∃ node, graph.node ref = .ok node ∧ node.link = none ∧ (node.marks.partly = true ∨
    ∃ members bound, node.form = .row .variant members bound ∧ node.matched ≠ [] ∧
      ∃ entry ∈ members.entries, entry.1 ∉ node.matched)

inductive StepsTo (graph : TypeGraph) (ref : Ref) : Ref → Prop where
  | link {node : Node} {next : Ref} (found : graph.node ref = .ok node)
    (linked : node.link = some next) :
      StepsTo graph ref next
  | part {node : Node} {next : Ref} (found : graph.node ref = .ok node)
    (unlinked : node.link = none)
      (member : next ∈ node.form.opened) : StepsTo graph ref next

def IsCovered (graph : TypeGraph) (ref : Ref) : Prop :=
  ∃ node, graph.node ref = .ok node ∧ node.marks.any = true

def Crosses (graph : TypeGraph) (ref next : Ref) : Prop :=
  graph.StepsTo ref next ∧ ¬ graph.IsCovered ref ∧ ¬ graph.IsCovered next

def Reaches (graph : TypeGraph) : Ref → Ref → Prop :=
  Relation.ReflTransGen graph.Crosses

def Enters (graph : TypeGraph) (path : List Ref) (ref : Ref) : Prop :=
  ref ∉ path ∧ ∃ node, graph.node ref = .ok node ∧ node.marks.any = false

inductive Walks (graph : TypeGraph) (path : List Ref) : Ref → Ref → Prop where
  | here {ref : Ref} (enters : graph.Enters path ref) : Walks graph path ref ref
  | step {ref next target : Ref} (enters : graph.Enters path ref)
    (steps : graph.StepsTo ref next)
      (walks : Walks graph path next target) : Walks graph path ref target

theorem Walks.enters (walks : graph.Walks path ref target) : graph.Enters path ref := by
  cases walks with
  | here enters => exact enters
  | step enters _ _ => exact enters

theorem Walks.weaken (walks : graph.Walks (root :: path) ref target) :
    graph.Walks path ref target := by
  have weaken {ref : Ref} (enters : graph.Enters (root :: path) ref) :
      graph.Enters path ref :=
    ⟨fun listed => enters.1 (List.mem_cons_of_mem _ listed), enters.2⟩
  induction walks with
  | here enters => exact .here (weaken enters)
  | step enters steps _ induction => exact .step (weaken enters) steps induction

theorem Walks.around (walks : graph.Walks path ref target) (root : Ref) :
    graph.Walks (root :: path) ref target ∨ target = root ∨
      ∃ next, graph.StepsTo root next ∧ graph.Walks (root :: path) next target := by
  have apart {ref : Ref} (enters : graph.Enters path ref) (different : ref ≠ root) :
      graph.Enters (root :: path) ref :=
    ⟨fun listed => (List.mem_cons.1 listed).elim different enters.1, enters.2⟩
  induction walks with
  | @here ref enters =>
      by_cases same : ref = root
      · exact .inr (.inl same)
      · exact .inl (.here (apart enters same))
  | @step ref next target enters steps _ induction =>
      rcases induction with around | last
      · by_cases same : ref = root
        · exact .inr (.inr ⟨next, same ▸ steps, around⟩)
        · exact .inl (.step (apart enters same) steps around)
      · exact .inr last

theorem stepsTo_iff (found : graph.node root = .ok node) (unlinked : node.link = none) :
    graph.StepsTo root next ↔ next ∈ node.form.opened := by
  constructor
  · intro steps
    cases steps with
    | link same linked =>
        rw [found] at same
        cases same
        rw [unlinked] at linked
        cases linked
    | part same _ member =>
        rw [found] at same
        cases same
        exact member
  · exact .part found unlinked

def Misses (graph : TypeGraph) (path : List Ref) (ref : Ref) : Prop :=
  ∃ target, graph.Walks path ref target ∧ graph.IsUncovered target

theorem misses_iff (found : graph.node root = .ok node) (unlinked : node.link = none)
    (enters : graph.Enters path root) : graph.Misses path root ↔
      graph.IsUncovered root ∨ ∃ part ∈ node.form.opened,
        graph.Misses (root :: path) part := by
  constructor
  · rintro ⟨target, walks, uncovered⟩
    rcases walks.around root with around | rfl | ⟨next, steps, further⟩
    · exact absurd List.mem_cons_self around.enters.1
    · exact .inl uncovered
    · exact .inr ⟨next, (stepsTo_iff found unlinked).1 steps, target, further, uncovered⟩
  · rintro (uncovered | ⟨part, member, target, walks, uncovered⟩)
    · exact ⟨root, .here enters, uncovered⟩
    · exact ⟨target, .step enters (.part found unlinked member) walks.weaken, uncovered⟩

theorem misses_iff_of_link (found : graph.node ref = .ok node)
    (linked : node.link = some next) (enters : graph.Enters path ref) :
    graph.Misses path ref ↔ graph.Misses path next := by
  constructor
  · rintro ⟨target, walks, uncovered⟩
    cases walks with
    | here _ =>
        rcases uncovered with ⟨own, ownFound, unlinked, _⟩
        rw [found] at ownFound
        cases ownFound
        rw [linked] at unlinked
        cases unlinked
    | step _ steps walks =>
        cases steps with
        | link own ownLinked =>
            rw [found] at own
            cases own
            rw [linked] at ownLinked
            cases ownLinked
            exact ⟨target, walks, uncovered⟩
        | part own unlinked _ =>
            rw [found] at own
            cases own
            rw [linked] at unlinked
            cases unlinked
  · rintro ⟨target, walks, uncovered⟩
    exact ⟨target, .step enters (.link found linked) walks, uncovered⟩

theorem Enters.not_isCovered (enters : graph.Enters path ref) :
    ¬ graph.IsCovered ref := by
  rcases enters.2 with ⟨node, found, notAny⟩
  simp [IsCovered, found, notAny]

theorem enters_nil (has : graph.Has ref) (uncovered : ¬ graph.IsCovered ref) :
    graph.Enters [] ref := by
  rcases has_iff.1 has with ⟨node, found⟩
  exact ⟨List.not_mem_nil, node, found, by simpa [IsCovered, found] using uncovered⟩

theorem Walks.reaches (walks : graph.Walks path ref target) :
    graph.Reaches ref target := by
  induction walks with
  | here _ => exact .refl
  | step enters steps walks induction =>
      exact .head ⟨steps, enters.not_isCovered, walks.enters.not_isCovered⟩ induction

theorem Founded.has_of_stepsTo (founded : graph.Founded)
    (steps : graph.StepsTo ref next) :
    graph.Has next := by
  cases steps with
  | link found linked => exact founded.stored _ _ found _ (Node.mem_stored_of_link linked)
  | part found _ member =>
      exact founded.stored _ _ found _
        (Node.mem_stored_of_refs (Form.mem_refs_of_opened member))

theorem walks_nil_iff (founded : graph.Founded) (has : graph.Has ref) :
    graph.Walks [] ref target ↔ ¬ graph.IsCovered ref ∧ graph.Reaches ref target := by
  refine ⟨fun walks => ⟨walks.enters.not_isCovered, walks.reaches⟩, ?_⟩
  rintro ⟨uncovered, reaches⟩
  induction reaches using Relation.ReflTransGen.head_induction_on with
  | refl => exact .here (enters_nil has uncovered)
  | head crosses _ induction =>
      have further := induction (founded.has_of_stepsTo crosses.1) crosses.2.2
      exact .step (enters_nil has uncovered) crosses.1 further

theorem misses_nil_iff (founded : graph.Founded) (has : graph.Has ref) :
    graph.Misses [] ref ↔
    ¬ graph.IsCovered ref ∧ ∃ target, graph.Reaches ref target ∧
      graph.IsUncovered target := by
  simp only [Misses, walks_nil_iff founded has, and_assoc, exists_and_left]

/-! ## Searching -/

/-- A graph in which the search for a gap makes sense: nothing passes on to itself, no
node is being walked, and only types without parts and lists are matched partly. -/
structure Searchable (graph : TypeGraph) : Prop extends graph.Founded where
  unwalked : ∀ ref node, graph.node ref = .ok node → node.walked = false
  partly : ∀ ref node, graph.node ref = .ok node → node.marks.partly = true →
    (∃ primitive, node.form = .primitive primitive) ∨ ∃ element, node.form = .list element

theorem settle_spec (searchable : graph.Searchable) {fuel : Nat}
    {place? : Option (Ref × Node)}
    (settled : graph.settleAround path fuel ref = .ok place?) :
    match place? with
    | none => ¬ graph.Misses path ref
    | some (root, node) => graph.node root = .ok node ∧ node.link = none ∧
        graph.Enters path root ∧
        (graph.Misses path ref ↔ graph.Misses path root) := by
  induction fuel generalizing ref with
  | zero => cases settled
  | succ fuel induction =>
      rw [settleAround_succ] at settled
      cases found : graph.node ref with
      | error fault =>
          rw [found] at settled
          cases settled
      | ok node =>
          rw [found, Except.bind, searchable.unwalked ref node found,
            Bool.false_or] at settled
          split at settled
          next stops =>
              cases settled
              rintro ⟨target, walks, _⟩
              rcases walks.enters with ⟨fresh, own, ownFound, noPattern⟩
              rw [found] at ownFound
              cases ownFound
              simp [fresh, noPattern] at stops
          next free =>
              simp only [Bool.or_eq_true, not_or, List.contains_iff_mem,
                Bool.not_eq_true] at free
              have enters : graph.Enters path ref := ⟨free.1, node, found, free.2⟩
              cases linked : node.link with
              | none =>
                  rw [linked] at settled
                  cases settled
                  exact ⟨found, linked, enters, Iff.rfl⟩
              | some next =>
                  rw [linked] at settled
                  have onwards := misses_iff_of_link found linked enters
                  have rest := induction settled
                  cases place? with
                  | none => exact fun misses => rest (onwards.1 misses)
                  | some place =>
                      exact ⟨rest.1, rest.2.1, rest.2.2.1, onwards.trans rest.2.2.2⟩

def Tells (holds : Prop) (gap? : Option Gap) : Prop :=
  (gap?.isSome = true ↔ holds) ∧ ∀ gap ∈ gap?, gap ≠ .value ""

theorem tells_none {holds : Prop} (fails : ¬ holds) : Tells holds none :=
  ⟨⟨fun isSome => Bool.noConfusion isSome, fun holds => absurd holds fails⟩, by simp⟩

theorem tells_some {holds : Prop} {gap : Gap} (is : holds) (told : gap ≠ .value "") :
    Tells holds (some gap) :=
  ⟨⟨fun _ => is, fun _ => rfl⟩, fun _ same => Option.some.inj same ▸ told⟩

theorem Tells.congr {holds other : Prop} {gap? : Option Gap} (tells : Tells holds gap?)
    (same : other ↔ holds) : Tells other gap? :=
  ⟨tells.1.trans same.symm, tells.2⟩

theorem Tells.of_map {outcome : Except Fault (Option Gap)} {wrap : Gap → Gap}
    {gap? : Option Gap} {holds : Prop} (wraps : ∀ gap, wrap gap ≠ .value "")
    (ran : (do return (← outcome).map wrap : Except Fault (Option Gap)) = .ok gap?)
    (inner : ∀ own, outcome = .ok own → Tells holds own) : Tells holds gap? := by
  cases outcome with
  | error fault => cases ran
  | ok own =>
      cases ran
      refine ⟨by rw [Option.isSome_map]; exact (inner own rfl).1, fun gap isGap => ?_⟩
      rcases Option.map_eq_some_iff.1 isGap with ⟨part, _, rfl⟩
      exact wraps part

theorem Tells.of_findSomeM? {α : Type} {items : List α}
    {act : α → Except Fault (Option Gap)} {gap? : Option Gap} {holds : α → Prop}
    (ran : items.findSomeM? act = .ok gap?)
    (each : ∀ item ∈ items, ∀ own, act item = .ok own → Tells (holds item) own) :
    Tells (∃ item ∈ items, holds item) gap? := by
  induction items with
  | nil =>
      cases ran
      exact tells_none fun ⟨_, member, _⟩ => List.not_mem_nil member
  | cons head tail induction =>
      rw [List.findSomeM?] at ran
      cases first : act head with
      | error fault =>
          rw [first] at ran
          cases ran
      | ok own =>
          rw [first] at ran
          have tells := each head List.mem_cons_self own first
          cases own with
          | some gap =>
              cases ran
              exact tells_some ⟨head, List.mem_cons_self, tells.1.1 rfl⟩ (tells.2 gap rfl)
          | none =>
              have fails : ¬ holds head := fun holds => Bool.noConfusion (tells.1.2 holds)
              refine (induction ran fun item member =>
                each item (List.mem_cons_of_mem _ member)).congr ?_
              simp [fails]

theorem Tells.of_entries {members : Row} {wrap : String → Gap → Gap}
    {search : Ref → Except Fault (Option Gap)} {gap? : Option Gap} {holds : Ref → Prop}
    (wraps : ∀ name gap, wrap name gap ≠ .value "")
    (ran : (members.entries.findSomeM? fun entry => do
      return (← search entry.2).map (wrap entry.1)) = .ok gap?)
    (inner : ∀ part own, search part = .ok own → Tells (holds part) own) :
    Tells (∃ part ∈ members.refs, holds part) gap? := by
  have found : Tells (∃ entry ∈ members.entries, holds entry.2) gap? :=
    Tells.of_findSomeM? ran fun entry _ _ first =>
      Tells.of_map (wraps entry.1) first (inner entry.2)
  apply found.congr
  constructor
  · rintro ⟨_, member, misses⟩
    rcases List.mem_map.1 member with ⟨entry, listed, rfl⟩
    exact ⟨entry, listed, misses⟩
  · rintro ⟨entry, listed, misses⟩
    exact ⟨entry.2, List.mem_map_of_mem listed, misses⟩

theorem missingTag_isSome {members : Row} : (missingTag node members).isSome = true ↔
    node.matched ≠ [] ∧ ∃ entry ∈ members.entries, entry.1 ∉ node.matched := by
  rw [missingTag]
  split
  next isEmpty => simp [List.isEmpty_iff.1 isEmpty]
  next someTag =>
      rw [List.isEmpty_iff] at someTag
      simp [someTag, List.find?_isSome]

theorem partialGap_told (searchable : graph.Searchable)
    (found : graph.node ref = .ok node) (unlinked : node.link = none)
    (isPartly : node.marks.partly = true) {gap? : Option Gap}
    (ran : graph.partialGap ref node = .ok gap?) :
    ∃ gap, gap? = some gap ∧ gap ≠ .value "" := by
  rw [partialGap] at ran
  rcases searchable.partly ref node found isPartly with
    ⟨primitive, form⟩ | ⟨element, form⟩
  · rw [form, text_primitive found unlinked form] at ran
    have spelled : primitive.name.isEmpty = false := by cases primitive <;> decide
    have same : gap? = some (.value primitive.name) := by
      cases ran
      rw [spelled]
      rfl
    refine ⟨_, same, fun isEmpty => ?_⟩
    rw [Gap.value.inj isEmpty] at spelled
    cases spelled
  · rw [form] at ran
    cases ran
    refine ⟨_, rfl, ?_⟩
    split <;> simp

theorem isUncovered_iff_of_not_partly (found : graph.node root = .ok node)
    (unlinked : node.link = none) (notPartly : ¬ node.marks.partly = true) :
    graph.IsUncovered root ↔ ∃ members bound, node.form = .row .variant members bound ∧
      (missingTag node members).isSome = true := by
  simp [IsUncovered, found, unlinked, notPartly, missingTag_isSome]

/-- What the parts of a node tell, the node itself tells. -/
theorem tells_of_parts {fuel : Nat} {gap? : Option Gap}
    (found : graph.node root = .ok node) (unlinked : node.link = none)
    (notPartly : ¬ node.marks.partly = true)
    (settled : graph.settleAround path (graph.size + 1) ref = .ok (some (root, node)))
    (ran : graph.findGap (fuel + 1) path ref = .ok gap?)
    (inner : ∀ part own, graph.findGap fuel (root :: path) part = .ok own →
      Tells (graph.Misses (root :: path) part) own) :
    Tells (graph.IsUncovered root ∨ ∃ part ∈ node.form.opened,
      graph.Misses (root :: path) part) gap? := by
  rw [TypeGraph.findGap, settled] at ran
  change (if node.marks.partly then graph.partialGap root node else _) = _ at ran
  rw [if_neg notPartly] at ran
  rw [isUncovered_iff_of_not_partly found unlinked notPartly]
  cases form : node.form with
  | var origin =>
      rw [form] at ran
      cases ran
      exact tells_none (by simp [Form.opened, Form.parameters, Form.members?])
  | primitive primitive =>
      rw [form] at ran
      cases ran
      exact tells_none (by simp [Form.opened, Form.parameters, Form.members?])
  | list element =>
      rw [form] at ran
      have wraps : ∀ gap, Gap.element gap ≠ .value "" := by simp
      apply (Tells.of_map wraps ran (inner element)).congr
      simp [Form.opened, Form.parameters, Form.members?]
  | function argument result =>
      rw [form] at ran
      apply (Tells.of_findSomeM? ran fun part _ => inner part).congr
      simp [Form.opened, Form.parameters, Form.members?]
  | row kind members bound =>
      have opened : (Form.row kind members bound).opened = members.refs := rfl
      rw [form] at ran
      rw [opened]
      cases kind with
      | struct =>
          have wraps : ∀ name gap, Gap.field name gap ≠ .value "" := by simp
          exact (Tells.of_entries wraps ran inner).congr (by simp)
      | variant =>
          cases missing : missingTag node members with
          | some entry =>
              simp only [missing] at ran
              cases ran
              exact tells_some (.inl ⟨members, bound, rfl, by rw [missing]; rfl⟩)
                (by simp)
          | none =>
              simp only [missing] at ran
              have wraps : ∀ tag gap, Gap.payload tag gap ≠ .value "" := by simp
              refine (Tells.of_entries wraps ran inner).congr (or_iff_right ?_)
              rintro ⟨others, _, ⟨⟩, isSome⟩
              rw [missing] at isSome
              cases isSome

theorem findGap_tells (searchable : graph.Searchable) {fuel : Nat} {gap? : Option Gap}
    (ran : graph.findGap fuel path ref = .ok gap?) :
    Tells (graph.Misses path ref) gap? := by
  induction fuel generalizing path ref gap? with
  | zero => cases ran
  | succ fuel induction =>
      cases settled : graph.settleAround path (graph.size + 1) ref with
      | error fault =>
          rw [TypeGraph.findGap, settled] at ran
          cases ran
      | ok place? =>
          have spec := settle_spec searchable settled
          cases place? with
          | none =>
              rw [TypeGraph.findGap, settled] at ran
              cases ran
              exact tells_none spec
          | some place =>
              rcases place with ⟨root, node⟩
              rcases spec with ⟨found, unlinked, enters, same⟩
              refine Tells.congr ?_ (same.trans (misses_iff found unlinked enters))
              by_cases isPartly : node.marks.partly = true
              · rw [TypeGraph.findGap, settled] at ran
                change (if node.marks.partly then graph.partialGap root node else _) =
                  _ at ran
                rw [if_pos isPartly] at ran
                rcases partialGap_told searchable found unlinked isPartly ran with
                  ⟨gap, rfl, told⟩
                exact tells_some (.inl ⟨node, found, unlinked, .inl isPartly⟩) told
              · exact tells_of_parts found unlinked isPartly settled ran
                  fun _ _ => induction

end TypeGraph

/-! ## Texts of gaps -/

namespace Build

open TypeGraph

variable {graph : TypeGraph} {failed : Failure → TypeGraph → Prop}

theorem yields_gapText_nonempty {gap : Gap} (shown : gap ≠ .value "") :
    (gapText gap).Yields graph (fun text _ => text ≠ "") fun _ _ => True := by
  cases gap with
  | emptyList => exact yields_pure (by decide)
  | nonEmptyList => exact yields_pure (by decide)
  | value text =>
      refine yields_pure fun isEmpty => shown (congrArg Gap.value isEmpty)
  | missing tag payload =>
      exact yields_bind_anyhow fun _ _ => yields_pure (by simp)
  | element gap => exact yields_bind_anyhow fun _ _ => yields_pure (by simp)
  | field name gap => exact yields_bind_anyhow fun _ _ => yields_pure (by simp)
  | payload tag gap => exact yields_bind_anyhow fun _ _ => yields_pure (by simp)

theorem yields_payloadText_founded (founded : graph.Founded) {payload : Ref}
    (has : graph.Has payload) :
    (payloadText payload).Yields graph (fun _ later => graph.Resembles later) failed := by
  apply (yields_expand_founded founded has).bind
  intro _ later resembles
  have stillHas := resembles.has has
  rcases resembles.founded.settles stillHas with ⟨target, node, rooted⟩
  apply yields_read_bind rooted.root
  split
  · exact yields_pure resembles
  · rcases resembles.founded.readable.text stillHas with ⟨text, shown⟩
    exact yields_look_bind shown (yields_pure resembles)

theorem yields_gapText_founded (founded : graph.Founded) {gap : Gap}
    (mentions : gap.Mentions graph.Has) :
    (gapText gap).Yields graph (fun _ later => graph.Resembles later) failed := by
  induction gap with
  | emptyList | nonEmptyList | value => exact yields_pure founded.resembles
  | missing tag payload =>
      exact (yields_payloadText_founded founded mentions).bind fun _ _ resembles =>
        yields_pure resembles
  | element gap induction | field _ gap induction | payload _ gap induction =>
      exact (induction mentions).bind fun _ _ resembles => yields_pure resembles

/-- The search for a gap ends. It answers with no text if and only if the type is covered
or no place that is left out can be reached from it. It leaves no node being walked, and
the marks and parts of every node as they were. -/
theorem gap?_tells_reachability {ref : Ref} (searchable : graph.Searchable)
    (has : graph.Has ref) :
    ∃ text? later, (gap? ref).on graph = (.ok text?, later) ∧
      (text?.getD "" = "" ↔ graph.IsCovered ref ∨
        ¬ ∃ target, graph.Reaches ref target ∧ graph.IsUncovered target) ∧
      (∀ own node, later.node own = .ok node → node.walked = false) ∧
      ∀ own node, graph.node own = .ok node →
        ∃ after, later.node own = .ok after ∧ node.Alike after := by
  have founded := searchable.toFounded
  have unwalked (later : TypeGraph) (resembles : graph.Resembles later) :
      ∀ own node, later.node own = .ok node → node.walked = false := by
    intro own node found
    rcases resembles.unwalked own node found with old | new
    · rcases has_iff.1 old with ⟨before, beforeFound⟩
      rcases resembles.kept own before beforeFound with ⟨after, afterFound, alike⟩
      rw [found] at afterFound
      cases afterFound
      exact alike.walked.trans (searchable.unwalked own before beforeFound)
    · exact new
  have stays : ∀ ref node, graph.Has ref → graph.node ref = .ok node →
      ∀ part ∈ node.stored, graph.Has part := fun ref node _ => founded.stored ref node
  rcases founded.readable.gap? stays has has with ⟨found?, searched, mentions⟩
  have tells : Tells (graph.Misses [] ref) found? := findGap_tells searchable searched
  have reaches : (graph.IsCovered ref ∨ ¬ ∃ target, graph.Reaches ref target ∧
      graph.IsUncovered target) ↔
      ¬ graph.Misses [] ref := by
    rw [misses_nil_iff founded has, not_and_or, not_not]
  rw [reaches, on_gap?, searched]
  cases found? with
  | none =>
      refine ⟨none, graph, rfl, iff_of_true rfl fun misses => ?_, searchable.unwalked,
        founded.resembles.kept⟩
      exact Bool.noConfusion (tells.1.2 misses)
  | some gap =>
      have text : (gapText gap).Yields graph (fun _ later => graph.Resembles later)
          fun _ _ => False :=
        yields_gapText_founded founded (mentions gap rfl)
      rcases text.exists_ok with ⟨text, later, ran, resembles⟩
      have nonempty := (yields_gapText_nonempty (tells.2 gap rfl)).of_ok ran
      have told : (told (.ok (some gap))).on graph = (.ok (some text), later) := by
        rw [on_told_some, on_bind, ran]
        rfl
      refine ⟨some text, later, told, iff_of_false nonempty fun covered =>
        covered (tells.1.1 rfl), ?_⟩
      exact ⟨unwalked later resembles, resembles.kept⟩

theorem gap?_tells_reachability_halfTested :
    let graph : TypeGraph := { nodes := #[
      { form := .list ⟨2⟩ },
      { form := .row .variant ⟨[("Some", ⟨1⟩), ("None", ⟨3⟩)]⟩ none,
        matched := ["Some"] },
      { form := .primitive .unit },
      { form := .var none, link := some ⟨1⟩ }] }
    ((gap? ⟨4⟩).on graph).1 = .ok (some "(None ())::_") ∧ ¬ graph.IsCovered ⟨4⟩ ∧
      ∃ target, graph.Reaches ⟨4⟩ target ∧ graph.IsUncovered target := by
  intro graph
  have nodes : ∀ ref node, graph.node ref = .ok node →
      ref = ⟨1⟩ ∧ node = { form := .list ⟨2⟩ } ∨
      ref = ⟨2⟩ ∧ node =
        { form := .row .variant ⟨[("Some", ⟨1⟩), ("None", ⟨3⟩)]⟩ none,
          matched := ["Some"] } ∨
      ref = ⟨3⟩ ∧ node = { form := .primitive .unit } ∨
      ref = ⟨4⟩ ∧ node = { form := .var none, link := some ⟨1⟩ } := by
    rintro ⟨number⟩ node found
    have large : 0 < number := (has_of_node found).1
    have small : number ≤ 4 := (has_of_node found).2
    have cases : number = 1 ∨ number = 2 ∨ number = 3 ∨ number = 4 := by omega
    rcases cases with rfl | rfl | rfl | rfl <;> cases found
    · exact .inl ⟨rfl, rfl⟩
    · exact .inr (.inl ⟨rfl, rfl⟩)
    · exact .inr (.inr (.inl ⟨rfl, rfl⟩))
    · exact .inr (.inr (.inr ⟨rfl, rfl⟩))
  have falls : graph.Falls fun ref => ref.number.toNat := by
    intro ref next passes
    cases passes with
    | link found linked =>
        rcases nodes _ _ found with ⟨rfl, rfl⟩ | ⟨rfl, rfl⟩ | ⟨rfl, rfl⟩
          | ⟨rfl, rfl⟩ <;> cases linked
        decide
    | origin found _ form =>
        rcases nodes _ _ found with ⟨rfl, rfl⟩ | ⟨rfl, rfl⟩ | ⟨rfl, rfl⟩
          | ⟨rfl, rfl⟩ <;> cases form
  have searchable : graph.Searchable := by
    refine { stored := ?_, copied := ?_, acyclic := falls.acyclic, unwalked := ?_,
             partly := ?_ }
    · intro ref node found
      rcases nodes _ _ found with ⟨rfl, rfl⟩ | ⟨rfl, rfl⟩ | ⟨rfl, rfl⟩
        | ⟨rfl, rfl⟩ <;> decide
    · intro ref node origin found form
      rcases nodes _ _ found with ⟨rfl, rfl⟩ | ⟨rfl, rfl⟩ | ⟨rfl, rfl⟩
        | ⟨rfl, rfl⟩ <;> cases form
    · intro ref node found
      rcases nodes _ _ found with ⟨rfl, rfl⟩ | ⟨rfl, rfl⟩ | ⟨rfl, rfl⟩
        | ⟨rfl, rfl⟩ <;> rfl
    · intro ref node found isPartly
      rcases nodes _ _ found with ⟨rfl, rfl⟩ | ⟨rfl, rfl⟩ | ⟨rfl, rfl⟩
        | ⟨rfl, rfl⟩ <;> cases isPartly
  have told : ((gap? ⟨4⟩).on graph).1 = .ok (some "(None ())::_") := by rfl
  refine ⟨told, ?_⟩
  rcases gap?_tells_reachability searchable (show graph.Has ⟨4⟩ by decide) with
    ⟨text?, later, ran, reaches, _, _⟩
  rw [ran] at told
  cases told
  rw [← not_not (a := ∃ target, _), ← not_or, ← reaches]
  decide

/-- A covered type has no gap, though it is matched partly as well. -/
theorem gap?_of_covered_partly :
    let graph : TypeGraph :=
      { nodes := #[{ form := .primitive .number,
                     marks := { any := true, partly := true } }] }
    graph.Searchable ∧ (gap? ⟨1⟩).on graph = (.ok none, graph) ∧
      ∃ target, graph.Reaches ⟨1⟩ target ∧ graph.IsUncovered target := by
  intro graph
  have only : ∀ ref node, graph.node ref = .ok node → ref = ⟨1⟩ ∧ node =
      { form := .primitive .number, marks := { any := true, partly := true } } := by
    rintro ⟨number⟩ node found
    have large : 0 < number := (has_of_node found).1
    have small : number ≤ 1 := (has_of_node found).2
    obtain rfl : number = 1 := by omega
    cases found
    exact ⟨rfl, rfl⟩
  have falls : graph.Falls fun _ => 0 := by
    intro ref next passes
    cases passes with
    | link found linked =>
        rw [(only _ _ found).2] at linked
        cases linked
    | origin found _ form =>
        rw [(only _ _ found).2] at form
        cases form
  have searchable : graph.Searchable := by
    refine { stored := ?_, copied := ?_, acyclic := falls.acyclic, unwalked := ?_,
             partly := ?_ }
    · intro ref node found
      rw [(only _ _ found).2]
      decide
    · intro ref node origin found form
      rw [(only _ _ found).2] at form
      cases form
    · intro ref node found
      rw [(only _ _ found).2]
    · intro ref node found _
      rw [(only _ _ found).2]
      exact .inl ⟨.number, rfl⟩
  exact ⟨searchable, rfl, ⟨1⟩, .refl, _, rfl, rfl, .inl rfl⟩

end Build

end Casework
