import Casework.Proofs.Links
import Casework.Proofs.Rows
import Casework.Proofs.Searching

/-!
Well-formed type graphs.

In a well-formed graph every reference that is stored names a node, links lead to a node
that stands for the type, and rows are fair. Every graph that is built by adding types and
unifying them is such a graph. What reading a type needs is all there, so the text of a
type and the search for a gap come to an end, even in types that contain themselves.
-/

namespace Casework

/-- All references that a node holds, its link first. -/
def Node.stored (node : Node) : List Ref :=
  node.link.toList ++ node.form.refs

theorem Node.mem_stored_of_link {node : Node} {next : Ref}
    (linked : node.link = some next) :
    next ∈ node.stored := by
  simp [stored, linked]

theorem Node.mem_stored_of_refs {node : Node} {part : Ref}
    (member : part ∈ node.form.refs) :
    part ∈ node.stored :=
  List.mem_append_right _ member

theorem Form.mem_refs_of_entry {kind : RowKind} {members : Row} {bound : Option Row}
    {entry : String × Ref} (member : entry ∈ (bound.getD members).entries) :
    entry.2 ∈ (Form.row kind members bound).refs := by
  have stored := List.mem_map_of_mem (f := Prod.snd) member
  cases bound with
  | none => exact List.mem_append_left _ stored
  | some bound => exact List.mem_append_right _ stored

/-- Tells whether a form is that of a position which has not been expanded. -/
def Form.isPosition : Form → Bool
  | .var (some _) => true
  | _ => false

namespace TypeGraph

variable {graph later : TypeGraph} {ref other target : Ref} {node before after : Node}

structure WellFormed (graph : TypeGraph) : Prop where
  stored : ∀ ref node, graph.node ref = .ok node → ∀ part ∈ node.stored, graph.Has part
  settles : ∀ ref, graph.Has ref → ∃ target node, graph.Rooted ref target node
  fair : ∀ ref node, graph.node ref = .ok node → node.form.Fair

/-- A graph without positions that have not been expanded. -/
def Folded (graph : TypeGraph) : Prop :=
  ∀ ref node, graph.node ref = .ok node → node.form.isPosition = false

def Grounded (graph : TypeGraph) : Prop :=
  ∀ ref node origin, graph.node ref = .ok node → node.form = .var (some origin) →
    ∃ target own, graph.Rooted origin.copied target own ∧ own.form.isPosition = false

theorem Folded.grounded (folded : graph.Folded) : graph.Grounded := by
  intro ref node origin found form
  have plain := folded ref node found
  rw [form] at plain
  cases plain

theorem WellFormed.has_part (wellFormed : graph.WellFormed)
    (found : graph.node ref = .ok node) {part : Ref} (member : part ∈ node.form.refs) :
    graph.Has part :=
  wellFormed.stored ref node found part (node.mem_stored_of_refs member)

theorem not_has_allocate (graph : TypeGraph) (node : Node) :
    ¬ graph.Has (graph.allocate node).1 := by
  rintro ⟨_, small⟩
  change (graph.size + 1 : Int) ≤ graph.size at small
  omega

/-! ## Adding a node -/

theorem has_allocate_iff {node : Node} :
    (graph.allocate node).2.Has ref ↔ graph.Has ref ∨ ref = (graph.allocate node).1 := by
  rcases ref with ⟨number⟩
  rw [Has, Has, size_allocate]
  change 0 < number ∧ number ≤ (graph.size + 1 : Nat) ↔
    (0 < number ∧ number ≤ graph.size) ∨ Ref.mk number = ⟨graph.size + 1⟩
  rw [Ref.mk.injEq]
  omega

theorem node_allocate_cases {added : Node}
    (found : (graph.allocate added).2.node ref = .ok node) :
    graph.node ref = .ok node ∨ ref = (graph.allocate added).1 ∧ node = added := by
  rcases has_allocate_iff.1 (has_of_node found) with old | rfl
  · rcases has_iff.1 old with ⟨own, ownFound⟩
    rw [node_allocate_of_ok ownFound] at found
    cases found
    exact .inl ownFound
  · rw [node_allocate_self] at found
    cases found
    exact .inr ⟨rfl, rfl⟩

theorem Leads.allocate (leads : graph.Leads ref target) (added : Node) :
    (graph.allocate added).2.Leads ref target := by
  apply leads.mono
  rintro ref next ⟨node, found, linked⟩
  exact ⟨node, node_allocate_of_ok found added, linked⟩

theorem Rooted.allocate (rooted : graph.Rooted ref target node) (added : Node) :
    (graph.allocate added).2.Rooted ref target node :=
  ⟨rooted.leads.allocate added, node_allocate_of_ok rooted.found added, rooted.unlinked⟩

theorem rooted_allocate {added : Node} (unlinked : added.link = none) :
    (graph.allocate added).2.Rooted (graph.allocate added).1
      (graph.allocate added).1 added :=
  .self (graph.node_allocate_self added) unlinked

theorem WellFormed.allocate {added : Node} (wellFormed : graph.WellFormed)
    (unlinked : added.link = none) (parts : ∀ part ∈ added.form.refs, graph.Has part)
    (fair : added.form.Fair) : (graph.allocate added).2.WellFormed where
  stored ref node found part member := by
    rw [has_allocate_iff]
    rcases node_allocate_cases found with old | ⟨rfl, rfl⟩
    · exact .inl (wellFormed.stored ref node old part member)
    · rw [Node.stored, unlinked] at member
      exact .inl (parts part member)
  settles ref has := by
    rcases has_allocate_iff.1 has with old | rfl
    · rcases wellFormed.settles ref old with ⟨target, node, rooted⟩
      exact ⟨target, node, rooted.allocate added⟩
    · exact ⟨_, added, rooted_allocate unlinked⟩
  fair ref node found := by
    rcases node_allocate_cases found with old | ⟨rfl, rfl⟩
    · exact wellFormed.fair ref node old
    · exact fair

theorem Folded.allocate {added : Node} (folded : graph.Folded)
    (plain : added.form.isPosition = false) : (graph.allocate added).2.Folded := by
  intro ref node found
  rcases node_allocate_cases found with old | ⟨rfl, rfl⟩
  · exact folded ref node old
  · exact plain

/-! ## Replacing a node -/

structure Alters (graph later : TypeGraph) (ref : Ref) (before after : Node) : Prop where
  size : later.size = graph.size
  unfoldings : later.unfoldings = graph.unfoldings
  found : graph.node ref = .ok before
  changed : later.node ref = .ok after
  others : ∀ other, other ≠ ref → later.node other = graph.node other

theorem unfoldings_update (graph : TypeGraph) (ref : Ref) (change : Node → Node) :
    (graph.update ref change).unfoldings = graph.unfoldings := by
  unfold update
  split <;> rfl

theorem alters_update (found : graph.node ref = .ok node) (change : Node → Node) :
    graph.Alters (graph.update ref change) ref node (change node) where
  size := graph.size_update ref change
  unfoldings := graph.unfoldings_update ref change
  found := found
  changed := node_update_self found change
  others _ different := graph.node_update_of_ne different change

namespace Alters

theorem node_cases (alters : graph.Alters later ref before after)
    (found : later.node other = .ok node) :
    other = ref ∧ node = after ∨ other ≠ ref ∧ graph.node other = .ok node := by
  by_cases equal : other = ref
  · subst equal
    rw [alters.changed] at found
    cases found
    exact .inl ⟨rfl, rfl⟩
  · rw [alters.others other equal] at found
    exact .inr ⟨equal, found⟩

theorem has_iff (alters : graph.Alters later ref before after) :
    later.Has other ↔ graph.Has other := by
  unfold Has
  rw [alters.size]

theorem rooted (alters : graph.Alters later ref before after)
    (link : after.link = before.link) (rooted : graph.Rooted other target node) :
    later.Rooted other target (if target = ref then after else node) := by
  constructor
  · apply rooted.leads.mono
    rintro own next ⟨ownNode, ownFound, linked⟩
    by_cases equal : own = ref
    · subst equal
      rw [alters.found] at ownFound
      cases ownFound
      exact ⟨after, alters.changed, link.trans linked⟩
    · exact ⟨ownNode, (alters.others own equal).trans ownFound, linked⟩
  · by_cases equal : target = ref
    · subst equal
      rw [if_pos rfl]
      exact alters.changed
    · rw [if_neg equal, alters.others target equal]
      exact rooted.found
  · by_cases equal : target = ref
    · subst equal
      have same := alters.found
      rw [rooted.found] at same
      cases same
      rw [if_pos rfl, link]
      exact rooted.unlinked
    · rw [if_neg equal]
      exact rooted.unlinked

theorem wellFormed (alters : graph.Alters later ref before after)
    (link : after.link = before.link) (wellFormed : graph.WellFormed)
    (parts : ∀ part ∈ after.form.refs, graph.Has part) (fair : after.form.Fair) :
    later.WellFormed where
  stored own node found part member := by
    rw [alters.has_iff]
    rcases alters.node_cases found with ⟨rfl, rfl⟩ | ⟨_, old⟩
    · rcases List.mem_append.1 member with linked | inside
      · rw [link] at linked
        exact wellFormed.stored _ _ alters.found part (List.mem_append_left _ linked)
      · exact parts part inside
    · exact wellFormed.stored own node old part member
  settles own has := by
    rcases wellFormed.settles own (alters.has_iff.1 has) with ⟨target, node, rooted⟩
    exact ⟨target, _, alters.rooted link rooted⟩
  fair own node found := by
    rcases alters.node_cases found with ⟨rfl, rfl⟩ | ⟨_, old⟩
    · exact fair
    · exact wellFormed.fair own node old

theorem folded (alters : graph.Alters later ref before after) (folded : graph.Folded)
    (plain : after.form.isPosition = false) : later.Folded := by
  intro own node found
  rcases alters.node_cases found with ⟨rfl, rfl⟩ | ⟨_, old⟩
  · exact plain
  · exact folded own node old

/-! ### Links that are new -/

theorem linksTo (alters : graph.Alters later ref before after)
    (unlinked : before.link = none) {next : Ref} (linked : graph.LinksTo other next) :
    later.LinksTo other next := by
  rcases linked with ⟨node, found, isLinked⟩
  have different : other ≠ ref := by
    rintro rfl
    rw [alters.found] at found
    cases found
    rw [unlinked] at isLinked
    cases isLinked
  exact ⟨node, (alters.others other different).trans found, isLinked⟩

theorem rooted_of_ne (alters : graph.Alters later ref before after)
    (unlinked : before.link = none) (rooted : graph.Rooted other target node)
    (apart : target ≠ ref) :
    later.Rooted other target node :=
  ⟨rooted.leads.mono fun _ _ => alters.linksTo unlinked,
    (alters.others target apart).trans rooted.found, rooted.unlinked⟩

theorem rooted_of_linked (alters : graph.Alters later ref before after)
    (unlinked : before.link = none) {next : Ref} (linked : after.link = some next)
    (goal : graph.Rooted next target node) (apart : target ≠ ref)
    (leads : graph.Leads other ref) :
    later.Rooted other target node := by
  have onwards := alters.rooted_of_ne unlinked goal apart
  apply Rooted.to_leads onwards
  exact (leads.mono fun _ _ => alters.linksTo unlinked).trans
    (.link ⟨after, alters.changed, linked⟩ (.refl next))

theorem wellFormed_of_linked (alters : graph.Alters later ref before after)
    (unlinked : before.link = none) {next : Ref} (linked : after.link = some next)
    (goal : graph.Rooted next target node) (apart : target ≠ ref)
    (wellFormed : graph.WellFormed) (nextHas : graph.Has next)
    (form : ∀ part ∈ after.form.refs, part ∈ before.form.refs) (fair : after.form.Fair) :
    later.WellFormed where
  stored own ownNode found part member := by
    rw [alters.has_iff]
    rcases alters.node_cases found with ⟨rfl, rfl⟩ | ⟨_, old⟩
    · rcases List.mem_append.1 member with isLink | inside
      · rw [linked] at isLink
        cases List.mem_singleton.1 isLink
        exact nextHas
      · exact wellFormed.has_part alters.found (form part inside)
    · exact wellFormed.stored own ownNode old part member
  settles own has := by
    rcases wellFormed.settles own (alters.has_iff.1 has) with ⟨root, rootNode, rooted⟩
    by_cases equal : root = ref
    · rw [equal] at rooted
      exact ⟨target, node,
        alters.rooted_of_linked unlinked linked goal apart rooted.leads⟩
    · exact ⟨root, rootNode, alters.rooted_of_ne unlinked rooted equal⟩
  fair own ownNode found := by
    rcases alters.node_cases found with ⟨rfl, rfl⟩ | ⟨_, old⟩
    · exact fair
    · exact wellFormed.fair own ownNode old

end Alters

/-! ## Texts -/

def Printing.Succeeds {α : Type} (printing : Printing α) : Prop :=
  ∀ names, ∃ result, printing.run names = .ok result

namespace Printing.Succeeds

variable {α β : Type}

theorem pure (value : α) : (Pure.pure value : Printing α).Succeeds :=
  fun names => ⟨(value, names), rfl⟩

theorem bind {printing : Printing α} {next : α → Printing β} (first : printing.Succeeds)
    (second : ∀ value, (next value).Succeeds) : (printing >>= next).Succeeds := by
  intro names
  rcases first names with ⟨⟨value, middle⟩, ran⟩
  rcases second value middle with ⟨result, done⟩
  refine ⟨result, ?_⟩
  rw [StateT.run_bind, ran]
  exact done

theorem modify (change : Names → Names) : (modify change : Printing PUnit).Succeeds :=
  fun names => ⟨(⟨⟩, change names), rfl⟩

theorem get : (get : Printing Names).Succeeds := fun names => ⟨(names, names), rfl⟩

theorem nameOf (ref : Ref) : (TypeGraph.nameOf ref).Succeeds := by
  apply get.bind
  intro names
  split
  · exact pure _
  · exact Succeeds.bind (modify fun _ => _) fun _ => pure _

theorem mapM {items : List α} {act : α → Printing β}
    (each : ∀ item ∈ items, (act item).Succeeds) :
    (items.mapM act).Succeeds := by
  induction items with
  | nil => exact pure []
  | cons head tail induction =>
      rw [List.mapM_cons]
      apply (each head List.mem_cons_self).bind
      intro value
      apply (induction fun item member => each item (List.mem_cons_of_mem _ member)).bind
      intro values
      exact pure _

end Printing.Succeeds

theorem shown_succ (rooted : graph.Rooted ref target node) (fuel : Nat) :
    graph.shown (fuel + 1) ref = match node.form with
      | .var (some origin) => graph.shown fuel origin.copied
      | form => .ok (target, form) := by
  rw [TypeGraph.shown, rooted.deref]
  change (do let own ← graph.node target; _) = _
  rw [rooted.found]
  rfl

theorem Rooted.shown (rooted : graph.Rooted ref target node)
    (plain : node.form.isPosition = false) (fuel : Nat) :
    graph.shown (fuel + 1) ref = .ok (target, node.form) := by
  rw [shown_succ rooted]
  split
  next origin form =>
      rw [form] at plain
      cases plain
  next => rfl

theorem WellFormed.shown (wellFormed : graph.WellFormed) (grounded : graph.Grounded)
    (has : graph.Has ref) (fuel : Nat) :
    ∃ target node, graph.shown (fuel + 2) ref = .ok (target, node.form) ∧
      graph.node target = .ok node := by
  rcases wellFormed.settles ref has with ⟨target, node, rooted⟩
  by_cases noPosition : node.form.isPosition = false
  · exact ⟨target, node, rooted.shown noPosition _, rooted.found⟩
  · have position : ∃ origin, node.form = .var (some origin) := by
      cases form : node.form with
      | var origin =>
          cases origin with
          | none => simp [form, Form.isPosition] at noPosition
          | some origin => exact ⟨origin, rfl⟩
      | _ => simp [form, Form.isPosition] at noPosition
    rcases position with ⟨origin, form⟩
    rcases grounded target node origin rooted.found form with
      ⟨copied, own, copiedRooted, ownPlain⟩
    refine ⟨copied, own, ?_, copiedRooted.found⟩
    rw [shown_succ rooted, form]
    exact copiedRooted.shown ownPlain _

/-- Every type can be read: its parts are there, and following links and positions comes
to an end. -/
structure Readable (graph : TypeGraph) : Prop where
  parts : ∀ ref node, graph.node ref = .ok node → ∀ part ∈ node.form.refs, graph.Has part
  settles : ∀ ref, graph.Has ref → ∃ target node, graph.Rooted ref target node
  shows : ∀ ref, graph.Has ref → ∃ target node,
    graph.shown (graph.size + 1) ref = .ok (target, node.form) ∧
    graph.node target = .ok node

theorem WellFormed.readable (wellFormed : graph.WellFormed) (grounded : graph.Grounded) :
    graph.Readable where
  parts _ _ found _ member := wellFormed.has_part found member
  settles := wellFormed.settles
  shows ref has := by
    have positive : 0 < graph.size := by
      have small := has.2
      have large := has.1
      omega
    rw [show graph.size + 1 = graph.size - 1 + 2 by omega]
    exact wellFormed.shown grounded has (graph.size - 1)

theorem Readable.print (readable : graph.Readable) (fuel : Nat) :
    ∀ (around : List Ref) (nested : Bool) (ref : Ref), around.Nodup →
      (∀ own ∈ around, graph.Has own) →
      graph.size < fuel + around.length → graph.Has ref →
        (graph.print fuel around nested ref).Succeeds := by
  induction fuel with
  | zero =>
      intro around nested ref distinct named enough
      have short := length_le_size distinct named
      omega
  | succ fuel induction =>
      intro around nested ref distinct named enough has
      rcases readable.shows ref has with ⟨target, node, shown, found⟩
      rw [TypeGraph.print]
      have lifted : (liftM (graph.shown (graph.size + 1) ref) : Printing (Ref × Form)) =
          Pure.pure (target, node.form) := by
        rw [shown]
        rfl
      rw [lifted, pure_bind]
      dsimp only
      have targetHas := has_of_node found
      have inner : ∀ (nested : Bool), ∀ part ∈ node.form.refs, target ∉ around →
          (graph.print fuel (target :: around) nested part).Succeeds := by
        intro nested part member fresh
        apply induction
        · exact List.nodup_cons.2 ⟨fresh, distinct⟩
        · intro own listed
          rcases List.mem_cons.1 listed with rfl | further
          · exact targetHas
          · exact named own further
        · rw [List.length_cons]
          omega
        · exact readable.parts target node found part member
      split
      · exact .nameOf target
      · exact .pure _
      · split
        · exact Printing.Succeeds.bind (.modify _) fun _ => .nameOf target
        next fresh =>
            have parts := fun nested part member => inner nested part member fresh
            have enclose : ∀ text : String × Bool, (do
                if target ∈ (← get).recursive then
                  return parenthesize ((← TypeGraph.nameOf target) ++ " is " ++ text.1)
                else return if text.2 then parenthesize text.1 else text.1 :
                  Printing String).Succeeds := by
              intro text
              apply Printing.Succeeds.get.bind
              intro names
              split
              · exact (Printing.Succeeds.nameOf target).bind fun _ => .pure _
              · exact .pure _
            split
            next argument result form =>
                rw [form] at parts
                refine (parts true argument List.mem_cons_self).bind fun _ => ?_
                refine (parts false result (by simp [Form.refs, Form.parameters])).bind
                  fun _ => ?_
                exact (Printing.Succeeds.pure _).bind enclose
            next element form =>
                rw [form] at parts
                refine (parts false element List.mem_cons_self).bind fun _ => ?_
                exact (Printing.Succeeds.pure _).bind enclose
            next members bound form =>
                rw [form] at parts
                refine (Printing.Succeeds.mapM fun entry member => ?_).bind fun _ => ?_
                · exact (parts false entry.2 (Form.mem_refs_of_entry member)).bind
                    fun _ => .pure _
                · exact (Printing.Succeeds.pure _).bind enclose
            next members bound form =>
                rw [form] at parts
                refine (Printing.Succeeds.mapM fun entry member => ?_).bind fun _ => ?_
                · exact (parts true entry.2 (Form.mem_refs_of_entry member)).bind
                    fun _ => .pure _
                · exact (Printing.Succeeds.pure _).bind enclose
            next => exact (Printing.Succeeds.pure _).bind enclose

theorem Readable.text (readable : graph.Readable) (has : graph.Has ref) :
    ∃ text, graph.text ref = .ok text := by
  rcases readable.print (graph.size + 2) [] false ref List.nodup_nil nofun
    (by rw [List.length_nil]; omega) has {} with ⟨result, printed⟩
  refine ⟨result.1, ?_⟩
  rw [TypeGraph.text, printed]
  rfl

theorem WellFormed.text (wellFormed : graph.WellFormed) (grounded : graph.Grounded)
    (has : graph.Has ref) : ∃ text, graph.text ref = .ok text :=
  (wellFormed.readable grounded).text has

/-! ## Gaps -/

end TypeGraph

def Gap.Mentions (holds : Ref → Prop) : Gap → Prop
  | .missing _ type => holds type
  | .element gap => gap.Mentions holds
  | .field _ gap => gap.Mentions holds
  | .payload _ gap => gap.Mentions holds
  | _ => True

namespace TypeGraph

variable {graph : TypeGraph} {ref target : Ref} {node : Node}

theorem Away.settle {count fuel : Nat} (away : graph.Away count ref)
    (enough : count < fuel) (path : List Ref) :
    ∃ place?, graph.settleAround path fuel ref = .ok place? ∧
      ∀ target node, place? = some (target, node) →
        graph.Leads ref target ∧ graph.node target = .ok node ∧ target ∉ path := by
  induction away generalizing fuel with
  | @here ref node found unlinked =>
      cases fuel with
      | zero => omega
      | succ fuel =>
          rw [settleAround_succ, found, Except.bind]
          split
          · exact ⟨none, rfl, fun _ _ isPlace => nomatch isPlace⟩
          next free =>
              simp only [Bool.or_eq_true, not_or, List.contains_iff_mem] at free
              rw [unlinked]
              refine ⟨some (ref, node), rfl, ?_⟩
              rintro _ _ ⟨⟩
              exact ⟨.refl ref, found, free.1.2⟩
  | @link count ref next linked away induction =>
      cases fuel with
      | zero => omega
      | succ fuel =>
          rcases induction (Nat.lt_of_succ_lt_succ enough) with ⟨place?, settled, spec⟩
          rcases linked with ⟨node, found, isLinked⟩
          rw [settleAround_succ, found, Except.bind]
          split
          · exact ⟨none, rfl, fun _ _ isPlace => nomatch isPlace⟩
          · rw [isLinked]
            refine ⟨place?, settled, fun target own isPlace => ?_⟩
            rcases spec target own isPlace with ⟨leads, placeFound, fresh⟩
            exact ⟨.link ⟨node, found, isLinked⟩ leads, placeFound, fresh⟩

theorem findSomeM?_ok {α β : Type} {items : List α} {act : α → Except Fault (Option β)}
    {good : β → Prop}
    (each : ∀ item ∈ items, ∃ found?, act item = .ok found? ∧
      ∀ found ∈ found?, good found) :
    ∃ found?, items.findSomeM? act = .ok found? ∧ ∀ found ∈ found?, good found := by
  induction items with
  | nil => exact ⟨none, rfl, nofun⟩
  | cons head tail induction =>
      rcases each head List.mem_cons_self with ⟨found?, ran, spec⟩
      rw [List.findSomeM?, ran]
      cases found? with
      | some found => exact ⟨some found, rfl, spec⟩
      | none =>
          exact induction fun item member => each item (List.mem_cons_of_mem _ member)

theorem map_gap_ok {outcome : Except Fault (Option Gap)} {wrap : Gap → Gap}
    {holds : Ref → Prop}
    (wraps : ∀ gap : Gap, gap.Mentions holds → (wrap gap).Mentions holds)
    (inner : ∃ gap?, outcome = .ok gap? ∧ ∀ gap ∈ gap?, gap.Mentions holds) :
    ∃ gap?, (do return (← outcome).map wrap : Except Fault (Option Gap)) = .ok gap? ∧
      ∀ gap ∈ gap?, gap.Mentions holds := by
  rcases inner with ⟨gap?, rfl, spec⟩
  refine ⟨gap?.map wrap, rfl, fun gap isGap => ?_⟩
  rcases Option.map_eq_some_iff.1 isGap with ⟨own, isOwn, rfl⟩
  exact wraps own (spec own isOwn)

theorem Leads.induct {holds : Ref → Prop} (leads : graph.Leads ref target)
    (reaches : ∀ ref next, holds ref → graph.LinksTo ref next → holds next)
    (start : holds ref) :
    holds target := by
  induction leads with
  | refl => exact start
  | link linked _ induction => exact induction (reaches _ _ start linked)

/-- A sort of nodes that goes on to all parts of a node holds wherever links lead. -/
theorem Leads.holds {holds : Ref → Prop} (leads : graph.Leads ref target)
    (reaches : ∀ ref node, holds ref → graph.node ref = .ok node →
      ∀ part ∈ node.stored, holds part)
    (start : holds ref) : holds target := by
  apply leads.induct _ start
  rintro own next ownHolds ⟨ownNode, ownFound, linked⟩
  exact reaches own ownNode ownHolds ownFound next (ownNode.mem_stored_of_link linked)

theorem Readable.partialGap (readable : graph.Readable)
    (found : graph.node ref = .ok node) (holds : Ref → Prop) :
    ∃ gap?, graph.partialGap ref node = .ok gap? ∧ ∀ gap ∈ gap?, gap.Mentions holds := by
  rcases readable.text (has_of_node found) with ⟨text, shown⟩
  rw [TypeGraph.partialGap]
  split
  · refine ⟨_, rfl, ?_⟩
    rintro gap ⟨⟩
    split <;> trivial
  · rw [shown]
    refine ⟨_, rfl, fun gap isGap => ?_⟩
    split at isGap
    · cases isGap
    · cases isGap
      trivial

theorem mem_refs_of_missingTag {kind : RowKind} {members : Row}
    {bound : Option Row} {tag : String} {payload : Ref}
    (isMissing : missingTag node members = some (tag, payload))
    (form : node.form = .row kind members bound) : payload ∈ node.form.refs := by
  rw [missingTag] at isMissing
  split at isMissing
  · cases isMissing
  · have listed := List.mem_of_find?_eq_some isMissing
    rw [form]
    exact List.mem_append_left _ (List.mem_map_of_mem listed)

theorem Readable.findGap_of_parts (readable : graph.Readable)
    {holds : Ref → Prop} {fuel : Nat} {path : List Ref}
    (settled : graph.settleAround path (graph.size + 1) ref = .ok (some (target, node)))
    (found : graph.node target = .ok node) (parts : ∀ part ∈ node.form.refs, holds part)
    (inner : ∀ part ∈ node.form.refs, ∃ gap?, graph.findGap fuel
      (target :: path) part = .ok gap? ∧
      ∀ gap ∈ gap?, gap.Mentions holds) :
    ∃ gap?, graph.findGap (fuel + 1) path ref = .ok gap? ∧ ∀ gap ∈ gap?,
      gap.Mentions holds := by
  rw [TypeGraph.findGap, settled]
  change ∃ gap?, (if node.marks.partly then graph.partialGap target node else _) =
    Except.ok gap? ∧ _
  split
  · exact readable.partialGap found holds
  · cases form : node.form with
    | var | primitive => exact ⟨none, rfl, by simp⟩
    | list element =>
        rw [form] at inner
        exact map_gap_ok (fun gap holds => holds) (inner element List.mem_cons_self)
    | function argument result =>
        rw [form] at inner
        exact findSomeM?_ok fun part member => inner part member
    | row kind members bound =>
        have each : ∀ entry ∈ members.entries, ∃ gap?,
            graph.findGap fuel (target :: path) entry.2 = .ok gap? ∧
              ∀ gap ∈ gap?, gap.Mentions holds := by
          intro entry member
          apply inner
          rw [form]
          exact List.mem_append_left _ (List.mem_map_of_mem member)
        cases kind with
        | struct =>
            exact findSomeM?_ok fun entry member =>
              map_gap_ok (fun gap holds => holds) (each entry member)
        | variant =>
            dsimp only
            cases isMissing : missingTag node members with
            | some missing =>
                refine ⟨_, rfl, ?_⟩
                rintro gap ⟨⟩
                exact parts missing.2 (mem_refs_of_missingTag isMissing form)
            | none =>
                exact findSomeM?_ok fun entry member =>
                  map_gap_ok (fun gap holds => holds) (each entry member)

/-- The nodes on the path are different from each other, so the search ends before its
fuel does. It finds only types that can be reached. -/
theorem Readable.findGap (readable : graph.Readable) {holds : Ref → Prop}
    (reaches : ∀ ref node, holds ref → graph.node ref = .ok node →
      ∀ part ∈ node.stored, holds part)
    (fuel : Nat) :
    ∀ (path : List Ref) (ref : Ref), path.Nodup → (∀ own ∈ path, graph.Has own) →
      graph.size < fuel + path.length → graph.Has ref → holds ref →
        ∃ gap?, graph.findGap fuel path ref = .ok gap? ∧ ∀ gap ∈ gap?,
          gap.Mentions holds := by
  induction fuel with
  | zero =>
      intro path ref distinct named enough
      have short := length_le_size distinct named
      omega
  | succ fuel induction =>
      intro path ref distinct named enough has refHolds
      rcases readable.settles ref has with ⟨root, rootNode, rooted⟩
      rcases rooted.exists_away with ⟨count, away⟩
      rcases away.settle (Nat.lt_succ_of_lt away.lt_size) path with
        ⟨place?, settled, spec⟩
      rcases place? with _ | ⟨target, node⟩
      · rw [TypeGraph.findGap, settled]
        exact ⟨none, rfl, by simp⟩
      · rcases spec target node rfl with ⟨leads, found, fresh⟩
        have parts : ∀ part ∈ node.form.refs, holds part := fun part member =>
          reaches target node (leads.holds reaches refHolds) found part
            (node.mem_stored_of_refs member)
        refine readable.findGap_of_parts settled found parts fun part member => ?_
        apply induction
        · exact List.nodup_cons.2 ⟨fresh, distinct⟩
        · intro own listed
          rcases List.mem_cons.1 listed with rfl | further
          · exact has_of_node found
          · exact named own further
        · rw [List.length_cons]
          omega
        · exact readable.parts target node found part member
        · exact parts part member

theorem Readable.gap? (readable : graph.Readable) {holds : Ref → Prop}
    (reaches : ∀ ref node, holds ref → graph.node ref = .ok node →
      ∀ part ∈ node.stored, holds part)
    (has : graph.Has ref) (ofSort : holds ref) :
    ∃ gap?, graph.gap? ref = .ok gap? ∧ ∀ gap ∈ gap?, gap.Mentions holds :=
  readable.findGap reaches (graph.size + 1) [] ref List.nodup_nil nofun
    (by rw [List.length_nil]; omega) has ofSort

end TypeGraph

end Casework
