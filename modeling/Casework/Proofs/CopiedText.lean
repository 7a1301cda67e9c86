import Mathlib.Logic.Relation
import Casework.Proofs.Refolding
import Casework.Proofs.Separation

/-!
The text of a copy.

Where no type contains itself, printing gives out no names for types, so it writes the
copy of a type as the type itself, whichever positions have been expanded. A bound is what
is written, while positions are made for the members; so a bound must not have gone
another way than the members.
-/

namespace Casework

/-! ## Printing twice -/

namespace TypeGraph

namespace Printing

variable {α β γ : Type}

def Echoes (second first : Printing α) : Prop :=
  ∀ names result, names.recursive = [] → first.run names = .ok result →
    second.run names = .ok result ∧ result.2.recursive = []

namespace Echoes

theorem pure (value : α) : Echoes (Pure.pure value) (Pure.pure value) := by
  rintro names _ unmet ⟨⟩
  exact ⟨rfl, unmet⟩

theorem throw (printing : Printing α) (fault : Fault) : Echoes printing (throw fault) :=
  fun _ _ _ printed => nomatch printed

theorem bind {first second : Printing α} {next further : α → Printing β}
    (echoes : Echoes second first) (rest : ∀ value, Echoes (further value) (next value)) :
    Echoes (second >>= further) (first >>= next) := by
  intro names result unmet printed
  rw [StateT.run_bind] at printed ⊢
  cases ran : first.run names with
  | error fault =>
      rw [ran] at printed
      cases printed
  | ok middle =>
      rw [ran] at printed
      rcases echoes names middle unmet ran with ⟨same, still⟩
      rw [same]
      exact rest middle.1 middle.2 result still printed

theorem nameOf (ref : Ref) : Echoes (nameOf ref) (nameOf ref) := by
  intro names result unmet printed
  refine ⟨printed, ?_⟩
  unfold TypeGraph.nameOf at printed
  rw [StateT.run_bind, StateT.run_get, pure_bind] at printed
  split at printed <;> cases printed <;> exact unmet

theorem mapM {items : List α} {others : List γ} {act : α → Printing β}
    {again : γ → Printing β} (each : List.Forall₂
      (fun item other => Echoes (again other) (act item)) items others) :
    Echoes (others.mapM again) (items.mapM act) := by
  induction each with
  | nil => exact pure []
  | cons first _ induction =>
      rw [List.mapM_cons, List.mapM_cons]
      exact first.bind fun value => induction.bind fun values => pure (value :: values)

theorem enclose (ref other : Ref) (text : String × Bool) :
    Echoes (do
      if other ∈ (← get).recursive then
        return parenthesize ((← TypeGraph.nameOf other) ++ " is " ++ text.1)
      else return if text.2 then parenthesize text.1 else text.1)
    (do
      if ref ∈ (← get).recursive then
        return parenthesize ((← TypeGraph.nameOf ref) ++ " is " ++ text.1)
      else return if text.2 then parenthesize text.1 else text.1) := by
  intro names result unmet printed
  change (if ref ∈ names.recursive then _ else _ : Printing String).run
    names = _ at printed
  change (if other ∈ names.recursive then _ else _ : Printing String).run names = _ ∧ _
  rw [unmet, if_neg List.not_mem_nil] at printed ⊢
  cases printed
  exact ⟨rfl, unmet⟩

end Echoes

end Printing

end TypeGraph

/-! ## Forms side by side -/

inductive Form.Parallel (pairs : Ref → Ref → Prop) : Form → Form → Prop where
  | var (origin : Option Origin) : Parallel pairs (.var origin) (.var origin)
  | primitive (primitive : Primitive) : Parallel pairs (.primitive primitive)
    (.primitive primitive)
  | function {argument result first second : Ref} (left : pairs argument first)
    (right : pairs result second) :
      Parallel pairs (.function argument result) (.function first second)
  | list {element other : Ref} (inside : pairs element other) :
    Parallel pairs (.list element) (.list other)
  | row {kind : RowKind} {members others : Row} {bound whole : Option Row}
      (isOpen : whole.isNone = bound.isNone)
      (entries :
        List.Forall₂ (fun entry other => other.1 = entry.1 ∧ pairs entry.2 other.2)
        (bound.getD members).entries (whole.getD others).entries) :
      Parallel pairs (.row kind members bound) (.row kind others whole)

theorem Form.parallel_self (form : Form) :
    form.Parallel (fun part other => part ∈ form.refs ∧ other = part) form := by
  cases form with
  | var origin => exact .var origin
  | primitive primitive => exact .primitive primitive
  | function argument result =>
      exact .function ⟨List.mem_cons_self, rfl⟩
        ⟨List.mem_cons_of_mem _ List.mem_cons_self, rfl⟩
  | list element => exact .list ⟨List.mem_cons_self, rfl⟩
  | row kind members bound =>
      refine .row rfl (List.forall₂_same.2 fun entry member => ⟨rfl, ?_, rfl⟩)
      exact mem_refs_of_entry member

theorem Row.forall₂_entries {row other : Row} (labels : other.labels = row.labels)
    (distinct : row.labels.Nodup) :
    List.Forall₂ (fun entry twin => twin.1 = entry.1 ∧ row.get? entry.1 = some entry.2 ∧
      other.get? entry.1 = some twin.2) row.entries other.entries := by
  have length : row.entries.length = other.entries.length := by
    rw [← List.length_map (f := Prod.fst), ← List.length_map (f := Prod.fst)]
    exact congrArg List.length labels.symm
  apply List.forall₂_iff_get.2 ⟨length, fun index first second => ?_⟩
  have same : (other.entries.get ⟨index, second⟩).1 =
      (row.entries.get ⟨index, first⟩).1 := by
    have each := congrArg (·[index]?) labels
    simpa [Row.labels, first, second] using each
  refine ⟨same, (Row.get?_eq_some_iff distinct).2 (List.get_mem _ _), ?_⟩
  rw [← same]
  exact (Row.get?_eq_some_iff (labels ▸ distinct)).2 (List.get_mem _ _)

namespace TypeGraph

variable {original graph : TypeGraph} {type root ref other target part position : Ref}
  {unfolding : Nat} {chart : Ref → List PartStep} {node own : Node}

/-- The bound of a form holds what is the same type as what the members hold. -/
def Even (graph : TypeGraph) : Form → Prop
  | .row _ members (some bound) => ∀ name type other, members.get? name = some type →
      bound.get? name = some other → graph.Same type other
  | _ => True

theorem Regular.even {form : Form} (regular : graph.Regular form) : graph.Even form := by
  unfold Even
  split
  · exact regular.2
  · trivial

theorem parallel_of_sameShape {form copy : Form} (shape : copy.SameShape form)
    (notVar : form.kind ≠ .var) (fair : form.Fair) (even : original.Even form)
    (snug : copy.Snug) :
    form.Parallel (fun part position => part ∈ form.refs ∧ ∃ step first,
      form.part? step = some first ∧
      original.Same first part ∧ copy.part? step = some position) copy := by
  rcases shape with ⟨kind, -, labels, boundLabels⟩
  cases form with
  | var => exact absurd rfl notVar
  | primitive primitive =>
      cases copy with
      | primitive other => cases kind; exact .primitive primitive
      | row own => cases own <;> cases kind
      | _ => cases kind
  | function argument result =>
      cases copy with
      | function first second =>
          exact .function ⟨List.mem_cons_self, .parameter 0, argument, rfl,
            .refl argument, rfl⟩
            ⟨List.mem_cons_of_mem _ List.mem_cons_self, .parameter 1, result, rfl,
              .refl result, rfl⟩
      | row own => cases own <;> cases kind
      | _ => cases kind
  | list element =>
      cases copy with
      | list other =>
          exact .list ⟨List.mem_cons_self, .parameter 0, element, rfl, .refl element, rfl⟩
      | row own => cases own <;> cases kind
      | _ => cases kind
  | row own members bound =>
      cases copy with
      | row other others whole =>
          have sameKind : other = own := by
            cases own <;> cases other <;> first | rfl | cases kind
          subst sameKind
          have sameLabels : others.labels = members.labels := Option.some.inj labels
          cases bound with
          | none =>
              cases whole with
              | some => cases boundLabels
              | none =>
                  refine .row rfl ((Row.forall₂_entries sameLabels fair.distinct).imp ?_)
                  rintro entry twin ⟨same, found, alsoFound⟩
                  exact ⟨same, List.mem_append_left _ (Row.mem_refs_of_get? found),
                    .member entry.1, entry.2, found, .refl _, alsoFound⟩
          | some bound =>
              cases whole with
              | none => cases boundLabels
              | some whole =>
                  have sameBound : whole.labels = bound.labels :=
                    Option.some.inj boundLabels
                  refine .row rfl
                    ((Row.forall₂_entries sameBound (fair.bounded bound rfl)).imp ?_)
                  rintro entry twin ⟨same, found, alsoFound⟩
                  have inBound : bound.contains entry.1 := by
                    rw [Row.contains, found]
                    rfl
                  rcases Row.exists_get?_of_contains
                    ((fair.agreed bound rfl entry.1).1 inBound) with
                    ⟨first, isMember⟩
                  exact ⟨same, List.mem_append_right _ (Row.mem_refs_of_get? found),
                    .member entry.1, first, isMember, even entry.1 first entry.2 isMember
                    found, (snug entry.1).symm.trans alsoFound⟩
      | _ => cases own <;> cases kind

/-! ## Types side by side -/

theorem echoes_of_parallel {fuel more : Nat} {around outside : List Ref}
    {nested : Bool} {twin : Ref} {pairs : Ref → Ref → Prop} {form copy : Form}
    (shown : original.shown (original.size + 1) part = .ok (target, form))
    (copyShown : graph.shown (graph.size + 1) position = .ok (twin, copy))
    (parallel : form.Parallel pairs copy) (named : form.kind = .var → twin = target)
    (fresh : target ∉ around) (copyFresh : twin ∉ outside)
    (parts : ∀ nested part position, pairs part position →
      Printing.Echoes (graph.print more (twin :: outside) nested position)
        (original.print fuel (target :: around) nested part)) :
    Printing.Echoes (graph.print (more + 1) outside nested position)
      (original.print (fuel + 1) around nested part) := by
  have lifted :
      (liftM (original.shown (original.size + 1) part) : Printing (Ref × Form)) =
      Pure.pure (target, form) := by
    rw [shown]
    rfl
  have copyLifted :
      (liftM (graph.shown (graph.size + 1) position) : Printing (Ref × Form)) =
      Pure.pure (twin, copy) := by
    rw [copyShown]
    rfl
  rw [TypeGraph.print, TypeGraph.print, lifted, copyLifted, pure_bind, pure_bind]
  cases parallel with
  | var origin =>
      rw [named rfl]
      exact .nameOf target
  | primitive primitive => exact .pure primitive.name
  | function left right =>
      dsimp only
      rw [if_neg fresh, if_neg copyFresh]
      refine (parts true _ _ left).bind fun _ => (parts false _ _ right).bind fun _ => ?_
      exact (Printing.Echoes.pure _).bind (.enclose target twin)
  | list inside =>
      dsimp only
      rw [if_neg fresh, if_neg copyFresh]
      exact (parts false _ _ inside).bind fun _ =>
        (Printing.Echoes.pure _).bind (.enclose target twin)
  | @row kind members others bound whole isOpen entries =>
      cases kind with
      | struct =>
          dsimp only
          rw [if_neg fresh, if_neg copyFresh, isOpen]
          refine Printing.Echoes.bind (.mapM (entries.imp ?_)) fun _ =>
            (Printing.Echoes.pure _).bind (.enclose target twin)
          rintro entry other ⟨same, inside⟩
          rw [same]
          exact (parts false _ _ inside).bind fun _ => .pure _
      | variant =>
          dsimp only
          rw [if_neg fresh, if_neg copyFresh]
          refine Printing.Echoes.bind (.mapM (entries.imp ?_)) fun _ =>
            (Printing.Echoes.pure _).bind (.enclose target twin)
          rintro entry other ⟨same, inside⟩
          rw [same]
          exact (parts true _ _ inside).bind fun _ => .pure _

def Holds (graph : TypeGraph) (ref part : Ref) : Prop :=
  ∃ target node, graph.Rooted ref target node ∧ part ∈ node.form.refs

def Acyclic (graph : TypeGraph) (type : Ref) : Prop :=
  ∀ part, Relation.ReflTransGen graph.Holds type part →
    ∀ inner, Relation.TransGen graph.Holds part inner → ¬ graph.Same part inner

inductive Echoed (original : TypeGraph) (type : Ref) (graph : TypeGraph) (unfolding : Nat)
    (chart : Ref → List PartStep) (part : Ref) : Ref → Prop where
  | same (has : original.Has part) : Echoed original type graph unfolding chart part part
  | copy {position first target : Ref} {own : Node}
    (listed : graph.Lists unfolding position)
      (way : original.Way type (chart position) first)
      (firstRooted : original.Rooted first target own)
      (rooted : original.Rooted part target own) :
      Echoed original type graph unfolding chart part position

def Encloses (original : TypeGraph) (type : Ref) (around : List Ref) (part : Ref) :
    Prop :=
  ∀ own ∈ around, ∃ outer node, Relation.ReflTransGen original.Holds type outer ∧
    original.Rooted outer own node ∧ Relation.TransGen original.Holds outer part

def Precedes (original : TypeGraph) (chart : Ref → List PartStep)
    (around outside : List Ref) (position : Ref) : Prop :=
  ∀ own ∈ outside, own ∈ around ∨ original.size < own.number ∧
    (original.size < position.number → (chart own).length < (chart position).length)

theorem Encloses.fresh {around : List Ref} (encloses : original.Encloses type around part)
    (acyclic : original.Acyclic type) (rooted : original.Rooted part target own) :
    target ∉ around := by
  intro member
  rcases encloses target member with ⟨outer, node, inside, outerRooted, holds⟩
  exact acyclic outer inside part holds ⟨target, outerRooted.leads, rooted.leads⟩

theorem Encloses.cons {around : List Ref} (encloses : original.Encloses type around part)
    (inside : Relation.ReflTransGen original.Holds type part)
    (rooted : original.Rooted part target own) (member : other ∈ own.form.refs) :
    original.Encloses type (target :: around) other := by
  have holds : original.Holds part other := ⟨target, own, rooted, member⟩
  intro outer listed
  rcases List.mem_cons.1 listed with rfl | further
  · exact ⟨part, own, inside, rooted, .single holds⟩
  · rcases encloses outer further with ⟨ref, node, refInside, refRooted, refHolds⟩
    exact ⟨ref, node, refInside, refRooted, refHolds.tail holds⟩

namespace Precedes

variable {around outside : List Ref} {twin next : Ref} {step : PartStep}

theorem not_mem (precedes : original.Precedes chart around outside position)
    (has : original.Has target) (fresh : target ∉ around) : target ∉ outside := by
  intro member
  rcases precedes target member with old | ⟨high, _⟩
  · exact fresh old
  · have small := has.2
    omega

theorem keep (precedes : original.Precedes chart around outside position)
    (has : original.Has part) (target : Ref) :
    original.Precedes chart (target :: around) (target :: outside) part := by
  intro outer listed
  rcases List.mem_cons.1 listed with rfl | further
  · exact .inl List.mem_cons_self
  · rcases precedes outer further with old | ⟨high, _⟩
    · exact .inl (List.mem_cons_of_mem _ old)
    · refine .inr ⟨high, fun partHigh => ?_⟩
      have small := has.2
      omega

theorem twin_not_mem (precedes : original.Precedes chart around outside position)
    (encloses : original.Encloses type around part)
    (high : original.size < position.number) (twinHigh : original.size < twin.number)
    (noted : chart twin = chart position) : twin ∉ outside := by
  intro member
  rcases precedes twin member with old | ⟨_, shorter⟩
  · rcases encloses twin old with ⟨_, _, _, outerRooted, _⟩
    have small := outerRooted.has.2
    omega
  · have short := shorter high
    rw [noted] at short
    exact Nat.lt_irrefl _ short

theorem copy (precedes : original.Precedes chart around outside position)
    (high : original.size < position.number) (twinHigh : original.size < twin.number)
    (noted : chart twin = chart position)
    (nextNoted : chart next = step :: chart position) (target : Ref) :
    original.Precedes chart (target :: around) (twin :: outside) next := by
  intro outer listed
  rw [nextNoted, List.length_cons]
  rcases List.mem_cons.1 listed with rfl | further
  · exact .inr ⟨twinHigh, fun _ => by rw [noted]; exact Nat.lt_succ_self _⟩
  · rcases precedes outer further with old | ⟨outerHigh, shorter⟩
    · exact .inl (List.mem_cons_of_mem _ old)
    · exact .inr ⟨outerHigh, fun _ => Nat.lt_succ_of_lt (shorter high)⟩

end Precedes

structure Copied (original : TypeGraph) (type : Ref) (graph : TypeGraph) (unfolding : Nat)
    (chart : Ref → List PartStep) (position twin : Ref) (own node : Node) : Prop where
  high : original.size < position.number
  twinHigh : original.size < twin.number
  noted : chart twin = chart position
  rooted : graph.Rooted position twin node
  notVar : own.form.kind ≠ .var
  shape : node.form.SameShape own.form
  snug : node.form.Snug
  parts : ∀ step next first inner, node.form.part? step = some next →
    own.form.part? step = some first →
    original.Same first inner → original.Has inner →
      chart next = step :: chart position ∧
      Echoed original type graph unfolding chart inner next

theorem Copied.plain {twin : Ref}
    (copied : Copied original type graph unfolding chart position twin own node) :
    node.form.isPosition = false := by
  cases isForm : node.form with
  | var =>
      exact absurd
        (copied.shape.kind.symm.trans (congrArg Form.kind isForm)) copied.notVar
  | _ => rfl

namespace Mapped

theorem shown_or_copied (mapped : Mapped original type unfolding root chart graph)
    (tidy : original.Tidy) (copying : Copying original unfolding original.size graph)
    (echoed : Echoed original type graph unfolding chart part position)
    (rooted : original.Rooted part target own) (plain : own.form.isPosition = false) :
    graph.shown (graph.size + 1) position = .ok (target, own.form) ∨
      ∃ twin node, Copied original type graph unfolding chart position twin own node := by
  cases echoed with
  | same => exact .inl ((copying.rooted rooted).shown plain graph.size)
  | copy listed way firstRooted partRooted =>
      rcases rooted.unique partRooted with ⟨rfl, rfl⟩
      rcases high_of_lists copying listed with ⟨high, has⟩
      rcases copying.wellFormed.settles position has with ⟨twin, node, positionRooted⟩
      rcases mapped.rooted_cases copying positionRooted high with
        ⟨twinHigh, twinNoted, other, copied, copiedNode, otherWay, otherRooted, form⟩
      rw [← way.unique otherWay] at otherRooted
      rcases firstRooted.unique otherRooted with ⟨rfl, rfl⟩
      rcases form with isPosition | ⟨notVar, shape, parts⟩
      · left
        have positive : 0 < graph.size := by
          have small := has.2
          have large := has.1
          omega
        rw [shown_succ positionRooted, isPosition, show graph.size =
          graph.size - 1 + 1 by omega]
        have self : original.Rooted copied copied copiedNode :=
          .self rooted.found rooted.unlinked
        exact (copying.rooted self).shown plain (graph.size - 1)
      · refine .inr ⟨twin, node, high, twinHigh, twinNoted, positionRooted, notVar, shape,
          (copying.placed twin node twinHigh positionRooted.found).snug, ?_⟩
        intro step next first inner isNext isPart same innerHas
        rcases parts step next isNext with ⟨nextNoted, nextListed⟩
        rcases tidy.wellFormed.settles inner innerHas with ⟨goal, goalNode, goalRooted⟩
        have nextWay : original.Way type (chart next) first := by
          rw [nextNoted]
          exact .step way firstRooted isPart
        exact ⟨nextNoted,
          .copy nextListed nextWay (goalRooted.of_same same.symm) goalRooted⟩

theorem echoes_print (mapped : Mapped original type unfolding root chart graph)
    (tidy : original.Tidy) (copying : Copying original unfolding original.size graph)
    (acyclic : original.Acyclic type)
    (even : ∀ part target node, Relation.ReflTransGen original.Holds type part →
      original.Rooted part target node → original.Even node.form) (fuel : Nat) :
    ∀ {more : Nat}, fuel ≤ more → ∀ (around outside : List Ref) (nested : Bool)
      {part position : Ref},
      Echoed original type graph unfolding chart part position →
      Relation.ReflTransGen original.Holds type part →
        original.Encloses type around part →
      original.Precedes chart around outside position →
        Printing.Echoes (graph.print more outside nested position)
          (original.print fuel around nested part) := by
  induction fuel with
  | zero => exact fun _ _ _ _ _ _ _ _ _ _ => .throw _ _
  | succ fuel induction =>
      intro more enough around outside nested part position echoed inside
        encloses precedes
      obtain ⟨more, rfl⟩ : ∃ less, more = less + 1 := ⟨more - 1, by omega⟩
      have partHas : original.Has part := by
        cases echoed with
        | same has => exact has
        | copy _ _ _ rooted => exact rooted.has_start
      rcases tidy.rooted partHas with ⟨target, own, rooted, plain⟩
      have shown := rooted.shown plain original.size
      have fresh := encloses.fresh acyclic rooted
      have within : ∀ other ∈ own.form.refs,
          Relation.ReflTransGen original.Holds type other :=
        fun other member => inside.tail ⟨target, own, rooted, member⟩
      have partsHave : ∀ other ∈ own.form.refs, original.Has other := fun other member =>
        tidy.wellFormed.has_part rooted.found member
      rcases mapped.shown_or_copied tidy copying echoed rooted plain with
        shownSame | ⟨twin, node, copied⟩
      · refine echoes_of_parallel shown shownSame (Form.parallel_self own.form)
          (fun _ => rfl) fresh
          (precedes.not_mem rooted.has fresh) ?_
        rintro nested other _ ⟨member, rfl⟩
        have otherHas := partsHave _ member
        exact induction (by omega) _ _ nested (.same otherHas) (within _ member)
          (encloses.cons inside rooted member) (precedes.keep otherHas target)
      · have fair := tidy.wellFormed.fair target own rooted.found
        refine echoes_of_parallel shown (copied.rooted.shown copied.plain graph.size)
          (parallel_of_sameShape copied.shape copied.notVar fair
            (even part target own inside rooted) copied.snug)
          (fun isVar => absurd isVar copied.notVar) fresh
          (precedes.twin_not_mem encloses copied.high copied.twinHigh copied.noted) ?_
        rintro nested inner next ⟨member, step, first, isPart, same, isNext⟩
        rcases copied.parts step next first inner isNext isPart same
          (partsHave inner member) with
          ⟨nextNoted, nextEchoed⟩
        exact induction (by omega) _ _ nested nextEchoed (within inner member)
          (encloses.cons inside rooted member)
          (precedes.copy copied.high copied.twinHigh copied.noted nextNoted target)

theorem text (mapped : Mapped original type unfolding root chart graph)
    (tidy : original.Tidy) (copying : Copying original unfolding original.size graph)
    (has : original.Has type) (acyclic : original.Acyclic type)
    (even : ∀ part target node, Relation.ReflTransGen original.Holds type part →
      original.Rooted part target node → original.Even node.form) :
    ∃ text, original.text type = .ok text ∧ graph.text type = .ok text ∧
      graph.text root = .ok text := by
  have kept : ∀ ref, original.Keeps graph ref := fun ref node found =>
    ⟨node, (copying.frozen ref (has_of_node found)).trans found, rfl, rfl⟩
  rcases tidy.text_of_keeps kept copying.small has with ⟨text, written, still⟩
  rcases tidy.rooted has with ⟨target, node, rooted, _⟩
  refine ⟨text, written, still, ?_⟩
  have way : original.Way type (chart root) type := by
    rw [mapped.start]
    exact .start
  have echoes := mapped.echoes_print tidy copying acyclic even (original.size + 2)
    (Nat.add_le_add_right copying.small 2) [] [] false
    (.copy mapped.listed way rooted rooted) .refl nofun nofun
  unfold TypeGraph.text at written ⊢
  cases printed : (original.print (original.size + 2) [] false type).run {} with
  | error fault =>
      rw [printed] at written
      cases written
  | ok result =>
      rw [printed] at written
      cases written
      rw [(echoes {} result rfl printed).1]
      rfl

end Mapped

def Ranked (graph : TypeGraph) (rank : Ref → Nat) : Prop :=
  ∀ ref node, graph.node ref = .ok node → (∀ next ∈ node.link, rank next = rank ref) ∧
    (node.link = none → ∀ part ∈ node.form.refs, rank part < rank ref)

theorem Ranked.eq_of_leads {rank : Ref → Nat} (ranked : graph.Ranked rank)
    (leads : graph.Leads ref target) :
    rank target = rank ref := by
  induction leads with
  | refl => rfl
  | link linked _ induction =>
      rcases linked with ⟨node, found, isLinked⟩
      exact induction.trans ((ranked _ node found).1 _ isLinked)

theorem Ranked.lt_of_holds {rank : Ref → Nat} (ranked : graph.Ranked rank)
    (holds : graph.Holds ref part) :
    rank part < rank ref := by
  rcases holds with ⟨target, node, rooted, member⟩
  rw [← ranked.eq_of_leads rooted.leads]
  exact (ranked target node rooted.found).2 rooted.unlinked part member

theorem Ranked.acyclic {rank : Ref → Nat} (ranked : graph.Ranked rank) (type : Ref) :
    graph.Acyclic type := by
  rintro part _ inner holds ⟨target, leads, innerLeads⟩
  have below : ∀ ref, Relation.TransGen graph.Holds part ref → rank ref < rank part := by
    intro ref holds
    induction holds with
    | single holds => exact ranked.lt_of_holds holds
    | tail _ holds induction => exact (ranked.lt_of_holds holds).trans induction
  have smaller := below inner holds
  rw [← ranked.eq_of_leads leads, ← ranked.eq_of_leads innerLeads] at smaller
  exact Nat.lt_irrefl _ smaller

theorem forall_node {holds : Ref → Node → Prop}
    (each : ∀ index : Fin graph.nodes.size, holds ⟨index + 1⟩ graph.nodes[index])
    (ref : Ref) (node : Node) (found : graph.node ref = .ok node) : holds ref node := by
  unfold TypeGraph.node at found
  split at found
  next own isNode =>
      cases found
      rcases Option.bind_eq_some_iff.1 isNode with ⟨index, place, inside⟩
      rcases (index?_eq_some_iff graph ref index).1 place with ⟨small, rfl⟩
      rw [Array.getElem?_eq_getElem small, Option.some.injEq] at inside
      subst inside
      exact each ⟨index, small⟩
  next => cases found

end TypeGraph

/-! ## Unfolding and expanding -/

namespace Build

open TypeGraph

variable {graph : TypeGraph} {type : Ref}

/-- An unfolding of which positions have been expanded. -/
structure Unfolded where
  unfolding : Nat
  root : Ref
  shared : List (List Ref)

def unfoldAndExpand (type : Ref) (refs : List Ref) : Build Unfolded := do
  let unfolding ← unfold type
  let root ← unfoldingRoot unfolding
  refs.forM expand
  return ⟨unfolding, root, ← sharedPositions unfolding⟩

/-- Unfolding a type and expanding types in any order gives a copy in which every position
has a node of its own, the positions where there is the same type variable are grouped,
and the copy is written as the type if no type holds itself and bounds have gone no other
way than members. -/
theorem exists_on_unfoldAndExpand (tidy : graph.Tidy) (has : graph.Has type)
    (refs : List Ref) (inTurn : ((unfold type).on graph).2.InTurn refs) :
    ∃ unfolded later, (unfoldAndExpand type refs).on graph = (.ok unfolded, later) ∧
      graph.Separates type later unfolded.unfolding unfolded.root ∧
      graph.Shares type later unfolded.root unfolded.shared ∧
        (graph.Acyclic type →
          (∀ part target node, Relation.ReflTransGen graph.Holds type part →
            graph.Rooted part target node → graph.Even node.form) →
          ∃ text, graph.text type = .ok text ∧ later.text type = .ok text ∧
            later.text unfolded.root = .ok text) := by
  rcases ((yields_unfold tidy has).and (yields_unfold_mapped tidy has)).exists_ok with
    ⟨unfolding, first, ran, copying, own, found, mapped⟩
  rw [ran] at inTurn
  rcases (yields_expand_all_mapped tidy copying mapped inTurn).exists_ok with
    ⟨_, later, expanded, copyingLater, chart, mappedLater⟩
  rcases mappedLater.shares tidy copyingLater with ⟨groups, grouped, shares⟩
  refine ⟨⟨unfolding, own.root, groups⟩, later, ?_,
    mappedLater.separates copyingLater, shares, mappedLater.text tidy copyingLater has⟩
  have atRoot : (unfoldingRoot unfolding).on first = (.ok own.root, first) := by
    change (Except.ok _, first) = _
    rw [found]
    rfl
  unfold unfoldAndExpand
  rw [on_bind, ran]
  change (unfoldingRoot unfolding >>= _).on first = _
  rw [on_bind, atRoot]
  change (refs.forM expand >>= _).on first = _
  rw [on_bind, expanded]
  change (sharedPositions unfolding >>= _).on later = _
  rw [on_bind, grouped]
  rfl

def intoList : List Edit :=
  [.operation .newVar, .operation (.newList ⟨1⟩), .operation (.newFunction ⟨1⟩ ⟨2⟩)]

theorem exists_on_unfoldAndExpand_intoList :
    (({} : TypeGraph).edited intoList).Tidy ∧ (({} : TypeGraph).edited intoList).Has ⟨3⟩ ∧
      ((unfold ⟨3⟩).on (({} : TypeGraph).edited intoList)).2.InTurn [⟨4⟩, ⟨7⟩] ∧
      ∃ later, (unfoldAndExpand ⟨3⟩ [⟨4⟩, ⟨7⟩]).on (({} : TypeGraph).edited intoList) =
          (.ok ⟨0, ⟨4⟩, [[⟨6⟩, ⟨9⟩]]⟩, later) ∧
        (({} : TypeGraph).edited intoList).Separates ⟨3⟩ later 0 ⟨4⟩ ∧
        (({} : TypeGraph).edited intoList).Shares ⟨3⟩ later ⟨4⟩ [[⟨6⟩, ⟨9⟩]] ∧
          later.text ⟨4⟩ = .ok "'a -> list<'a>" := by
  have tidy : (({} : TypeGraph).edited intoList).Tidy := tidy_empty.edited (by decide)
  have has : (({} : TypeGraph).edited intoList).Has ⟨3⟩ := by decide
  have inTurn : ((unfold ⟨3⟩).on (({} : TypeGraph).edited intoList)).2.InTurn
      [⟨4⟩, ⟨7⟩] := by decide
  have ranked : (({} : TypeGraph).edited intoList).Ranked fun ref => ref.number.toNat :=
    forall_node (by decide)
  have whole : ∀ (ref : Ref) (node : Node),
      (({} : TypeGraph).edited intoList).node ref = .ok node →
      node.form.isWhole := forall_node (by decide)
  rcases exists_on_unfoldAndExpand tidy has [⟨4⟩, ⟨7⟩] inTurn with
    ⟨unfolded, later, ran, separates, shares, texts⟩
  rcases texts (ranked.acyclic ⟨3⟩) fun _ target node _ rooted =>
      Regular.even (regular_of_isWhole (whole target node rooted.found)) with
    ⟨text, written, _, copied⟩
  have isText : (({} : TypeGraph).edited intoList).text ⟨3⟩ = .ok "'a -> list<'a>" := by
    rfl
  have isUnfolded :
      ((unfoldAndExpand ⟨3⟩ [⟨4⟩, ⟨7⟩]).on (({} : TypeGraph).edited intoList)).1 =
      .ok ⟨0, ⟨4⟩, [[⟨6⟩, ⟨9⟩]]⟩ := by rfl
  rw [isText] at written
  rw [ran] at isUnfolded
  cases written
  cases isUnfolded
  exact ⟨tidy, has, inTurn, later, ran, separates, shares, copied⟩

/-- A record whose bound holds another type than its members is not written as its
copy. -/
theorem text_unfoldAndExpand_spoiltRecord :
    (({} : TypeGraph).edited spoiltRecord).Tidy ∧
      (({} : TypeGraph).edited spoiltRecord).Has ⟨3⟩ ∧
      (({} : TypeGraph).edited spoiltRecord).Acyclic ⟨3⟩ ∧
      ((unfold ⟨3⟩).on (({} : TypeGraph).edited spoiltRecord)).2.InTurn [⟨5⟩] ∧
      (({} : TypeGraph).edited spoiltRecord).text ⟨3⟩ = .ok "\x7ba is string\x7d" ∧
      ∃ later, (unfoldAndExpand ⟨3⟩ [⟨5⟩]).on (({} : TypeGraph).edited spoiltRecord) =
          (.ok ⟨0, ⟨5⟩, []⟩, later) ∧ later.text ⟨5⟩ = .ok "\x7ba is number\x7d" := by
  have ranked : (({} : TypeGraph).edited spoiltRecord).Ranked fun ref =>
      min ref.number.toNat 3 :=
    forall_node (by decide)
  exact ⟨tidy_empty.edited (by decide), by decide, ranked.acyclic ⟨3⟩, by decide, by rfl,
    _, by rfl, by rfl⟩

end Build

end Casework
