import Casework.Proofs.Edits
import Casework.Proofs.Tracing

/-!
A type unifies with its own unfolding.

Every pair of types that comes up stands for one type of the original. The first of the
pair is a type of the original, and the second is the same type already or a copied node
of its form. So there is nothing to refuse, and nothing is added to the first: linking the
copies to what they stand for changes no type that there was before.
-/

namespace Casework

/-! ## A form and its copy -/

namespace Row

variable {row other : Row}

theorem source_eq_of_get? {source : Ref → Ref} {label : String} {left right : Ref}
    (renamed : other.rename source = row.rename source)
    (leftFound : row.get? label = some left)
    (rightFound : other.get? label = some right) : source left = source right := by
  have both := congrArg (fun row : Row => row.get? label) renamed
  simp only [get?_rename, leftFound, rightFound, Option.map_some,
    Option.some.injEq] at both
  exact both.symm

end Row

namespace Build

variable {leftMembers rightMembers : Row} {leftBound rightBound : Option Row}

theorem source_eq_of_mem_pairs {original : TypeGraph} {kind : RowKind}
    {source : Ref → Ref} (fair : leftMembers.Fair leftBound)
    (regular : original.Regular (.row kind leftMembers leftBound))
    (same : ∀ part ∈ leftMembers.refs, ∀ other, original.Same part other →
      source part = source other)
    (inMembers : rightMembers.rename source = leftMembers.rename source)
    (inBound : rightBound.map (Row.rename source) = leftBound.map (Row.rename source))
    (members : (mergeRows leftMembers leftBound rightMembers rightBound).members =
      leftMembers)
    (bound : (mergeRows leftMembers leftBound rightMembers rightBound).bound = leftBound)
    {pair : Ref × Ref}
    (member : pair ∈ (mergeRows leftMembers leftBound rightMembers rightBound).pairs) :
    pair.1 ∈ (Form.row kind leftMembers leftBound).refs ∧ source pair.1 =
      source pair.2 := by
  have labels : rightMembers.labels = leftMembers.labels := by
    have both := congrArg Row.labels inMembers
    rwa [Row.labels_rename, Row.labels_rename] at both
  rcases of_mem_pairs member with
    ⟨name, found, listed⟩ | ⟨name, own, other, rfl, rfl, listed, found⟩ |
    ⟨name, row, bounded, listed, found, _⟩
  · have distinct : rightMembers.labels.Nodup := labels ▸ fair.distinct
    exact ⟨List.mem_append_left _ (Row.mem_refs_of_get? found),
      Row.source_eq_of_get? inMembers found ((Row.get?_eq_some_iff distinct).2 listed)⟩
  · exact ⟨List.mem_append_right _ (Row.mem_refs_iff.2 ⟨name, listed⟩),
      Row.source_eq_of_get? (Option.some.inj inBound)
        ((Row.get?_eq_some_iff (fair.bounded own rfl)).2 listed) found⟩
  · rw [bound] at bounded
    rw [members] at listed
    subst bounded
    have inRefs : pair.1 ∈ leftMembers.refs := Row.mem_refs_iff.2 ⟨name, listed⟩
    exact ⟨List.mem_append_left _ inRefs, same _ inRefs _
      (regular.2 name _ _ ((Row.get?_eq_some_iff fair.distinct).2 listed) found)⟩

end Build

namespace Form

variable {original : TypeGraph} {source : Ref → Ref} {left right : Form}

theorem join?_of_rename (fair : left.Fair) (notVar : left.kind ≠ .var)
    (regular : original.Regular left) (same : ∀ part ∈ left.refs, ∀ other,
      original.Same part other → source part = source other)
    (renamed : right.rename source = left.rename source) :
    ∃ pairs, left.join? right = some (left, pairs) ∧
      ∀ pair ∈ pairs, pair.1 ∈ left.refs ∧ source pair.1 = source pair.2 := by
  cases left with
  | var => exact absurd rfl notVar
  | primitive own =>
      cases right <;> simp only [rename, reduceCtorEq] at renamed
      refine ⟨[], ?_, fun _ member => (List.not_mem_nil member).elim⟩
      rw [renamed, join?, if_pos rfl]
  | function argument result =>
      cases right <;> simp only [rename, reduceCtorEq, function.injEq] at renamed
      rename_i otherArgument otherResult
      refine ⟨_, rfl, ?_⟩
      simp [refs, parameters, renamed]
  | list element =>
      cases right <;> simp only [rename, reduceCtorEq, list.injEq] at renamed
      refine ⟨_, rfl, ?_⟩
      simp [refs, parameters, renamed]
  | row kind members bound =>
      cases right <;> simp only [rename, reduceCtorEq, row.injEq] at renamed
      rename_i otherKind otherMembers otherBound
      rcases renamed with ⟨rfl, inMembers, inBound⟩
      have labels : otherMembers.labels = members.labels := by
        have both := congrArg Row.labels inMembers
        rwa [Row.labels_rename, Row.labels_rename] at both
      have bounds : otherBound.map Row.labels = bound.map Row.labels := by
        have both := congrArg (Option.map Row.labels) inBound
        simpa only [Option.map_map, Function.comp_def, Row.labels_rename] using both
      have distinct : otherMembers.labels.Nodup := labels ▸ fair.distinct
      have sameMembers : (Build.mergeRows members bound otherMembers otherBound).members =
          members :=
        Build.members_mergeRows_of_labels distinct labels
      have sameBound : (Build.mergeRows members bound otherMembers otherBound).bound =
          bound :=
        Build.bound_mergeRows_of_labels bounds
      have fits : rowsFit members bound otherMembers otherBound := by
        apply Build.rowsFit_of_labels fair labels bounds
        rintro row ⟨⟩
        exact regular.1
      refine ⟨_, ?_, fun pair member => Build.source_eq_of_mem_pairs fair regular
        (fun part inRefs => same part (List.mem_append_left _ inRefs)) inMembers
        inBound sameMembers
        sameBound member⟩
      rw [join?, if_pos (by simp [fits])]
      dsimp only
      rw [sameMembers, sameBound]

end Form

namespace TypeGraph

variable {original graph later : TypeGraph} {source : Ref → Ref}
  {ref other target left right : Ref} {node leftNode rightNode : Node} {form : Form}
  {pairs waiting : List (Ref × Ref)}

/-! ## What stands for a type -/

theorem Rooted.of_keeps (rooted : original.Rooted ref target node)
    (kept : ∀ ref, original.Keeps graph ref) :
    ∃ after, graph.Rooted ref target after ∧ after.form = node.form := by
  rcases kept target node rooted.found with ⟨after, found, form, link⟩
  refine ⟨after, ⟨rooted.leads.mono ?_, found, link.trans rooted.unlinked⟩, form⟩
  rintro own next ⟨ownNode, ownFound, linked⟩
  rcases kept own ownNode ownFound with ⟨ownAfter, laterFound, _, sameLink⟩
  exact ⟨ownAfter, laterFound, sameLink.trans linked⟩

namespace Traced

theorem leads (traced : Traced original source none graph)
    (wellFormed : original.WellFormed) (leads : graph.Leads ref target) :
    source target = source ref := by
  induction leads with
  | refl => rfl
  | @link ref next target linked _ induction =>
      rw [induction]
      rcases linked with ⟨node, found, isLinked⟩
      by_cases high : original.size < ref.number
      · exact (traced.traces high found).of_linked isLinked
      · have has : original.Has ref := ⟨(has_of_node found).1, by omega⟩
        rcases has_iff.1 has with ⟨own, ownFound⟩
        rcases traced.kept ref own ownFound with ⟨after, afterFound, _, link⟩
        rw [found] at afterFound
        cases afterFound
        have ownLinked : original.LinksTo ref next :=
          ⟨own, ownFound, link.symm.trans isLinked⟩
        exact (traced.same wellFormed has (Leads.link ownLinked (.refl next)).same).symm

theorem root_cases (traced : Traced original source none graph) (tidy : original.Tidy)
    (folded : graph.Folded) (rooted : graph.Rooted ref target node) :
    target = source ref ∨ ∃ own, original.size < target.number ∧
      original.node (source ref) = .ok own ∧ own.form.kind ≠ .var ∧
        original.Regular own.form ∧
        node.form.rename source = own.form.rename source := by
  have same := traced.leads tidy.wellFormed rooted.leads
  by_cases high : original.size < target.number
  · cases traced.traces high rooted.found with
    | linked isLinked =>
        rw [rooted.unlinked] at isLinked
        cases isLinked
    | position _ form =>
        have plain := folded target node rooted.found
        rw [form] at plain
        cases plain
    | @copy own _ found notVar regular renamed =>
        exact .inr ⟨own, high, same ▸ found, notVar, regular, renamed⟩
  · have has : original.Has target := ⟨rooted.has.1, by omega⟩
    rcases has_iff.1 has with ⟨own, ownFound⟩
    rcases traced.kept target own ownFound with ⟨after, afterFound, _, link⟩
    rw [rooted.found] at afterFound
    cases afterFound
    have self : original.Rooted target target own :=
      .self ownFound (link.symm.trans rooted.unlinked)
    exact .inl (by rw [← same, traced.root target target own self])

end Traced

/-! ## Steps -/

structure Refolds (original : TypeGraph) (source : Ref → Ref) (graph : TypeGraph)
    (waiting : List (Ref × Ref)) : Prop where
  traced : Traced original source none graph
  folded : graph.Folded
  waiting : ∀ pair ∈ waiting, original.Has pair.1 ∧ source pair.1 = source pair.2

structure CopyOf (original : TypeGraph) (source : Ref → Ref) (left right : Ref)
    (leftNode rightNode : Node) : Prop where
  has : original.Has left
  high : original.size < right.number
  leftStands : source left = left
  rightStands : source right = left
  leftNotVar : leftNode.form.kind ≠ .var
  rightNotVar : rightNode.form.kind ≠ .var
  joined : ∃ pairs, leftNode.form.join? rightNode.form = some (leftNode.form, pairs) ∧
    ∀ pair ∈ pairs, original.Has pair.1 ∧ source pair.1 = source pair.2

theorem Refolds.cases (refolds : Refolds original source graph ((ref, other) :: waiting))
    (tidy : original.Tidy) (leftRooted : graph.Rooted ref left leftNode)
    (rightRooted : graph.Rooted other right rightNode) :
    left = right ∨ CopyOf original source left right leftNode rightNode := by
  rcases refolds.waiting _ List.mem_cons_self with ⟨has, same⟩
  have traced := refolds.traced
  rcases tidy.rooted has with ⟨target, own, rooted, _⟩
  rcases rooted.of_keeps traced.kept with ⟨after, laterRooted, form⟩
  rcases laterRooted.unique leftRooted with ⟨rfl, rfl⟩
  have leftStands : source left = left :=
    traced.root left left own (.self rooted.found rooted.unlinked)
  have stands : source other = left := same.symm.trans (traced.root ref left own rooted)
  rcases traced.root_cases tidy refolds.folded rightRooted with equal |
    ⟨copied, high, found, notVar, regular, renamed⟩
  · exact .inl (equal.trans stands).symm
  · right
    rw [stands, rooted.found] at found
    cases found
    have joined :=
      Form.join?_of_rename (tidy.wellFormed.fair left own rooted.found) notVar regular
      (fun part member _ isSame =>
        traced.same tidy.wellFormed (tidy.wellFormed.has_part rooted.found member) isSame)
        renamed
    rcases joined with ⟨pairs, isJoined, each⟩
    have kinds : rightNode.form.kind = own.form.kind := by
      have both := congrArg Form.kind renamed
      rwa [Form.kind_rename, Form.kind_rename] at both
    have rightStands := (traced.leads tidy.wellFormed rightRooted.leads).trans stands
    refine ⟨rooted.has, high, leftStands, rightStands, form ▸ notVar,
      kinds ▸ notVar, pairs, form ▸ isJoined, fun pair member => ?_⟩
    exact ⟨tidy.wellFormed.has_part rooted.found (each pair member).1,
      (each pair member).2⟩

theorem Refolds.not_clash
    (refolds : Refolds original source graph ((ref, other) :: waiting))
    (tidy : original.Tidy) (leftRooted : graph.Rooted ref left leftNode)
    (rightRooted : graph.Rooted other right rightNode) :
    ¬ Clash left right leftNode rightNode := by
  intro clash
  rcases refolds.cases tidy leftRooted rightRooted with equal | copy
  · exact clash.different equal
  · rcases copy.joined with ⟨pairs, joined, _⟩
    rw [clash.unjoined] at joined
    cases joined

theorem Unites.keeps {gone kept : Ref} {goneNode : Node}
    (unites : graph.Unites later gone kept goneNode form) (keptFound : graph.node kept =
      .ok node) (same : form = node.form) (different : ref ≠ gone) :
    graph.Keeps later ref := by
  by_cases isKept : ref = kept
  · subst isKept
    intro own found
    rw [keptFound] at found
    cases found
    rcases unites.keptFound with ⟨before, beforeFound, unlinked⟩
    rw [keptFound] at beforeFound
    cases beforeFound
    rcases unites.keptLater with ⟨after, laterFound, newForm, afterUnlinked⟩
    exact ⟨after, laterFound, newForm.trans same, afterUnlinked.trans unlinked.symm⟩
  · exact keeps_of_eq (unites.others ref different isKept)

theorem Traced.unite (traced : Traced original source none graph)
    (unites : graph.Unites later right left rightNode leftNode.form)
    (leftFound : graph.node left = .ok leftNode)
    (copy : CopyOf original source left right leftNode rightNode) :
    Traced original source none later where
  kept ref node found := by
    have different : ref ≠ right := by
      rintro rfl
      have small := (has_of_node found).2
      have high := copy.high
      omega
    exact (Keeps.trans (traced.kept ref) (unites.keeps leftFound rfl different)) node
      found
  root := traced.root
  nodes ref node refHigh _ found := by
    rcases unites.node_cases found with ⟨rfl, _, isLinked⟩ | ⟨rfl, _⟩ | ⟨_, _, old⟩
    · exact .linked isLinked (copy.leftStands.trans copy.rightStands.symm)
    · have small := copy.has.2
      omega
    · exact traced.traces refHigh old

theorem Refolds.step (refolds : Refolds original source graph ((ref, other) :: waiting))
    (tidy : original.Tidy) (leftRooted : graph.Rooted ref left leftNode)
    (rightRooted : graph.Rooted other right rightNode)
    (step : graph.Step later left right leftNode rightNode pairs) :
    Refolds original source later (pairs ++ waiting) := by
  have folded := step.folded refolds.folded leftRooted.found rightRooted.found
  have rest : ∀ pair ∈ waiting, original.Has pair.1 ∧ source pair.1 = source pair.2 :=
    fun pair member => refolds.waiting pair (List.mem_cons_of_mem _ member)
  have cases := refolds.cases tidy leftRooted rightRooted
  cases step with
  | same _ unchanged =>
      rw [unchanged]
      exact ⟨refolds.traced, refolds.folded, rest⟩
  | bindLeft form unites =>
      rcases cases with equal | copy
      · exact absurd equal.symm unites.apart
      · exact absurd (congrArg Form.kind form) copy.leftNotVar
  | bindRight _ form unites =>
      rcases cases with equal | copy
      · exact absurd equal unites.apart
      · exact absurd (congrArg Form.kind form) copy.rightNotVar
  | join joined unites =>
      rcases cases with equal | copy
      · exact absurd equal unites.apart
      · rcases copy.joined with ⟨own, isJoined, each⟩
        rw [isJoined] at joined
        cases joined
        refine ⟨refolds.traced.unite unites leftRooted.found copy, folded,
          fun pair member => ?_⟩
        rcases List.mem_append.1 member with new | old
        · exact each pair new
        · exact rest pair old

/-! ## Texts -/

namespace Printing

variable {α β : Type}

def Refines (second first : Printing α) : Prop :=
  ∀ names result, first.run names = .ok result → second.run names = .ok result

namespace Refines

theorem refl (printing : Printing α) : Refines printing printing :=
  fun _ _ printed => printed

theorem throw (printing : Printing α) (fault : Fault) : Refines printing (throw fault) :=
  fun _ _ printed => nomatch printed

theorem bind {first second : Printing α} {next further : α → Printing β}
    (refines : Refines second first)
    (rest : ∀ value, Refines (further value) (next value)) :
    Refines (second >>= further) (first >>= next) := by
  intro names result printed
  rw [StateT.run_bind] at printed ⊢
  cases ran : first.run names with
  | error fault =>
      rw [ran] at printed
      cases printed
  | ok middle =>
      rw [ran] at printed
      rw [refines names middle ran]
      exact rest middle.1 middle.2 result printed

theorem mapM {items : List α} {act other : α → Printing β}
    (each : ∀ item ∈ items, Refines (other item) (act item)) :
    Refines (items.mapM other) (items.mapM act) := by
  induction items with
  | nil => exact refl _
  | cons head tail induction =>
      rw [List.mapM_cons, List.mapM_cons]
      apply (each head List.mem_cons_self).bind
      intro value
      apply (induction fun item member => each item (List.mem_cons_of_mem _ member)).bind
      intro values
      exact refl _

end Refines

end Printing

theorem Tidy.refines_print (tidy : original.Tidy) (kept : ∀ ref, original.Keeps later ref)
    (fuel : Nat) :
    ∀ {more : Nat}, fuel ≤ more → ∀ (around : List Ref) (nested : Bool) {ref : Ref},
      original.Has ref →
        Printing.Refines (later.print more around nested ref)
          (original.print fuel around nested ref) := by
  induction fuel with
  | zero => exact fun _ _ _ _ _ => .throw _ _
  | succ fuel induction =>
      intro more enough around nested ref has
      obtain ⟨more, rfl⟩ : ∃ less, more = less + 1 := ⟨more - 1, by omega⟩
      rcases tidy.rooted has with ⟨target, node, rooted, plain⟩
      rcases rooted.of_keeps kept with ⟨after, laterRooted, form⟩
      have shown := rooted.shown plain original.size
      have laterShown := laterRooted.shown (form ▸ plain) later.size
      rw [form] at laterShown
      have lifted : ∀ {graph : TypeGraph}, graph.shown (graph.size + 1) ref =
          .ok (target, node.form) →
          (liftM (graph.shown (graph.size + 1) ref) : Printing (Ref × Form)) =
            Pure.pure (target, node.form) := by
        intro graph found
        rw [found]
        rfl
      have parts : ∀ (nested : Bool), ∀ part ∈ node.form.refs, Printing.Refines
          (later.print more (target :: around) nested part)
          (original.print fuel (target :: around) nested part) :=
        fun nested part member => induction (by omega) _ nested
          (tidy.wellFormed.has_part rooted.found member)
      rw [TypeGraph.print, TypeGraph.print, lifted shown, lifted laterShown,
        pure_bind, pure_bind]
      cases ownForm : node.form with
      | var origin => exact .refl _
      | primitive own => exact .refl _
      | function argument result =>
          rw [ownForm] at parts
          dsimp only
          split
          · exact .refl _
          · refine (parts true argument List.mem_cons_self).bind fun _ => ?_
            exact (parts false result (by simp [Form.refs, Form.parameters])).bind
              fun _ => .refl _
      | list element =>
          rw [ownForm] at parts
          dsimp only
          split
          · exact .refl _
          · exact (parts false element List.mem_cons_self).bind fun _ => .refl _
      | row kind members bound =>
          rw [ownForm] at parts
          have entries : ∀ (nested : Bool) (write : String × Ref → String → String),
              Printing.Refines
                ((bound.getD members).entries.mapM fun entry => do
                  return write entry
                    (← later.print more (target :: around) nested entry.2))
                ((bound.getD members).entries.mapM fun entry => do
                  return write entry
                    (← original.print fuel (target :: around) nested entry.2)) :=
            fun nested _ => .mapM fun entry member =>
              (parts nested entry.2 (Form.mem_refs_of_entry member)).bind fun _ => .refl _
          cases kind with
          | struct =>
              dsimp only
              split
              · exact .refl _
              · exact (entries false _).bind fun _ => .refl _
          | variant =>
              dsimp only
              split
              · exact .refl _
              · exact (entries true _).bind fun _ => .refl _

theorem Tidy.text_of_keeps (tidy : original.Tidy) (kept : ∀ ref, original.Keeps later ref)
    (grown : original.size ≤ later.size) (has : original.Has ref) :
    ∃ text, original.text ref = .ok text ∧ later.text ref = .ok text := by
  rcases tidy.text has with ⟨text, written⟩
  refine ⟨text, written, ?_⟩
  unfold TypeGraph.text at written ⊢
  cases printed : (original.print (original.size + 2) [] false ref).run {} with
  | error fault =>
      rw [printed] at written
      cases written
  | ok result =>
      rw [printed] at written
      cases written
      rw [tidy.refines_print kept _ (by omega) [] false has {} result printed]
      rfl

/-! ## Runs -/

/-- Every position is one of the unfolding when its turn comes, and what it copies is
regular. -/
def Admits (original : TypeGraph) (unfolding : Nat) (graph : TypeGraph) : List Ref → Prop
  | [] => True
  | position :: rest => graph.Lists unfolding position ∧
      original.Copyable graph position ∧
      original.Admits unfolding ((Build.expand position).on graph).2 rest

end TypeGraph

namespace Build

open TypeGraph

variable {original graph : TypeGraph} {unfolding : Nat} {source : Ref → Ref}
  {type root : Ref} {failed : Failure → TypeGraph → Prop}

/-- Unfolds a type and expands positions of the copy, ends the unfolding and makes the
type and its copy the same. -/
def refold (type : Ref) (positions : List Ref) : Build Unit := do
  let unfolding ← unfold type
  let root ← unfoldingRoot unfolding
  positions.forM expand
  fold unfolding
  unify type root

theorem yields_expand_all (tidy : original.Tidy) {positions : List Ref}
    (copying : Copying original unfolding original.size graph)
    (traced : Traced original source none graph)
    (admits : original.Admits unfolding graph positions) :
    (positions.forM expand).Yields graph
      (fun _ later => Copying original unfolding original.size later ∧
      graph.size ≤ later.size ∧
        ∃ extended, graph.Agrees source extended ∧
          Traced original extended none later) failed := by
  induction positions generalizing graph source with
  | nil => exact yields_pure ⟨copying, Nat.le_refl _, source, .refl graph source, traced⟩
  | cons position rest induction =>
      rcases admits with ⟨⟨own, found, listed⟩, copyable, admits⟩
      rcases copying.noted with ⟨book, bookFound, names⟩
      rw [found] at bookFound
      cases bookFound
      rcases names position (.inr (.inl listed)) with ⟨high, has⟩
      rcases ((yields_expand tidy copying has high).and
        (yields_expand_traced tidy copying traced has high copyable)).exists_ok with
        ⟨_, middle, ran, ⟨copyingMiddle, change⟩, earlier, agreesFirst, tracedMiddle⟩
      rw [ran] at admits
      have grown : graph.size ≤ middle.size := by
        rcases change with rfl | ⟨_, _, expands⟩
        · exact Nat.le_refl _
        · exact expands.grown
      apply yields_bind_of_on ran
      apply (induction copyingMiddle tracedMiddle admits).imp
      rintro _ later ⟨copyingLater, grownToo, extended, agreesLater, tracedLater⟩
      exact ⟨copyingLater, grown.trans grownToo, extended,
        agreesFirst.trans agreesLater grown, tracedLater⟩

theorem yields_unify_traced (tidy : original.Tidy) (graphTidy : graph.Tidy)
    (traced : Traced original source none graph) (grown : original.size ≤ graph.size)
    (has : original.Has type) (rootHas : graph.Has root)
    (same : source type = source root) :
    (unify type root).Yields graph
      (fun _ later => graph.size = later.size ∧ ∀ ref, original.Keeps later ref)
        failed := by
  have start : Refolds original source graph [(type, root)] := by
    refine ⟨traced, graphTidy.folded, fun pair member => ?_⟩
    rw [List.mem_singleton.1 member]
    exact ⟨has, same⟩
  apply (yields_unify (Refolds original source) ?_ graphTidy.wellFormed graphTidy.folded
    (has.mono grown) rootHas start).mono
  · rintro _ later ⟨_, _, size, refolds⟩
    exact ⟨size.symm, refolds.traced.kept⟩
  · rintro _ _ ⟨_, _, _, _, _, _, _, _, _, _, _, leftRooted, rightRooted, clash, refolds⟩
    exact (refolds.not_clash tidy leftRooted rightRooted clash).elim
  · intro _ _ _ _ _ _ _ _ _ _ _ leftRooted rightRooted step refolds
    exact refolds.step tidy leftRooted rightRooted step

/-- A type unifies with its own unfolding, whatever positions have been expanded, and no
type that there was before is written in another way afterwards. -/
theorem exists_on_refold (tidy : graph.Tidy) (has : graph.Has type) (positions : List Ref)
    (admits : graph.Admits graph.unfoldings.size ((unfold type).on graph).2 positions) :
    ∃ later, (refold type positions).on graph = (.ok (), later) ∧
      ∀ ref, graph.Has ref → ∃ text, graph.text ref = .ok text ∧
        later.text ref = .ok text := by
  rcases ((yields_unfold_starts tidy has).and ((yields_unfold tidy has).and
    (yields_unfold_traced tidy has))).exists_ok with
    ⟨unfolding, first, ran, ⟨number, _⟩, copying, source, traced, atRoot⟩
  subst number
  rw [ran] at admits
  rcases copying.noted with ⟨own, found, names⟩
  rcases names own.root (.inl rfl) with ⟨rootHigh, rootHas⟩
  have yields : (refold type positions).Yields graph (fun _ later =>
      ∀ ref, graph.Has ref → ∃ text, graph.text ref = .ok text ∧
        later.text ref = .ok text)
      fun _ _ => False := by
    apply yields_bind_of_on ran
    unfold unfoldingRoot
    apply yields_get_bind
    rw [found]
    apply (yields_expand_all tidy copying traced admits).bind
    rintro _ second ⟨copyingSecond, grown, extended, agrees, tracedSecond⟩
    apply ((yields_fold tidy copyingSecond).and
      (yields_fold_traced copyingSecond tracedSecond)).bind
    rintro _ third ⟨⟨tidyThird, grownThird, _⟩, tracedThird⟩
    have small : graph.size ≤ third.size := copyingSecond.small.trans grownThird
    have same : extended type = extended own.root := by
      rw [agrees type (copying.has has), agrees own.root rootHas, atRoot own found]
    apply (yields_unify_traced tidy tidyThird tracedThird small has
      (rootHas.mono (grown.trans grownThird)) same).imp
    rintro _ later ⟨size, kept⟩ ref refHas
    exact tidy.text_of_keeps kept (small.trans size.le) refHas
  rcases yields.exists_ok with ⟨_, later, refolded, texts⟩
  exact ⟨later, refolded, texts⟩

end Build

/-! ## Whole rows -/

namespace Form

def isWhole : Form → Bool
  | .row _ members (some bound) => decide (bound = members) && !members.entries.isEmpty
  | _ => true

end Form

namespace TypeGraph

open Build

variable {original graph : TypeGraph} {ref : Ref}

theorem regular_of_isWhole {form : Form} (whole : form.isWhole) : graph.Regular form := by
  unfold Form.isWhole at whole
  split at whole
  next kind members bound =>
      rw [Bool.and_eq_true, decide_eq_true_iff] at whole
      rcases whole with ⟨rfl, filled⟩
      refine ⟨by simpa using filled, fun name type other found alsoFound => ?_⟩
      rw [found] at alsoFound
      cases alsoFound
      exact .refl type
  next notBounded =>
      unfold Regular
      split
      · exact absurd rfl (notBounded _ _ _)
      · trivial

theorem copyable_of_isWhole (whole : ∀ node ∈ original.nodes, node.form.isWhole)
    (graph : TypeGraph) (ref : Ref) : original.Copyable graph ref := by
  intro _ _ _ target own _ _ rooted
  apply regular_of_isWhole
  have found := rooted.found
  unfold TypeGraph.node at found
  split at found
  next node isNode =>
      cases found
      rcases Option.bind_eq_some_iff.1 isNode with ⟨index, _, inside⟩
      exact whole own (Array.mem_of_getElem? inside)
  next => cases found

def numbers : List Edit :=
  [.operation .newVar, .operation (.newPrimitive .unit),
    .operation (.newPrimitive .number),
    .operation (.newClosed .struct [("head", ⟨3⟩), ("tail", ⟨1⟩)]),
    .operation (.newClosed .variant [("End", ⟨2⟩), ("More", ⟨4⟩)]),
    .operation (.bind ⟨1⟩ ⟨5⟩)]

theorem exists_on_refold_numbers :
    (({} : TypeGraph).edited numbers).Tidy ∧ (({} : TypeGraph).edited numbers).Has ⟨1⟩ ∧
      ∃ later, (refold ⟨1⟩ [⟨6⟩, ⟨9⟩, ⟨12⟩]).on (({} : TypeGraph).edited numbers) =
        (.ok (), later) ∧
        ∀ ref, (({} : TypeGraph).edited numbers).Has ref →
          ∃ text, (({} : TypeGraph).edited numbers).text ref = .ok text ∧
            later.text ref = .ok text := by
  have permits : ({} : TypeGraph).Permits numbers := by decide
  have tidy := tidy_empty.edited permits
  have whole : ∀ node ∈ (({} : TypeGraph).edited numbers).nodes, node.form.isWhole := by
    decide
  have copyable := copyable_of_isWhole whole
  refine ⟨tidy, by decide, exists_on_refold tidy (by decide) [⟨6⟩, ⟨9⟩, ⟨12⟩] ?_⟩
  exact ⟨by decide, copyable _ _, by decide, copyable _ _, by decide,
    copyable _ _, trivial⟩

def emptyRecord : List Edit := [.operation (.newClosed .struct [])]

def spoiltRecord : List Edit :=
  [.operation (.newPrimitive .number), .operation (.newPrimitive .text),
    .operation (.newOpen .struct [("a", ⟨1⟩)]),
    .operation (.newClosed .struct [("a", ⟨2⟩)]),
    .operation (.unify ⟨3⟩ ⟨4⟩)]

theorem refold_refused :
    ((({} : TypeGraph).edited emptyRecord).Tidy ∧
      (({} : TypeGraph).edited emptyRecord).Has ⟨1⟩ ∧
      ((unfold ⟨1⟩).on (({} : TypeGraph).edited emptyRecord)).2.Lists 0 ⟨2⟩ ∧
        ((refold ⟨1⟩ [⟨2⟩]).on (({} : TypeGraph).edited emptyRecord)).1 =
          .error (.mismatch ⟨"\x7b\x7d", "\x7b\x7d", ""⟩)) ∧
    (({} : TypeGraph).edited spoiltRecord).Tidy ∧
      (({} : TypeGraph).edited spoiltRecord).Has ⟨3⟩ ∧
      ((unfold ⟨3⟩).on (({} : TypeGraph).edited spoiltRecord)).2.Lists 0 ⟨5⟩ ∧
        ((refold ⟨3⟩ [⟨5⟩]).on (({} : TypeGraph).edited spoiltRecord)).1 =
          .error (.mismatch ⟨"string", "number", ""⟩) := by
  refine ⟨⟨tidy_empty.edited (by decide), by decide, by decide, rfl⟩,
    tidy_empty.edited (by decide), by decide, by decide, rfl⟩

end TypeGraph

end Casework
