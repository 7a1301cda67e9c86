import Casework.Proofs.Gaps
import Casework.Proofs.Marking
import Casework.Proofs.SealingOrder
import Casework.Proofs.Taking
import Casework.Proofs.TypeParsing

/-!
Catch-alls.

A name as the whole pattern of a choice takes every value of any type. No choice is
accepted after it, the check of coverage finds no gap, and the variant that stands for the
type of the value is not sealed. Variants further inside are sealed all the same if an
earlier choice tests their tags: the name covers the position where it stands, and nothing
below.
-/

namespace Casework

def Choice.isCatchAll (choice : Choice) : Bool :=
  match choice.pattern with
  | .symbol _ _ => true
  | _ => false

namespace TypeGraph

variable {graph later : TypeGraph} {ref target root : Ref} {before after : Node}

def AllCovered (graph : TypeGraph) (ref : Ref) : Prop :=
  graph.covers ref = true ∧
    ∃ root node, graph.Rooted ref root node ∧
    (node.form.kind = .variant → node.marks.any = true)

theorem AllCovered.alter (all : graph.AllCovered ref)
    (alters : graph.Alters later target before after) (link : after.link = before.link)
    (any : after.marks.any = before.marks.any)
    (kind : after.form.kind = before.form.kind) : later.AllCovered ref := by
  rcases all with ⟨covers, root, node, rooted, whole⟩
  refine ⟨(alters.covers any rooted.has_start).trans covers, root, _,
    alters.rooted link rooted, ?_⟩
  split
  next same =>
      subst same
      cases alters.found.symm.trans rooted.found
      rw [any, kind]
      exact whole
  next => exact whole

theorem gap?_of_covers (covers : graph.covers ref = true) :
    graph.gap? ref = .ok none := by
  unfold TypeGraph.covers at covers
  split at covers
  next node found =>
      have settled : graph.settleAround [] (graph.size + 1) ref = .ok none := by
        rw [settleAround_succ, found]
        simp [Except.bind, covers]
      rw [gap?, findGap, settled]
      rfl
  next => cases covers

theorem kind_of_isOpenVariant {node : Node} (isOpen : node.isOpenVariant = true) :
    node.form.kind = .variant := by
  rcases node.exists_form_of_isOpenVariant isOpen with ⟨members, form⟩
  rw [form]
  rfl

theorem toSeal_ne_of_covered {node : Node} (wellFormed : graph.WellFormed)
    (has : graph.Has ref) (found : graph.node root = .ok node)
    (whole : node.form.kind = .variant → node.marks.any = true) :
    graph.toSeal ref ≠ some root := by
  intro isSealing
  rcases rooted_of_toSeal wellFormed has isSealing with ⟨own, rooted, isOpen⟩
  cases rooted.found.symm.trans found
  rw [toSeal_of_rooted rooted, whole (kind_of_isOpenVariant isOpen)] at isSealing
  simp at isSealing

theorem not_mem_sealings {refs : List Ref} {node : Node}
    (rooted : graph.Rooted ref root node) (whole : node.form.kind = .variant →
      node.marks.any = true) (wellFormed : graph.WellFormed)
    (named : ∀ own ∈ refs, graph.Has own) :
    (graph.sealings refs).2.deref ref = .ok root ∧ root ∉ (graph.sealings refs).1 := by
  induction refs generalizing graph with
  | nil => exact ⟨rooted.deref, List.not_mem_nil⟩
  | cons head tail induction =>
      have has := named head List.mem_cons_self
      have notRoot := toSeal_ne_of_covered wellFormed has rooted.found whole
      have still : (graph.sealed (graph.toSeal head)).Rooted ref root node := by
        cases isSealing : graph.toSeal head with
        | none => exact rooted
        | some own =>
            rcases rooted_of_toSeal wellFormed has isSealing with ⟨ownNode, ownRooted, _⟩
            have different : root ≠ own := fun same =>
              notRoot (isSealing.trans (congrArg some same.symm))
            have kept := (alters_update ownRooted.found Node.sealTags).rooted
              ownNode.link_sealTags rooted
            rwa [if_neg different] at kept
      have tailNamed : ∀ own ∈ tail, (graph.sealed (graph.toSeal head)).Has own :=
        fun own member =>
        (named own (List.mem_cons_of_mem _ member)).mono (size_sealed ..).ge
      rcases induction still (wellFormed_sealed wellFormed has) tailNamed with
        ⟨deref, outside⟩
      refine ⟨deref, fun member => ?_⟩
      rcases List.mem_append.1 member with first | further
      · exact notRoot (Option.mem_toList.1 first)
      · exact outside further

end TypeGraph

/-! ## What keeps all of a type covered -/

namespace Build

open TypeGraph

variable {graph : TypeGraph} {ref : Ref}

theorem yields_coverAll_allCovered (ref : Ref) (graph : TypeGraph) :
    (Elaborate.coverAll ref).Yields graph (fun _ later => later.AllCovered ref)
      fun _ _ => True := by
  apply yields_update_cases fun _ => trivial
  intro has
  rcases has_iff.1 has with ⟨start, found⟩
  have marks := alters_update found fun node =>
    { node with marks := { node.marks with any := true } }
  have covered := covers_of_node marks.changed
  generalize graph.update ref _ = first at marks covered ⊢
  apply yields_look_cases fun _ => trivial
  intro root deref
  rcases rooted_of_deref deref with ⟨node, rooted⟩
  apply yields_read_bind (Rooted.self rooted.found rooted.unlinked).root
  split
  · have whole := alters_update rooted.found fun node =>
      { node with marks := { node.marks with any := true } }
    apply yields_update rooted.has
    have kept := whole.rooted rfl rooted
    rw [if_pos rfl] at kept
    refine ⟨?_, root, _, kept, fun _ => rfl⟩
    by_cases same : ref = root
    · subst same
      exact covers_of_node whole.changed
    · rcases has_iff.1 rooted.has_start with ⟨own, ownFound⟩
      rw [covers_of_node ((whole.others ref same).trans ownFound),
        ← covers_of_node ownFound]
      exact covered
  next notVariant =>
      exact yields_pure ⟨covered, root, node, rooted, fun isVariant =>
        absurd isVariant notVariant⟩

theorem yields_putMember_allCovered (all : graph.AllCovered ref) (target : Ref)
    (name : String) (type : Ref) :
    (putMember target name type).Yields graph (fun _ later => later.AllCovered ref)
      fun _ _ => True := by
  apply yields_look_cases fun _ => trivial
  intro node isRoot
  rcases rooted_of_root isRoot with ⟨root, rooted⟩
  split
  next kind members bound form =>
      apply yields_updateRoot rooted
      refine all.alter (alters_update rooted.found _) rfl rfl ?_
      rw [form]
      rfl
  next => exact yields_throw trivial

theorem yields_read_same {α β : Type} (query : TypeGraph → Except Fault α)
    (read : α → β) :
    (look query >>= fun value => pure (read value)).Yields graph
      (fun _ later => graph = later)
      fun _ _ => True :=
  yields_look_cases (fun _ => trivial) fun _ _ => yields_pure rfl

theorem yields_copyTags_allCovered (all : graph.AllCovered ref) (target source : Ref) :
    (copyTags target source).Yields graph (fun _ later => later.AllCovered ref)
      fun _ _ => True := by
  apply (yields_read_same _ _).bind
  rintro row _ rfl
  refine Yields.bind (yields_forIn (fun middle => middle.AllCovered ref) all ?_)
    fun _ later kept => yields_pure kept
  rintro ⟨tag, type⟩ _ middle kept
  have skipped :
      (pure (ForInStep.yield PUnit.unit) : Build (ForInStep PUnit)).Yields middle
      (fun step later => step = .yield ⟨⟩ ∧ later.AllCovered ref) fun _ _ => True :=
      yields_pure ⟨rfl, kept⟩
  have member : (member? target tag).Yields middle (fun _ later => middle = later)
      fun _ _ => True :=
    (yields_read_same _ _).bind fun _ _ same => yields_pure same
  have allowed : (allows target tag).Yields middle (fun _ later => middle = later)
      fun _ _ => True :=
    (yields_read_same _ _).bind fun _ _ same => yields_pure same
  apply member.bind
  rintro type? _ rfl
  split
  · apply allowed.bind
    rintro isAllowed _ rfl
    split
    · apply (yields_putMember_allCovered kept target tag type).bind
      exact fun _ _ stays => yields_pure ⟨rfl, stays⟩
    · exact skipped
  · exact skipped

theorem yields_variantRoots_same (refs found : List Ref) :
    (variantRoots refs found).Yields graph (fun _ later => graph = later)
      fun _ _ => True := by
  induction refs generalizing found with
  | nil => exact yields_pure rfl
  | cons head tail induction =>
      apply yields_look_cases fun _ => trivial
      intro root _
      apply (yields_read_same _ _).bind
      rintro kind _ rfl
      split
      · exact induction _
      · exact induction _

theorem yields_shareTags_allCovered (all : graph.AllCovered ref) (unfolding : Nat) :
    (shareTags unfolding).Yields graph (fun _ later => later.AllCovered ref)
      fun _ _ => True := by
  apply yields_get_bind
  refine Yields.bind (yields_forIn (fun middle => middle.AllCovered ref) all ?_)
    fun _ later kept => yields_pure kept
  intro positions _ middle kept
  apply (yields_variantRoots_same positions []).bind
  rintro roots _ rfl
  refine Yields.bind (yields_forIn (fun middle => middle.AllCovered ref) kept ?_)
    fun _ later kept => yields_pure ⟨rfl, kept⟩
  intro target _ second keptToo
  refine Yields.bind (yields_forIn (fun middle => middle.AllCovered ref) keptToo ?_)
    fun _ later kept => yields_pure ⟨rfl, kept⟩
  intro source _ third keptLast
  apply (yields_copyTags_allCovered keptLast target source).bind
  exact fun _ _ stays => yields_pure ⟨rfl, stays⟩

end Build

/-! ## Choices -/

section Choices

open TypeGraph Elaborate Stateful

variable {graph : TypeGraph} {state : Elaboration} {root : Ref}
  {setting : Setting} {level : Nat} {scope : Scope}

theorem Expr.exists_entering (setting : Setting) (level : Nat) (pattern : Expr)
    (inside : Bool) (type : Ref) :
    ∃ next, pattern.elaborate setting level inside type = pattern.entering type next := by
  cases pattern with
  | list place items => cases items <;> exact ⟨_, rfl⟩
  | binary place operator left right => cases operator <;> exact ⟨_, rfl⟩
  | record place fields => cases fields <;> exact ⟨_, rfl⟩
  | _ => exact ⟨_, rfl⟩

theorem Expr.yields_isUseless (covers : graph.covers root = true) (pattern : Expr)
    (inside : Bool) :
    (pattern.elaborate setting level inside root).Yields state graph (fun _ _ _ => False)
      fun failure _ => failure.isUseless = true := by
  rcases pattern.exists_entering setting level inside root with ⟨next, entering⟩
  rw [entering]
  have has : graph.Has root := by
    unfold TypeGraph.covers at covers
    split at covers
    next found => exact has_of_node found
    next => cases covers
  apply yields_lift_bind (Build.yields_hasAny_covers has)
  rintro _ _ ⟨rfl, rfl⟩
  rw [covers]
  exact yields_lift_stop (Build.yields_throw rfl)

theorem Choice.yields_allCovered {choice : Choice} (catchAll : choice.isCatchAll = true)
    (inside : Bool) :
    (choice.pattern.elaborate setting level inside root).Yields state graph
      (fun _ _ later => later.AllCovered root) fun _ _ => True := by
  unfold Choice.isCatchAll at catchAll
  split at catchAll
  next place name isName =>
      rw [isName, Expr.elaborate_symbol]
      apply yields_bind_anyhow
      intro any after middle
      split
      · exact yields_lift_stop (Build.yields_throw trivial)
      · refine yields_bind_anyhow fun _ _ _ => yields_bind_anyhow fun _ _ _ => ?_
        apply yields_lift_bind (Build.yields_coverAll_allCovered root _)
        intro _ later all
        split
        · exact yields_pure all
        · exact all
  next => cases catchAll

theorem yields_elaborateChoices_catchAll {choices : List Choice}
    (listed : ∃ choice ∈ choices, choice.isCatchAll = true) :
    (elaborateChoices setting level scope root choices).Yields state graph
      (fun _ _ later => later.AllCovered root ∧
        ∀ choice ∈ choices.dropLast, choice.isCatchAll = false) fun _ _ => True := by
  induction choices generalizing state graph with
  | nil => simp at listed
  | cons choice rest induction =>
      apply yields_modify_bind
      cases catchAll : choice.isCatchAll with
      | true =>
          apply (choice.yields_allCovered catchAll false).bind
          intro pattern after middle all
          apply yields_get_bind
          cases rest with
          | nil => exact yields_pure ⟨all, nofun⟩
          | cons next rest =>
              have refused : (elaborateChoices setting level scope root
                  (next :: rest)).Yields after middle
                  (fun _ _ _ => False) fun _ _ => True := by
                apply yields_modify_bind
                apply ((next.pattern.yields_isUseless all.1 false).mono_failed
                  fun _ _ _ => trivial).bind
                exact fun _ _ _ => False.elim
              exact refused.bind fun _ _ _ => False.elim
      | false =>
          have further : ∃ choice ∈ rest, choice.isCatchAll = true := by
            rcases listed with ⟨own, member, isCatchAll⟩
            rcases List.mem_cons.1 member with rfl | inRest
            · cases isCatchAll.symm.trans catchAll
            · exact ⟨own, inRest, isCatchAll⟩
          apply yields_bind_anyhow
          intro pattern after middle
          apply yields_get_bind
          apply (induction further).bind
          rintro others last later ⟨all, earlier⟩
          refine yields_pure ⟨all, fun own member => ?_⟩
          cases rest with
          | nil => cases member
          | cons next rest =>
              rcases List.mem_cons.1 member with rfl | inRest
              · exact catchAll
              · exact earlier own inRest

/-- A catch-all whose patterns are accepted is the last choice. The case is accepted then,
whatever its type is, and the variant that stands for the type of the value stays open. -/
theorem exists_checked_of_isCatchAll {unfolded elaborated : TypeGraph} {type : Ref}
    {unfolding : Nat} {choices : List Choice} {patterns : List (Pattern × Scope)}
    (tidy : graph.Tidy) (within : scope.Within graph) (has : graph.Has type)
    (unfolds : (Build.unfold type).on graph = (.ok unfolding, unfolded))
    (isRoot : (Build.unfoldingRoot unfolding).on unfolded = (.ok root, unfolded))
    (elaborates :
      ((elaborateChoices setting level scope root choices).run {}).on unfolded =
      (.ok (patterns, state), elaborated)) (place : Position)
    (listed : ∃ choice ∈ choices, choice.isCatchAll = true) :
    (∀ choice ∈ choices.dropLast, choice.isCatchAll = false) ∧
      ∃ checked later own,
        (Build.checkUnfolded setting level scope place choices unfolding).on unfolded =
        (.ok checked, later) ∧ later.deref checked.root = .ok own ∧
          own ∉ checked.sealed := by
  rcases ready_of_elaborateChoices tidy within has unfolds isRoot elaborates with
    ⟨ready, rootHas, _⟩
  rcases (yields_elaborateChoices_catchAll listed).of_ok elaborates with ⟨all, earlier⟩
  have checks :
      (Build.checkUnfolded setting level scope place choices unfolding).Yields unfolded
      (fun checked later => ∃ own, later.deref checked.root = .ok own ∧
        own ∉ checked.sealed)
      fun _ _ => False := by
    apply Build.yields_bind_of_on isRoot
    apply Build.yields_bind_of_on elaborates
    apply (Build.yields_text tidy ready.copying rootHas).bind
    rintro matchedType _ rfl
    have sharing : (Build.shareTags unfolding).Yields elaborated _ fun _ _ => False :=
      Build.yields_shareTags ready.copying
    rcases sharing.exists_ok with ⟨_, shared, shares, copying, grown⟩
    rcases (Build.yields_shareTags_allCovered all unfolding).of_ok shares with
      ⟨covers, own, node, rooted, whole⟩
    apply Build.yields_bind_of_on shares
    have searched : (Build.gap? root).on shared = (.ok none, shared) := by
      rw [Build.on_gap?, gap?_of_covers covers]
      rfl
    apply Build.yields_bind_of_on searched
    have named : ∀ ref ∈ state.registered, shared.Has ref := fun ref member =>
      (ready.known.registered ref member).2.mono grown
    have registered : ∀ ref ∈ state.registered, graph.size < ref.number ∧
        shared.Has ref := fun ref member =>
      ⟨(ready.known.registered ref member).1, named ref member⟩
    apply ((Build.yields_sealAll copying registered).and
      (Build.yields_sealAll_sealings copying.wellFormed named)).bind
    rintro sealed later ⟨⟨sealing, _, sealedHave⟩, isSealing⟩
    apply (Build.yields_mapM_text fun ref member =>
      sealing.text tidy (sealedHave ref member)).bind
    rintro sealedTypes _ ⟨_, rfl⟩
    apply Build.yields_pure
    have stays := not_mem_sealings rooted whole copying.wellFormed named
    rw [← isSealing] at stays
    exact ⟨own, stays⟩
  rcases checks.exists_ok with ⟨checked, later, ran, own, stays⟩
  exact ⟨earlier, checked, later, own, ran, stays⟩

theorem exists_checked_openVariant :
    let choices : List Choice :=
  [⟨.first, .apply .first "A" (.unit .first), none⟩, ⟨.first, .symbol .first "_", none⟩]
    ∃ type root unfolding patterns state typed unfolded elaborated checked later own,
      Accepts (.ofString "A () | ...") choices type root unfolding patterns
      state typed unfolded
        elaborated ∧
      (∀ choice ∈ choices.dropLast, choice.isCatchAll = false) ∧
      (Build.checkUnfolded {} 0 [] .first choices unfolding).on unfolded =
      (.ok checked, later) ∧
      later.deref checked.root = .ok own ∧ own ∉ checked.sealed := by
  intro choices
  have accepted : ((Build.elaborateFor (.ofString "A () | ...") choices).on
      {}).1.toOption.isSome = true := by decide +kernel
  rcases exists_accepts accepted with
    ⟨type, root, unfolding, patterns, state, typed, unfolded, elaborated, accepts⟩
  have made := (yields_parseType tidy_empty _).of_ok accepts.parsed
  have within : Scope.Within typed [] := fun _ member => (List.not_mem_nil member).elim
  rcases exists_checked_of_isCatchAll made.1.tidy within made.2
    accepts.unfolds accepts.isRoot
    accepts.elaborates .first (by decide) with
    ⟨earlier, checked, later, own, checks, rooted, stays⟩
  exact ⟨type, root, unfolding, patterns, state, typed, unfolded, elaborated,
    checked, later, own, accepts, earlier, checks, rooted, stays⟩

/-- The variants that a case seals, as texts, where its value has the type that a source
spells. -/
def Build.sealedBy (source : String) (patterns : List Expr) : Build (List String) := do
  let unfolding ← unfold (← parseType (.ofString source))
  let choices := patterns.map fun pattern => ⟨.first, pattern, none⟩
  return (← checkUnfolded {} 0 [] .first choices unfolding).sealedTypes

theorem sealedBy_field :
    let tagged : Expr := .apply .first "A" (.unit .first)
    let one : Expr := .number .first "1" ⟨0x3FF0000000000000⟩
    let name : Expr := .symbol .first "_"
    let fields : Expr :=
      .record .first (.cons .first "a" tagged (.cons .first "b" one .nil))
    ((Build.sealedBy "A () | ..." [tagged, name]).on {}).1.toOption = some [] ∧
    ((Build.sealedBy "\x7ba is A () | ..., b is number\x7d" [fields, name]).on
      {}).1.toOption =
      some ["A ()"] := by
  decide +kernel

end Choices

end Casework
