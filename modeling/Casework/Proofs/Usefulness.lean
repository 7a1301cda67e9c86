import Casework.Proofs.Exhaustiveness
import Casework.Proofs.Taking

/-!
Choices after others.

A choice whose pattern is made of names, units, literals and tags is refused as useless
only if the choices before it match everything that it is written for, and a choice that
is accepted never undoes what they cover. The marks of positions that tags lead to belong
to one pattern at a time, and that is what this rests on: the fields of a struct are
marked apart from each other, so neither holds for patterns of several fields.
-/

namespace Casework

open TypeGraph Elaborate Stateful
open Build (unfold unfoldingRoot)

variable {ν : Type} {graph unfolded elaborated later : TypeGraph} {type root : Ref}
  {unfolding level : Nat} {setting : Setting} {scope : Scope} {choice : Choice}
  {choices more : List Choice} {patterns further : List (Pattern × Scope)}
  {state last : Elaboration} {tree : TypeTree ν}

/-! ## More choices -/

theorem Expr.isMatchedBy_of_isCovered (pattern : Expr)
    {patterns : List Pattern} {value : Value} (covered : pattern.IsCovered patterns)
    (takes : pattern.Takes setting value) :
    value.IsMatchedBy patterns := by
  cases pattern with
  | apply _ tag argument =>
      rcases covered with ⟨earlier, listed, irrefutable⟩ | inner
      · exact Pattern.isMatchedBy_of_irrefutable listed irrefutable value
      · rcases takes with ⟨payload, rfl, takes⟩
        exact Pattern.isMatchedBy_of_payloads
          (argument.isMatchedBy_of_isCovered inner takes)
  | _ =>
      rcases covered with ⟨earlier, listed, irrefutable⟩
      exact Pattern.isMatchedBy_of_irrefutable listed irrefutable value
termination_by structural pattern

theorem elaborateChoices_append (setting : Setting) (level : Nat)
    (scope : Scope) (type : Ref) (choices more : List Choice) :
    elaborateChoices setting level scope type (choices ++ more) = (do
      let patterns ← elaborateChoices setting level scope type choices
      let further ← elaborateChoices setting level scope type more
      return patterns ++ further) := by
  induction choices with
  | nil => simp [elaborateChoices]
  | cons choice rest induction => simp [elaborateChoices, induction]

theorem yields_elaborateChoices_append
    {done : List (Pattern × Scope) → Elaboration → TypeGraph → Prop}
    {failed : Failure → TypeGraph → Prop}
    (elaborates :
      ((elaborateChoices setting level scope root choices).run {}).on unfolded =
      (.ok (patterns, state), elaborated))
    (rest : (elaborateChoices setting level scope root more).Yields state elaborated
      (fun further after later => done (patterns ++ further) after later) failed) :
    (elaborateChoices setting level scope root (choices ++ more)).Yields
      {} unfolded done failed := by
  unfold Elaborate.Yields Stateful.Yields
  rw [elaborateChoices_append, StateT.run_bind]
  apply Build.yields_bind_of_on elaborates
  exact Build.Yields.bind rest fun _ _ holds => Build.yields_pure holds

section Accepted

variable (shows : graph.ShowsPlain tree type) (written : tree.IsWritten False)
  (unfolds : (unfold type).on graph = (.ok unfolding, unfolded))
  (isRoot : (unfoldingRoot unfolding).on unfolded = (.ok root, unfolded))
  (simple : ∀ choice ∈ choices, choice.pattern.IsSimple)
  (elaborates : ((elaborateChoices setting level scope root choices).run {}).on unfolded =
    (.ok (patterns, state), elaborated))
include shows written unfolds isRoot simple elaborates

theorem yields_elaborateChoices_snoc (choiceSimple : choice.pattern.IsSimple) :
    (elaborateChoices setting level scope root (choices ++ [choice])).Yields {} unfolded
      (fun _ _ _ => ¬ choice.pattern.IsCovered (patterns.map Prod.fst))
      (Justified choice.pattern (patterns.map Prod.fst)) := by
  rcases exists_tracks_of_elaborateChoices shows written unfolds isRoot
    simple elaborates with
    ⟨_, outside, _, nodes, tracks⟩
  apply yields_elaborateChoices_append elaborates
  apply yields_modify_bind
  apply (choice.pattern.yields_receives setting level false tree root _ nodes elaborated
    { state with scope := scope, nextSlot := 0 } choiceSimple written tracks outside).bind
  rintro pattern after later ⟨uncovered, _⟩
  apply yields_get_bind
  apply yields_pure
  exact uncovered

/-- A choice that is refused as useless takes only values that the choices before it
match. -/
theorem isMatchedBy_of_isUseless (choiceSimple : choice.pattern.IsSimple)
    {failure : Failure}
    (refused : ((elaborateChoices setting level scope root (choices ++ [choice])).run
      {}).on unfolded =
      (.error failure, later)) (isUseless : failure.isUseless = true) {value : Value}
    (takes : choice.pattern.Takes setting value) :
    value.IsMatchedBy (patterns.map Prod.fst) := by
  have checks := yields_elaborateChoices_snoc shows written unfolds isRoot simple
    elaborates choiceSimple
  exact choice.pattern.isMatchedBy_of_isCovered
    (Build.Yields.of_error checks refused isUseless) takes

/-- Where choices leave no gap, more choices leave none. -/
theorem gap?_eq_none_of_append (tidy : graph.Tidy) (within : scope.Within graph)
    (nonempty : choices ≠ []) (moreSimple : ∀ choice ∈ more, choice.pattern.IsSimple)
    (elaboratesMore :
      ((elaborateChoices setting level scope root (choices ++ more)).run {}).on unfolded =
      (.ok (further, last), later)) {searched : TypeGraph}
    (covers : (Build.gap? root).on elaborated = (.ok none, searched)) :
    ∃ final, (Build.gap? root).on later = (.ok none, final) := by
  rcases exists_gap?_of_elaborateChoices shows written tidy within unfolds isRoot nonempty
    simple elaborates
    with ⟨_, _, isAnswer, _, exact⟩
  cases covers.symm.trans isAnswer
  have stillNonempty : choices ++ more ≠ [] := fun isNil =>
    nonempty (List.append_eq_nil_iff.1 isNil).1
  rcases exists_gap?_of_elaborateChoices shows written tidy within unfolds
    isRoot stillNonempty
    (List.forall_mem_append.2 ⟨simple, moreSimple⟩) elaboratesMore with
    ⟨answer, final, searched, _, exactLater⟩
  have kept :
      (elaborateChoices setting level scope root (choices ++ more)).Yields {} unfolded
      (fun all _ _ => ∃ others, all = patterns ++ others) fun _ _ => True :=
    yields_elaborateChoices_append elaborates
      ((Build.yields_anyhow _).imp fun _ _ _ => ⟨_, rfl⟩)
  rcases Build.Yields.of_ok kept elaboratesMore with ⟨others, rfl⟩
  let nothing : Instantiation := ⟨fun _ _ => False, fun _ _ _ => False⟩
  have isNone : answer = none := by
    refine (exactLater nothing).2 fun value fits => ?_
    rcases (exact nothing).1 rfl value fits with ⟨pattern, listed, matched⟩
    exact ⟨pattern, by simp [List.map_append, listed], matched⟩
  exact ⟨final, isNone ▸ searched⟩

end Accepted

theorem isMatchedBy_afterName :
    let tagged (argument : Expr) : Choice := ⟨.first, .apply .first "A" argument, none⟩
    let one := tagged (.number .first "1" ⟨0x3FF0000000000000⟩)
    let source : Source := .ofString "A number | B ()"
    ∃ type root unfolding patterns state typed unfolded elaborated failure later,
      Accepts source [tagged (.symbol .first "_")] type root unfolding patterns
      state typed unfolded
        elaborated ∧
      ((elaborateChoices {} 0 [] root [tagged (.symbol .first "_"), one]).run
        {}).on unfolded =
        (.error failure, later) ∧ failure.isUseless = true ∧
      ∀ value, one.pattern.Takes {} value →
      value.IsMatchedBy (patterns.map Prod.fst) := by
  intro tagged one source
  have accepted : ((Build.elaborateFor source [tagged (.symbol .first "_")]).on
      {}).1.toOption.isSome = true := by decide +kernel
  have refused :
      (match ((Build.elaborateFor source [tagged (.symbol .first "_"), one]).on {}).1 with
      | .ok _ => false
      | .error failure => failure.isUseless) = true := by decide +kernel
  have plain : source.isPlain = true := by decide +kernel
  have isOne : Number.read? "1" = some ⟨0x3FF0000000000000⟩ := by decide +kernel
  rcases exists_accepts accepted with
    ⟨type, root, unfolding, patterns, state, typed, unfolded, elaborated, accepts⟩
  rcases exists_showsPlain_of_isPlain plain accepts.parsed with ⟨tree, shows, written⟩
  rw [accepts.on_elaborateFor, Build.on_bind] at refused
  cases ran :
    ((elaborateChoices {} 0 [] root [tagged (.symbol .first "_"), one]).run {}).on
      unfolded with
  | mk result later =>
      rw [ran] at refused
      cases result with
      | ok result => cases refused
      | error failure =>
          refine ⟨type, root, unfolding, patterns, state, typed, unfolded,
            elaborated, failure, later, accepts, ran, refused, fun value takes => ?_⟩
          exact isMatchedBy_of_isUseless shows written accepts.unfolds accepts.isRoot
            (by simp [tagged, Expr.IsSimple]) accepts.elaborates
            (by simp [one, tagged, Expr.IsSimple, isOne])
            ran refused takes

theorem gap?_eq_none_finalName :
    let choice (pattern : Expr) : Choice := ⟨.first, pattern, none⟩
    let choices := [choice (.apply .first "A" (.symbol .first "_")),
      choice (.apply .first "B" (.unit .first))]
    ∃ type root unfolding patterns state typed unfolded elaborated further last
      later searched final,
      Accepts (.ofString "A number | B ()") choices type root unfolding patterns
      state typed unfolded
        elaborated ∧
      (Build.gap? root).on elaborated = (.ok none, searched) ∧
      ((elaborateChoices {} 0 [] root (choices ++ [choice (.symbol .first "_")])).run
        {}).on unfolded =
        (.ok (further, last), later) ∧
      (Build.gap? root).on later = (.ok none, final) := by
  intro choice choices
  have covered :
      ((do Build.gap? (← Build.elaborateFor (.ofString "A number | B ()") choices).1 :
      Build _).on {}).1.toOption = some none := by decide +kernel
  have moreOk : ((Build.elaborateFor (.ofString "A number | B ()")
      (choices ++ [choice (.symbol .first "_")])).on {}).1.toOption.isSome =
      true := by decide +kernel
  have plain : (Source.ofString "A number | B ()").isPlain = true := by decide +kernel
  have accepted : ((Build.elaborateFor (.ofString "A number | B ()") choices).on
      {}).1.toOption.isSome = true := by decide +kernel
  rcases exists_accepts accepted with
    ⟨type, root, unfolding, patterns, state, typed, unfolded, elaborated, accepts⟩
  rcases accepts.exists_gap? covered with ⟨searched, covers⟩
  rcases exists_showsPlain_of_isPlain plain accepts.parsed with ⟨tree, shows, written⟩
  rw [accepts.on_elaborateFor] at moreOk
  rcases Option.isSome_iff_exists.1 moreOk with ⟨_, isResult⟩
  rcases Build.of_on_toOption isResult with ⟨_, ran⟩
  rcases Build.of_on_bind ran with ⟨⟨further, last⟩, later, elaboratesMore, _⟩
  have tidy := ((yields_parseType tidy_empty _).of_ok accepts.parsed).1.tidy
  have within : Scope.Within typed [] := fun _ member => (List.not_mem_nil member).elim
  rcases gap?_eq_none_of_append shows written accepts.unfolds accepts.isRoot
    (by simp [choices, choice, Expr.IsSimple]) accepts.elaborates tidy within
    (List.cons_ne_nil _ _)
    (by simp [choice, Expr.IsSimple]) elaboratesMore covers with ⟨final, coversToo⟩
  exact ⟨type, root, unfolding, patterns, state, typed, unfolded, elaborated,
    further, last, later, searched, final, accepts, covers, elaboratesMore, coversToo⟩

/-! ## Choices with fields -/

theorem gapLeft_laterField :
    let both (text : String) (number : Number) : Expr :=
      .record .first (.cons .first "a" (.apply .first "A" (.unit .first))
        (.cons .first "b" (.number .first text number) .nil))
    let one := both "1" ⟨0x3FF0000000000000⟩
    let two := both "2" ⟨0x4000000000000000⟩
    let value : Value :=
      .struct
        (.cons "a" (.tagged "A" .null) (.cons "b" (.number ⟨0x4000000000000000⟩) .nil))
    ((Build.gapLeft "\x7ba is A (), b is number\x7d" [one, two]).on {}).1.mapError
      Failure.message =
      .error "[UnreachablePattern] line 1:1 Useless case () (any value already matched)" ∧
    two.Takes {} value ∧ ¬ one.Takes {} value := by
  refine ⟨by decide +kernel, ?_, ?_⟩ <;>
    simp [Expr.Takes, Fields.Takes, Members.get?, Value.ofConstant]

theorem gapLeft_repeatedField :
    let field (pattern : Expr) : Expr := .record .first (.cons .first "a" pattern .nil)
    let name := field (.symbol .first "_")
    let one := field (.number .first "1" ⟨0x3FF0000000000000⟩)
    ((Build.gapLeft "\x7ba is number\x7d" [name]).on {}).1.toOption = some none ∧
    ((Build.gapLeft "\x7ba is number\x7d" [name, one]).on {}).1.toOption =
    some (some ".a (number)") := by
  decide +kernel

end Casework
