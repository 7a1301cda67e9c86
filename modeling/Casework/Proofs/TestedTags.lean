import Casework.Proofs.Exhaustiveness

/-!
A tag that is tested anywhere is tested everywhere.

If the choices of a case over a type without variables leave no gap, then wherever one of
them tests a tag, either some choice takes everything there or every tag that the type has
is tested. Every tag has a value, so this is a matter of values alone: the tree of the
type is gone through along the tags.
-/

namespace Casework

mutual

def TypeTree.Tested {ν : Type} : TypeTree ν → List Pattern → Prop
  | .row .variant _ entries, patterns =>
      (∃ pattern ∈ patterns, pattern.isIrrefutable = true) ∨ entries.Tested patterns
  | _, _ => True

def TypeEntries.Tested {ν : Type} : TypeEntries ν → List Pattern → Prop
  | .nil, _ => True
  | .cons label type rest, patterns =>
      payloads label patterns ≠ [] ∧ type.Tested (payloads label patterns) ∧
        rest.Tested patterns

end

theorem Pattern.isMatchedBy_tagged_cases {patterns : List Pattern} {tag : String}
    {payload : Value} (matched : (Value.tagged tag payload).IsMatchedBy patterns) :
    (∃ pattern ∈ patterns, pattern.isIrrefutable = true) ∨ payload.IsMatchedBy
      (payloads tag patterns) := by
  rcases matched with ⟨pattern, listed, matching⟩
  cases pattern with
  | wildcard | bind => exact .inl ⟨_, listed, rfl⟩
  | variant own inner =>
      rcases (isSome_match?_variant own inner _).1 matching with ⟨_, same, innerMatching⟩
      cases same
      exact .inr ⟨inner, mem_payloads.2 listed, innerMatching⟩
  | literal constant type =>
      rw [isSome_match?_literal] at matching
      cases constant <;> cases matching
  | _ => cases matching

section Trees

open TypeGraph

variable {ν : Type} {graph : TypeGraph} {instantiation : Instantiation}

mutual

theorem TypeTree.tested_of_isMatchedBy (tree : TypeTree ν) {ref : Ref}
    {patterns : List Pattern} (shows : graph.ShowsPlain tree ref)
    (written : tree.IsWritten False)
    (all : ∀ value, graph.Fits instantiation ref value → value.IsMatchedBy patterns) :
    tree.Tested patterns := by
  match tree with
  | .row .variant isOpen entries =>
      rcases shows with ⟨row, found, _, entriesShow⟩
      by_cases irrefutable : ∃ pattern ∈ patterns, pattern.isIrrefutable = true
      · exact .inl irrefutable
      · have distinct : row.labels.Nodup := by
          rw [Row.labels, ← entriesShow.labels]
          exact written.1.distinct
        refine .inr (entries.tested_of_isMatchedBy entriesShow written.2
          fun entry listed value fits => ?_)
        have whole : graph.Fits instantiation ref (.tagged entry.1 value) :=
          .member ⟨_, found, rfl, rfl⟩ ((Row.get?_eq_some_iff distinct).2 listed) fits
        exact (Pattern.isMatchedBy_tagged_cases (all _ whole)).resolve_left irrefutable
  | .var _ | .primitive _ | .function _ _ | .list _ | .row .struct _ _ => trivial

theorem TypeEntries.tested_of_isMatchedBy (entries : TypeEntries ν)
    {found : List (String × Ref)} {patterns : List Pattern}
    (shows : graph.ShowsPlainAll entries found) (written : entries.IsWritten False)
    (all : ∀ entry ∈ found, ∀ value, graph.Fits instantiation entry.2 value →
      value.IsMatchedBy (payloads entry.1 patterns)) : entries.Tested patterns := by
  match entries with
  | .nil => trivial
  | .cons label type rest =>
      rcases shows with ⟨ref, others, rfl, typeShows, restShow⟩
      rcases List.forall_mem_cons.1 all with ⟨own, further⟩
      refine ⟨?_, type.tested_of_isMatchedBy typeShows written.1 own,
        rest.tested_of_isMatchedBy restShow written.2 further⟩
      rcases typeShows.exists_fits written.1 with ⟨value, fits⟩
      rcases own value fits with ⟨pattern, listed, _⟩
      exact List.ne_nil_of_mem listed

end

end Trees

open TypeGraph Elaborate in
/-- Where the choices of a case leave no gap, a tag that is tested anywhere is tested
everywhere. -/
theorem tested_of_gap?_eq_none {ν : Type} {graph unfolded elaborated searched : TypeGraph}
    {type root : Ref} {unfolding level : Nat} {setting : Setting} {scope : Scope}
    {choices : List Choice} {patterns : List (Pattern × Scope)} {state : Elaboration}
    {tree : TypeTree ν} (shows : graph.ShowsPlain tree type)
    (written : tree.IsWritten False) (tidy : graph.Tidy) (within : scope.Within graph)
    (unfolds : (Build.unfold type).on graph = (.ok unfolding, unfolded))
    (isRoot : (Build.unfoldingRoot unfolding).on unfolded = (.ok root, unfolded))
    (nonempty : choices ≠ []) (simple : ∀ choice ∈ choices, choice.pattern.IsSimple)
    (elaborates :
      ((elaborateChoices setting level scope root choices).run {}).on unfolded =
      (.ok (patterns, state), elaborated))
    (covers : (Build.gap? root).on elaborated = (.ok none, searched)) :
    tree.Tested (patterns.map Prod.fst) := by
  rcases exists_gap?_of_elaborateChoices shows written tidy within unfolds isRoot nonempty
    simple elaborates
    with ⟨_, _, isAnswer, _, exact⟩
  cases covers.symm.trans isAnswer
  let nothing : Instantiation := ⟨fun _ _ => False, fun _ _ _ => False⟩
  exact tree.tested_of_isMatchedBy shows written ((exact nothing).1 rfl)

open TypeGraph in
theorem tested_nestedChoices :
    ∃ type root unfolding patterns state typed unfolded elaborated,
      Accepts (.ofString "A number | B (C string | D ())") nestedChoices type root
        unfolding patterns
        state typed unfolded elaborated ∧
      ∃ tree : TypeTree String, typed.ShowsPlain tree type ∧
        tree.Tested (patterns.map Prod.fst) := by
  have covered : ((do Build.gap? (← Build.elaborateFor
      (.ofString "A number | B (C string | D ())") nestedChoices).1 : Build _).on
        {}).1.toOption = some none := by decide +kernel
  have accepted :
      ((Build.elaborateFor (.ofString "A number | B (C string | D ())") nestedChoices).on
        {}).1.toOption.isSome = true := by decide +kernel
  have plain : (Source.ofString "A number | B (C string | D ())").isPlain = true := by
    decide +kernel
  rcases exists_accepts accepted with
    ⟨type, root, unfolding, patterns, state, typed, unfolded, elaborated, accepts⟩
  rcases accepts.exists_gap? covered with ⟨searched, covers⟩
  rcases exists_showsPlain_of_isPlain plain accepts.parsed with ⟨tree, shows, written⟩
  have tidy := ((yields_parseType tidy_empty _).of_ok accepts.parsed).1.tidy
  have within : Scope.Within typed [] := fun _ member => (List.not_mem_nil member).elim
  have simple : ∀ choice ∈ nestedChoices, choice.pattern.IsSimple := by
    have isOne : Number.read? "1" = some ⟨0x3FF0000000000000⟩ := by decide +kernel
    simp [nestedChoices, Expr.IsSimple, isOne]
  exact ⟨type, root, unfolding, patterns, state, typed, unfolded, elaborated,
    accepts, tree, shows, tested_of_gap?_eq_none shows written tidy within
    accepts.unfolds accepts.isRoot
      (List.cons_ne_nil _ _) simple accepts.elaborates covers⟩

theorem gapLeft_nestedVariable :
    let tagged (tag : String) : Expr := .apply .first tag (.unit .first)
    let headed (tag : String) : Expr :=
      .binary .first .cons (tagged tag) (.symbol .first "_")
    let empty : Expr := .list .first .nil
    let patterns : List Expr :=
      [.apply .first "P" (headed "X"), .apply .first "P" empty,
        .apply .first "Q" (headed "Y"), .apply .first "Q" empty]
    ((Build.gapLeft "P 'a | Q 'a"
      [.apply .first "P" (tagged "X"), .apply .first "Q" (tagged "Y")]).on
      {}).1.toOption = some (some "P (Y ())") ∧
    ((Build.gapLeft "P 'a | Q 'a" patterns).on {}).1.toOption = some none ∧
    ∀ pattern ∈ patterns,
    ¬ pattern.Takes {} (.tagged "P" (.list (.cons (.tagged "Y" .null) .nil))) := by
  refine ⟨by decide +kernel, by decide +kernel, ?_⟩
  simp [Expr.Takes, Exprs.Takes]

end Casework
