import Casework.Proofs.Balance
import Casework.Proofs.TypeParsing

/-!
Compilation is total.

Every fixture is compiled, or refused for a reason that can be reported: reading comes to
an end, types are never misused, and code can be written for whatever has been checked.
The same holds in an environment whose types contain themselves.
-/

namespace Casework

open TypeGraph Build

@[simp] theorem Failure.isPanic_inFile (failure : Failure) (file : String) :
    (failure.inFile file).isPanic = failure.isPanic := by
  cases failure with
  | compile error =>
      rw [inFile]
      split <;> rfl
  | _ => rfl

namespace Fixture

variable {graph : TypeGraph} {setting : Setting}

/-! ## Installing -/

theorem exists_primitive_of_kind? {text : String} {kind : Kind}
    (found : kind? text = some kind) :
    ∃ primitive, kind = .primitive primitive := by
  unfold kind? at found
  split at found
  all_goals cases found
  all_goals exact ⟨_, rfl⟩

theorem mapM_installStatic (entries : List (String × StaticEntry)) :
    match entries.mapM installStatic with
    | .ok statics => ∀ static ∈ statics, ∃ primitive, static.2.kind = .primitive primitive
    | .error failure => failure.isPanic = false := by
  induction entries with
  | nil => exact fun _ member => (nomatch member)
  | cons entry rest induction =>
      rw [List.mapM_cons, installStatic]
      cases found : kind? entry.2.kind with
      | none => rfl
      | some kind =>
          cases others : rest.mapM installStatic with
          | error failure =>
              rw [others] at induction
              exact induction
          | ok statics =>
              rw [others] at induction
              intro static member
              rcases List.mem_cons.1 member with rfl | inOthers
              · exact exists_primitive_of_kind? found
              · exact induction static inOthers

theorem setting_primitive (fixture : Fixture) :
    match fixture.setting with
    | .ok setting => setting.Primitive
    | .error failure => failure.isPanic = false := by
  have installed := mapM_installStatic fixture.statics
  unfold setting
  cases ran : fixture.statics.mapM installStatic with
  | error failure =>
      rw [ran] at installed
      exact installed
  | ok statics =>
      rw [ran] at installed
      intro name static found
      rcases Option.map_eq_some_iff.1 found with ⟨entry, isEntry, rfl⟩
      exact installed entry (List.mem_reverse.1 (List.mem_of_find?_eq_some isEntry))

theorem yields_installEnv (tidy : graph.Tidy) (slot : Nat)
    (entries : List EnvEntry) {scope : Scope} (within : scope.Within graph) :
    (installEnv slot entries scope).Yields graph
      (fun scope later => graph.Becomes later ∧ scope.Within later) (Reported True) := by
  induction entries generalizing slot scope graph with
  | nil => exact yields_pure ⟨tidy.becomes, within⟩
  | cons entry rest induction =>
      have parsed : (tryCatch (Build.parseType entry.type) fun failure =>
          throw (.within ("env " ++ entry.name) failure) : Build Ref).Yields
            graph (Makes graph)
          (Reported True) :=
        (yields_parseType tidy _).tryCatch fun _ _ reported => yields_throw reported
      apply parsed.bind
      rintro type middle ⟨becomes, has⟩
      have extended : Scope.Within middle
          (⟨entry.name, .absolute slot, type⟩ :: scope) := by
        intro binding member
        rcases List.mem_cons.1 member with rfl | old
        · exact has
        · exact becomes.has (within binding old)
      apply (induction becomes.tidy (slot + 1) extended).imp
      rintro last later ⟨further, lastWithin⟩
      exact ⟨becomes.trans further, lastWithin⟩

/-! ## Checking -/

theorem yields_compileCase (tidy : graph.Tidy) (setting : Setting) {scope : Scope}
    (within : scope.Within graph) (place : Position) (value : Expr) (choices : Choices) :
    (compileCase setting scope (.caseOf place value choices)).Yields graph
      (fun _ _ => True)
      (Reported setting.Primitive) := by
  apply (yields_caseOf setting 0 within place
    (value.yields_compile setting 0 scope graph tidy within)
    (choices.yields_compile setting 0)).bind
  rintro code later ⟨⟨becomes, has⟩, sealedHave⟩
  apply (yields_text_tidy becomes.tidy has).bind
  rintro type _ rfl
  dsimp only
  split
  next report own arms =>
      have shown : (report.sealed.mapM text).Yields later (fun texts last =>
          (∀ text ∈ texts, True) ∧ later = last) (Reported setting.Primitive) := by
        apply yields_mapM (fun middle => later = middle) rfl
        rintro ref member _ rfl
        exact (yields_text_tidy becomes.tidy
          (sealedHave report own arms rfl ref member)).imp
          fun _ _ same => ⟨trivial, same⟩
      exact shown.bind fun _ _ _ => yields_pure trivial
  next => exact yields_pure trivial

theorem yields_checkBuild (fixture : Fixture) (primitive : setting.Primitive) :
    (fixture.checkBuild setting).Yields {} (fun _ _ => True) (Reported True) := by
  have empty : Scope.Within {} [] := fun _ member => (nomatch member)
  apply (yields_installEnv tidy_empty 0 fixture.env empty).bind
  rintro scope graph ⟨becomes, within⟩
  have parsed := Expr.ends_parse fixture.source
  dsimp only
  split
  next error ran =>
      rw [ran] at parsed
      exact yields_throw fun _ => parsed
  next expression =>
      split
      next place value choices =>
          have compiled : (tryCatch
              (compileCase setting scope (.caseOf place value choices)) fun failure =>
              throw (failure.inFile fixture.path)).Yields graph (fun _ _ => True)
                (Reported True) := by
            apply (yields_compileCase becomes.tidy setting within place value
              choices).tryCatch
            intro failure later reported
            refine yields_throw fun _ => ?_
            rw [Failure.isPanic_inFile]
            exact reported primitive
          exact compiled.bind fun _ _ _ => yields_pure trivial
      next => exact yields_throw fun _ => rfl

theorem check_reported (fixture : Fixture) {failure : Failure}
    (refused : fixture.check = .error failure) :
    failure.isPanic = false := by
  have declared := fixture.setting_primitive
  unfold check at refused
  cases installed : fixture.setting with
  | error problem =>
      rw [installed] at declared refused
      cases refused
      exact declared
  | ok setting =>
      rw [installed] at declared refused
      have built := fixture.yields_checkBuild declared
      rcases ran : (fixture.checkBuild setting).on {} with
        ⟨problem | ⟨scope, code, type, sealed⟩, graph⟩
      · simp only [build, ran, Bind.bind, Except.bind] at refused
        cases refused
        exact built.of_error ran trivial
      · simp only [build, ran, Bind.bind, Except.bind] at refused
        split at refused
        · cases refused
        · cases refused
          rfl

end Fixture

/-- Every fixture is compiled or refused for a reason that can be reported, which is found
before any code is written. So is every expression in a tidy graph, whether or not its
types contain themselves. -/
theorem Fixture.compile_total :
    (∀ fixture : Fixture, (∃ compiled, fixture.compile = .ok compiled) ∨
      ∃ failure, fixture.check = .error failure ∧ fixture.compile = .error failure ∧
        failure.isPanic = false) ∧
    ∀ (graph : TypeGraph) (setting : Setting) (scope : Scope), graph.Tidy →
      setting.Primitive →
      scope.Within graph → ∀ (expression : Expr) (level : Nat) (slots : Int),
        (∃ code later listing, (expression.compile setting level scope).on graph =
          (.ok code, later) ∧
          later.Tidy ∧ code.generate slots = .ok listing) ∨
        ∃ failure later, (expression.compile setting level scope).on graph =
          (.error failure, later) ∧
          failure.isPanic = false := by
  constructor
  · intro fixture
    cases checked : fixture.check with
    | error failure =>
        refine .inr ⟨failure, rfl, ?_, fixture.check_reported checked⟩
        simp only [Fixture.compile, checked, Bind.bind, Except.bind]
    | ok checkedCase =>
        obtain ⟨listing, generated, _⟩ := checkedCase.code.generate_eq fixture.env.length
        refine .inl
          ⟨⟨checkedCase, listing, checkedCase.value.slotBase fixture.env.length⟩, ?_⟩
        simp only [Fixture.compile, checked, Bind.bind, Except.bind, generated]
        rfl
  · intro graph setting scope tidy primitive within expression level slots
    have compiles := expression.yields_compile setting level scope graph tidy within
    rcases ran : (expression.compile setting level scope).on graph with
      ⟨failure | code, later⟩
    · exact .inr ⟨failure, later, rfl, compiles.of_error ran primitive⟩
    · obtain ⟨listing, generated, _⟩ := code.generate_eq slots
      exact .inl ⟨code, later, listing, rfl, (compiles.of_ok ran).1.tidy, generated⟩

theorem Fixture.compile_total_endlessLists :
    let scope : Scope := [⟨"r", .absolute 0, ⟨2⟩⟩]
    let place : Position := .first
    let split : Expr := .binary place .cons (.symbol place "head") (.symbol place "tail")
    let inner : Expr := .caseOf place (.symbol place "tail")
      (.cons place (.list place .nil) (.symbol place "head")
        (.cons place split (.symbol place "tail") .nil))
    let outer : Expr := .caseOf place (.symbol place "r")
      (.cons place split inner (.cons place (.symbol place "_") (.symbol place "r") .nil))
    endlessLists.Tidy ∧ Setting.Primitive {} ∧ scope.Within endlessLists ∧
      ∃ code later listing, (outer.compile {} 0 scope).on endlessLists =
      (.ok code, later) ∧ later.Tidy ∧
        code.generate 1 = .ok listing := by
  intro scope place split inner outer
  have tidy := reachable_endlessLists.tidy
  have primitive : Setting.Primitive {} := fun _ _ found => (nomatch found)
  have within : scope.Within endlessLists := by
    intro binding member
    rw [List.mem_singleton.1 member]
    decide
  have isAccepted : ((outer.compile {} 0 scope).on endlessLists).1.isOk = true := by
    decide +kernel
  rcases compile_total.2 endlessLists {} scope tidy primitive within outer 0 1 with
    accepted | ⟨failure, later, refused, _⟩
  · exact ⟨tidy, primitive, within, accepted⟩
  · rw [refused] at isAccepted
    cases isAccepted

end Casework
