import Casework.Proofs.TypeSafety

/-!
Compiled fixtures do not go wrong.

The environment of a fixture gives a type to each of its names. Compiling may narrow these
types, and may leave type variables in them. Take any values for the variables, and values
for the names that fit their types then. The compiled code runs to its end and leaves a
value that fits the type of the case, or it reports that nothing matches. It is never
wrong about the shape of a value.
-/

namespace Casework

/-! ## Machines stop in one way -/

theorem Machine.halt_unique {library : Library} {code : List Instruction}
    {start first second : Machine} {halt other : Halt}
    (firstReached : start.Reaches library code first)
    (firstHalted : first.step library code = .error halt)
    (secondReached : start.Reaches library code second)
    (secondHalted : second.step library code = .error other) : other = halt := by
  have unique : Relator.RightUnique fun before after : Machine =>
      before.step library code = .ok after := by
    intro before left right leftStep rightStep
    rw [leftStep] at rightStep
    exact Except.ok.inj rightStep
  have stays : ∀ {before after : Machine} {reason : Halt},
      before.step library code = .error reason →
      before.Reaches library code after → after = before := by
    intro before after reason halted reached
    rcases Relation.ReflTransGen.cases_head reached with equal | ⟨next, step, _⟩
    · exact equal.symm
    · rw [halted] at step
      cases step
  have same : second = first := by
    rcases Relation.ReflTransGen.total_of_right_unique unique firstReached
      secondReached with
      later | earlier
    · exact stays firstHalted later
    · exact (stays secondHalted earlier).symm
  rw [same, firstHalted] at secondHalted
  exact (Except.error.inj secondHalted).symm

theorem Code.exists_halt_of_typed {meaning : Meaning} {library : Library}
    {scope : Scope} (code : Code) {limit : Int} {slots : Slots}
    (typed : code.Typed meaning library 0 scope)
    (ready : Ready meaning [] limit scope slots) :
    let listing := ((code.emit []).run { slot := limit }).1
    ∃ last halt, Machine.Reaches library listing ⟨0, [], slots⟩ last ∧
      last.step library listing = .error halt ∧
      ((∃ result, last.stack = [result] ∧ halt = .finished ∧ meaning code.type result) ∨
        ∃ value below, halt = .unmatched value below) := by
  intro listing
  have unique : (definedLabels listing).Nodup :=
    (code.labels_emit [] { slot := limit }).nodup
  have placed : Placed listing 0 listing := List.prefix_refl _
  have described := Course.describes_through library unique placed [] slots
  have leaves := code.leaves_emit [] { slot := limit } [] slots typed ready
  cases course : (Course.running [] slots).through library listing with
  | running stack later =>
      rw [course] at described
      rw [show (Course.running [] slots).through library
        ((code.emit []).run { slot := limit }).1 = .running stack later from
        course] at leaves
      rcases leaves with ⟨_, rfl, ⟨result, rfl, has⟩, _⟩
      refine ⟨_, .finished, described, ?_, .inl ⟨result, rfl, rfl, has⟩⟩
      simp [Machine.step]
  | unmatched value below =>
      rw [course] at described
      rcases described with ⟨last, reached, halted⟩
      exact ⟨last, _, reached, halted, .inr ⟨value, below, rfl⟩⟩
  | seeking target stack later =>
      rw [show (Course.running [] slots).through library
        ((code.emit []).run { slot := limit }).1 = .seeking target stack later from
        course] at leaves
      exact leaves.elim
  | wrong =>
      rw [show (Course.running [] slots).through library
        ((code.emit []).run { slot := limit }).1 = .wrong from course] at leaves
      exact leaves.elim

/-! ## Installed environments -/

namespace Fixture

theorem of_on_installEnv {slot : Nat} {entries : List EnvEntry} {scope result : Scope}
    {graph later : TypeGraph}
    (done : (installEnv slot entries scope).on graph = (.ok result, later))
    (before : ∀ binding ∈ scope, ∃ number : Nat, binding.slot = .absolute number ∧
      number < slot) :
    ∀ binding ∈ result, ∃ number : Nat, binding.slot = .absolute number ∧
      number < slot + entries.length := by
  induction entries generalizing slot scope graph with
  | nil =>
      cases done
      exact before
  | cons entry rest induction =>
      rcases Build.of_on_bind done with ⟨type, middle, _, installed⟩
      rw [List.length_cons, Nat.add_comm rest.length 1, ← Nat.add_assoc]
      apply induction installed
      intro binding member
      rcases List.mem_cons.1 member with rfl | earlier
      · exact ⟨slot, rfl, Nat.lt_succ_self slot⟩
      · rcases before binding earlier with ⟨number, equal, small⟩
        exact ⟨number, equal, Nat.lt_succ_of_lt small⟩

theorem ensures_compileCase {setting : Setting} {scope : Scope} {expression : Expr}
    {claim : Meaning → Code → Prop}
    (ensures : (expression.compile setting 0 scope).Ensures claim) :
    (compileCase setting scope expression).Ensures fun meaning result =>
      claim meaning result.1 := by
  refine ensures.bind fun code => ?_
  refine (Build.narrows_look _).seq fun type => ?_
  have finished : ∀ sealed : List String,
      (pure (code, type, sortTexts sealed) : Build (Code × String × List String)).Ensures
        fun meaning result => claim meaning code → claim meaning result.1 :=
    fun _ => .pure fun _ holds => holds
  split
  · exact .seq (Build.narrows_mapM fun _ => Build.narrows_look _) finished
  · exact finished []

theorem holds_of_checkBuild {fixture : Fixture} {setting : Setting}
    {claim : Scope → Meaning → Code → Prop}
    (ensures : ∀ scope (expression : Expr),
      (expression.compile setting 0 scope).Ensures (claim scope))
    {scope : Scope} {code : Code} {type : String} {sealed : List String}
    {graph later : TypeGraph} (done : (fixture.checkBuild setting).on graph =
      (.ok (scope, code, type, sealed), later)) :
    (∀ binding ∈ scope, ∃ number : Nat, binding.slot = .absolute number ∧
      number < fixture.env.length) ∧
    ∀ meaning : Meaning, meaning.Models later → claim scope meaning code := by
  rcases Build.of_on_bind done with ⟨own, middle, installed, rest⟩
  have slots := of_on_installEnv installed nofun
  rw [Nat.zero_add] at slots
  split at rest
  next => cases rest
  next expression _ =>
      split at rest
      next place value choices _ =>
          rcases Build.of_on_bind rest with ⟨result, last, caught, returned⟩
          cases returned
          refine ⟨slots, fun meaning models => ?_⟩
          have ensured :=
            ensures_compileCase (ensures scope (.caseOf place value choices))
          exact (ensured.tryCatch (fun _ => .throw _) _ _ _ caught meaning models).2
      next => cases rest

theorem holds_of_check {fixture : Fixture} {checked : CheckedCase}
    {claim : Scope → Meaning → Code → Prop}
    (ensures : ∀ setting, fixture.setting = .ok setting → ∀ scope (expression : Expr),
      (expression.compile setting 0 scope).Ensures (claim scope))
    (accepted : fixture.check = .ok checked) :
    (∀ binding ∈ checked.scope, ∃ number : Nat, binding.slot = .absolute number ∧
      number < fixture.env.length) ∧
    ∀ meaning : Meaning, meaning.Models checked.graph →
      claim checked.scope meaning checked.code := by
  unfold check at accepted
  cases installed : fixture.setting with
  | error failure =>
      rw [installed] at accepted
      cases accepted
  | ok setting =>
      rw [installed] at accepted
      cases built : build (fixture.checkBuild setting) with
      | error failure =>
          simp only [bind, Except.bind, built] at accepted
          cases accepted
      | ok result =>
          rcases result with ⟨⟨scope, code, type, sealed⟩, graph⟩
          simp only [bind, Except.bind, built] at accepted
          have done : (fixture.checkBuild setting).on {} =
              (.ok (scope, code, type, sealed), graph) := by
            unfold build at built
            split at built
            next value later ran =>
                cases built
                exact ran
            next => cases built
          have holds := holds_of_checkBuild (ensures setting installed) done
          split at accepted
          next report value arms =>
              cases accepted
              exact holds
          next => cases accepted

theorem typed_of_check {library : Library} {fixture : Fixture} {checked : CheckedCase}
    (agrees : ∀ setting, fixture.setting = .ok setting → setting.Agrees library)
    (accepted : fixture.check = .ok checked) :
    (∀ binding ∈ checked.scope, ∃ number : Nat, binding.slot = .absolute number ∧
      number < fixture.env.length) ∧
    ∀ meaning : Meaning, meaning.Models checked.graph →
      checked.code.Typed meaning library 0 checked.scope :=
  holds_of_check (fun setting installed scope expression =>
    expression.ensures_compile (agrees setting installed) 0 scope) accepted

theorem of_compile {fixture : Fixture} {compiled : CompiledCase}
    (accepted : fixture.compile = .ok compiled) :
    fixture.check = .ok compiled.checked ∧
      compiled.listing.code =
        (compiled.checked.code.program fixture.env.length).code := by
  unfold compile at accepted
  cases checked : fixture.check with
  | error failure =>
      rw [checked] at accepted
      cases accepted
  | ok result =>
      rcases result.code.generate_eq fixture.env.length with ⟨listing, generated, written⟩
      simp only [checked, bind, Except.bind, generated] at accepted
      cases accepted
      exact ⟨rfl, written⟩

/-- Compiled code is safe. Let a fixture be accepted, and let fields of foreign classes
have values of their declared kinds. Choose what the type variables left in the graph
stand for, and keep in the slot of each name of the environment a value that fits its
type. Then no instruction is ever applied to a value of the wrong shape. The run ends
either with a single value that fits the type of the case, or in the call that reports
that nothing matches. -/
theorem safe_of_compile {fixture : Fixture} {compiled : CompiledCase}
    (accepted : fixture.compile = .ok compiled) {library : Library}
    (agrees : ∀ setting, fixture.setting = .ok setting → setting.Agrees library)
    {instantiation : Instantiation} {slots : Slots}
    (fits : ∀ binding ∈ compiled.checked.scope, ∃ value,
      slots (binding.slot.number []) = some value ∧
        compiled.checked.graph.Fits instantiation binding.type value) :
    (∀ machine, Machine.Reaches library compiled.listing.code ⟨0, [], slots⟩ machine →
      machine.step library compiled.listing.code ≠ .error .wrong) ∧
    ∃ last, Machine.Reaches library compiled.listing.code ⟨0, [], slots⟩ last ∧
      ((∃ result, last.step library compiled.listing.code = .error .finished ∧
          last.stack = [result] ∧
          compiled.checked.graph.Fits instantiation compiled.checked.report.type result) ∨
        ∃ value below,
          last.step library compiled.listing.code = .error (.unmatched value below)) := by
  rcases of_compile accepted with ⟨checked, written⟩
  rcases typed_of_check agrees checked with ⟨numbered, typed⟩
  have models := TypeGraph.models_fits compiled.checked.graph instantiation
  have ready : Ready (compiled.checked.graph.Fits instantiation) [] fixture.env.length
      compiled.checked.scope slots := by
    intro binding member
    rcases numbered binding member with ⟨number, slot, small⟩
    have value := fits binding member
    rw [slot] at value ⊢
    exact ⟨trivial, Int.ofNat_lt.2 small, value⟩
  rcases compiled.checked.code.exists_halt_of_typed (typed _ models) ready with
    ⟨last, halt, reached, halted, ended⟩
  rw [written]
  refine ⟨fun machine machineReached wrong => ?_, last, reached, ?_⟩
  · have same := Machine.halt_unique reached halted machineReached wrong
    rcases ended with ⟨_, _, finished, _⟩ | ⟨_, _, unmatched⟩
    · rw [finished] at same
      cases same
    · rw [unmatched] at same
      cases same
  · rcases ended with ⟨result, stack, rfl, has⟩ | ⟨value, below, rfl⟩
    · exact .inl ⟨result, halted, stack, has⟩
    · exact .inr ⟨value, below, halted⟩

def headPlusLow : Fixture where
  name := "head-plus-low"
  env := [⟨"xs", .ofString "list<number>"⟩]
  statics := [("Limits#low", ⟨"number", .number .zero, true⟩)]
  source := .ofString "case xs of []: Limits#low; first :: _: first + Limits#low esac"

def listsNumbers (graph : TypeGraph) (ref : Ref) : Bool :=
  match graph.root ref with
  | .ok ⟨.list element, _, _, _, _⟩ =>
      match graph.root element with
      | .ok node => node.form = .primitive .number
      | .error _ => false
  | _ => false

theorem fits_of_listsNumbers {graph : TypeGraph} {ref : Ref}
    (lists : listsNumbers graph ref = true) (instantiation : Instantiation)
    {value : Value} (list : value.IsListOf Primitive.number.Has) :
    graph.Fits instantiation ref value := by
  have models := graph.models_fits instantiation
  unfold listsNumbers at lists
  split at lists
  next element _ _ _ _ rooted =>
      split at lists
      next node itemRooted =>
          have items := (TypeGraph.of_root itemRooted).2 _ models
          rw [of_decide_eq_true lists] at items
          rcases list with ⟨values, found, each⟩
          refine ((TypeGraph.of_root rooted).2 _ models value).2 ⟨values, found, ?_⟩
          exact fun item member => (items item).2 (each item member)
      next => cases lists
  next => cases lists

theorem safe_headPlusLow : ∃ compiled : CompiledCase, headPlusLow.compile = .ok compiled ∧
    ∀ machine, Machine.Reaches .inert compiled.listing.code
      ⟨0, [], fun _ => some (.list (.cons (.number .zero) .nil))⟩ machine →
      machine.step .inert compiled.listing.code ≠ .error .wrong := by
  have evaluated : (headPlusLow.compile.toOption.map fun compiled =>
      compiled.checked.scope.all fun binding =>
        listsNumbers compiled.checked.graph binding.type) = some true := by decide +kernel
  cases accepted : headPlusLow.compile with
  | error failure =>
      rw [accepted] at evaluated
      cases evaluated
  | ok compiled =>
      rw [accepted] at evaluated
      have lists := List.all_eq_true.1 (Option.some.inj evaluated)
      have agrees : ∀ setting, headPlusLow.setting = .ok setting →
          setting.Agrees .inert := by
        intro setting installed owner field static found primitive kind
        cases installed
        rcases Option.map_eq_some_iff.1 found with ⟨entry, first, rfl⟩
        have member := List.mem_of_find?_eq_some first
        cases List.mem_singleton.1 member
        cases kind
        exact ⟨.zero, rfl⟩
      have fits : ∀ binding ∈ compiled.checked.scope, ∃ value,
          (fun _ => some (.list (.cons (.number .zero) .nil)) : Slots)
          (binding.slot.number []) =
            some value ∧
            compiled.checked.graph.Fits ⟨fun _ _ => False, fun _ _ _ => False⟩
              binding.type value := fun binding member =>
        ⟨_, rfl, fits_of_listsNumbers (lists binding member) _
          (Value.isListOf_cons.2 ⟨⟨.zero, rfl⟩, Value.isListOf_nil _⟩)⟩
      exact ⟨compiled, rfl, (safe_of_compile accepted agrees fits).1⟩

end Fixture

end Casework
