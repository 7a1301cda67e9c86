import Casework.Proofs.Matching
import Casework.Proofs.Unification
import Casework.Typing.Pattern

/-!
Checked patterns have the type they were checked against.

A pattern is checked against the type of a value. Afterwards, in every model of the graph,
each value of that type has the shape that the pattern takes it for, and the names of the
pattern are bound to values of their types. Checking also counts slots: the names of a
pattern take slots one after the other, in the order in which the pattern binds them.
-/

namespace Casework

/-! ## What checking ensures -/

namespace Elaborate

variable {α β : Type}

/-! ### Runs -/

section Runs

variable {state after : Elaboration} {graph later : TypeGraph}

theorem of_run_bind {act : Elaborate α} {next : α → Elaborate β} {value : β}
    (done : ((act >>= next).run state).on graph = (.ok (value, after), later)) :
    ∃ given between middle, (act.run state).on graph = (.ok (given, between), middle) ∧
      ((next given).run between).on middle = (.ok (value, after), later) := by
  rw [StateT.run_bind] at done
  rcases Build.of_on_bind done with ⟨result, middle, ran, rest⟩
  exact ⟨result.1, result.2, middle, ran, rest⟩

theorem of_run_lift {build : Build α} {value : α}
    (done : ((liftM build : Elaborate α).run state).on graph =
      (.ok (value, after), later)) :
    build.on graph = (.ok value, later) ∧ after = state := by
  rcases Build.of_on_bind done with ⟨given, middle, ran, returned⟩
  cases returned
  exact ⟨ran, rfl⟩

end Runs

/-- A claim about the state before and after, and about the models of the graph that is
left. -/
abbrev Claim (α : Type) := Elaboration → Meaning → α → Elaboration → Prop

def Ensures (act : Elaborate α) (claim : Claim α) : Prop :=
  ∀ state, (act.run state).Ensures fun meaning result =>
    claim state meaning result.1 result.2

namespace Ensures

variable {act : Elaborate α} {claim other : Claim α} {last : Claim β}

theorem mono (ensures : act.Ensures claim)
    (implies : ∀ before meaning value after, claim before meaning value after →
      other before meaning value after) : act.Ensures other :=
  fun state => (ensures state).mono fun meaning result =>
    implies state meaning result.1 result.2

theorem bind {next : α → Elaborate β} (first : act.Ensures claim)
    (second : ∀ value, (next value).Ensures fun middle meaning result after =>
      ∀ before, claim before meaning value middle → last before meaning result after) :
    (act >>= next).Ensures last := by
  intro state
  rw [StateT.run_bind]
  refine (first state).bind fun result => (second result.1 result.2).mono ?_
  exact fun meaning later holds claimed => holds state claimed

theorem pure {value : α} (holds : ∀ state meaning, claim state meaning value state) :
    (Pure.pure value : Elaborate α).Ensures claim :=
  fun state => Build.Ensures.pure fun meaning => holds state meaning

theorem lift {build : Build α} {claim : Meaning → α → Prop}
    (ensures : build.Ensures claim) :
    (liftM build : Elaborate α).Ensures fun before meaning value after =>
      after = before ∧ claim meaning value := by
  intro state
  refine ensures.bind fun value => Build.Ensures.pure fun meaning claimed => ?_
  exact ⟨rfl, claimed⟩

end Ensures

theorem ensures_get :
    (get : Elaborate Elaboration).Ensures fun before _ value after =>
      after = before ∧ value = before :=
  fun _ => Build.Ensures.pure fun _ => ⟨rfl, rfl⟩

theorem ensures_modify (change : Elaboration → Elaboration) :
    (modify change : Elaborate Unit).Ensures fun before _ _ after =>
      after = change before :=
  fun _ => Build.Ensures.pure fun _ => rfl

end Elaborate

/-! ## Names -/

namespace Elaboration

/-- Names are bound one after the other to the slots that come next. -/
structure Binds (level : Nat) (before after : Elaboration) (bindings : List Binding) :
    Prop where
  scope : after.scope = bindings.reverse ++ before.scope
  slots : bindings.map (·.slot) =
    (List.range' before.nextSlot bindings.length).map (.inCase level)
  nextSlot : after.nextSlot = before.nextSlot + bindings.length
  slotCount : before.slotCount ≤ after.slotCount
  room : before.nextSlot ≤ before.slotCount → after.nextSlot ≤ after.slotCount
  most : after.slotCount ≤ max before.slotCount after.nextSlot

theorem Binds.append {level : Nat} {before middle after : Elaboration}
    {first second : List Binding} (left : Binds level before middle first)
    (right : Binds level middle after second) :
    Binds level before after (first ++ second) where
  scope := by rw [right.scope, left.scope, List.reverse_append, List.append_assoc]
  slots := by
    rw [List.map_append, left.slots, right.slots, left.nextSlot, List.length_append,
      ← List.map_append, List.range'_append_1]
  nextSlot := by
    rw [right.nextSlot, left.nextSlot, List.length_append]
    omega
  slotCount := Nat.le_trans left.slotCount right.slotCount
  room enough := right.room (left.room enough)
  most := by
    have earlier := left.most
    have later := right.most
    have counted := right.nextSlot
    omega

theorem Binds.nil {level : Nat} {before after : Elaboration}
    (scope : after.scope = before.scope) (nextSlot : after.nextSlot = before.nextSlot)
    (slotCount : after.slotCount = before.slotCount) :
    before.Binds level after [] where
  scope := scope
  slots := rfl
  nextSlot := nextSlot
  slotCount := Nat.le_of_eq slotCount.symm
  room enough := by
    rw [nextSlot, slotCount]
    exact enough
  most := by
    rw [slotCount]
    exact Nat.le_max_left _ _

end Elaboration

namespace Elaborate

variable {α β : Type} {level : Nat}

/-- Checking binds some names and makes a claim about them. -/
def Checks (level : Nat) (act : Elaborate α) (claim : Meaning → α → List Binding → Prop) :
    Prop :=
  act.Ensures fun before meaning value after =>
    ∃ bindings, before.Binds level after bindings ∧ claim meaning value bindings

abbrev Quiet (level : Nat) (act : Elaborate α) (claim : Meaning → α → Prop) : Prop :=
  Checks level act fun meaning value bindings => bindings = [] ∧ claim meaning value

namespace Checks

variable {act : Elaborate α} {next : α → Elaborate β}
  {last : Meaning → β → List Binding → Prop}

theorem mono {claim other : Meaning → α → List Binding → Prop}
    (checks : Checks level act claim)
    (implies : ∀ meaning value bindings, claim meaning value bindings →
      other meaning value bindings) : Checks level act other := by
  refine Ensures.mono checks fun before meaning value after holds => ?_
  rcases holds with ⟨bindings, binds, claimed⟩
  exact ⟨bindings, binds, implies meaning value bindings claimed⟩

theorem bind {claim : Meaning → α → List Binding → Prop} (first : Checks level act claim)
    (second : ∀ value, Checks level (next value) fun meaning result others =>
      ∀ bindings, claim meaning value bindings → last meaning result
        (bindings ++ others)) :
    Checks level (act >>= next) last := by
  refine Ensures.bind first fun value => Ensures.mono (second value) ?_
  rintro middle meaning result after ⟨others, later, holds⟩ before
    ⟨bindings, earlier, claimed⟩
  exact ⟨bindings ++ others, earlier.append later, holds bindings claimed⟩

theorem pure {claim : Meaning → α → List Binding → Prop} {value : α}
    (holds : ∀ meaning, claim meaning value []) :
    Checks level (Pure.pure value : Elaborate α) claim :=
  Ensures.pure fun _ meaning => ⟨[], .nil rfl rfl rfl, holds meaning⟩

end Checks

theorem Quiet.bind {act : Elaborate α} {next : α → Elaborate β}
    {claim : Meaning → α → Prop} {last : Meaning → β → List Binding → Prop}
    (first : Quiet level act claim)
    (second : ∀ value, Checks level (next value) fun meaning result bindings =>
      claim meaning value → last meaning result bindings) :
    Checks level (act >>= next) last := by
  refine Checks.bind first fun value => (second value).mono ?_
  rintro meaning result others holds bindings ⟨rfl, claimed⟩
  exact holds claimed

theorem quiet_lift {build : Build α} {claim : Meaning → α → Prop}
    (ensures : build.Ensures claim) :
    Quiet level (liftM build : Elaborate α) claim := by
  refine (Ensures.lift ensures).mono fun before meaning value after holds => ?_
  rw [holds.1]
  exact ⟨[], .nil rfl rfl rfl, rfl, holds.2⟩

theorem Checks.lift {build : Build α} {next : α → Elaborate β}
    {claim : Meaning → α → Prop} {last : Meaning → β → List Binding → Prop}
    (ensures : build.Ensures claim)
    (second : ∀ value, Checks level (next value) fun meaning result bindings =>
      claim meaning value → last meaning result bindings) :
    Checks level (liftM build >>= next) last :=
  Quiet.bind (quiet_lift ensures) second

end Elaborate

/-! ## Patterns of a type -/

/-- Values have the shape that a pattern takes them for, and its names are bound to values
of their types. -/
structure Pattern.Typed (meaning : Meaning) (values : Value → Prop) (pattern : Pattern) :
    Prop where
  suits : ∀ value, values value → pattern.Suits value
  parts : ∀ value bound, values value → pattern.match? value = some bound →
    ∀ part ∈ bound, meaning part.1.type part.2

structure Patterns.Typed (meaning : Meaning) (values : Value → Prop) (items : Patterns) :
    Prop where
  suits : ∀ list : Values, (∀ item ∈ list.toList, values item) → items.Suits list
  parts : ∀ (list : Values) bound, (∀ item ∈ list.toList, values item) →
    items.match? list = some bound → ∀ part ∈ bound, meaning part.1.type part.2

structure PatternFields.Typed (meaning : Meaning) (values : Value → Prop)
    (fields : PatternFields) : Prop where
  suits : ∀ members, values (.struct members) → fields.Suits members
  parts : ∀ members bound, values (.struct members) → fields.match? members = some bound →
    ∀ part ∈ bound, meaning part.1.type part.2

section Typed

variable {meaning : Meaning} {values : Value → Prop}

theorem Pattern.typed_wildcard : Pattern.wildcard.Typed meaning values where
  suits _ _ := trivial
  parts _ _ _ found part member := by
    cases found
    cases member

theorem Pattern.typed_bind {binding : Binding} (type : meaning binding.type = values) :
    (Pattern.bind binding).Typed meaning values where
  suits _ _ := trivial
  parts value bound has found part member := by
    cases found
    rw [List.mem_singleton.1 member, type]
    exact has

theorem Pattern.typed_literal {constant : Constant} {type : Ref} :
    (Pattern.literal constant type).Typed meaning values where
  suits _ _ := trivial
  parts value bound _ found part member := by
    rw [Pattern.match?] at found
    split at found
    · cases found
      cases member
    · cases found

theorem Pattern.typed_emptyList (lists : ∀ value, values value → value.items?.isSome) :
    Pattern.emptyList.Typed meaning values where
  suits := lists
  parts value bound _ found part member := by
    rw [Pattern.match?] at found
    split at found
    · cases found
      cases member
    · cases found

theorem Pattern.typed_cons {items : Value → Prop} {head tail : Pattern}
    (lists : ∀ value, values value ↔ value.IsListOf items)
    (headTyped : head.Typed meaning items) (tailTyped : tail.Typed meaning values) :
    (Pattern.cons head tail).Typed meaning values where
  suits value has := by
    rcases (lists value).1 has with ⟨list, found, each⟩
    rw [Pattern.Suits, found]
    cases list with
    | nil => trivial
    | cons first rest =>
        have both := Value.isListOf_cons.1 ⟨_, rfl, each⟩
        exact ⟨headTyped.suits first both.1, tailTyped.suits _ ((lists _).2 both.2)⟩
  parts value bound has matched part member := by
    rcases (lists value).1 has with ⟨list, found, each⟩
    rw [Pattern.match?, found] at matched
    cases list with
    | nil => cases matched
    | cons first rest =>
        have both := Value.isListOf_cons.1 ⟨_, rfl, each⟩
        simp only [Option.bind_eq_bind, Option.bind_eq_some_iff, Option.pure_def,
          Option.some.injEq] at matched
        rcases matched with ⟨headBound, headFound, tailBound, tailFound, rfl⟩
        rcases List.mem_append.1 member with inHead | inTail
        · exact headTyped.parts first headBound both.1 headFound part inHead
        · exact tailTyped.parts _ tailBound ((lists _).2 both.2) tailFound part inTail

theorem Pattern.typed_fixedList {element : Value → Prop} {items : Patterns}
    (lists : ∀ value, values value ↔ value.IsListOf element)
    (typed : items.Typed meaning element) :
    (Pattern.fixedList items).Typed meaning values where
  suits value has := by
    rcases (lists value).1 has with ⟨list, found, each⟩
    rw [Pattern.Suits, found]
    exact typed.suits list each
  parts value bound has matched part member := by
    rcases (lists value).1 has with ⟨list, found, each⟩
    rw [Pattern.match?, found] at matched
    exact typed.parts list bound each matched part member

theorem Pattern.typed_record {fields : PatternFields}
    (structs : ∀ value, values value → ∃ members, value = .struct members)
    (typed : fields.Typed meaning values) :
    (Pattern.record fields).Typed meaning values where
  suits value has := by
    rcases structs value has with ⟨members, rfl⟩
    exact typed.suits members has
  parts value bound has matched part member := by
    rcases structs value has with ⟨members, rfl⟩
    exact typed.parts members bound has matched part member

theorem Pattern.typed_variant {inner : Value → Prop} {tag : String} {payload : Pattern}
    (tagged : ∀ value, values value → ∃ tag payload, value = .tagged tag payload)
    (has : ∀ value, values (.tagged tag value) → inner value)
    (typed : payload.Typed meaning inner) :
    (Pattern.variant tag payload).Typed meaning values where
  suits value hasValue := by
    rcases tagged value hasValue with ⟨own, payload, rfl⟩
    rintro rfl
    exact typed.suits payload (has payload hasValue)
  parts value bound hasValue matched part member := by
    rcases tagged value hasValue with ⟨own, payload, rfl⟩
    rw [Pattern.match?] at matched
    split at matched
    next equal =>
        subst equal
        exact typed.parts payload bound (has payload hasValue) matched part member
    next => cases matched

theorem Patterns.typed_nil : Patterns.nil.Typed meaning values where
  suits _ _ := trivial
  parts list bound _ matched part member := by
    cases list with
    | nil =>
        cases matched
        cases member
    | cons first rest => cases matched

theorem Patterns.typed_cons {head : Pattern} {tail : Patterns}
    (headTyped : head.Typed meaning values) (tailTyped : tail.Typed meaning values) :
    (Patterns.cons head tail).Typed meaning values where
  suits list each := by
    cases list with
    | nil => trivial
    | cons first rest =>
        exact ⟨headTyped.suits first (each first List.mem_cons_self),
          tailTyped.suits rest fun item member =>
          each item (List.mem_cons_of_mem _ member)⟩
  parts list bound each matched part member := by
    cases list with
    | nil => cases matched
    | cons first rest =>
        simp only [Patterns.match?, Option.bind_eq_bind, Option.bind_eq_some_iff,
          Option.pure_def, Option.some.injEq] at matched
        rcases matched with ⟨headBound, headFound, tailBound, tailFound, rfl⟩
        rcases List.mem_append.1 member with inHead | inTail
        · exact headTyped.parts first headBound (each first List.mem_cons_self)
            headFound part inHead
        · exact tailTyped.parts rest tailBound
            (fun item member => each item (List.mem_cons_of_mem _ member))
            tailFound part inTail

theorem PatternFields.typed_nil : PatternFields.nil.Typed meaning values where
  suits _ _ := trivial
  parts members bound _ matched part member := by
    cases matched
    cases member

theorem PatternFields.typed_cons {inner : Value → Prop} {name : String}
    {pattern : Pattern} {tail : PatternFields}
    (field : ∀ members, values (.struct members) → ∃ part, members.get? name =
      some part ∧ inner part)
    (typed : pattern.Typed meaning inner) (tailTyped : tail.Typed meaning values) :
    (PatternFields.cons name pattern tail).Typed meaning values where
  suits members has := by
    rcases field members has with ⟨part, found, holds⟩
    exact ⟨⟨part, found, typed.suits part holds⟩, tailTyped.suits members has⟩
  parts members bound has matched part member := by
    rcases field members has with ⟨own, found, holds⟩
    simp only [PatternFields.match?, Option.bind_eq_bind, Option.bind_eq_some_iff,
      Option.pure_def, Option.some.injEq] at matched
    rcases matched with
      ⟨value, valueFound, headBound, headFound, tailBound, tailFound, rfl⟩
    rw [found] at valueFound
    cases valueFound
    rcases List.mem_append.1 member with inHead | inTail
    · exact typed.parts own headBound holds headFound part inHead
    · exact tailTyped.parts members tailBound has tailFound part inTail

end Typed

/-! ## Patterns without parts -/

namespace Build

variable {α : Type}

theorem ensures_reject {claim : Meaning → α → Prop} (place : Position)
    (cause : CompileCause) :
    (reject place cause : Build α).Ensures claim :=
  .throw _

theorem ensures_reject_bind {β : Type} {claim : Meaning → β → Prop} (place : Position)
    (cause : CompileCause) (next : α → Build β) :
    ((reject place cause : Build α) >>= next).Ensures claim := by
  intro graph value later done
  cases done

theorem ensures_unifyOr (left right : Ref) {report : Mismatch → Build Unit}
    (reports : ∀ mismatch, (report mismatch).Ensures fun _ _ => False) :
    (unifyOr left right report).Ensures fun meaning _ => meaning left =
      meaning right := by
  refine (ensures_unify left right).tryCatch fun failure => ?_
  cases failure with
  | mismatch mismatch => exact reports mismatch
  | _ => exact .throw _

theorem ensures_unifyAt (place : Position) (left right : Ref) :
    (unifyAt place left right).Ensures fun meaning _ => meaning left = meaning right :=
  ensures_unifyOr left right fun _ => ensures_reject _ _

end Build

namespace Elaborate

open Build

variable {level : Nat}

/-- What checking a pattern claims of the pattern and the names it binds. -/
def Fit (type : Ref) (meaning : Meaning) (pattern : Pattern) (bindings : List Binding) :
    Prop :=
  bindings = pattern.bindings ∧ pattern.Typed meaning (meaning type)

/-- Nothing is left to be checked after a pattern has been refused. -/
theorem checks_reject {α β : Type} {claim : Meaning → β → List Binding → Prop}
    (place : Position) (cause : CompileCause) (next : α → Elaborate β) :
    Checks level (liftM (reject place cause : Build α) >>= next) claim := by
  intro state graph result later done
  cases done

theorem checks_rejected {β : Type} {claim : Meaning → β → List Binding → Prop}
    (place : Position) (cause : CompileCause) :
    Checks level (liftM (reject place cause : Build β)) claim := by
  intro state graph result later done
  cases done

theorem checks_bindName (name : String) (type : Ref) :
    Checks level (bindName level name type) fun _ binding bindings =>
      bindings = [binding] ∧ binding.type = type := by
  intro state
  refine Build.Ensures.pure fun meaning => ⟨_, ?_, rfl, rfl⟩
  exact {
    scope := rfl
    slots := rfl
    nextSlot := rfl
    slotCount := Nat.le_max_left _ _
    room := fun _ => Nat.le_max_right _ _
    most := Nat.le_refl _ }

theorem narrows_coverAll (type : Ref) : (coverAll type).Narrows := by
  refine (narrows_remark _ _).seq fun _ => (narrows_look _).seq fun root => ?_
  refine (narrows_kind root).seq fun kind => ?_
  split
  · exact narrows_remark _ _
  · exact .pure fun _ => trivial

theorem checks_symbol (name : String) (type : Ref) :
    Checks level (symbol level name type) (Fit type) := by
  refine .lift (narrows_coverAll type) fun _ => ?_
  split
  · exact .pure fun _ _ => ⟨rfl, Pattern.typed_wildcard⟩
  · refine (checks_bindName name type).bind fun binding => .pure ?_
    rintro meaning _ ⟨rfl, rfl⟩ _
    exact ⟨rfl, Pattern.typed_bind rfl⟩

def Plain (type : Ref) (meaning : Meaning) (pattern : Pattern) : Prop :=
  pattern.bindings = [] ∧ pattern.Typed meaning (meaning type)

theorem ensures_unit (place : Position) (type : Ref) :
    (unit place type).Ensures (Plain type) := by
  refine (ensures_newPrimitive _).narrows.seq fun _ => ?_
  refine (ensures_unifyAt _ _ _).narrows.seq fun _ => (narrows_remark _ _).seq fun _ => ?_
  exact .pure fun _ => ⟨rfl, Pattern.typed_wildcard⟩

theorem narrows_newOfKind (kind : Kind) : (newOfKind kind).Narrows := by
  cases kind with
  | primitive own => exact (ensures_newPrimitive own).narrows
  | _ => exact .throw _

theorem ensures_literal (pattern : Expr) (code : Code) (type : Ref) :
    (literal pattern code type).Ensures (Plain type) := by
  cases code with
  | constant value constantType =>
      refine (narrows_kind _).seq fun kind => (narrows_look _).seq fun root => ?_
      refine (narrows_kind _).seq fun rootKind => ?_
      have finished : ∀ covered : Ref, (do
          remark covered fun marks => { marks with partly := true }
          return Pattern.literal value constantType : Build Pattern).Ensures
            (Plain type) := by
        intro covered
        refine (narrows_remark _ _).seq fun _ => ?_
        exact .pure fun _ => ⟨rfl, Pattern.typed_literal⟩
      dsimp only
      split
      · refine (narrows_newOfKind kind).seq fun primitive => ?_
        exact (ensures_bind root primitive).narrows.seq fun _ => finished primitive
      · split
        · exact finished root
        · refine (narrows_look _).seq fun _ => (narrows_look _).seq fun _ => ?_
          exact .seq (ensures_reject _ _) finished
  | _ => exact ensures_reject _ _

theorem ensures_emptyList (place : Position) (type : Ref) :
    (emptyList place type).Ensures (Plain type) := by
  refine ensures_newVar.narrows.seq fun element =>
    (ensures_newList element).bind fun list => ?_
  refine (ensures_unifyAt place type list).bind fun _ =>
    (narrows_noteForms _ _).seq fun _ => ?_
  refine .pure fun meaning same lists =>
    ⟨rfl, Pattern.typed_emptyList fun value has => ?_⟩
  rw [same, lists] at has
  rcases has with ⟨items, found, _⟩
  rw [found]
  rfl

/-! ## Variants -/

theorem ensures_variantRoot (place : Position) (tag : String) (type : Ref) :
    (variantRoot place tag type).Ensures fun meaning variant =>
      meaning type = meaning variant ∧
        ∀ value, meaning variant value → ∃ tag payload, value = .tagged tag payload := by
  refine (ensures_deref type).bind fun root => (ensures_kind root).bind fun kind => ?_
  split
  · refine (ensures_allocate _).bind fun variant =>
      (ensures_bind root variant).bind fun _ => ?_
    refine .pure fun meaning bound allocated _ same => ?_
    refine ⟨same.trans (bound allocated.1), fun value has => ?_⟩
    rcases allocated.2.1 value has with ⟨tag, payload, equal, _⟩
    exact ⟨tag, payload, equal⟩
  · exact .pure fun meaning tagged same => ⟨same, tagged rfl⟩
  · exact (narrows_look _).seq fun _ => ensures_reject _ _

theorem of_on_payloadType {variant type : Ref} {tag : String} {graph later : TypeGraph}
    {node : Node} (done : (payloadType variant tag).on graph = (.ok type, later))
    (rooted : graph.root variant = .ok node)
    (allowed : ∀ row ∈ node.form.bound?, row.contains tag) {meaning : Meaning}
    (models : meaning.Models later) :
    meaning.Models graph ∧
      ∀ payload, meaning variant (.tagged tag payload) → meaning type payload := by
  rcases of_on_bind done with ⟨type?, start, looked, afterMember⟩
  rcases of_on_member? looked with ⟨own, ownRooted, equal, rfl⟩
  rw [rooted] at ownRooted
  cases ownRooted
  cases type? with
  | some own =>
      cases afterMember
      refine ⟨models, fun payload has => ?_⟩
      exact ((TypeGraph.of_root rooted).2 meaning models).payload equal.symm has
  | none =>
      rcases of_on_bind afterMember with ⟨bound, middle, read, afterBound⟩
      rcases of_on_bind read with ⟨own, same, ownLooked, returned⟩
      rcases of_on_look ownLooked with ⟨_, rfl⟩
      cases returned
      dsimp only at afterBound
      split at afterBound
      · rcases of_on_bind afterBound with ⟨_, _, chosen, afterChosen⟩
        cases chosen
        rcases of_on_bind afterChosen with ⟨_, _, put, returned⟩
        cases returned
        exact of_on_putMember put rooted equal.symm allowed models
      · rcases of_on_bind afterBound with ⟨fresh, allocated, added, afterFresh⟩
        cases added
        rcases of_on_bind afterFresh with ⟨_, _, put, returned⟩
        cases returned
        have parts := of_on_putMember put (TypeGraph.root_allocate rooted _)
          equal.symm allowed models
        exact ⟨(middle.grows_allocate _).models parts.1, parts.2⟩

theorem quiet_get : Quiet level (get : Elaborate Elaboration) fun _ _ => True := by
  refine ensures_get.mono ?_
  rintro before meaning value after ⟨rfl, _⟩
  exact ⟨[], .nil rfl rfl rfl, rfl, trivial⟩

theorem quiet_modify {change : Elaboration → Elaboration}
    (same : ∀ state, (change state).scope = state.scope ∧ (change state).nextSlot =
      state.nextSlot ∧
      (change state).slotCount = state.slotCount) :
    Quiet level (modify change : Elaborate Unit) fun _ _ => True := by
  refine (ensures_modify change).mono ?_
  rintro before meaning _ after rfl
  exact ⟨[], .nil (same before).1 (same before).2.1 (same before).2.2, rfl, trivial⟩

theorem of_run_touch (level : Nat) {inside : Bool} {variant : Ref}
    {state after : Elaboration} {value : Unit} {graph later : TypeGraph}
    (done : ((touch inside variant).run state).on graph = (.ok (value, after), later)) :
    state.Binds level after [] ∧ (later = graph ∨ ∃ change : Marks → Marks,
      later = graph.update variant fun node =>
        { node with marks := change node.marks }) := by
  rcases of_run_bind done with ⟨own, between, middle, read, afterRead⟩
  cases read
  split at afterRead
  · cases afterRead
    exact ⟨.nil rfl rfl rfl, .inl rfl⟩
  · rcases of_run_bind afterRead with ⟨_, _, _, remarked, stored⟩
    rcases of_run_lift remarked with ⟨updated, rfl⟩
    cases stored
    exact ⟨.nil rfl rfl rfl, .inr ⟨fun marks => { marks with collecting := true },
      (of_on_update updated).2⟩⟩

theorem quiet_enterTag (inside : Bool) (place : Position) (tag : String) (type : Ref) :
    Quiet level (enterTag inside place tag type) fun meaning payload =>
      (∀ value, meaning type value → ∃ tag payload, value = .tagged tag payload) ∧
        ∀ value, meaning type (.tagged tag value) → meaning payload value := by
  have entered : ∀ variant, Quiet level (do
      unless ← Build.allows variant tag do
        Build.reject place (.variantMismatch tag (← Build.text variant))
      touch inside variant
      let payload ← payloadType variant tag
      noteMatched variant tag
      return payload) fun meaning payload =>
        ∀ value, meaning variant (.tagged tag value) → meaning payload value := by
    rintro variant state graph ⟨payload, after⟩ later done meaning models
    rcases of_run_bind done with ⟨allowed, between, start, read, afterAllows⟩
    rcases of_run_lift read with ⟨asked, rfl⟩
    rcases of_on_allows asked with ⟨rfl, node, rooted, rfl⟩
    dsimp only at afterAllows
    split at afterAllows
    next allowed =>
        have allowsTag : ∀ row ∈ node.form.bound?, row.contains tag := by
          intro row bounded
          rw [Option.mem_def.1 bounded] at allowed
          exact allowed
        rcases of_run_bind afterAllows with ⟨_, touched, marked, touching, afterTouch⟩
        rcases of_run_touch level touching with ⟨binds, remarked⟩
        rcases of_run_bind afterTouch with ⟨type, _, typed, entering, afterType⟩
        rcases of_run_lift entering with ⟨chosen, rfl⟩
        rcases of_run_bind afterType with ⟨_, _, _, noting, returned⟩
        rcases of_run_lift noting with ⟨noted, rfl⟩
        cases returned
        have earlier := (narrows_noteMatched variant tag _ _ _ noted meaning models).1
        -- Registering the variant does not change what it allows.
        have ⟨other, otherRooted, sameForm, unchanged⟩ : ∃ other,
            marked.root variant = .ok other ∧
            other.form = node.form ∧ (meaning.Models marked → meaning.Models start) := by
          rcases remarked with rfl | ⟨change, rfl⟩
          · exact ⟨node, rooted, rfl, id⟩
          · rcases TypeGraph.root_remark rooted variant change with
              ⟨other, otherRooted, same⟩
            refine ⟨other, otherRooted, same, TypeGraph.Grows.models ?_⟩
            apply (TypeGraph.Grows.refl start).update
            exact fun own found => ⟨own, found, .of_same rfl (.inl rfl)⟩
        have parts := of_on_payloadType chosen otherRooted (sameForm ▸ allowsTag) earlier
        exact ⟨unchanged parts.1, [], binds, rfl, parts.2⟩
    next =>
        rcases of_run_bind afterAllows with ⟨_, _, _, reading, rejecting⟩
        rcases of_run_bind rejecting with ⟨_, _, _, rejected, _⟩
        cases rejected
  unfold enterTag
  dsimp only
  split
  · refine .lift (ensures_variantRoot place tag type) fun variant =>
      (entered variant).mono ?_
    rintro meaning payload _ ⟨rfl, has⟩ ⟨same, tagged⟩
    refine ⟨rfl, ?_⟩
    dsimp only
    rw [same]
    exact ⟨tagged, has⟩
  · exact checks_reject _ _ _

/-! ## Lists -/

theorem quiet_gather (type : Ref) : Quiet level (gather type) fun _ _ => True := by
  refine (quiet_get).bind fun state => ?_
  split
  · exact .pure fun _ _ => ⟨rfl, trivial⟩
  · refine .lift (narrows_isUnbound type) fun unbound => ?_
    split
    · refine Checks.mono (quiet_modify ?_) fun _ _ _ holds _ _ => holds
      exact fun _ => ⟨rfl, rfl, rfl⟩
    · exact .pure fun _ _ _ => ⟨rfl, trivial⟩

theorem quiet_forM {items : List Ref} {act : Ref → Build Unit}
    (each : ∀ item, (act item).Narrows) :
    Quiet level (items.forM fun item => (liftM (act item) : Elaborate Unit))
      fun _ _ => True := by
  induction items with
  | nil => exact .pure fun _ => ⟨rfl, trivial⟩
  | cons head tail induction =>
      exact .lift (each head) fun _ => induction.mono fun _ _ _ holds _ => holds

theorem quiet_filterM {items : List Ref} {test : Ref → Build Bool}
    (each : ∀ item, (test item).Narrows) :
    Quiet level (items.filterM fun item => (liftM (test item) : Elaborate Bool))
      fun _ _ => True := by
  have steps : ∀ kept, Quiet level (items.filterAuxM
      (fun item => (liftM (test item) : Elaborate Bool)) kept) fun _ _ => True := by
    induction items with
    | nil => exact fun _ => .pure fun _ => ⟨rfl, trivial⟩
    | cons head tail induction =>
        exact fun kept => .lift (each head) fun keep =>
          (induction _).mono fun _ _ _ holds _ => holds
  exact (steps []).bind fun _ => .pure fun _ _ => ⟨rfl, trivial⟩

theorem quiet_startItem (itemType : Ref) (cover : ItemCover) :
    Quiet level (startItem itemType cover) fun _ _ => True := by
  refine .lift (narrows_remark _ _) fun _ => ?_
  refine (quiet_forM fun _ => narrows_remark _ _).bind fun _ => ?_
  refine Checks.mono (quiet_modify ?_) fun _ _ _ holds _ _ => holds
  exact fun _ => ⟨rfl, rfl, rfl⟩

theorem quiet_finishItem (itemType : Ref) (cover : ItemCover) :
    Quiet level (finishItem itemType cover) fun _ _ => True := by
  refine quiet_get.bind fun state => (quiet_filterM narrows_hasAny).bind fun covered => ?_
  refine .lift (narrows_hasAny itemType) fun any => ?_
  exact .pure fun _ _ _ _ => ⟨rfl, trivial⟩

theorem narrows_settleItems (itemType : Ref) (cover : ItemCover) :
    (settleItems itemType cover).Narrows :=
  (narrows_forM fun _ => narrows_remark _ _).seq fun _ => narrows_remark _ _

theorem ensures_finishFixedList (place : Position) (type itemType : Ref) :
    (finishFixedList place type itemType).Ensures fun meaning _ =>
      ∀ value, meaning type value ↔ value.IsListOf (meaning itemType) := by
  refine (ensures_newList itemType).bind fun list =>
    (ensures_unifyAt place type list).bind fun _ => ?_
  refine (narrows_noteForms _ _).mono fun meaning _ _ same lists => ?_
  rw [same]
  exact lists

theorem ensures_joinHead (place : Position) (element headType : Ref) :
    (joinHead place element headType).Ensures fun meaning _ =>
      meaning element = meaning headType := by
  refine (ensures_unifyAt place element headType).bind fun _ => ?_
  refine (narrows_hasAny headType).seq fun any => ?_
  split
  · exact (narrows_remark _ _).mono fun _ _ _ same => same
  · exact .pure fun _ same => same

theorem narrows_finishCons (type : Ref) (before forms : Marks) (tail : Pattern) :
    (finishCons type before forms tail).Narrows :=
  (narrows_remark _ _).seq fun _ => (narrows_restoreForms _ _).seq fun _ =>
    narrows_noteForms _ _

/-- The type of the elements is read off the type that was made a list. -/
theorem ensures_elementType (place : Position) (type : Ref) :
    (elementType place type).Ensures fun meaning element =>
      ∀ value, meaning type value ↔ value.IsListOf (meaning element) := by
  intro graph element later done meaning models
  rcases of_on_bind done with ⟨item, first, newItem, afterItem⟩
  rcases of_on_bind afterItem with ⟨list, second, newList, afterList⟩
  rcases of_on_bind afterList with ⟨_, third, unified, afterUnify⟩
  rcases of_on_bind afterUnify with ⟨node, same, looked, read⟩
  rcases of_on_look looked with ⟨rooted, rfl⟩
  have kept : later = same ∧ node.form.parameters.head? = some element := by
    cases parameters : node.form.parameters with
    | nil =>
        rw [parameters] at read
        cases read
    | cons first rest =>
        rw [parameters] at read
        cases read
        exact ⟨rfl, rfl⟩
  rcases kept with ⟨rfl, isFirst⟩
  -- Whatever the type variables stand for, both empty lists are values of the type.
  have lists : ∀ meaning : Meaning, meaning.Models later → meaning.Models graph ∧
      ∀ value, meaning type value ↔ value.IsListOf (meaning item) := by
    intro meaning models
    have joined := ensures_unifyAt place type list _ _ _ unified meaning models
    have made := ensures_newList item _ _ _ newList meaning joined.1
    refine ⟨(ensures_newVar _ _ _ newItem meaning made.1).1, fun value => ?_⟩
    rw [joined.2]
    exact made.2 value
  refine ⟨(lists meaning models).1, ?_⟩
  have holds := (TypeGraph.of_root rooted).2 meaning models
  have null := ((lists meaning models).2 .null).2 (Value.isListOf_null _)
  have nil := ((lists meaning models).2 (.list .nil)).2 (Value.isListOf_nil _)
  rcases holds.list_or_var null nil with ⟨own, form⟩ | ⟨origin, form⟩
  · rw [form] at holds isFirst
    cases isFirst
    exact holds
  · -- A type variable may stand for no value at all, and then it is no list.
    have models := TypeGraph.models_fits later ⟨fun _ _ => False, fun _ _ _ => False⟩
    have fits := ((lists _ models).2 .null).2 (Value.isListOf_null _)
    rcases TypeGraph.exists_of_root rooted with ⟨target, followed, found⟩
    rw [(TypeGraph.of_deref followed).2 _ models] at fits
    exact (fits.of_var ⟨node, found, (TypeGraph.of_root rooted).1, form⟩).elim

/-! ## Structs -/

theorem ensures_newStruct (name : String) (field : Ref) :
    (newOpen .struct [(name, field)]).Ensures fun meaning struct =>
      ∀ value, meaning struct value → ∃ members part, value = .struct members ∧
        members.get? name = some part ∧ meaning field part := by
  refine (ensures_allocate _).mono fun meaning struct holds value has => ?_
  rcases holds.2 value has with ⟨members, rfl, parts⟩
  rcases parts name field (by simp [Row.ofList]) with ⟨part, found, typed⟩
  exact ⟨members, part, rfl, found, typed⟩

theorem ensures_enterField (place : Position) (name : String) (type : Ref) :
    (enterField place name type).Ensures fun meaning field =>
      ∀ value, meaning type value → ∃ members part, value = .struct members ∧
        members.get? name = some part ∧ meaning field part := by
  refine ensures_newVar.narrows.seq fun field =>
    (ensures_newStruct name field).bind fun struct => ?_
  refine (ensures_unifyAt place type struct).bind fun _ =>
    .pure fun meaning same holds => ?_
  rw [same]
  exact holds

theorem narrows_settleFields (type : Ref) (covered : Bool) :
    (settleFields type covered).Narrows := by
  refine .seq (.seq (narrows_look _) fun _ => .pure fun _ => trivial) fun row => ?_
  refine (narrows_forIn fun field _ => ?_).seq fun _ => .pure fun _ => trivial
  refine (narrows_look _).seq fun target => (narrows_remark _ _).seq fun _ => ?_
  exact .pure fun _ => trivial

end Elaborate

/-! ## Equations for patterns -/

open Elaborate

/-- Looks at the type of a pattern before the pattern is checked. -/
def Expr.entering (pattern : Expr) (type : Ref) (next : Elaborate Pattern) :
    Elaborate Pattern := do
  if ← Build.hasAny type then
    Build.reject pattern.position (.useless pattern.text)
  Build.expand type
  gather type
  next

section Equations

variable (setting : Setting) (level : Nat) (place : Position) (inside : Bool) (type : Ref)

namespace Expr

theorem elaborate_symbol (name : String) :
    (symbol place name).elaborate setting level inside type =
      (symbol place name).entering type (Elaborate.symbol level name type) := rfl

theorem elaborate_unit :
    (unit place).elaborate setting level inside type =
      (unit place).entering type (Elaborate.unit place type) := rfl

theorem elaborate_number (text : String) (value : Number) :
    (number place text value).elaborate setting level inside type =
      (number place text value).entering type (do
        literal (number place text value)
          (← Build.constant (.number value) .number) type) := rfl

theorem elaborate_string (value : List UInt8) :
    (string place value).elaborate setting level inside type =
      (string place value).entering type (do
        literal (string place value) (← Build.constant (.text value) .text) type) := rfl

theorem elaborate_static (owner field : String) :
    (static place owner field).elaborate setting level inside type =
      (static place owner field).entering type (do
        literal (static place owner field) (← Build.staticField setting place owner field)
          type) := rfl

theorem elaborate_emptyList :
    (list place .nil).elaborate setting level inside type =
      (list place .nil).entering type (emptyList place type) := rfl

theorem elaborate_list (head : Expr) (tail : Exprs) :
    (list place (.cons head tail)).elaborate setting level inside type =
      (list place (.cons head tail)).entering type (do
        let itemType ← Build.newVar
        let outer := (← get).gathered
        let (patterns, cover) ← (Exprs.cons head tail).elaborate setting level itemType {}
        modify fun state => { state with gathered := outer.map (mergeRefs · cover.met) }
        settleItems itemType cover
        finishFixedList place type itemType
        return .fixedList patterns) := rfl

theorem elaborate_apply (tag : String) (argument : Expr) :
    (apply place tag argument).elaborate setting level inside type =
      (apply place tag argument).entering type (do
        let payload ← enterTag inside place tag type
        return .variant tag (← argument.elaborate setting level inside payload)) := rfl

theorem elaborate_cons (head tail : Expr) :
    (binary place .cons head tail).elaborate setting level inside type =
      (binary place .cons head tail).entering type (do
        let element ← elementType place type
        let headType ← Build.newVar
        let headPattern ← head.elaborate setting level true headType
        joinHead head.position element headType
        let before ← Build.marks type
        let forms ← Build.listForms type
        let tailPattern ← tail.elaborate setting level true type
        finishCons type before forms tailPattern
        return .cons headPattern tailPattern) := rfl

theorem elaborate_record (fieldPlace : Position) (name : String) (value : Expr)
    (tail : Fields) :
    (record place (.cons fieldPlace name value tail)).elaborate setting
      level inside type =
      (record place (.cons fieldPlace name value tail)).entering type (do
        let (patterns, covered) ←
          (Fields.cons fieldPlace name value tail).elaborate setting level inside type []
        settleFields type covered
        return .record patterns) := rfl

end Expr

theorem Exprs.elaborate_cons (head : Expr) (tail : Exprs) (cover : ItemCover) :
    (cons head tail).elaborate setting level type cover = (do
      startItem type cover
      let pattern ← head.elaborate setting level true type
      let cover ← finishItem type cover
      let (patterns, cover) ← tail.elaborate setting level type cover
      return (.cons pattern patterns, cover)) := rfl

theorem Fields.elaborate_cons (name : String) (value : Expr) (tail : Fields)
    (seen : List String) :
    (cons place name value tail).elaborate setting level inside type seen = (do
      if seen.contains name then
        Build.reject value.position (.duplicateField name)
      let field ← enterField value.position name type
      let pattern ← value.elaborate setting level inside field
      let covered ← Build.hasAny field
      let (patterns, others) ← tail.elaborate setting level inside type (name :: seen)
      return (.cons name pattern patterns, covered && others)) := rfl

end Equations

theorem Elaborate.checks_entering {level : Nat} {pattern : Expr} {type : Ref}
    {next : Elaborate Pattern} (checks : Checks level next (Fit type)) :
    Checks level (pattern.entering type next) (Fit type) := by
  have entered : Checks level (do
      Build.expand type
      gather type
      next) (Fit type) := by
    refine .lift (Build.narrows_expand type) fun _ => (quiet_gather type).bind fun _ => ?_
    exact checks.mono fun _ _ _ holds _ _ => holds
  refine .lift (Build.narrows_hasAny type) fun any => ?_
  dsimp only
  split
  · exact checks_reject _ _ _
  · exact entered.mono fun _ _ _ holds _ => holds

/-! ## All patterns -/

theorem Build.narrows_constant (value : Constant) (primitive : Primitive) :
    (Build.constant value primitive).Narrows :=
  (Build.ensures_newPrimitive primitive).narrows.seq fun _ => .pure fun _ => trivial

theorem Build.narrows_staticField (setting : Setting) (place : Position)
    (owner field : String) :
    (Build.staticField setting place owner field).Narrows := by
  unfold Build.staticField
  dsimp only
  split
  · exact Build.ensures_reject _ _
  · exact (narrows_newOfKind _).seq fun _ => .pure fun _ => trivial

theorem Elaborate.checks_plain {level : Nat} {type : Ref} {build : Build Pattern}
    (ensures : build.Ensures (Plain type)) :
    Checks level (liftM build : Elaborate Pattern) (Fit type) := by
  refine (quiet_lift ensures).mono ?_
  rintro meaning pattern _ ⟨rfl, plain⟩
  exact ⟨plain.1.symm, plain.2⟩

mutual

theorem Expr.checks_elaborate (setting : Setting) (level : Nat) :
    ∀ (pattern : Expr) (inside : Bool) (type : Ref),
      Checks level (pattern.elaborate setting level inside type) (Fit type)
  | .symbol place name, inside, type => by
      rw [Expr.elaborate_symbol]
      exact checks_entering (checks_symbol name type)
  | .unit place, inside, type => by
      rw [Expr.elaborate_unit]
      exact checks_entering (checks_plain (ensures_unit place type))
  | .number place text value, inside, type => by
      rw [Expr.elaborate_number]
      refine checks_entering (.lift (Build.narrows_constant _ _) fun code => ?_)
      exact (checks_plain (ensures_literal _ code type)).mono fun _ _ _ holds _ => holds
  | .string place value, inside, type => by
      rw [Expr.elaborate_string]
      refine checks_entering (.lift (Build.narrows_constant _ _) fun code => ?_)
      exact (checks_plain (ensures_literal _ code type)).mono fun _ _ _ holds _ => holds
  | .static place owner field, inside, type => by
      rw [Expr.elaborate_static]
      refine checks_entering (.lift (Build.narrows_staticField _ _ _ _) fun code => ?_)
      exact (checks_plain (ensures_literal _ code type)).mono fun _ _ _ holds _ => holds
  | .list place .nil, inside, type => by
      rw [Expr.elaborate_emptyList]
      exact checks_entering (checks_plain (ensures_emptyList place type))
  | .list place (.cons head tail), inside, type => by
      rw [Expr.elaborate_list]
      apply checks_entering
      refine .lift Build.ensures_newVar fun itemType => quiet_get.bind fun state => ?_
      refine ((Exprs.cons head tail).checks_elaborate setting level itemType {}).bind ?_
      rintro ⟨patterns, cover⟩
      dsimp only
      refine Quiet.bind (quiet_modify ?_) fun _ => ?_
      · exact fun _ => ⟨rfl, rfl, rfl⟩
      refine .lift (narrows_settleItems itemType cover) fun _ => ?_
      refine .lift (ensures_finishFixedList place type itemType) fun _ => .pure ?_
      rintro meaning lists _ _ _ ⟨rfl, typed⟩ _ _
      rw [List.append_nil]
      exact ⟨rfl, Pattern.typed_fixedList lists typed⟩
  | .apply place tag argument, inside, type => by
      rw [Expr.elaborate_apply]
      apply checks_entering
      refine (quiet_enterTag inside place tag type).bind fun payload => ?_
      refine (argument.checks_elaborate setting level inside payload).bind
        fun pattern => ?_
      refine .pure ?_
      rintro meaning _ ⟨rfl, typed⟩ ⟨tagged, has⟩
      rw [List.append_nil]
      exact ⟨rfl, Pattern.typed_variant tagged has typed⟩
  | .binary place .cons head tail, inside, type => by
      rw [Expr.elaborate_cons]
      apply checks_entering
      refine .lift (ensures_elementType place type) fun element => ?_
      refine .lift Build.ensures_newVar fun headType => ?_
      refine (head.checks_elaborate setting level true headType).bind
        fun headPattern => ?_
      refine .lift (ensures_joinHead head.position element headType) fun _ => ?_
      refine .lift (Build.narrows_marks type) fun before => ?_
      refine .lift (Build.narrows_listForms type) fun forms => ?_
      refine (tail.checks_elaborate setting level true type).bind fun tailPattern => ?_
      refine .lift (narrows_finishCons type before forms tailPattern) fun _ => .pure ?_
      rintro meaning _ _ ⟨rfl, tailTyped⟩ _ _ same _ ⟨rfl, headTyped⟩ _ lists
      rw [List.append_nil]
      rw [← same] at headTyped
      exact ⟨rfl, Pattern.typed_cons lists headTyped tailTyped⟩
  | .record place .nil, inside, type => checks_entering (checks_rejected _ _)
  | .record place (.cons fieldPlace name value tail), inside, type => by
      rw [Expr.elaborate_record]
      apply checks_entering
      refine ((Fields.cons fieldPlace name value tail).checks_elaborate setting
        level inside type
        []).bind ?_
      rintro ⟨patterns, covered⟩
      refine .lift (narrows_settleFields type covered) fun _ => .pure ?_
      rintro meaning _ _ ⟨rfl, typed, structs⟩
      rw [List.append_nil]
      exact ⟨rfl, Pattern.typed_record (structs nofun) typed⟩
  | .binary _ .add _ _, inside, type => checks_entering (checks_rejected _ _)
  | .binary _ .subtract _ _, inside, type => checks_entering (checks_rejected _ _)
  | .binary _ .multiply _ _, inside, type => checks_entering (checks_rejected _ _)
  | .select _ _ _, inside, type => checks_entering (checks_rejected _ _)
  | .caseOf _ _ _, inside, type => checks_entering (checks_rejected _ _)
termination_by structural pattern => pattern

theorem Exprs.checks_elaborate (setting : Setting) (level : Nat) :
    ∀ (items : Exprs) (itemType : Ref) (cover : ItemCover),
      Checks level (items.elaborate setting level itemType cover)
        fun meaning result bindings =>
        bindings = result.1.bindings ∧ result.1.Typed meaning (meaning itemType)
  | .nil, itemType, cover => .pure fun _ => ⟨rfl, Patterns.typed_nil⟩
  | .cons head tail, itemType, cover => by
      rw [Exprs.elaborate_cons]
      refine (quiet_startItem itemType cover).bind fun _ => ?_
      refine (head.checks_elaborate setting level true itemType).bind fun pattern => ?_
      refine (quiet_finishItem itemType cover).bind fun cover => ?_
      refine (tail.checks_elaborate setting level itemType cover).bind ?_
      rintro ⟨patterns, cover⟩
      refine .pure ?_
      rintro meaning _ ⟨rfl, tailTyped⟩ _ _ ⟨rfl, headTyped⟩ _
      rw [List.append_nil]
      exact ⟨rfl, Patterns.typed_cons headTyped tailTyped⟩
termination_by structural items => items

theorem Fields.checks_elaborate (setting : Setting) (level : Nat) :
    ∀ (fields : Fields) (inside : Bool) (type : Ref) (seen : List String),
      Checks level (fields.elaborate setting level inside type seen)
        fun meaning result bindings =>
        bindings = result.1.bindings ∧ result.1.Typed meaning (meaning type) ∧
          (fields ≠ .nil → ∀ value, meaning type value → ∃ members, value =
            .struct members)
  | .nil, inside, type, seen => .pure fun _ =>
      ⟨rfl, PatternFields.typed_nil, fun impossible => absurd rfl impossible⟩
  | .cons place name value tail, inside, type, seen => by
      rw [Fields.elaborate_cons]
      dsimp only
      split
      · exact checks_reject _ _ _
      · refine .lift (ensures_enterField value.position name type) fun field => ?_
        refine (value.checks_elaborate setting level inside field).bind fun pattern => ?_
        refine .lift (Build.narrows_hasAny field) fun covered => ?_
        refine (tail.checks_elaborate setting level inside type (name :: seen)).bind ?_
        rintro ⟨patterns, others⟩
        refine .pure ?_
        rintro meaning _ ⟨rfl, tailTyped, _⟩ _ _ ⟨rfl, typed⟩ has
        rw [List.append_nil]
        refine ⟨rfl, PatternFields.typed_cons (fun members hasStruct => ?_)
          typed tailTyped, ?_⟩
        · rcases has _ hasStruct with ⟨own, part, equal, found, holds⟩
          cases equal
          exact ⟨part, found, holds⟩
        · intro _ own hasOwn
          rcases has own hasOwn with ⟨members, part, equal, _⟩
          exact ⟨members, equal⟩
termination_by structural fields => fields

end

end Casework
