import Casework.Proofs.Marking
import Casework.Proofs.Matching
import Casework.TypeGraph.Parser
import Casework.Typing.Expr

/-!
The values that a pattern takes, as it is written.

A pattern is an expression, and which values it takes can be read off the expression:
neither the type it is checked against nor the other choices play a part. Checking a
pattern may refuse it, but a pattern that is accepted matches just the values that it was
written for. So different spellings can be compared before anything is checked.
-/

namespace Casework

mutual

/-- The values that a pattern is written for. A unit is written where there is one value
only. -/
def Expr.Takes (setting : Setting) : Expr → Value → Prop
  | .symbol _ _, _ => True
  | .unit _, _ => True
  | .number _ _ number, value => value = .ofConstant (.number number)
  | .string _ text, value => value = .ofConstant (.text text)
  | .static _ owner field, value =>
      ∃ static, setting.static? (owner ++ "#" ++ field) = some static ∧ value =
        .ofConstant static.value
  | .list _ items, value => ∃ values, value.items? = some values ∧
      items.Takes setting values
  | .apply _ tag argument, value => ∃ payload, value = .tagged tag payload ∧
      argument.Takes setting payload
  | .binary _ .cons head tail, value =>
      ∃ first rest, value.items? = some (.cons first rest) ∧ head.Takes setting first ∧
        tail.Takes setting (.list rest)
  | .record _ fields, value => ∃ members, value = .struct members ∧
      fields.Takes setting members
  | _, _ => False
termination_by structural pattern => pattern

def Exprs.Takes (setting : Setting) : Exprs → Values → Prop
  | .nil, .nil => True
  | .cons head tail, .cons first rest => head.Takes setting first ∧
      tail.Takes setting rest
  | _, _ => False
termination_by structural items => items

def Fields.Takes (setting : Setting) : Fields → Members → Prop
  | .nil, _ => True
  | .cons _ name value tail, members =>
      (∃ part, members.get? name = some part ∧ value.Takes setting part) ∧
        tail.Takes setting members
termination_by structural fields => fields

end

/-! ## Patterns that match -/

namespace Pattern

theorem isSome_match?_literal (constant : Constant) (type : Ref) (value : Value) :
    ((literal constant type).match? value).isSome = true ↔ value =
      .ofConstant constant := by
  rw [match?]
  split <;> simp [*]

theorem isSome_match?_emptyList (value : Value) :
    (emptyList.match? value).isSome = true ↔ value.items? = some .nil := by
  rw [match?]
  split <;> simp [*]

theorem isSome_match?_fixedList (items : Patterns) (value : Value) :
    ((fixedList items).match? value).isSome = true ↔
      ∃ values, value.items? = some values ∧ (items.match? values).isSome = true := by
  rw [match?]
  cases value.items? <;> simp

theorem isSome_bind_append {α : Type} (left right : Option (List α)) :
    (do return (← left) ++ (← right)).isSome = true ↔ left.isSome = true ∧
      right.isSome = true := by
  cases left <;> cases right <;> simp

theorem isSome_match?_cons (head tail : Pattern) (value : Value) :
    ((cons head tail).match? value).isSome = true ↔
      ∃ first rest, value.items? = some (.cons first rest) ∧
        (head.match? first).isSome = true ∧
        (tail.match? (.list rest)).isSome = true := by
  rw [match?]
  cases found : value.items? with
  | none => simp
  | some values =>
      cases values with
      | nil => simp
      | cons first rest =>
          refine (isSome_bind_append (head.match? first)
            (tail.match? (.list rest))).trans ?_
          simp

theorem isSome_match?_record (fields : PatternFields) (value : Value) :
    ((record fields).match? value).isSome = true ↔
      ∃ members, value = .struct members ∧ (fields.match? members).isSome = true := by
  cases value <;> simp [match?]

theorem isSome_match?_variant (tag : String) (payload : Pattern) (value : Value) :
    ((variant tag payload).match? value).isSome = true ↔
      ∃ inner, value = .tagged tag inner ∧ (payload.match? inner).isSome = true := by
  cases value with
  | tagged own inner =>
      rw [match?]
      split <;> simp_all
  | _ => simp [match?]

end Pattern

theorem Patterns.isSome_match?_cons (head : Pattern) (tail : Patterns) (first : Value)
    (rest : Values) :
    ((cons head tail).match? (.cons first rest)).isSome = true ↔
      (head.match? first).isSome = true ∧ (tail.match? rest).isSome = true := by
  rw [match?]
  exact Pattern.isSome_bind_append _ _

theorem PatternFields.isSome_match?_cons (name : String) (pattern : Pattern)
    (tail : PatternFields) (members : Members) :
    ((cons name pattern tail).match? members).isSome = true ↔
      (∃ part, members.get? name = some part ∧ (pattern.match? part).isSome = true) ∧
        (tail.match? members).isSome = true := by
  rw [match?]
  cases members.get? name with
  | none => simp
  | some part =>
      refine (Pattern.isSome_bind_append (pattern.match? part)
        (tail.match? members)).trans ?_
      simp

/-! ## Results of checking -/

namespace Elaborate

open Stateful

variable {α β : Type} {good : α → Prop} {last : β → Prop}

def Gives (act : Elaborate α) (good : α → Prop) : Prop :=
  ∀ state graph, act.Yields state graph (fun value _ _ => good value) fun _ _ => True

theorem gives_pure {value : α} (holds : good value) : Gives (pure value) good :=
  fun _ _ => yields_pure holds

theorem Gives.bind {act : Elaborate α} {next : α → Elaborate β} (first : Gives act good)
    (second : ∀ value, good value → Gives (next value) last) :
    Gives (act >>= next) last :=
  fun state graph => (first state graph).bind fun value after later holds =>
    second value holds after later

theorem Gives.mono {act : Elaborate α} {other : α → Prop} (gives : Gives act good)
    (implies : ∀ value, good value → other value) : Gives act other :=
  fun state graph => (gives state graph).imp fun value _ _ => implies value

theorem gives_bind {act : Elaborate α} {next : α → Elaborate β}
    (rest : ∀ value, Gives (next value) last) :
    Gives (act >>= next) last :=
  fun _ _ => yields_bind_anyhow fun value after later => rest value after later

theorem gives_lift {build : Build α}
    (each : ∀ graph, build.Yields graph (fun value _ => good value) fun _ _ => True) :
    Gives (liftM build) good :=
  fun _ graph => (yields_lift (each graph)).imp fun _ _ _ holds => holds.2

theorem Gives.entering {pattern : Expr} {next : Elaborate Pattern} {good : Pattern → Prop}
    (gives : Gives next good) (type : Ref) : Gives (pattern.entering type next) good := by
  apply gives_bind
  intro any
  split
  · exact gives_bind fun _ => gives_bind fun _ => gives_bind fun _ => gives
  · exact gives_bind fun _ => gives_bind fun _ => gives

/-- The result of a check matches what a pattern is written for. -/
def Takes (act : Elaborate Pattern) (takes : Value → Prop) : Prop :=
  Gives act fun own => ∀ value, (own.match? value).isSome = true ↔ takes value

theorem takes_symbol (level : Nat) (name : String) (type : Ref) :
    Takes (symbol level name type) fun _ => True := by
  apply gives_bind
  intro _
  split
  · exact gives_pure fun _ => iff_of_true rfl trivial
  · exact gives_bind fun _ => gives_pure fun _ => iff_of_true rfl trivial

theorem takes_unit (place : Position) (type : Ref) :
    Takes (liftM (unit place type)) fun _ => True := by
  apply gives_lift
  intro graph
  refine Build.yields_bind_anyhow fun _ _ => Build.yields_bind_anyhow fun _ _ => ?_
  exact Build.yields_bind_anyhow fun _ _ => Build.yields_pure fun _ =>
    iff_of_true rfl trivial

theorem takes_literal (pattern : Expr) (constant : Constant) (kept type : Ref) :
    Takes (liftM (literal pattern (.constant constant kept) type)) fun value =>
      value = .ofConstant constant := by
  apply gives_lift
  intro graph
  have ends : ∀ covered (graph : TypeGraph), (do
      Build.remark covered fun marks => { marks with partly := true }
      return .literal constant kept : Build Pattern).Yields graph (fun own _ =>
        ∀ value, (own.match? value).isSome = true ↔ value = .ofConstant constant)
          fun _ _ => True :=
    fun _ _ => Build.yields_bind_anyhow fun _ _ =>
      Build.yields_pure (Pattern.isSome_match?_literal constant kept)
  refine Build.yields_bind_anyhow fun _ _ => Build.yields_bind_anyhow fun _ _ => ?_
  refine Build.yields_bind_anyhow fun _ _ => ?_
  split
  · refine Build.yields_bind_anyhow fun _ _ => Build.yields_bind_anyhow fun _ _ => ?_
    exact ends _ _
  · split
    · exact ends _ _
    · refine Build.yields_bind_anyhow fun _ _ => Build.yields_bind_anyhow fun _ _ => ?_
      exact Build.yields_bind_anyhow fun _ _ => ends _ _

theorem takes_constant (pattern : Expr) (constant : Constant)
    (primitive : Primitive) (type : Ref) :
    Takes (do literal pattern (← Build.constant constant primitive) type)
      fun value => value = .ofConstant constant := by
  have codes : ∀ graph, (Build.constant constant primitive).Yields graph
      (fun code _ => ∃ kept, code = .constant constant kept) fun _ _ => True :=
    fun _ => Build.yields_bind_anyhow fun kept _ => Build.yields_pure ⟨kept, rfl⟩
  apply (gives_lift codes).bind
  rintro _ ⟨kept, rfl⟩
  exact takes_literal pattern constant kept type

theorem takes_static (setting : Setting) (pattern : Expr) (place : Position)
    (owner field : String) (type : Ref) :
    Takes (do literal pattern (← Build.staticField setting place owner field) type)
      ((Expr.static place owner field).Takes setting) := by
  have codes : ∀ graph, (Build.staticField setting place owner field).Yields graph
      (fun code _ => ∃ static kept,
        setting.static? (owner ++ "#" ++ field) = some static ∧
        (code = .constant static.value kept ∨ code = .static owner field kept))
        fun _ _ => True := by
    intro graph
    unfold Build.staticField
    dsimp only
    split
    next => exact Build.yields_throw trivial
    next static found =>
        refine Build.yields_bind_anyhow fun kept _ =>
          Build.yields_pure ⟨static, kept, found, ?_⟩
        split
        · exact .inl rfl
        · exact .inr rfl
  apply (gives_lift codes).bind
  rintro _ ⟨static, kept, found, rfl | rfl⟩
  · apply (takes_literal pattern static.value kept type).mono
    intro own matched value
    rw [matched, Expr.Takes]
    simp [found]
  · exact gives_lift fun _ => Build.yields_throw trivial

end Elaborate

section Walk

open Elaborate

variable (setting : Setting) (level : Nat)

theorem takes_rejected (pattern : Expr) (cause : CompileCause) (type : Ref)
    (takes : Value → Prop) :
    Takes (pattern.entering type
      (liftM (Build.reject pattern.position cause : Build Pattern))) takes := by
  apply Gives.entering
  exact gives_lift fun _ => Build.yields_throw trivial

mutual

theorem Expr.takes_elaborate : ∀ (pattern : Expr) (inside : Bool) (type : Ref),
    Takes (pattern.elaborate setting level inside type) (pattern.Takes setting)
  | .symbol place name, inside, type => (takes_symbol level name type).entering type
  | .unit place, inside, type => (takes_unit place type).entering type
  | .number place text number, inside, type => by
      rw [Expr.elaborate_number]
      exact (takes_constant _ (.number number) .number type).entering type
  | .string place text, inside, type => by
      rw [Expr.elaborate_string]
      exact (takes_constant _ (.text text) .text type).entering type
  | .static place owner field, inside, type => by
      rw [Expr.elaborate_static]
      exact Gives.entering
        (takes_static setting (.static place owner field) place owner field type) type
  | .list place .nil, inside, type => by
      rw [Expr.elaborate_emptyList]
      apply Gives.entering
      apply gives_lift
      intro graph
      refine Build.yields_bind_anyhow fun _ _ => Build.yields_bind_anyhow fun _ _ => ?_
      refine Build.yields_bind_anyhow fun _ _ => Build.yields_bind_anyhow fun _ _ => ?_
      refine Build.yields_pure fun value =>
        (Pattern.isSome_match?_emptyList value).trans ?_
      constructor
      · exact fun isNil => ⟨.nil, isNil, trivial⟩
      · rintro ⟨values, isValues, takes⟩
        cases values with
        | nil => exact isValues
        | cons => exact takes.elim
  | .list place (.cons head tail), inside, type => by
      rw [Expr.elaborate_list]
      apply Gives.entering
      refine gives_bind fun itemType => gives_bind fun state => ?_
      apply (Exprs.takes_elaborate (.cons head tail) itemType {}).bind
      rintro ⟨patterns, cover⟩ matched
      refine gives_bind fun _ => gives_bind fun _ => gives_bind fun _ =>
        gives_pure fun value => ?_
      rw [Pattern.isSome_match?_fixedList]
      simp only [matched]
      rfl
  | .apply place tag argument, inside, type => by
      rw [Expr.elaborate_apply]
      apply Gives.entering
      apply gives_bind
      intro payload
      apply (argument.takes_elaborate inside payload).bind
      intro own matched
      apply gives_pure
      intro value
      rw [Pattern.isSome_match?_variant]
      simp only [matched]
      rfl
  | .binary place .cons head tail, inside, type => by
      rw [Expr.elaborate_cons]
      apply Gives.entering
      refine gives_bind fun element => gives_bind fun headType => ?_
      apply (head.takes_elaborate true headType).bind
      intro headPattern headMatched
      refine gives_bind fun _ => gives_bind fun before => gives_bind fun forms => ?_
      apply (tail.takes_elaborate true type).bind
      intro tailPattern tailMatched
      refine gives_bind fun _ => gives_pure fun value => ?_
      rw [Pattern.isSome_match?_cons]
      simp only [headMatched, tailMatched]
      rfl
  | .record place .nil, inside, type =>
      takes_rejected (.record place .nil) .emptyRecord type _
  | .record place (.cons fieldPlace name value tail), inside, type => by
      rw [Expr.elaborate_record]
      apply Gives.entering
      apply (Fields.takes_elaborate (.cons fieldPlace name value tail)
        inside type []).bind
      rintro ⟨patterns, covered⟩ matched
      refine gives_bind fun _ => gives_pure fun value => ?_
      rw [Pattern.isSome_match?_record]
      simp only [matched]
      rfl
  | .binary place .add left right, inside, type =>
      takes_rejected (.binary place .add left right) (.badPattern _) type _
  | .binary place .subtract left right, inside, type =>
      takes_rejected (.binary place .subtract left right) (.badPattern _) type _
  | .binary place .multiply left right, inside, type =>
      takes_rejected (.binary place .multiply left right) (.badPattern _) type _
  | .select place record field, inside, type =>
      takes_rejected (.select place record field) (.badPattern _) type _
  | .caseOf place value choices, inside, type =>
      takes_rejected (.caseOf place value choices) (.badPattern _) type _
termination_by structural pattern => pattern

theorem Exprs.takes_elaborate : ∀ (items : Exprs) (itemType : Ref) (cover : ItemCover),
    Gives (items.elaborate setting level itemType cover) fun result =>
      ∀ values, (result.1.match? values).isSome = true ↔ items.Takes setting values
  | .nil, itemType, cover => by
      refine gives_pure fun values => ?_
      cases values with
      | nil => exact iff_of_true rfl trivial
      | cons => exact iff_of_false nofun id
  | .cons head tail, itemType, cover => by
      rw [Exprs.elaborate_cons]
      apply gives_bind
      intro _
      apply (head.takes_elaborate true itemType).bind
      intro pattern matched
      apply gives_bind
      intro cover
      apply (tail.takes_elaborate itemType cover).bind
      rintro ⟨patterns, cover⟩ tailMatched
      refine gives_pure fun values => ?_
      cases values with
      | nil => exact iff_of_false nofun id
      | cons first rest =>
          rw [Patterns.isSome_match?_cons, matched, tailMatched]
          rfl
termination_by structural items => items

theorem Fields.takes_elaborate :
    ∀ (fields : Fields) (inside : Bool) (type : Ref) (seen : List String),
    Gives (fields.elaborate setting level inside type seen) fun result =>
      ∀ members, (result.1.match? members).isSome = true ↔ fields.Takes setting members
  | .nil, inside, type, seen => gives_pure fun _ => iff_of_true rfl trivial
  | .cons place name value tail, inside, type, seen => by
      rw [Fields.elaborate_cons]
      have continues : Gives (do
          let field ← enterField value.position name type
          let pattern ← value.elaborate setting level inside field
          let covered ← Build.hasAny field
          let (patterns, others) ← tail.elaborate setting level inside type (name :: seen)
          return (PatternFields.cons name pattern patterns, covered && others))
            fun result =>
            ∀ members, (result.1.match? members).isSome = true ↔
              (Fields.cons place name value tail).Takes setting members := by
        apply gives_bind
        intro field
        apply (value.takes_elaborate inside field).bind
        intro pattern matched
        apply gives_bind
        intro covered
        apply (tail.takes_elaborate inside type (name :: seen)).bind
        rintro ⟨patterns, others⟩ tailMatched
        refine gives_pure fun members => ?_
        rw [PatternFields.isSome_match?_cons, tailMatched]
        simp only [matched]
        rfl
      dsimp only
      split
      · exact gives_bind fun _ => continues
      · exact continues
termination_by structural fields => fields

end

end Walk

/-! ## Two spellings of a list -/

def Exprs.chain (place : Position) : Exprs → Expr
  | .nil => .list place .nil
  | .cons head tail => .binary place .cons head (tail.chain place)

theorem Exprs.takes_chain_iff {setting : Setting} {place : Position} (items : Exprs)
    (value : Value) :
    (items.chain place).Takes setting value ↔
      (Expr.list place items).Takes setting value := by
  induction items using Exprs.chain.induct generalizing value with
  | case1 => exact Iff.rfl
  | case2 head tail induction =>
      rw [Exprs.chain, Expr.Takes, Expr.Takes]
      constructor
      · rintro ⟨first, rest, isItems, headTakes, tailTakes⟩
        rcases (induction (.list rest)).1 tailTakes with ⟨values, isRest, takes⟩
        cases isRest
        exact ⟨.cons first rest, isItems, headTakes, takes⟩
      · rintro ⟨values, isItems, takes⟩
        cases values with
        | nil => exact takes.elim
        | cons first rest =>
            exact ⟨first, rest, isItems, takes.1,
              (induction (.list rest)).2 ⟨rest, rfl, takes.2⟩⟩

/-- Where both spellings of a list are accepted, they match the same values. -/
theorem Exprs.isSome_match?_chain {setting : Setting} {place : Position}
    {items : Exprs} {level : Nat} {inside : Bool} {type other : Ref}
    {state after start last : Elaboration} {graph later first final : TypeGraph}
    {listed chained : Pattern} (list :
      (((Expr.list place items).elaborate setting level inside type).run state).on graph =
      (.ok (listed, after), later))
    (chain :
      (((items.chain place).elaborate setting level inside other).run start).on first =
      (.ok (chained, last), final)) (value : Value) :
    (chained.match? value).isSome = (listed.match? value).isSome := by
  have listTakes :=
    (Expr.takes_elaborate setting level _ inside type state graph).of_ok list value
  have chainTakes :=
    (Expr.takes_elaborate setting level _ inside other start first).of_ok chain value
  rw [Bool.eq_iff_iff, listTakes, chainTakes, takes_chain_iff]

theorem isSome_match?_chain_numbers :
    let graph : TypeGraph :=
  { nodes := #[{ form := .list ⟨2⟩ }, { form := .primitive .number }] }
    let items : Exprs := .cons (.number .first "1" ⟨0x3FF0000000000000⟩)
      (.cons (.number .first "2" ⟨0x4000000000000000⟩) .nil)
    ∃ listed after later chained last final,
      (((Expr.list .first items).elaborate {} 0 false ⟨1⟩).run {}).on graph =
        (.ok (listed, after), later) ∧
      (((items.chain .first).elaborate {} 0 false ⟨1⟩).run {}).on graph =
        (.ok (chained, last), final) ∧
      ∀ value, (chained.match? value).isSome = (listed.match? value).isSome := by
  intro graph items
  have listOk : ((((Expr.list .first items).elaborate {} 0 false ⟨1⟩).run {}).on
      graph).1.toOption.isSome = true := by decide +kernel
  have chainOk : ((((items.chain .first).elaborate {} 0 false ⟨1⟩).run {}).on
      graph).1.toOption.isSome = true := by decide +kernel
  rcases Option.isSome_iff_exists.1 listOk with ⟨⟨listed, after⟩, isListed⟩
  rcases Option.isSome_iff_exists.1 chainOk with ⟨⟨chained, last⟩, isChained⟩
  rcases Build.of_on_toOption isListed with ⟨later, list⟩
  rcases Build.of_on_toOption isChained with ⟨final, chain⟩
  exact ⟨listed, after, later, chained, last, final, list, chain,
    Exprs.isSome_match?_chain list chain⟩

/-! ## Choices for a type that a source spells -/

def Build.elaborateFor (source : Source) (choices : List Choice) :
    Build (Ref × List (Pattern × Scope)) := do
  let unfolding ← unfold (← parseType source)
  let root ← unfoldingRoot unfolding
  let (patterns, _) ← (elaborateChoices {} 0 [] root choices).run {}
  return (root, patterns)

structure Accepts (source : Source) (choices : List Choice) (type root : Ref)
    (unfolding : Nat) (patterns : List (Pattern × Scope)) (state : Elaboration)
    (typed unfolded elaborated : TypeGraph) : Prop where
  parsed : (Build.parseType source).on {} = (.ok type, typed)
  unfolds : (Build.unfold type).on typed = (.ok unfolding, unfolded)
  isRoot : (Build.unfoldingRoot unfolding).on unfolded = (.ok root, unfolded)
  elaborates : ((elaborateChoices {} 0 [] root choices).run {}).on unfolded =
    (.ok (patterns, state), elaborated)

theorem exists_accepts {source : Source} {choices : List Choice}
    (accepted : ((Build.elaborateFor source choices).on {}).1.toOption.isSome = true) :
    ∃ type root unfolding patterns state typed unfolded elaborated,
      Accepts source choices type root unfolding patterns state typed unfolded
        elaborated := by
  rcases Option.isSome_iff_exists.1 accepted with ⟨result, isResult⟩
  rcases Build.of_on_toOption isResult with ⟨_, ran⟩
  rcases Build.of_on_bind ran with ⟨type, typed, parsed, ran⟩
  rcases Build.of_on_bind ran with ⟨unfolding, unfolded, unfolds, ran⟩
  rcases Build.of_on_bind ran with ⟨root, sameUnfolded, isRoot, ran⟩
  rcases Build.of_on_bind ran with ⟨⟨patterns, state⟩, elaborated, elaborates, _⟩
  cases (congrArg Prod.snd isRoot : unfolded = sameUnfolded)
  exact ⟨type, root, unfolding, patterns, state, typed, unfolded, elaborated,
    parsed, unfolds, isRoot, elaborates⟩

section Accepts

variable {source : Source} {choices : List Choice} {type root : Ref} {unfolding : Nat}
  {patterns : List (Pattern × Scope)} {state : Elaboration}
  {typed unfolded elaborated : TypeGraph}
  (accepts : Accepts source choices type root unfolding patterns state typed
    unfolded elaborated)
include accepts

theorem Accepts.on_elaborateFor (more : List Choice) :
    (Build.elaborateFor source more).on {} =
      (do return (root, (← (elaborateChoices {} 0 [] root more).run {}).1) : Build _).on
        unfolded := by
  rw [Build.elaborateFor, Build.on_bind, accepts.parsed]
  dsimp only
  rw [Build.on_bind, accepts.unfolds]
  dsimp only
  rw [Build.on_bind, accepts.isRoot]

theorem Accepts.on_elaborateFor_self :
    (Build.elaborateFor source choices).on {} = (.ok (root, patterns), elaborated) := by
  rw [accepts.on_elaborateFor, Build.on_bind, accepts.elaborates]
  rfl

theorem Accepts.exists_gap? {answer? : Option String}
    (searched : ((do Build.gap? (← Build.elaborateFor source choices).1 : Build _).on
      {}).1.toOption = some answer?) :
    ∃ final, (Build.gap? root).on elaborated = (.ok answer?, final) := by
  rw [Build.on_bind, accepts.on_elaborateFor_self] at searched
  exact Build.of_on_toOption searched

end Accepts

def Build.gapLeft (source : String) (patterns : List Expr) : Build (Option String) := do
  let unfolding ← unfold (← parseType (.ofString source))
  let root ← unfoldingRoot unfolding
  let _ ← (elaborateChoices {} 0 [] root
      (patterns.map fun pattern => ⟨.first, pattern, none⟩)).run {}
  shareTags unfolding
  gap? root

/-- What is accepted after it does depend on the spelling. A head that is a name covers
the heads of all lists, also where the tail leaves lists out: the list of 2 and 2 is
missed here. -/
theorem gapLeft_chain :
    let one : Expr := .number .first "1" ⟨0x3FF0000000000000⟩
    let name : Expr := .symbol .first "_"
    let others : List Expr := [.binary .first .cons one name, .list .first .nil]
    let two : Value := .number ⟨0x4000000000000000⟩
    ((Build.gapLeft "list<number>" (.list .first (.cons name .nil) :: others)).on
      {}).1.toOption =
      some (some "(number)::_") ∧
    ((Build.gapLeft "list<number>" (Exprs.chain .first (.cons name .nil) :: others)).on
      {}).1.toOption =
      some none ∧
    ∀ pattern ∈ Exprs.chain .first (.cons name .nil) :: others,
      ¬ pattern.Takes {} (.list (.cons two (.cons two .nil))) := by
  refine ⟨by decide +kernel, by decide +kernel, ?_⟩
  simp [Exprs.chain, Expr.Takes, Exprs.Takes, Value.ofConstant]

end Casework
