import Casework.Proofs.ExprLayout
import Casework.Proofs.TypeTrees
import Casework.TypeGraph.Printer

/-!
The text of a type as a layout of lexemes.

A tree in a graph is printed without the names that cycles need. Its variables are
numbered in the order of their first appearance, and since numbers are only ever added,
the text is that of the tree under the numbers that are known in the end.
-/

namespace Casework

open Token

variable {ν : Type}

/-! ## Layouts -/

/-- The name of the variable with the given number, without its apostrophe. -/
def variableText (number : Nat) : String :=
  String.ofList [Char.ofNat ('a'.toNat + number % 26)] ++
    (if number < 26 then "" else toString (number / 26))

theorem variableName_eq (number : Nat) :
    variableName number = "'" ++ variableText number := by
  rw [variableName, variableText, String.append_assoc]

def Primitive.layout : Primitive → Layout
  | .unit => [some (.mark "("), some (.mark ")")]
  | primitive => [some (.name primitive.name)]

namespace RowKind

/-- What stands before the type of a field or a tag. -/
def opening (kind : RowKind) (isOpen : Bool) (label : String) : Layout :=
  match kind with
  | struct =>
      (if isOpen then [some (.mark ".")] else []) ++
        [some (.name label), none, some (.name "is"), none]
  | variant => [some (.name label), none]

def separator : RowKind → Layout
  | struct => [some (.mark ","), none]
  | variant => [none, some (.mark "|"), none]

def isTight : RowKind → Bool
  | struct => false
  | variant => true

end RowKind

mutual

def TypeTree.layout (text : ν → String) (nested : Bool) : TypeTree ν → Layout
  | .var name => [some (.mark "'"), some (.name (text name))]
  | .primitive primitive => primitive.layout
  | .function argument result =>
      encloseLayout nested
        (argument.layout text true ++ none :: some (.mark "->") :: none ::
          result.layout text false)
  | .list element =>
      some (.name "list") :: some (.mark "<") ::
        (element.layout text false ++ [some (.mark ">")])
  | .row .struct isOpen entries =>
      some (.mark "\x7b") ::
        (entries.layout text .struct isOpen true ++ [some (.mark "\x7d")])
  | .row .variant isOpen entries =>
      encloseLayout nested (entries.layout text .variant isOpen true)

def TypeEntries.layout (text : ν → String) (kind : RowKind) (isOpen first : Bool) :
    TypeEntries ν → Layout
  | .nil => []
  | .cons label type rest =>
      (if first then [] else kind.separator) ++ (kind.opening isOpen label ++
        type.layout text kind.isTight ++ rest.layout text kind isOpen false)

end

/-! ## Numbers of variables -/

section Numbering

variable [DecidableEq ν]

def meet (met : List ν) (name : ν) : List ν :=
  if name ∈ met then met else met ++ [name]

def meetAll (met names : List ν) : List ν := names.foldl meet met

/-- The texts of variables that are numbered in order. -/
def numbered (order : List ν) (name : ν) : String := variableText (order.idxOf name)

theorem prefix_meet (met : List ν) (name : ν) : met <+: meet met name := by
  unfold meet
  split
  · exact List.prefix_refl met
  · exact List.prefix_append met [name]

theorem prefix_meetAll (met names : List ν) : met <+: meetAll met names := by
  induction names generalizing met with
  | nil => exact List.prefix_refl met
  | cons name names induction => exact (prefix_meet met name).trans (induction _)

theorem meetAll_append (met left right : List ν) :
    meetAll met (left ++ right) = meetAll (meetAll met left) right :=
  List.foldl_append

theorem mem_meet {met : List ν} {name other : ν} :
    other ∈ meet met name ↔ other ∈ met ∨ other = name := by
  unfold meet
  split
  next isMet =>
      constructor
      · exact .inl
      · rintro (old | rfl)
        · exact old
        · exact isMet
  next => simp

theorem mem_meetAll {met names : List ν} {other : ν} :
    other ∈ meetAll met names ↔ other ∈ met ∨ other ∈ names := by
  induction names generalizing met with
  | nil => simp [meetAll]
  | cons name names induction =>
      change other ∈ meetAll (meet met name) names ↔ _
      rw [induction, mem_meet, List.mem_cons, or_assoc]

theorem meetAll_subset {met names all : List ν} (within : met ⊆ all)
    (also : names ⊆ all) :
    meetAll met names ⊆ all := by
  intro name member
  rcases mem_meetAll.1 member with isMet | isName
  · exact within isMet
  · exact also isName

theorem idxOf_of_prefix {met order : List ν} {name : ν} (isMet : name ∈ met)
    (isPrefix : met <+: order) :
    order.idxOf name = met.idxOf name := by
  rcases isPrefix with ⟨more, rfl⟩
  rw [List.idxOf_append, if_pos isMet]

end Numbering

namespace TypeGraph

variable {graph : TypeGraph}

/-! ## Runs of the printer -/

/-- Printing gives a text and more names, and meets no type inside itself. -/
def Prints {α : Type} (act : Printing α) (before : List Ref) (value : α)
    (after : List Ref) : Prop :=
  act.run { named := before } = .ok (value, { named := after })

section Rules

variable {α β : Type} {before middle after : List Ref}

theorem prints_pure {value : α} : Prints (pure value) before value before := rfl

theorem Prints.bind {act : Printing α} {next : α → Printing β} {value : α} {result : β}
    (first : Prints act before value middle)
    (second : Prints (next value) middle result after) :
    Prints (act >>= next) before result after := by
  unfold Prints
  rw [StateT.run_bind, first]
  exact second

theorem prints_lift {query : Except Fault α} {value : α} (found : query = .ok value) :
    Prints (liftM query : Printing α) before value before := by
  subst found
  rfl

theorem prints_get_bind {next : Names → Printing β} {result : β}
    (rest : Prints (next { named := before }) before result after) :
    Prints (get >>= next) before result after := rest

theorem prints_recursive {ref : Ref} {yes no : Printing α} {value : α}
    (rest : Prints no before value after) :
    Prints (do if ref ∈ (← get).recursive then yes else no) before value after := rest

end Rules

theorem shown_of_node {ref : Ref} {node : Node} (found : graph.node ref = .ok node)
    (unlinked : node.link = none) (isShown : ∀ origin, node.form ≠ .var (some origin)) :
    graph.shown (graph.size + 1) ref = .ok (ref, node.form) := by
  have followed : graph.deref ref = .ok ref := (Rooted.self found unlinked).deref
  rw [shown, followed]
  change (graph.node ref >>= _) = _
  rw [found]
  dsimp only [bind, Except.bind]
  cases form : node.form with
  | var origin =>
      cases origin with
      | none => rfl
      | some origin => exact absurd form (isShown origin)
  | _ => rfl

theorem text_primitive {ref : Ref} {own : Primitive} {node : Node}
    (found : graph.node ref = .ok node) (unlinked : node.link = none)
    (form : node.form = .primitive own) : graph.text ref = .ok own.name := by
  have prints : Prints (graph.print (graph.size + 2) [] false ref) [] own.name [] := by
    rw [print]
    apply (prints_lift (shown_of_node found unlinked (form ▸ nofun))).bind
    rw [form]
    exact prints_pure
  rw [text, prints]
  rfl

section Text

variable [DecidableEq ν] {place : ν → Ref} {all : List ν}

theorem findIdx?_place
    (apart : ∀ left ∈ all, ∀ right ∈ all, place left = place right → left = right)
    {met : List ν} {name : ν} (isName : name ∈ all) (within : met ⊆ all) :
    (met.map place).findIdx? (· = place name) = if name ∈ met then
      some (met.idxOf name) else none := by
  induction met with
  | nil => rfl
  | cons first others induction =>
      have rest := induction fun own member => within (List.mem_cons_of_mem _ member)
      rw [List.map_cons, List.findIdx?_cons, rest]
      by_cases same : first = name
      · subst same
        simp
      · have different : place first ≠ place name := fun equal =>
          same (apart first (within List.mem_cons_self) name isName equal)
        have unequal : name ≠ first := fun equal => same equal.symm
        by_cases isMet : name ∈ others <;> simp [different, same, unequal, isMet]

theorem prints_nameOf
    (apart : ∀ left ∈ all, ∀ right ∈ all, place left = place right → left = right)
    {met : List ν} {name : ν} (isName : name ∈ all) (within : met ⊆ all) :
    Prints (nameOf (place name)) (met.map place)
      (variableName ((meet met name).idxOf name)) ((meet met name).map place) := by
  have found := findIdx?_place apart isName within
  apply prints_get_bind
  dsimp only
  rw [found]
  unfold meet
  split
  next number isNumber =>
      rw [Option.ite_none_right_eq_some] at isNumber
      rw [if_pos isNumber.1, ← Option.some.inj isNumber.2]
      exact prints_pure
  next isNew =>
      have unmet : name ∉ met := by simpa using isNew
      rw [if_neg unmet, List.idxOf_append, if_neg unmet, List.idxOf_cons_self,
        Nat.zero_add, List.map_append, ← List.length_map (f := place)]
      rfl

theorem not_mem_around {around : List Ref} {ref : Ref}
    (outside : ∀ own ∈ around, ref.number < own.number) :
    ref ∉ around := fun member => Int.lt_irrefl _ (outside ref member)

theorem prints_closing {ref : Ref} {text : String} {enclosed : Bool} {before : List Ref} :
    Prints (do
      let (text, enclosed) ← pure (text, enclosed)
      if ref ∈ (← get).recursive then
        return parenthesize ((← nameOf ref) ++ " is " ++ text)
      else return if enclosed then parenthesize text else text) before
      (if enclosed then parenthesize text else text) before :=
  prints_recursive prints_pure

theorem parenthesize_toList {text : String} {layout : Layout}
    (written : text.toList = layout.characters) (nested : Bool) :
    (if nested then parenthesize text else text).toList =
      (encloseLayout nested layout).characters := by
  cases nested with
  | false => exact written
  | true => simp [parenthesize, encloseLayout, written]

theorem intercalate_toList (separator first : String) (others : List String) :
    (separator.intercalate (first :: others)).toList =
      first.toList ++ others.flatMap fun text => separator.toList ++ text.toList := by
  rw [String.toList_intercalate, List.map_cons]
  induction others generalizing first with
  | nil => simp
  | cons second others induction =>
      rw [List.map_cons, List.intercalate_cons_cons, induction, List.flatMap_cons]
      simp

omit [DecidableEq ν] in
theorem intercalate_entries {text : ν → String} {kind : RowKind} {isOpen : Bool}
    {entries : TypeEntries ν} {texts : List String} {separator : String}
    (isSeparator : separator.toList = kind.separator.characters)
    (written : (texts.flatMap fun text => kind.separator.characters ++ text.toList) =
      (entries.layout text kind isOpen false).characters) :
    (separator.intercalate texts).toList =
      (entries.layout text kind isOpen true).characters := by
  rw [← isSeparator] at written
  have nonempty (rest : List Char) : separator.toList ++ rest ≠ [] := by
    rw [isSeparator]
    cases kind <;> exact List.cons_ne_nil _ _
  cases texts with
  | nil =>
      cases entries with
      | nil => rfl
      | cons label type rest =>
          rw [TypeEntries.layout, if_neg Bool.false_ne_true, Layout.characters_append,
            ← isSeparator] at written
          exact absurd written.symm (nonempty _)
  | cons first others =>
      cases entries with
      | nil =>
          rw [List.flatMap_cons, List.append_assoc] at written
          exact absurd written (nonempty _)
      | cons label type rest =>
          rw [List.flatMap_cons, List.append_assoc, TypeEntries.layout,
            if_neg Bool.false_ne_true, Layout.characters_append, ← isSeparator] at written
          rw [intercalate_toList, List.append_cancel_left written,
            TypeEntries.layout, if_pos rfl]
          rfl

/-- A type is printed after the names that were met before it, and its text is its layout,
whatever comes after it. -/
def PrintsTree (graph : TypeGraph) (place : ν → Ref) (fuel : Nat) (around : List Ref)
    (nested : Bool) (met : List ν) (tree : TypeTree ν) (ref : Ref) : Prop :=
  ∃ text, Prints (graph.print fuel around nested ref) (met.map place) text
      ((meetAll met tree.names).map place) ∧
    ∀ order, meetAll met tree.names <+: order →
      text.toList = (tree.layout (numbered order) nested).characters

def PrintsEntries (graph : TypeGraph) (place : ν → Ref) (fuel : Nat) (around : List Ref)
    (kind : RowKind) (isOpen : Bool) (lead : String → String) (met : List ν)
    (entries : TypeEntries ν) (found : List (String × Ref)) : Prop :=
  ∃ texts, Prints (found.mapM fun (name, type) => do
      return lead name ++ (← graph.print fuel around kind.isTight type))
        (met.map place) texts ((meetAll met entries.names).map place) ∧
    ∀ order, meetAll met entries.names <+: order →
      (texts.flatMap fun text => kind.separator.characters ++ text.toList) =
        (entries.layout (numbered order) kind isOpen false).characters

section Cases

variable {met : List ν} {ref : Ref} {fuel : Nat} {around : List Ref} (nested : Bool)

theorem printsTree_var
    (apart : ∀ left ∈ all, ∀ right ∈ all, place left = place right → left = right)
    {name : ν} (found : graph.node (place name) = .ok { form := .var none })
    (inside : name ∈ all) (within : met ⊆ all) :
    graph.PrintsTree place (fuel + 1) around nested met (.var name) (place name) := by
  rw [PrintsTree, print]
  refine ⟨_, (prints_lift (shown_of_node found rfl (by simp))).bind
    (prints_nameOf apart inside within), fun order isPrefix => ?_⟩
  have isMet : name ∈ meet met name := mem_meet.2 (.inr rfl)
  have number := idxOf_of_prefix isMet isPrefix
  simp [variableName_eq, TypeTree.layout, numbered, number]

theorem printsTree_function {argument result : TypeTree ν} {first second : Ref}
    (found : graph.node ref = .ok { form := .function first second })
    (outside : ref ∉ around)
    (left : graph.PrintsTree place fuel (ref :: around) true met argument first)
    (right : graph.PrintsTree place fuel (ref :: around) false
      (meetAll met argument.names) result second) :
    graph.PrintsTree place (fuel + 1) around nested met (.function argument result)
      ref := by
  rcases left with ⟨left, leftPrints, leftWritten⟩
  rcases right with ⟨right, rightPrints, rightWritten⟩
  refine ⟨if nested then parenthesize (left ++ " -> " ++ right) else
    left ++ " -> " ++ right, ?_, ?_⟩
  · rw [print]
    apply (prints_lift (shown_of_node found rfl nofun)).bind
    dsimp only
    rw [if_neg outside, TypeTree.names, meetAll_append]
    exact leftPrints.bind (rightPrints.bind prints_closing)
  · intro order isPrefix
    rw [TypeTree.names, meetAll_append] at isPrefix
    have argumentWritten := leftWritten order ((prefix_meetAll _ _).trans isPrefix)
    apply parenthesize_toList
    simp [argumentWritten, rightWritten order isPrefix]

theorem printsTree_list {element : TypeTree ν} {part : Ref}
    (found : graph.node ref = .ok { form := .list part }) (outside : ref ∉ around)
    (inner : graph.PrintsTree place fuel (ref :: around) false met element part) :
    graph.PrintsTree place (fuel + 1) around nested met (.list element) ref := by
  rcases inner with ⟨text, prints, written⟩
  refine ⟨"list<" ++ text ++ ">", ?_, ?_⟩
  · rw [print]
    apply (prints_lift (shown_of_node found rfl nofun)).bind
    dsimp only
    rw [if_neg outside]
    exact prints.bind prints_closing
  · intro order isPrefix
    simp [TypeTree.layout, written order isPrefix]

theorem printsTree_struct {isOpen : Bool} {entries : TypeEntries ν} {row : Row}
    (found : graph.node ref =
      .ok { form := .row .struct row (if isOpen then none else some row) })
    (outside : ref ∉ around)
    (inner : graph.PrintsEntries place fuel (ref :: around) .struct isOpen
      (fun label => (if isOpen then "." else "") ++ label ++ " is ") met entries
      row.entries) :
    graph.PrintsTree place (fuel + 1) around nested met (.row .struct isOpen entries)
      ref := by
  rcases inner with ⟨texts, prints, written⟩
  refine ⟨"\x7b" ++ ", ".intercalate texts ++ "\x7d", ?_, ?_⟩
  · rw [print]
    apply (prints_lift (shown_of_node found rfl nofun)).bind
    dsimp only
    rw [if_neg outside]
    cases isOpen <;> exact prints.bind prints_closing
  · intro order isPrefix
    have joined := intercalate_entries (by rfl : ", ".toList = _)
      (written order isPrefix)
    simp [TypeTree.layout, joined]

theorem printsTree_variant {isOpen : Bool} {entries : TypeEntries ν} {row : Row}
    (found : graph.node ref =
      .ok { form := .row .variant row (if isOpen then none else some row) })
    (outside : ref ∉ around)
    (inner : graph.PrintsEntries place fuel (ref :: around) .variant isOpen
      (fun label => label ++ " ") met entries row.entries) :
    graph.PrintsTree place (fuel + 1) around nested met (.row .variant isOpen entries)
      ref := by
  rcases inner with ⟨texts, prints, written⟩
  refine ⟨if nested then parenthesize (" | ".intercalate texts) else
    " | ".intercalate texts, ?_, ?_⟩
  · rw [print]
    apply (prints_lift (shown_of_node found rfl nofun)).bind
    dsimp only
    rw [if_neg outside]
    cases isOpen <;> exact prints.bind prints_closing
  · intro order isPrefix
    have joined := intercalate_entries (by rfl : " | ".toList = _)
      (written order isPrefix)
    exact parenthesize_toList joined nested

theorem printsEntries_cons {kind : RowKind} {isOpen : Bool} {lead : String → String}
    (leads : ∀ label, (lead label).toList = (kind.opening isOpen label).characters)
    {label : String} {type : TypeTree ν} {rest : TypeEntries ν}
    {others : List (String × Ref)}
    (first : graph.PrintsTree place fuel around kind.isTight met type ref)
    (more : graph.PrintsEntries place fuel around kind isOpen lead
      (meetAll met type.names) rest others) :
    graph.PrintsEntries place fuel around kind isOpen lead met (.cons label type rest)
      ((label, ref) :: others) := by
  rcases first with ⟨text, prints, written⟩
  rcases more with ⟨texts, restPrints, restWritten⟩
  refine ⟨(lead label ++ text) :: texts, ?_, fun order isPrefix => ?_⟩
  · rw [List.mapM_cons, TypeEntries.names, meetAll_append]
    have first :
        Prints (do return lead label ++ (← graph.print fuel around kind.isTight ref))
          (met.map place) (lead label ++ text) ((meetAll met type.names).map place) :=
      prints.bind prints_pure
    exact first.bind (restPrints.bind prints_pure)
  · rw [TypeEntries.names, meetAll_append] at isPrefix
    have texted := written order ((prefix_meetAll _ _).trans isPrefix)
    simp [TypeEntries.layout, leads, texted, restWritten order isPrefix]

end Cases

mutual

theorem prints_tree
    (apart : ∀ left ∈ all, ∀ right ∈ all, place left = place right → left = right)
    {met : List ν} {tree : TypeTree ν} {ref : Ref} {fuel : Nat} {around : List Ref}
    (nested : Bool) (shows : graph.Shows (fun name ref => ref = place name) tree ref)
    (enough : ref.number < fuel) (outside : ∀ own ∈ around, ref.number < own.number)
    (names : tree.names ⊆ all) (within : met ⊆ all) :
    graph.PrintsTree place fuel around nested met tree ref := by
  have positive := shows.has.1
  match fuel with
  | 0 => omega
  | fuel + 1 =>
  have notAround := not_mem_around outside
  have inside {part : Ref} (before : part.number < ref.number) :
      part.number < fuel ∧ ∀ own ∈ ref :: around, part.number < own.number := by
    refine ⟨by omega, List.forall_mem_cons.2 ⟨before, fun own member => ?_⟩⟩
    exact Int.lt_trans before (outside own member)
  match tree with
  | .var name =>
      rcases shows with ⟨rfl, found⟩
      exact printsTree_var nested apart found (names List.mem_cons_self) within
  | .primitive primitive =>
      rw [PrintsTree, print]
      refine ⟨_, (prints_lift (shown_of_node shows rfl (by simp))).bind prints_pure,
        fun order _ => ?_⟩
      cases primitive <;> simp [TypeTree.layout, Primitive.layout, Primitive.name]
  | .function argument result =>
      rcases shows with
        ⟨first, second, found, ⟨firstBefore, argumentShows⟩, secondBefore, resultShows⟩
      rcases List.append_subset.1 names with ⟨argumentNames, resultNames⟩
      exact printsTree_function nested found notAround
        (prints_tree apart true argumentShows (inside firstBefore).1
          (inside firstBefore).2 argumentNames within)
        (prints_tree apart false resultShows (inside secondBefore).1
          (inside secondBefore).2 resultNames (meetAll_subset within argumentNames))
  | .list element =>
      rcases shows with ⟨inner, found, before, elementShows⟩
      exact printsTree_list nested found notAround
        (prints_tree apart false elementShows (inside before).1 (inside before).2 names
          within)
  | .row kind isOpen entries =>
      rcases shows with ⟨row, found, before, entriesShow⟩
      have enough : ∀ part ∈ row.entries.map Prod.snd, part.number < fuel :=
        fun part member => (inside (before part member)).1
      have inner : ∀ own ∈ ref :: around, ∀ part ∈ row.entries.map Prod.snd,
          part.number < own.number :=
        fun own member part isPart => (inside (before part isPart)).2 own member
      cases kind with
      | struct =>
          exact printsTree_struct nested found notAround
            (prints_entries apart .struct isOpen _
              (by cases isOpen <;> simp [RowKind.opening]) entriesShow enough inner names
              within)
      | variant =>
          exact printsTree_variant nested found notAround
            (prints_entries apart .variant isOpen _ (by simp [RowKind.opening])
              entriesShow enough inner names within)
termination_by structural tree

theorem prints_entries
    (apart : ∀ left ∈ all, ∀ right ∈ all, place left = place right → left = right)
    {met : List ν} {entries : TypeEntries ν} {found : List (String × Ref)} {fuel : Nat}
    {around : List Ref} (kind : RowKind) (isOpen : Bool) (lead : String → String)
    (leads : ∀ label, (lead label).toList = (kind.opening isOpen label).characters)
    (shows : graph.ShowsAll (fun name ref => ref = place name) entries found)
    (enough : ∀ ref ∈ found.map Prod.snd, ref.number < fuel)
    (outside : ∀ own ∈ around, ∀ ref ∈ found.map Prod.snd, ref.number < own.number)
    (names : entries.names ⊆ all) (within : met ⊆ all) :
    graph.PrintsEntries place fuel around kind isOpen lead met entries found := by
  match entries with
  | .nil =>
      cases shows
      exact ⟨[], prints_pure, fun order _ => rfl⟩
  | .cons label type rest =>
      rcases shows with ⟨ref, others, rfl, typeShows, restShows⟩
      rcases List.append_subset.1 names with ⟨typeNames, restNames⟩
      exact printsEntries_cons leads
        (prints_tree apart kind.isTight typeShows (enough ref List.mem_cons_self)
          (fun own member => outside own member ref List.mem_cons_self) typeNames within)
        (prints_entries apart kind isOpen lead leads restShows
          (fun own member => enough own (List.mem_cons_of_mem _ member))
          (fun own member part isPart =>
            outside own member part (List.mem_cons_of_mem _ isPart))
          restNames (meetAll_subset within typeNames))
termination_by structural entries

end

end Text

end TypeGraph

end Casework
