import Casework.Proofs.TypeRecognition

/-!
The text of a type is read back.

The names that the printer gives to type variables are names that can be scanned, and
different numbers have different ones. So the text of a tree is scanned as the lexemes it
was laid out from, and these are parsed as the tree, with variables of its own. The main
statement is that the text of a type, if no variant in its source stays open, is the text
of a type of the same shape.
-/

namespace Casework

open Token

variable {ν : Type}

/-! ## Names of variables -/

theorem isScanned_variableText (number : Nat) :
    (Lexeme.name (variableText number)).IsScanned := by
  have letters : ∀ rest < 26, startsName (Char.ofNat ('a'.toNat + rest)) = true := by
    decide
  refine ⟨Char.ofNat ('a'.toNat + number % 26),
    (if number < 26 then "" else toString (number / 26)).toList,
    by simp [variableText], letters _ (Nat.mod_lt _ (by decide)),
    fun character member => ?_⟩
  split at member
  · cases member
  · rw [Nat.toString_eq_repr, Nat.toList_repr] at member
    exact continuesName_of_isDigit
      (Nat.isDigit_of_mem_toDigits (by decide) (by decide) member)

theorem variableText_injective {left right : Nat}
    (same : variableText left = variableText right) :
    left = right := by
  have letters : ∀ first < 26, ∀ second < 26,
      Char.ofNat ('a'.toNat + first) = Char.ofNat ('a'.toNat + second) → first =
      second := by decide
  have characters := congrArg String.toList same
  simp only [variableText, String.toList_append, String.toList_ofList, List.cons_append,
    List.nil_append, List.cons.injEq] at characters
  have remainder :=
    letters _ (Nat.mod_lt left (by decide)) _ (Nat.mod_lt right (by decide)) characters.1
  have digits (number : Nat) : Nat.ofDigitChars 10
      (if number < 26 then "" else toString (number / 26)).toList 0 = number / 26 := by
    split
    next small => simp [Nat.div_eq_of_lt small]
    next =>
        rw [Nat.toString_eq_repr, Nat.toList_repr]
        exact Nat.ofDigitChars_ten_toDigits
  have quotient : left / 26 = right / 26 := by
    rw [← digits left, ← digits right, characters.2]
  omega

/-! ## Separation -/

def EndsName (next? : Option Char) : Prop :=
  ∀ character, next? = some character → continuesName character = false

theorem endsName_of_mem {character : Char} (isStop : character ∈ " )>\x7d,".toList) :
    EndsName (some character) := by
  have all : " )>\x7d,".toList.all fun character => continuesName character = false := by
    decide
  rintro _ ⟨⟩
  exact of_decide_eq_true (List.all_eq_true.1 all character isStop)

section Separated

variable {text : ν → String} {rest : Layout}

theorem separated_enclosed {layout : Layout} (nested : Bool)
    (inner : ∀ rest : Layout, rest.Separated → EndsName rest.characters.head? →
      Layout.Separated (layout ++ rest))
    (separated : rest.Separated) (ends : EndsName rest.characters.head?) :
    Layout.Separated (encloseLayout nested layout ++ rest) := by
  cases nested with
  | false => exact inner rest separated ends
  | true =>
      have closed := Layout.separated_mark (by decide : ")" ∈ markTexts)
        (by decide) separated
      have opened := Layout.separated_mark (by decide : "(" ∈ markTexts) (by decide)
        (inner _ closed (endsName_of_mem (by decide)))
      simpa [encloseLayout] using opened

theorem isScanned_is : (Lexeme.name "is").IsScanned :=
  ⟨'i', ['s'], by decide, by decide, List.all_eq_true.1 (by decide)⟩

theorem isScanned_list : (Lexeme.name "list").IsScanned :=
  ⟨'l', ['i', 's', 't'], by decide, by decide, List.all_eq_true.1 (by decide)⟩

theorem isScanned_string : (Lexeme.name "string").IsScanned :=
  ⟨'s', "tring".toList, by decide, by decide, List.all_eq_true.1 (by decide)⟩

theorem isScanned_number : (Lexeme.name "number").IsScanned :=
  ⟨'n', "umber".toList, by decide, by decide, List.all_eq_true.1 (by decide)⟩

theorem isScanned_boolean : (Lexeme.name "boolean").IsScanned :=
  ⟨'b', "oolean".toList, by decide, by decide, List.all_eq_true.1 (by decide)⟩

theorem separated_primitive (primitive : Primitive) (separated : rest.Separated)
    (ends : EndsName rest.characters.head?) :
    Layout.Separated (primitive.layout ++ rest) := by
  cases primitive with
  | unit =>
      have closed := Layout.separated_mark (by decide : ")" ∈ markTexts)
        (by decide) separated
      exact Layout.separated_mark (by decide : "(" ∈ markTexts) (by decide) closed
  | text => exact Layout.separated_name isScanned_string separated ends
  | number => exact Layout.separated_name isScanned_number separated ends
  | boolean => exact Layout.separated_name isScanned_boolean separated ends

theorem separated_opening {label : String} (kind : RowKind) (isOpen : Bool)
    (scanned : (Lexeme.name label).IsScanned) (separated : rest.Separated) :
    Layout.Separated (kind.opening isOpen label ++ rest) := by
  cases kind with
  | variant => exact separated_name_space scanned separated
  | struct =>
      have word := separated_name_space isScanned_is separated
      cases isOpen with
      | false => exact separated_name_space scanned word
      | true =>
          apply Layout.separated_point scanned (Layout.separated_space word)
          exact endsName_of_mem (by decide)

theorem separated_separator (kind : RowKind) (separated : rest.Separated) :
    Layout.Separated (kind.separator ++ rest) := by
  cases kind with
  | struct => exact Layout.separated_mark_space (by decide) separated
  | variant =>
      exact Layout.separated_space (Layout.separated_mark_space (by decide) separated)

mutual

theorem TypeTree.separated {tree : TypeTree ν} {rest : Layout} (nested : Bool)
    (written : tree.IsWritten True)
    (scanned : ∀ name, (Lexeme.name (text name)).IsScanned) (separated : rest.Separated)
    (ends : EndsName rest.characters.head?) :
    Layout.Separated (tree.layout text nested ++ rest) := by
  match tree with
  | .var name =>
      have named := Layout.separated_name (scanned name) separated ends
      exact Layout.separated_mark (by decide) (by decide) named
  | .primitive primitive => exact separated_primitive primitive separated ends
  | .function argument result =>
      apply separated_enclosed nested _ separated ends
      intro rest separated ends
      have second := result.separated false written.2 scanned separated ends
      have arrow := Layout.separated_space
        (Layout.separated_mark_space (by decide : "->" ∈ markTexts) second)
      have first := argument.separated true written.1 scanned arrow
        (endsName_of_mem (by decide))
      simpa using first
  | .list element =>
      have closed := Layout.separated_mark (by decide : ">" ∈ markTexts)
        (by decide) separated
      have inner := element.separated false written scanned closed
        (endsName_of_mem (by decide))
      have opened := Layout.separated_mark (by decide : "<" ∈ markTexts) (by decide) inner
      have word := Layout.separated_name isScanned_list opened (by rintro _ ⟨⟩; decide)
      simpa [TypeTree.layout] using word
  | .row .struct isOpen entries =>
      have closed := Layout.separated_mark (by decide : "\x7d" ∈ markTexts)
        (by decide) separated
      have inner := entries.separated .struct isOpen true written.1.scanned
        written.2 scanned closed
        (endsName_of_mem (by decide))
      have opened := Layout.separated_mark (by decide : "\x7b" ∈ markTexts)
        (by decide) inner
      simpa [TypeTree.layout] using opened
  | .row .variant isOpen entries =>
      apply separated_enclosed nested _ separated ends
      intro rest separated ends
      exact entries.separated .variant isOpen true written.1.scanned written.2
        scanned separated ends

theorem TypeEntries.separated {entries : TypeEntries ν} {rest : Layout} (kind : RowKind)
    (isOpen first : Bool) (labels : ∀ label ∈ entries.labels,
      (Lexeme.name label).IsScanned) (written : entries.IsWritten True)
    (scanned : ∀ name, (Lexeme.name (text name)).IsScanned) (separated : rest.Separated)
    (ends : EndsName rest.characters.head?) :
    Layout.Separated (entries.layout text kind isOpen first ++ rest) := by
  match entries with
  | .nil => exact separated
  | .cons label type others =>
      rcases List.forall_mem_cons.1 labels with ⟨labelScanned, othersScanned⟩
      have further := others.separated kind isOpen false othersScanned written.2
        scanned separated ends
      have stops : EndsName
          (others.layout text kind isOpen false ++ rest : Layout).characters.head? := by
        cases others with
        | nil => exact ends
        | cons => cases kind <;> exact endsName_of_mem (by decide)
      have typed := type.separated kind.isTight written.1 scanned further stops
      have opened := separated_opening kind isOpen labelScanned typed
      cases first with
      | true => simpa [TypeEntries.layout] using opened
      | false => simpa [TypeEntries.layout] using separated_separator kind opened

end

end Separated

namespace TypeGraph

variable {graph : TypeGraph} {tree : TypeTree ν} {ref : Ref}

/-! ## Variables as nodes -/

mutual

theorem Shows.exists_place {tree : TypeTree ν} {ref : Ref} {place : ν → Ref → Prop}
    (shows : graph.Shows place tree ref) {name : ν} (member : name ∈ tree.names) :
    ∃ own, place name own := by
  match tree with
  | .var other =>
      cases List.mem_singleton.1 member
      exact ⟨ref, shows.1⟩
  | .primitive _ => cases member
  | .function argument result =>
      rcases shows with ⟨_, _, _, ⟨_, argumentShows⟩, _, resultShows⟩
      rcases List.mem_append.1 member with inArgument | inResult
      · exact argumentShows.exists_place inArgument
      · exact resultShows.exists_place inResult
  | .list element =>
      rcases shows with ⟨_, _, _, elementShows⟩
      exact elementShows.exists_place member
  | .row kind isOpen entries =>
      rcases shows with ⟨_, _, _, entriesShow⟩
      exact entriesShow.exists_place member

theorem ShowsAll.exists_place {entries : TypeEntries ν} {found : List (String × Ref)}
    {place : ν → Ref → Prop} (shows : graph.ShowsAll place entries found) {name : ν}
    (member : name ∈ entries.names) : ∃ own, place name own := by
  match entries with
  | .nil => cases member
  | .cons label type rest =>
      rcases shows with ⟨_, _, _, typeShows, restShows⟩
      rcases List.mem_append.1 member with inType | inRest
      · exact typeShows.exists_place inType
      · exact restShows.exists_place inRest

end

/-- A graph shows a tree, with the node of each variable, and different variables are
different nodes. -/
structure ShowsAt (graph : TypeGraph) (place : ν → Ref) (tree : TypeTree ν) (ref : Ref) :
    Prop where
  shows : graph.Shows (fun name own => own = place name) tree ref
  apart : ∀ left ∈ tree.names, ∀ right ∈ tree.names, place left =
    place right → left = right

theorem Ready.exists_showsAt {state : Reading} {allowed : Token → Prop}
    {text : ν → String} (ready : Ready allowed state graph)
    (shows : graph.Shows (state.Places text) tree ref) (distinct : ∀ left ∈ tree.names,
      ∀ right ∈ tree.names, text left = text right → left = right) :
    ∃ place, graph.ShowsAt place tree ref := by
  let place (name : ν) : Ref := (state.named.get? (text name)).getD default
  have placed {name : ν} {own : Ref} (names : state.Places text name own) : own =
      place name := by
    have found : state.named.get? (text name) = some own := names
    simp only [place, found, Option.getD_some]
  refine ⟨place, shows.mono (fun _ _ found => found) fun name _ own names =>
    placed names, ?_⟩
  intro left isLeft right isRight same
  rcases shows.exists_place isLeft with ⟨leftRef, leftNames⟩
  rcases shows.exists_place isRight with ⟨rightRef, rightNames⟩
  have equal : leftRef = rightRef :=
    (placed leftNames).trans (same.trans (placed rightNames).symm)
  exact distinct left isLeft right isRight
    (ready.apart _ _ leftRef leftNames (equal ▸ rightNames))

/-- Two types have the same shape: one tree is shown for both, so that kinds, labels and
their order agree, and so does what is open, and the variables of the one stand for those
of the other. -/
def SameShape (graph : TypeGraph) (ref : Ref) (other : TypeGraph) (twin : Ref) : Prop :=
  ∃ (tree : TypeTree String) (left right : String → Ref),
    graph.ShowsAt left tree ref ∧ other.ShowsAt right tree twin

/-! ## Texts -/

def variableTexts [DecidableEq ν] (tree : TypeTree ν) : ν → String :=
  numbered (meetAll [] tree.names)

theorem ShowsAt.exists_text [DecidableEq ν] {place : ν → Ref}
    (shows : graph.ShowsAt place tree ref) :
    ∃ text, graph.text ref = .ok text ∧
      text.toList = (tree.layout (variableTexts tree) false).characters := by
  have small := shows.shows.has.2
  have printed : ∃ text, Prints (graph.print (graph.size + 2) [] false ref)
      (([] : List ν).map place) text
      ((meetAll [] tree.names).map place) ∧ ∀ order, meetAll [] tree.names <+: order →
        text.toList = (tree.layout (numbered order) false).characters :=
    prints_tree shows.apart false shows.shows (by omega)
      (fun _ member => (List.not_mem_nil member).elim)
      (List.Subset.refl _) (List.nil_subset _)
  rcases printed with ⟨text, prints, written⟩
  refine ⟨text, ?_, written _ (List.prefix_refl _)⟩
  unfold Prints at prints
  rw [TypeGraph.text, List.map_nil] at *
  rw [prints]
  rfl

theorem exists_parseType {text : ν → String} (written : tree.IsWritten True)
    (scanned : ∀ name, (Lexeme.name (text name)).IsScanned) {line : String}
    (same : line.toList = (tree.layout text false).characters) :
    ∃ again state rebuilt, (Build.parseType (.ofString line)).on {} =
      (.ok again, rebuilt) ∧
      Ready AnyToken state rebuilt ∧ rebuilt.Shows (state.Places text) tree again := by
  have nothing : Layout.Separated [] := trivial
  have separated := tree.separated false written scanned nothing nofun
  rw [List.append_nil] at separated
  rcases scan_ofString separated same with ⟨tokens, finish, scans, lexemes⟩
  let whole := tokens ++ [(⟨.finish, finish⟩ : Token)]
  have ready : Ready AnyToken { tokens := whole } {} := ⟨fun _ _ => trivial, nofun, nofun⟩
  have spelled : Reading.lexemes { tokens := whole } =
      (tree.layout text false).lexemes ++ [.finish] := by
    simp [Reading.lexemes, whole, lexemes]
  have parses : Stateful.Yields (TypeParser.parseWhole (whole.length + 1))
      { tokens := whole } {}
      (Rebuilds text tree [.finish] { tokens := whole } {}) GivesUp := by
    apply ((TypeParser.isParsed_of_isWritten written).whole _ _ {} [.finish] ready
      ⟨_, _, rfl, rfl, rfl⟩ spelled).bind
    rintro again between middle ⟨left, built⟩
    apply TypeParser.yields_peeked_bind left
    exact fun place => Stateful.yields_pure ⟨left, built⟩
  have yields : (Build.parseType (.ofString line)).Yields {} (fun again rebuilt =>
      ∃ state, Rebuilds text tree [.finish] { tokens := whole } {} again state rebuilt)
        GivesUp := by
    unfold Build.parseType
    rw [scans]
    apply Build.Yields.bind parses
    exact fun result middle done => Build.yields_pure ⟨result.2, done⟩
  have reported := yields_parseType tidy_empty (.ofString line)
  rcases ran : (Build.parseType (.ofString line)).on {} with ⟨failure | again, rebuilt⟩
  · have isPanic := yields.of_error ran
    have notPanic := reported.of_error ran trivial
    exact absurd (isPanic.symm.trans notPanic) nofun
  · rcases yields.of_ok ran with ⟨state, _, enlarges, shows⟩
    exact ⟨again, state, rebuilt, rfl, enlarges.ready, shows⟩

theorem variableTexts_apart [DecidableEq ν] {left right : ν} (isLeft : left ∈ tree.names)
    (same : variableTexts tree left = variableTexts tree right) : left = right := by
  have numbers := variableText_injective same
  exact (List.idxOf_inj (mem_meetAll.2 (.inr isLeft))).1 numbers

/-- A source without an open variant that is parsed as a type is printed. What is printed
is parsed as a type of the same shape in an empty graph, and printed in the same way. -/
theorem parseType_text {source : Source} {tokens : List Token}
    {graph built : TypeGraph} {type : Ref} (scanned : Token.scan source = .ok tokens)
    (closed : ∀ token ∈ tokens, token.lexeme ≠ .mark "...")
    (parsed : (Build.parseType source).on graph = (.ok type, built)) :
    ∃ text again rebuilt, built.text type = .ok text ∧
      (Build.parseType (.ofString text)).on {} = (.ok again, rebuilt) ∧
      SameShape built type rebuilt again ∧ rebuilt.text again = .ok text := by
  have generic : ∀ token ∈ tokens, token.lexeme = .mark "'" → True := fun _ _ _ => trivial
  rcases exists_tree_of_parseType scanned closed generic parsed with
    ⟨state, tree, ready, written, shows, _⟩
  have names : built.Shows (state.Places id) tree type := shows
  rcases ready.exists_showsAt names fun _ _ _ _ same => same with ⟨left, leftShows⟩
  rcases leftShows.exists_text with ⟨text, isText, same⟩
  rcases exists_parseType written (fun name => isScanned_variableText _) same with
    ⟨again, after, rebuilt, ran, againReady, againShows⟩
  rcases againReady.exists_showsAt againShows fun _ isLeft _ _ =>
    variableTexts_apart isLeft with
    ⟨right, rightShows⟩
  rcases rightShows.exists_text with ⟨other, isOther, otherSame⟩
  have equal : other = text := String.toList_inj.1 (otherSame.trans same.symm)
  exact ⟨text, again, rebuilt, isText, ran, ⟨tree, left, right, leftShows, rightShows⟩,
    equal ▸ isOther⟩

theorem parseType_text_requiredFields :
    let source : Source :=
  .ofString "(Some 'y | None ()) -> \x7bx is list<'y -> 'x>, .y is ('x), x is bool\x7d"
    let text := "(Some 'a | None ()) -> \x7b.x is boolean, .y is 'b\x7d"
    ∃ type built again rebuilt, (Build.parseType source).on {} = (.ok type, built) ∧
      built.text type = .ok text ∧ (Build.parseType (.ofString text)).on {} =
      (.ok again, rebuilt) ∧
      SameShape built type rebuilt again ∧ rebuilt.text again = .ok text := by
  intro source text
  have scans : (Token.scan source).toOption.any (fun tokens =>
      decide (∀ token ∈ tokens, token.lexeme ≠ .mark "...")) = true := by decide +kernel
  have prints : (match (Build.parseType source).on {} with
      | (.ok type, built) => decide (built.text type = .ok text)
      | _ => false) = true := by decide +kernel
  cases scanned : Token.scan source with
  | error failure =>
      rw [scanned] at scans
      cases scans
  | ok tokens =>
      rw [scanned] at scans
      split at prints
      next type built parsed =>
          rcases parseType_text scanned (of_decide_eq_true scans) parsed with
            ⟨own, again, rebuilt, isText, reparsed, shape, isTextAgain⟩
          cases (of_decide_eq_true prints).symm.trans isText
          exact ⟨type, built, again, rebuilt, parsed, of_decide_eq_true prints, reparsed,
            shape, isTextAgain⟩
      next => cases prints

end TypeGraph

end Casework
