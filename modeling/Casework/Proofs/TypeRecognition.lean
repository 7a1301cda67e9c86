import Casework.Proofs.ExprRoundTrip
import Casework.Proofs.TypeReading
import Casework.Proofs.TypeText

/-!
The lexemes of a tree are parsed as the tree.

A type in parentheses is parsed where an atom is expected, and every other type needs no
more than a token after it that neither goes on with a function nor with a variant. That
the bounds on nesting and on repetitions suffice is known from elsewhere, so a parser may
give up at one of them here.
-/

namespace Casework

theorem Row.foldl_put_of_nodup {entries : List (String × Ref)} {row : Row}
    (distinct : (row.labels ++ entries.map Prod.fst).Nodup) :
    (entries.foldl (fun row (label, ref) => row.put label ref) row).entries =
      row.entries ++ entries := by
  induction entries generalizing row with
  | nil => simp
  | cons first rest induction =>
      have absent : row.get? first.1 = none := by
        rw [Row.get?_eq_none_iff, Bool.eq_false_iff]
        intro contains
        rcases Row.exists_get?_of_contains contains with ⟨ref, found⟩
        have isLabel : first.1 ∈ row.labels :=
          List.mem_map.2 ⟨_, Row.mem_of_get? found, rfl⟩
        exact List.disjoint_of_nodup_append distinct isLabel List.mem_cons_self
      have stored : (row.put first.1 first.2).entries = row.entries ++ [first] :=
        Row.entries_put_of_absent absent
      have still : ((row.put first.1 first.2).labels ++ rest.map Prod.fst).Nodup := by
        rw [Row.labels, stored]
        simpa [Row.labels] using distinct
      rw [List.foldl_cons, induction still, stored, List.append_assoc,
        List.singleton_append]

theorem Row.entries_ofList_of_nodup {entries : List (String × Ref)}
    (distinct : (entries.map Prod.fst).Nodup) : (Row.ofList entries).entries = entries :=
  Row.foldl_put_of_nodup distinct

namespace TypeGraph

open Casework.Parser Stateful TypeParser

variable {ν : Type} {graph middle later : TypeGraph} {state between after : Reading}
  {text : ν → String}

def AnyToken (_ : Token) : Prop := True

def GivesUp (failure : Failure) (_ : TypeGraph) : Prop := failure.isPanic = true

def Reading.lexemes (state : Reading) : List Lexeme := state.tokens.map Token.lexeme

def Reading.Places (state : Reading) (text : ν → String) (name : ν) (ref : Ref) : Prop :=
  state.Names (text name) ref

def Rebuilds (text : ν → String) (tree : TypeTree ν) (rest : List Lexeme)
    (state : Reading) (graph : TypeGraph) (ref : Ref) (after : Reading)
    (later : TypeGraph) : Prop :=
  after.lexemes = rest ∧ Enlarges AnyToken state graph after later ∧
    later.Shows (after.Places text) tree ref

def RebuildsAll (text : ν → String) (entries : TypeEntries ν) (rest : List Lexeme)
    (state : Reading) (graph : TypeGraph) (found : List (String × Ref)) (after : Reading)
    (later : TypeGraph) : Prop :=
  after.lexemes = rest ∧ Enlarges AnyToken state graph after later ∧
    later.ShowsAll (after.Places text) entries found

theorem Enlarges.shows {tree : TypeTree ν} {ref : Ref}
    (enlarges : Enlarges AnyToken state graph after later)
    (shows : graph.Shows (state.Places text) tree ref) :
    later.Shows (after.Places text) tree ref :=
  shows.mono enlarges.nodes fun name _ => enlarges.named (text name)

namespace TypeParser

/-! ## Lexemes -/

section Rules

variable {β : Type} {last : β → Reading → TypeGraph → Prop} {lexeme : Lexeme}
  {more : List Lexeme}

theorem yields_settles_bind {α : Type} {parser : Parser α}
    {next : α → TypeParser β} {value : α} {rest : List Token}
    (settles : parser.Settles state.tokens value rest)
    (second : Yields (next value) { state with tokens := rest } graph last GivesUp) :
    Yields (reading parser >>= next) state graph last GivesUp := by
  have first : Yields (reading parser) state graph (fun result after later =>
      graph = later ∧ after = { state with tokens := rest } ∧ result =
        value) GivesUp := by
    apply yields_get_bind
    unfold Settles at settles
    rcases ran : parser.run state.tokens with error | ⟨result, left⟩ <;>
      rw [ran] at settles
    · exact settles
    · cases settles
      exact And.intro rfl ⟨rfl, rfl⟩
  apply first.bind
  rintro _ _ _ ⟨rfl, rfl, rfl⟩
  exact second

theorem yields_word_bind {next : Bool → TypeParser β} {word : String}
    (ready : Ready AnyToken state graph) (spelled : state.lexemes = lexeme :: more)
    (isWord : lexeme.isWord word = true) (rest : ∀ between, between.lexemes = more →
      Enlarges AnyToken state graph between graph →
      Yields (next true) between graph last GivesUp) :
    Yields (accept word >>= next) state graph last GivesUp := by
  rcases Grammar.exists_cons_of_map spelled with ⟨position, tokens, same, others⟩
  have settles : (Parser.accept word).Settles state.tokens true tokens := by
    rw [same]
    exact settles_accept isWord
  exact yields_settles_bind settles (rest _ others (ready.take same))

theorem yields_other_bind {next : Bool → TypeParser β} {word : String}
    (spelled : state.lexemes = lexeme :: more) (isOther : lexeme.isWord word = false)
    (rest : Yields (next false) state graph last GivesUp) :
    Yields (accept word >>= next) state graph last GivesUp := by
  rcases Grammar.exists_cons_of_map spelled with ⟨position, tokens, same, others⟩
  have settles : (Parser.accept word).Settles state.tokens false state.tokens := by
    rw [same]
    exact settles_accept_other isOther
  exact yields_settles_bind settles rest

theorem yields_expected_bind {next : Unit → TypeParser β} {word : String}
    (ready : Ready AnyToken state graph) (spelled : state.lexemes = lexeme :: more)
    (isWord : lexeme.isWord word = true) (rest : ∀ between, between.lexemes = more →
      Enlarges AnyToken state graph between graph →
      Yields (next ()) between graph last GivesUp) :
    Yields (expect word >>= next) state graph last GivesUp := by
  rcases Grammar.exists_cons_of_map spelled with ⟨position, tokens, same, others⟩
  have settles : (Parser.expect word).Settles state.tokens () tokens := by
    rw [same]
    exact settles_expect isWord
  exact yields_settles_bind settles (rest _ others (ready.take same))

theorem yields_named_bind {next : Position × String → TypeParser β} {name : String}
    {cause : Lexeme → SyntaxCause} (ready : Ready AnyToken state graph)
    (spelled : state.lexemes = .name name :: more)
    (rest : ∀ place between, between.lexemes = more →
      Enlarges AnyToken state graph between graph →
      Yields (next (place, name)) between graph last GivesUp) :
    Yields (reading (takeName cause) >>= next) state graph last GivesUp := by
  rcases Grammar.exists_cons_of_map spelled with ⟨position, tokens, same, others⟩
  have settles : (takeName cause).Settles state.tokens (position, name) tokens := by
    rw [same]
    exact settles_takeName
  exact yields_settles_bind settles (rest position _ others (ready.take same))

theorem yields_taken_bind {next : Token → TypeParser β}
    (ready : Ready AnyToken state graph) (spelled : state.lexemes = lexeme :: more)
    (isGoing : lexeme ≠ .finish) (rest : ∀ place between, between.lexemes = more →
      Enlarges AnyToken state graph between graph →
      Yields (next ⟨lexeme, place⟩) between graph last GivesUp) :
    Yields (reading take >>= next) state graph last GivesUp := by
  rcases Grammar.exists_cons_of_map spelled with ⟨position, tokens, same, others⟩
  have settles : take.Settles state.tokens ⟨lexeme, position⟩ tokens := by
    rw [same]
    cases lexeme with
    | finish => exact absurd rfl isGoing
    | _ => exact rfl
  exact yields_settles_bind settles (rest position _ others (ready.take same))

theorem yields_peeked_bind {next : Token → TypeParser β}
    (spelled : state.lexemes = lexeme :: more)
    (rest : ∀ place, Yields (next ⟨lexeme, place⟩) state graph last GivesUp) :
    Yields (reading peek >>= next) state graph last GivesUp := by
  rcases Grammar.exists_cons_of_map spelled with ⟨position, tokens, same, others⟩
  have settles : peek.Settles state.tokens ⟨lexeme, position⟩ state.tokens := by
    rw [same]
    exact settles_peek
  exact yields_settles_bind settles (rest position)

end Rules

/-! ## Types and atoms -/

/-- A token that neither goes on with a function nor with a variant. -/
def EndsType (rest : List Lexeme) : Prop :=
  ∃ lexeme more, rest = lexeme :: more ∧ lexeme.isWord "->" = false ∧
    lexeme.isWord "|" = false

/-- A parser builds a tree from the lexemes of its layout. -/
def Parses (text : ν → String) (parser : TypeParser Ref)
    (tree : TypeTree ν) (nested : Bool) (follow : List Lexeme → Prop) : Prop :=
  ∀ state graph rest, Ready AnyToken state graph → follow rest →
    state.lexemes = (tree.layout text nested).lexemes ++ rest →
    Yields parser state graph (Rebuilds text tree rest state graph) GivesUp

/-- A tree is parsed as a type, and in parentheses as an atom. -/
structure IsParsed (text : ν → String) (tree : TypeTree ν) : Prop where
  whole : ∀ fuel, Parses text (parseNested fuel) tree false EndsType
  atom : ∀ fuel, Parses text (parseAtom (parseNested fuel)) tree true fun _ => True

def AreParsed (text : ν → String) : TypeEntries ν → Prop
  | .nil => True
  | .cons _ type rest => IsParsed text type ∧ AreParsed text rest

theorem isWord_name {name word : String} (scanned : (Lexeme.name name).IsScanned)
    (isMark : word ∈ markTexts) : (Lexeme.name name).isWord word = false := by
  rw [Lexeme.isWord, beq_eq_false_iff_ne]
  rintro rfl
  exact scanned.isDistinct isMark

theorem exists_first_atom (text : ν → String) (tree : TypeTree ν) :
    ∃ first more, (tree.layout text true).lexemes = first :: more ∧
      startsVariant first = false ∧
      first.isWord ")" = false := by
  cases tree with
  | var name => exact ⟨_, _, rfl, rfl, rfl⟩
  | primitive primitive =>
      cases primitive with
      | unit => exact ⟨_, _, rfl, rfl, rfl⟩
      | _ => exact ⟨_, _, rfl, by decide, by decide⟩
  | function argument result => exact ⟨_, _, rfl, rfl, rfl⟩
  | list element => exact ⟨_, _, rfl, by decide, by decide⟩
  | row kind isOpen entries =>
      cases kind with
      | struct => exact ⟨_, _, rfl, rfl, rfl⟩
      | variant => exact ⟨_, _, rfl, rfl, rfl⟩

theorem exists_first_type {text : ν → String} {tree : TypeTree ν}
    (written : tree.IsWritten True) :
    ∃ first more, (tree.layout text false).lexemes = first :: more ∧
      first.isWord ")" = false := by
  match tree with
  | .var name => exact ⟨_, _, rfl, rfl⟩
  | .primitive .unit => exact ⟨_, _, rfl, rfl⟩
  | .primitive .text | .primitive .number | .primitive .boolean =>
      exact ⟨_, _, rfl, by decide⟩
  | .function argument result =>
      rcases exists_first_atom text argument with ⟨first, more, starts, _, notClosing⟩
      refine ⟨first, more ++ .mark "->" ::
        (result.layout text false).lexemes, ?_, notClosing⟩
      simp [TypeTree.layout, encloseLayout, starts]
  | .list element => exact ⟨_, _, rfl, by decide⟩
  | .row .struct isOpen entries => exact ⟨_, _, rfl, rfl⟩
  | .row .variant isOpen .nil => exact absurd rfl (written.1.nonempty (.inl rfl))
  | .row .variant isOpen (.cons label type rest) =>
      exact ⟨_, _, rfl,
        isWord_name (written.1.scanned label List.mem_cons_self) (by decide)⟩

section Types

variable {tree : TypeTree ν}

theorem parses_alternatives {fuel : Nat}
    (atom : Parses text (parseAtom (parseNested fuel)) tree true fun _ => True) :
    Parses text (parseAlternatives (parseNested fuel)) tree true fun _ => True := by
  intro state graph rest ready _ spelled
  rcases exists_first_atom text tree with ⟨first, more, starts, isAtom, _⟩
  have begins : state.lexemes = first :: (more ++ rest) := by
    rw [spelled, starts, List.cons_append]
  apply yields_peeked_bind begins
  intro place
  dsimp only
  rw [isAtom]
  exact atom state graph rest ready trivial spelled

theorem yields_nested {fuel : Nat} {rest : List Lexeme} (follow : EndsType rest)
    (alternatives : Yields (parseAlternatives (parseNested fuel)) state graph
      (Rebuilds text tree rest state graph) GivesUp) :
    Yields (parseNested (fuel + 1)) state graph
      (Rebuilds text tree rest state graph) GivesUp := by
  apply alternatives.bind
  rintro ref between middle ⟨left, built⟩
  rcases follow with ⟨lexeme, more, rfl, noArrow, _⟩
  exact yields_other_bind left noArrow (yields_pure ⟨left, built⟩)

theorem isParsed_of_atom (same : tree.layout text false = tree.layout text true)
    (atom : ∀ fuel, Parses text (parseAtom (parseNested fuel)) tree true fun _ => True) :
    IsParsed text tree := by
  refine ⟨fun fuel => ?_, atom⟩
  cases fuel with
  | zero => exact fun _ _ _ _ _ _ => rfl
  | succ fuel =>
      intro state graph rest ready follow spelled
      rw [same] at spelled
      exact yields_nested follow
        (parses_alternatives (atom fuel) state graph rest ready trivial spelled)

theorem isParsed_of_whole (written : tree.IsWritten True)
    (same : tree.layout text true = encloseLayout true (tree.layout text false))
    (whole : ∀ fuel, Parses text (parseNested fuel) tree false EndsType) :
    IsParsed text tree := by
  refine ⟨whole, fun fuel state graph rest ready _ spelled => ?_⟩
  rcases exists_first_type written with ⟨first, more, starts, notClosing⟩
  have begins : state.lexemes = .mark "(" ::
      ((tree.layout text false).lexemes ++ .mark ")" :: rest) := by
    simp [spelled, same, encloseLayout]
  apply yields_taken_bind ready begins (by rintro ⟨⟩)
  intro place opened inner openGrows
  have goesOn : opened.lexemes = first :: (more ++ .mark ")" :: rest) := by
    rw [inner, starts, List.cons_append]
  apply yields_other_bind goesOn notClosing
  apply (whole fuel opened graph _ openGrows.ready ⟨_, _, rfl, rfl, rfl⟩ inner).bind
  rintro ref between middle ⟨left, grows, shows⟩
  apply yields_expected_bind grows.ready left rfl
  intro closed remaining closeGrows
  exact yields_pure ⟨remaining, (openGrows.trans grows).trans closeGrows,
    closeGrows.shows shows⟩

theorem isParsed_var {name : ν} : IsParsed text (.var name) := by
  apply isParsed_of_atom rfl
  intro fuel state graph rest ready _ spelled
  apply yields_taken_bind ready spelled nofun
  intro place opened inner openGrows
  apply yields_named_bind openGrows.ready inner
  intro position named remaining nameGrows
  apply (yields_variable nameGrows.ready (text name)).imp
  rintro ref after later ⟨tokens, grows, names⟩
  have left : after.lexemes = rest :=
    (congrArg (List.map Token.lexeme) tokens).trans remaining
  exact ⟨left, (openGrows.trans nameGrows).trans grows, names,
    grows.ready.named _ ref names⟩

theorem isParsed_primitive {primitive : Primitive} :
    IsParsed text (.primitive primitive) := by
  apply isParsed_of_atom rfl
  intro fuel state graph rest ready _ spelled
  cases primitive with
  | unit =>
      apply yields_taken_bind ready spelled nofun
      intro place opened inner openGrows
      apply yields_word_bind openGrows.ready inner rfl
      intro closed remaining closeGrows
      exact And.intro remaining
        ⟨(openGrows.trans closeGrows).trans (closeGrows.ready.allocate _),
          node_allocate_self _ _⟩
  | _ =>
      apply yields_taken_bind ready spelled nofun
      intro place named remaining nameGrows
      exact And.intro remaining ⟨nameGrows.trans (nameGrows.ready.allocate _),
        node_allocate_self _ _⟩

theorem isParsed_list {element : TypeTree ν} (parsed : IsParsed text element) :
    IsParsed text (.list element) := by
  apply isParsed_of_atom rfl
  intro fuel state graph rest ready _ spelled
  have begins : state.lexemes = .name "list" :: .mark "<" ::
      ((element.layout text false).lexemes ++ .mark ">" :: rest) := by
    simp [spelled, TypeTree.layout]
  apply yields_taken_bind ready begins nofun
  intro place named following nameGrows
  apply yields_expected_bind nameGrows.ready following rfl
  intro opened inner openGrows
  apply (parsed.whole fuel opened graph _ openGrows.ready
    ⟨_, _, rfl, rfl, rfl⟩ inner).bind
  rintro ref between middle ⟨left, grows, shows⟩
  apply yields_expected_bind grows.ready left rfl
  intro closed remaining closeGrows
  have all := (nameGrows.trans openGrows).trans (grows.trans closeGrows)
  exact And.intro remaining
    ⟨all.trans (all.ready.allocate _), shows_allocate_list (closeGrows.shows shows)⟩

theorem isParsed_function {argument result : TypeTree ν}
    (written : (TypeTree.function argument result).IsWritten True)
    (argumentParsed : IsParsed text argument) (resultParsed : IsParsed text result) :
    IsParsed text (.function argument result) := by
  apply isParsed_of_whole written rfl
  intro fuel
  cases fuel with
  | zero => exact fun _ _ _ _ _ _ => rfl
  | succ fuel =>
      intro state graph rest ready follow spelled
      have begins : state.lexemes = (argument.layout text true).lexemes ++
          .mark "->" :: ((result.layout text false).lexemes ++ rest) := by
        simp [spelled, TypeTree.layout, encloseLayout]
      apply (parses_alternatives (argumentParsed.atom fuel) state graph _ ready
        trivial begins).bind
      rintro left first middle ⟨following, leftGrows, leftShows⟩
      apply yields_word_bind leftGrows.ready following rfl
      intro second inner arrowGrows
      apply (resultParsed.whole fuel second middle rest arrowGrows.ready
        follow inner).bind
      rintro right third last ⟨remaining, rightGrows, rightShows⟩
      have all := (leftGrows.trans arrowGrows).trans rightGrows
      exact And.intro remaining ⟨all.trans (all.ready.allocate _),
        shows_allocate_function
        ((arrowGrows.trans rightGrows).shows leftShows) rightShows⟩

end Types

/-! ## Rows -/

section Rows

variable {isOpen : Bool} {fuel : Nat}

/-- Fields have been built, and one of them is written after a point if the struct is
open. -/
def RebuildsFields (text : ν → String) (isOpen : Bool) (entries : TypeEntries ν)
    (rest : List Lexeme) (state : Reading) (graph : TypeGraph)
    (fields : List (String × Ref) × Bool) (after : Reading) (later : TypeGraph) : Prop :=
  RebuildsAll text entries rest state graph fields.1 after later ∧
    (fields.2 = true ↔ isOpen = true ∧ entries.labels ≠ [])

theorem parses_field {label : String} {type : TypeTree ν}
    {entries : TypeEntries ν} {count : Nat} {rest : List Lexeme} {comma : Reading}
    (parsed : IsParsed text type) (following : ∀ next graph, Ready AnyToken next graph →
      next.lexemes = (entries.layout text .struct isOpen false).lexemes ++
        .mark "\x7d" :: rest →
      Yields (parseFields (parseNested fuel) count false) next graph
        (RebuildsFields text isOpen entries rest next graph) GivesUp)
    (scanned : (Lexeme.name label).IsScanned)
    (grows : Enlarges AnyToken state graph comma graph) (spelled : comma.lexemes =
      (RowKind.struct.opening isOpen label ++ type.layout text false ++
      entries.layout text .struct isOpen false : Layout).lexemes ++
        .mark "\x7d" :: rest) :
    Yields (do
      let pointed ← accept "."
      let (_, name) ← reading (takeName .expectedField)
      expect "is"
      let field ← parseNested fuel
      let (fields, someLaterPointed) ← parseFields (parseNested fuel) count false
      return ((name, field) :: fields, pointed || someLaterPointed)) comma graph
      (RebuildsFields text isOpen (.cons label type entries) rest state graph)
        GivesUp := by
  have named (point : Reading) (pointGrows : Enlarges AnyToken state graph point graph)
      (begins : point.lexemes = .name label :: .name "is" ::
        ((type.layout text false).lexemes ++
          ((entries.layout text .struct isOpen false).lexemes ++ .mark "\x7d" :: rest))) :
      Yields (do
        let (_, name) ← reading (takeName .expectedField)
        expect "is"
        let field ← parseNested fuel
        let (fields, someLaterPointed) ← parseFields (parseNested fuel) count false
        return ((name, field) :: fields, isOpen || someLaterPointed)) point graph
        (RebuildsFields text isOpen (.cons label type entries) rest state graph)
          GivesUp := by
    apply yields_named_bind pointGrows.ready begins
    intro place second afterName nameGrows
    apply yields_expected_bind nameGrows.ready afterName rfl
    intro third afterWord wordGrows
    have ends : EndsType ((entries.layout text .struct isOpen false).lexemes ++
        .mark "\x7d" :: rest) := by
      cases entries with
      | nil => exact ⟨_, _, rfl, rfl, rfl⟩
      | cons => exact ⟨_, _, rfl, rfl, rfl⟩
    apply (parsed.whole fuel third graph _ wordGrows.ready ends afterWord).bind
    rintro field fourth middle ⟨afterField, fieldGrows, fieldShows⟩
    apply (following fourth middle fieldGrows.ready afterField).bind
    rintro ⟨fields, someLaterPointed⟩ after later
      ⟨⟨remaining, restGrows, restShow⟩, pointed⟩
    have grows := ((pointGrows.trans nameGrows).trans wordGrows).trans
      (fieldGrows.trans restGrows)
    refine yields_pure
      ⟨⟨remaining, grows, field, fields, rfl, restGrows.shows fieldShows, restShow⟩, ?_⟩
    cases isOpen <;> simp_all [TypeEntries.labels]
  cases isOpen with
  | true =>
      have begins : comma.lexemes = .mark "." :: .name label :: .name "is" ::
          ((type.layout text false).lexemes ++
            ((entries.layout text .struct true false).lexemes ++
              .mark "\x7d" :: rest)) := by
        simpa [RowKind.opening] using spelled
      apply yields_word_bind grows.ready begins rfl
      exact fun point afterPoint pointGrows =>
        named point (grows.trans pointGrows) afterPoint
  | false =>
      have begins : comma.lexemes = .name label :: .name "is" ::
          ((type.layout text false).lexemes ++
            ((entries.layout text .struct false false).lexemes ++
              .mark "\x7d" :: rest)) := by
        simpa [RowKind.opening] using spelled
      apply yields_other_bind begins (isWord_name scanned (by decide))
      exact named comma grows begins

theorem parses_fields {state : Reading} {graph : TypeGraph} {entries : TypeEntries ν}
    (areParsed : AreParsed text entries)
    (scanned : ∀ label ∈ entries.labels, (Lexeme.name label).IsScanned)
    (count : Nat) (first : Bool) {rest : List Lexeme} (ready : Ready AnyToken state graph)
    (spelled : state.lexemes = (entries.layout text .struct isOpen first).lexemes ++
      .mark "\x7d" :: rest) :
    Yields (parseFields (parseNested fuel) count first) state graph
      (RebuildsFields text isOpen entries rest state graph) GivesUp := by
  match count, entries with
  | 0, _ => exact rfl
  | count + 1, .nil =>
      apply yields_word_bind ready spelled rfl
      intro closed remaining grows
      exact yields_pure ⟨⟨remaining, grows, rfl⟩, by simp [TypeEntries.labels]⟩
  | count + 1, .cons label type others =>
      rcases List.forall_mem_cons.1 scanned with ⟨labelScanned, othersScanned⟩
      have following : ∀ next graph, Ready AnyToken next graph →
          next.lexemes = (others.layout text .struct isOpen false).lexemes ++
          .mark "\x7d" :: rest →
          Yields (parseFields (parseNested fuel) count false) next graph
            (RebuildsFields text isOpen others rest next graph) GivesUp :=
        fun _ _ => parses_fields areParsed.2 othersScanned count false
      cases first with
      | true =>
          have begins : ∃ lexeme more, state.lexemes = lexeme :: more ∧
              lexeme.isWord "\x7d" = false := by
            cases isOpen with
            | true => exact ⟨_, _, spelled, rfl⟩
            | false => exact ⟨_, _, spelled, isWord_name labelScanned (by decide)⟩
          rcases begins with ⟨lexeme, more, begins, notClosing⟩
          apply yields_other_bind begins notClosing
          exact parses_field areParsed.1 following labelScanned ready.enlarges spelled
      | false =>
          apply yields_other_bind spelled rfl
          apply yields_expected_bind ready spelled rfl
          intro comma afterComma grows
          exact parses_field areParsed.1 following labelScanned grows afterComma
termination_by structural entries

theorem isParsed_struct {entries : TypeEntries ν}
    (admits : RowKind.struct.Admits isOpen entries.labels)
    (areParsed : AreParsed text entries) :
    IsParsed text (.row .struct isOpen entries) := by
  apply isParsed_of_atom rfl
  intro fuel state graph rest ready _ spelled
  have begins : state.lexemes = .mark "\x7b" ::
      ((entries.layout text .struct isOpen true).lexemes ++ .mark "\x7d" :: rest) := by
    simp [spelled, TypeTree.layout]
  apply yields_taken_bind ready begins nofun
  intro place opened inner openGrows
  apply yields_get_bind
  apply (parses_fields areParsed admits.scanned _ true openGrows.ready inner).bind
  rintro ⟨fields, pointed⟩ between middle ⟨⟨remaining, grows, shows⟩, isPointed⟩
  have isOpenToo : pointed = isOpen := by
    rw [Bool.eq_iff_iff, isPointed]
    exact ⟨And.left, fun isTrue => ⟨isTrue, admits.nonempty (.inr isTrue)⟩⟩
  have distinct : (fields.map Prod.fst).Nodup := shows.labels ▸ admits.distinct
  rw [← Row.entries_ofList_of_nodup distinct] at shows
  subst isOpenToo
  apply (yields_newRow grows.ready shows).imp
  rintro ref after later ⟨rfl, rowGrows, rowShows⟩
  exact ⟨remaining, (openGrows.trans grows).trans rowGrows, rowShows⟩

theorem yields_takeTag_bind {β : Type} {last : β → Reading → TypeGraph → Prop}
    {next : String → TypeParser β} {tag : String} {more : List Lexeme}
    (ready : Ready AnyToken state graph) (isTag : isTagName tag = true)
    (spelled : state.lexemes = .name tag :: more) (rest : ∀ between, between.lexemes =
      more → Enlarges AnyToken state graph between graph →
      Yields (next tag) between graph last GivesUp) :
    Yields (takeTag >>= next) state graph last GivesUp := by
  unfold takeTag
  rw [bind_assoc]
  apply yields_taken_bind ready spelled nofun
  intro place between following grows
  dsimp only
  rw [if_pos isTag]
  exact rest between following grows

theorem parses_tags {state : Reading} {graph : TypeGraph} {label : String}
    {type : TypeTree ν} {entries : TypeEntries ν} (parsed : IsParsed text type)
    (areParsed : AreParsed text entries) (tags : ∀ own ∈ label :: entries.labels,
      isTagName own = true) (count : Nat) {rest : List Lexeme}
    (scanned : ∀ own ∈ label :: entries.labels, (Lexeme.name own).IsScanned)
    (ready : Ready AnyToken state graph) (follow : EndsType rest)
    (spelled : state.lexemes =
      ((TypeEntries.cons label type entries).layout text .variant isOpen true).lexemes ++
        rest) :
    Yields (parseTags (parseNested fuel) count) state graph (fun found after later =>
      RebuildsAll text (.cons label type entries) rest state graph found.1 after later ∧
        found.2 = false)
      GivesUp := by
  cases count with
  | zero => exact rfl
  | succ count =>
  rcases List.forall_mem_cons.1 tags with ⟨isTag, areTags⟩
  rcases List.forall_mem_cons.1 scanned with ⟨labelScanned, othersScanned⟩
  have begins : state.lexemes = .name label :: ((type.layout text true).lexemes ++
      ((entries.layout text .variant isOpen false).lexemes ++ rest)) := by
    simp [spelled, TypeEntries.layout, RowKind.opening, RowKind.isTight]
  apply yields_takeTag_bind ready isTag begins
  intro first afterTag tagGrows
  apply (parsed.atom fuel first graph _ tagGrows.ready trivial afterTag).bind
  rintro payload second middle ⟨afterPayload, payloadGrows, payloadShows⟩
  have grows := tagGrows.trans payloadGrows
  cases entries with
  | nil =>
      rcases follow with ⟨lexeme, more, rfl, _, noBar⟩
      apply yields_other_bind afterPayload noBar
      exact yields_pure ⟨⟨afterPayload, grows, payload, [], rfl, payloadShows, rfl⟩, rfl⟩
  | cons next other others =>
      have bar : second.lexemes = .mark "|" ::
          (((TypeEntries.cons next other others).layout text .variant isOpen
            true).lexemes ++ rest) :=
        afterPayload
      apply yields_word_bind grows.ready bar rfl
      intro third afterBar barGrows
      have goesOn : ∃ more, third.lexemes = .name next :: more := ⟨_, afterBar⟩
      rcases goesOn with ⟨more, goesOn⟩
      apply yields_other_bind goesOn
        (isWord_name (othersScanned next List.mem_cons_self) (by decide))
      apply (parses_tags areParsed.1 areParsed.2 areTags count othersScanned
        barGrows.ready follow afterBar).bind
      rintro ⟨found, isOpen⟩ after later ⟨⟨remaining, restGrows, restShow⟩, closed⟩
      exact yields_pure
        ⟨⟨remaining, (grows.trans barGrows).trans restGrows, payload, found, rfl,
          (barGrows.trans restGrows).shows payloadShows, restShow⟩, closed⟩
termination_by structural entries

theorem isParsed_variant {entries : TypeEntries ν}
    (written : (TypeTree.row .variant isOpen entries).IsWritten True)
    (areParsed : AreParsed text entries) :
    IsParsed text (.row .variant isOpen entries) := by
  apply isParsed_of_whole written rfl
  intro fuel
  match fuel, entries with
  | 0, _ => exact fun _ _ _ _ _ _ => rfl
  | fuel + 1, .nil => exact absurd rfl (written.1.nonempty (.inl rfl))
  | fuel + 1, .cons label type others =>
      intro state graph rest ready follow spelled
      have admits := written.1
      have tags := admits.tags rfl
      have begins : ∃ more, state.lexemes = .name label :: more := ⟨_, spelled⟩
      rcases begins with ⟨more, begins⟩
      apply yields_nested follow
      apply yields_peeked_bind begins
      intro place
      rw [startsVariant, if_pos (tags.2 label List.mem_cons_self)]
      apply yields_get_bind
      apply (parses_tags areParsed.1 areParsed.2 tags.2 _ admits.scanned ready
        follow spelled).bind
      rintro ⟨found, stays⟩ between middle ⟨⟨remaining, grows, shows⟩, closed⟩
      have distinct : (found.map Prod.fst).Nodup := shows.labels ▸ admits.distinct
      rw [← Row.entries_ofList_of_nodup distinct] at shows
      have same : stays = isOpen := closed.trans tags.1.symm
      subst same
      apply (yields_newRow grows.ready shows).imp
      rintro ref after later ⟨rfl, rowGrows, rowShows⟩
      exact ⟨remaining, grows.trans rowGrows, rowShows⟩

end Rows

mutual

theorem isParsed_of_isWritten {tree : TypeTree ν} (written : tree.IsWritten True) :
    IsParsed text tree := by
  match tree with
  | .var name => exact isParsed_var
  | .primitive primitive => exact isParsed_primitive
  | .function argument result =>
      exact isParsed_function written (isParsed_of_isWritten written.1)
        (isParsed_of_isWritten written.2)
  | .list element => exact isParsed_list (isParsed_of_isWritten written)
  | .row .struct isOpen entries =>
      exact isParsed_struct written.1 (areParsed_of_isWritten written.2)
  | .row .variant isOpen entries =>
      exact isParsed_variant written (areParsed_of_isWritten written.2)

theorem areParsed_of_isWritten {entries : TypeEntries ν}
    (written : entries.IsWritten True) :
    AreParsed text entries := by
  match entries with
  | .nil => exact trivial
  | .cons label type rest =>
      exact ⟨isParsed_of_isWritten written.1, areParsed_of_isWritten written.2⟩

end


end TypeParser

end TypeGraph

end Casework
