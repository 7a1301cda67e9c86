import Casework.Proofs.Quotation

/-!
Printed text is scanned as the tokens it was printed from.

A layout is a row of lexemes with spaces here and there. If every lexeme ends before the
character after it, scanning the text of the layout gives its lexemes and nothing else.
-/

namespace Casework

open Token

namespace Lexeme

/-- A lexeme does not go on with the character that follows it. -/
def EndsBefore (lexeme : Lexeme) (next? : Option Char) : Prop :=
  match lexeme with
  | name _ => ∀ character, next? = some character → continuesName character = false
  | number _ => Stops next?
  | mark text =>
      (text = ":" → next? ≠ some ':') ∧ (text = "-" → next? ≠ some '>') ∧
        (text = "." → ∀ character, next? = some character → character ≠ '.' ∧
          character.isDigit = false)
  | quoted _ => True
  | finish => True

/-- A character that starts a lexeme, as opposed to a space, a comment or a byte order
mark. -/
structure Opens (character : Char) : Prop where
  notBlank : isBlank character = false
  notComment : character ≠ '/'
  notOrderMark : character ≠ '\uFEFF'

/-- A lexeme is scanned wherever its text stands, if it ends before what follows. -/
structure Rescans (lexeme : Lexeme) : Prop where
  starts : ∃ first rest, lexeme.text.toList = first :: rest ∧ Opens first
  noNul : NoNul lexeme.text.toList
  rescans : ∀ position first glyphs left, current? glyphs = some first →
    Spells glyphs lexeme.text.toList left → Checked left →
    lexeme.EndsBefore (current? left) →
    scanLexeme position first glyphs = .ok (lexeme, left)

theorem opens_of_startsName {character : Char} (starts : startsName character = true) :
    Opens character where
  notBlank := by
    rw [Bool.eq_false_iff]
    intro isBlank
    simp only [Token.isBlank, Bool.or_eq_true, beq_iff_eq, or_assoc] at isBlank
    rcases isBlank with rfl | rfl | rfl | rfl <;> exact absurd starts (by decide)
  notComment := by
    rintro rfl
    exact absurd starts (by decide)
  notOrderMark := by
    rintro rfl
    exact absurd starts (by decide +kernel)

theorem rescans_name {text : String} (scanned : (name text).IsScanned) :
    (name text).Rescans := by
  rcases scanned with ⟨first, rest, written, starts, all⟩
  have allContinue : ∀ character ∈ first :: rest, continuesName character = true :=
    List.forall_mem_cons.2 ⟨by simp [continuesName, starts], all⟩
  have noNul : NoNul text.toList := by
    rw [written]
    exact fun character isMember =>
      toNat_ne_zero_of_continuesName (allContinue character isMember)
  refine ⟨⟨first, rest, written, opens_of_startsName starts⟩, noNul, ?_⟩
  intro position character glyphs left found spelled checked ends
  change Spells glyphs text.toList left at spelled
  have taken : takeWhile (some position) continuesName glyphs = .ok (text.toList, left) :=
    takeWhile_spelled spelled (written ▸ allContinue) noNul ends checked
  have same : character = first := by
    rw [written] at spelled
    exact Option.some.inj (found.symm.trans spelled.current?_eq)
  subst same
  unfold scanLexeme
  rw [if_pos starts, taken]
  change Except.ok (name (String.ofList text.toList), left) = _
  rw [String.ofList_toList]

theorem opens_of_isDigit {character : Char}
    (isDigit : character.isDigit = true ∨ character = '.') :
    Opens character where
  notBlank := by
    rw [Bool.eq_false_iff]
    intro isBlank
    simp only [Token.isBlank, Bool.or_eq_true, beq_iff_eq, or_assoc] at isBlank
    rcases isBlank with rfl | rfl | rfl | rfl <;> exact absurd isDigit (by decide)
  notComment := by
    rintro rfl
    exact absurd isDigit (by decide)
  notOrderMark := by
    rintro rfl
    exact absurd isDigit (by decide)

theorem startsName_of_isDigit {character : Char} (isDigit : character.isDigit = true) :
    startsName character = false := by
  have bounds := toNat_of_isDigit isDigit
  have small : character.toNat < 0x80 := Nat.lt_of_le_of_lt bounds.2 (by decide)
  have notAlpha : character.isAlpha = false := by
    rw [Bool.eq_false_iff]
    intro isAlpha
    have alphaBounds := toNat_of_isAlpha isAlpha
    omega
  have notUnderscore : (character == '_') = false := by
    rw [beq_eq_false_iff_ne]
    rintro rfl
    exact absurd isDigit (by decide)
  simp [startsName, Text.isLetter, small, notAlpha, notUnderscore]

theorem rescans_number {text : String} (scanned : (number text).IsScanned) :
    (number text).Rescans := by
  rcases scanned with ⟨⟨first, rest, written, starts⟩, noNul, rescans⟩
  refine ⟨⟨first, rest, written, opens_of_isDigit (starts.imp_right And.left)⟩, noNul, ?_⟩
  intro position character glyphs left found spelled checked ends
  change Spells glyphs text.toList left at spelled
  have scanned := rescans (some position) glyphs left spelled checked ends
  rw [written] at spelled
  have same : character = first := Option.some.inj (found.symm.trans spelled.current?_eq)
  subst same
  have ended : (do
      let taken ← scanNumber (some position) glyphs
      return (Lexeme.number (String.ofList taken.1), taken.2)) =
        .ok (number text, left) := by
    rw [scanned]
    change Except.ok (number (String.ofList text.toList), left) = _
    rw [String.ofList_toList]
  unfold scanLexeme
  rcases starts with isDigit | ⟨rfl, digitFollows⟩
  · rw [if_neg (by simp [startsName_of_isDigit isDigit]), if_pos isDigit]
    exact ended
  · rw [if_neg (by decide), if_neg (by decide), if_pos]
    · exact ended
    · rcases spelled with ⟨_, following, rfl, spelled⟩
      cases rest with
      | nil => cases digitFollows
      | cons digit rest =>
          rcases spelled with ⟨_, _, rfl, _⟩
          exact digitFollows

theorem rescans_quoted (bytes : List UInt8) :
    (quoted (Text.quoteBytes bytes)).Rescans := by
  have written := Text.quoteBytes_toList bytes
  have bodyNoNul := noNul_shown (Text.decode bytes)
  have noNul : NoNul (Text.quoteBytes bytes).toList := by
    rw [written]
    exact List.forall_mem_cons.2 ⟨by decide, bodyNoNul⟩
  refine ⟨⟨_, _, written, by decide, by decide, by decide⟩, noNul, ?_⟩
  intro position character glyphs left found spelled checked _
  change Spells glyphs (Text.quoteBytes bytes).toList left at spelled
  rw [written] at spelled
  have same : character = '"' := Option.some.inj (found.symm.trans spelled.current?_eq)
  subst same
  rcases spelled with ⟨place, following, rfl, spelled⟩
  have enough : (Text.decode bytes).length < following.length + 1 := by
    have short := Text.length_le_flatMap_shown (Text.decode bytes)
    have long := spelled.length_eq
    rw [List.length_append] at long
    omega
  unfold scanLexeme
  rw [if_neg (by decide), if_neg (by decide), if_neg (by simp), if_pos (by rfl),
    advance_cons (spelled.checked bodyNoNul checked)]
  change scanString (some position) (following.length + 1) following >>= _ = _
  rw [scanString_shown (Text.decode bytes) enough spelled checked]
  change Except.ok (quoted (String.ofList ('"' :: _)), left) = _
  rw [← written, String.ofList_toList]

/-! ## Marks -/

theorem scanMark_single {position place : Position} {character : Char} {left : List Glyph}
    (isMark : character ∈ marks) (checked : Checked left)
    (ends : (mark (String.ofList [character])).EndsBefore (current? left)) :
    scanMark position character (⟨some character, place⟩ :: left) =
      .ok (String.ofList [character], left) := by
  rcases ends with ⟨noColon, noArrow, noDots⟩
  unfold scanMark
  rw [advance_cons checked]
  dsimp only [bind, Except.bind]
  split
  next found => exact absurd found (noColon rfl)
  next found => exact absurd found (noArrow rfl)
  next found => exact absurd rfl (noDots rfl '.' found).1
  next =>
      rw [if_pos isMark]
      rfl

structure OpensMark (character : Char) : Prop extends Opens character where
  notName : startsName character = false
  notDigit : character.isDigit = false
  notQuote : character ≠ '"'
  notNul : character.toNat ≠ 0

theorem opensMark_of_mem {character : Char} (isMark : character ∈ marks) :
    OpensMark character := by
  have all : marks.all fun character => isBlank character = false ∧ character ≠ '/' ∧
      character ≠ '\uFEFF' ∧ startsName character = false ∧ character.isDigit = false ∧
      character ≠ '"' ∧
        character.toNat ≠ 0 := by decide
  rcases of_decide_eq_true (List.all_eq_true.1 all character isMark)
    with ⟨blank, comment, order, name, digit, quote, nul⟩
  exact ⟨⟨blank, comment, order⟩, name, digit, quote, nul⟩

theorem scanLexeme_mark {position : Position} {character : Char}
    {glyphs left : List Glyph} {text : String} (opens : OpensMark character)
    (noNumber : character = '.' → (current? (glyphs.drop 1)).any Char.isDigit = false)
    (scanned : scanMark position character glyphs = .ok (text, left)) :
    scanLexeme position character glyphs = .ok (mark text, left) := by
  have notPoint : ¬ (character == '.' && (current? (glyphs.drop 1)).any Char.isDigit) =
      true := by
    rw [Bool.and_eq_true, beq_iff_eq]
    rintro ⟨isPoint, digitFollows⟩
    rw [noNumber isPoint] at digitFollows
    cases digitFollows
  unfold scanLexeme
  rw [if_neg (by simp [opens.notName]), if_neg (by simp [opens.notDigit]),
    if_neg notPoint, if_neg (by simpa using opens.notQuote), scanned]
  rfl

theorem rescans_long {text : String} {first : Char} {rest : List Char}
    (opens : OpensMark first) (written : text.toList = first :: rest)
    (noNul : ∀ character ∈ first :: rest, character.toNat ≠ 0)
    (noDigit : rest.head?.any Char.isDigit = false) (nonempty : rest ≠ [])
    (scans : ∀ position glyphs left, Spells glyphs (first :: rest) left → Checked left →
      scanMark position first glyphs = .ok (text, left)) : (mark text).Rescans := by
  refine ⟨⟨first, rest, written, opens.toOpens⟩, ?_, ?_⟩
  · change NoNul text.toList
    rw [written]
    exact noNul
  · intro position character glyphs left found spelled checked _
    change Spells glyphs text.toList left at spelled
    rw [written] at spelled
    cases Option.some.inj (found.symm.trans spelled.current?_eq)
    refine scanLexeme_mark opens (fun _ => ?_)
      (scans position glyphs left spelled checked)
    rcases spelled with ⟨_, following, rfl, spelled⟩
    cases rest with
    | nil => exact absurd rfl nonempty
    | cons second rest =>
        rcases spelled with ⟨_, _, rfl, _⟩
        exact noDigit

theorem rescans_mark {text : String} (isMark : text ∈ markTexts) :
    (mark text).Rescans := by
  rcases List.mem_append.1 isMark with isSingle | isLong
  · rcases List.mem_map.1 isSingle with ⟨character, isMember, rfl⟩
    have opens := opensMark_of_mem isMember
    have written : (String.ofList [character]).toList = [character] :=
      String.toList_ofList
    refine ⟨⟨character, [], written, opens.toOpens⟩, ?_, ?_⟩
    · change NoNul (String.ofList [character]).toList
      rw [written]
      exact List.forall_mem_singleton.2 opens.notNul
    · intro position first glyphs left found spelled checked ends
      change Spells glyphs (String.ofList [character]).toList left at spelled
      rw [written] at spelled
      rcases spelled with ⟨place, _, rfl, rfl⟩
      cases Option.some.inj found
      refine scanLexeme_mark opens ?_ (scanMark_single isMember checked ends)
      rintro rfl
      rw [Option.any_eq_false]
      exact fun digit found => (ends.2.2 rfl digit found).2
  · simp only [List.mem_cons, List.not_mem_nil, or_false] at isLong
    rcases isLong with rfl | rfl | rfl
    · have written : "::".toList = [':', ':'] := by decide
      refine rescans_long (opensMark_of_mem (by decide)) written (by simp) rfl nofun ?_
      rintro position _ left ⟨_, _, rfl, _, _, rfl, rfl⟩ checked
      rw [scanMark, advance_cons (checked_cons (by decide))]
      change advance none (_ :: _) >>= _ = _
      rw [advance_cons checked]
      rfl
    · have written : "->".toList = ['-', '>'] := by decide
      refine rescans_long (opensMark_of_mem (by decide)) written (by simp) rfl nofun ?_
      rintro position _ left ⟨_, _, rfl, _, _, rfl, rfl⟩ checked
      rw [scanMark, advance_cons (checked_cons (by decide))]
      change advance none (_ :: _) >>= _ = _
      rw [advance_cons checked]
      rfl
    · have written : "...".toList = ['.', '.', '.'] := by decide
      refine rescans_long (opensMark_of_mem (by decide)) written (by simp) rfl nofun ?_
      rintro position _ left ⟨_, _, rfl, _, _, rfl, _, _, rfl, rfl⟩ checked
      rw [scanMark, advance_cons (checked_cons (by decide))]
      change advance none (_ :: _) >>= _ = _
      rw [advance_cons checked]
      rfl

end Lexeme

/-! ## Layouts -/

/-- Lexemes in a row; `none` stands for a space. -/
abbrev Layout := List (Option Lexeme)

namespace Layout

def piece : Option Lexeme → List Char
  | none => [' ']
  | some lexeme => lexeme.text.toList

def characters (layout : Layout) : List Char :=
  layout.flatMap piece

def lexemes (layout : Layout) : List Lexeme :=
  layout.filterMap id

section Simp

variable (lexeme : Lexeme) (rest : Layout)

@[simp] theorem characters_nil : characters [] = [] := rfl

@[simp] theorem characters_space : characters (none :: rest) = ' ' :: characters rest :=
  rfl

@[simp] theorem characters_lexeme :
    characters (some lexeme :: rest) = lexeme.text.toList ++ characters rest := rfl

@[simp] theorem lexemes_nil : lexemes [] = [] := rfl

@[simp] theorem lexemes_space : lexemes (none :: rest) = lexemes rest := rfl

@[simp] theorem lexemes_lexeme : lexemes (some lexeme :: rest) = lexeme :: lexemes rest :=
  rfl

end Simp

@[simp] theorem characters_append (left right : Layout) :
    (left ++ right : Layout).characters = left.characters ++ right.characters :=
  List.flatMap_append

@[simp] theorem lexemes_append (left right : Layout) :
    (left ++ right : Layout).lexemes = left.lexemes ++ right.lexemes :=
  List.filterMap_append

def Separated : Layout → Prop
  | [] => True
  | none :: rest => Separated rest
  | some lexeme :: rest =>
      lexeme.Rescans ∧ lexeme.EndsBefore (characters rest).head? ∧ Separated rest

theorem Separated.noNul {layout : Layout} (separated : layout.Separated) :
    NoNul layout.characters := by
  induction layout with
  | nil => exact nofun
  | cons first rest induction =>
      cases first with
      | none => exact List.forall_mem_cons.2 ⟨by decide, induction separated⟩
      | some lexeme => exact separated.1.noNul.append (induction separated.2.2)

end Layout

namespace Token

theorem skipBlanks_mono {fuel : Nat} {place : Option Position} {glyphs rest : List Glyph}
    (skipped : skipBlanks fuel place glyphs = .ok rest) :
    skipBlanks (fuel + 1) place glyphs = .ok rest := by
  induction fuel generalizing place glyphs with
  | zero => cases skipped
  | succ fuel induction =>
      rw [skipBlanks] at skipped ⊢
      rcases bind_eq_ok skipped with ⟨⟨blanks, following⟩, taken, skipped⟩
      rw [taken]
      dsimp only [bind, Except.bind] at skipped ⊢
      split at skipped
      next =>
          split at skipped
          next isComment =>
              rcases bind_eq_ok skipped with ⟨advanced, isAdvanced, skipped⟩
              rcases bind_eq_ok skipped with ⟨after, isSkipped, skipped⟩
              rw [if_pos isComment, isAdvanced]
              dsimp only
              rw [isSkipped]
              exact induction skipped
          next notComment =>
              rw [if_neg notComment]
              exact skipped
      next => exact skipped

theorem skipBlanks_space {fuel : Nat} {place : Option Position} {position : Position}
    {glyphs : List Glyph} (checked : Checked glyphs) :
    skipBlanks (fuel + 1) place (⟨some ' ', position⟩ :: glyphs) =
      skipBlanks (fuel + 1) place glyphs := by
  rw [skipBlanks, skipBlanks, takeWhile]
  change (look place glyphs >>= fun _ => _) >>= _ = _
  rw [checked place]
  cases takeWhile place isBlank glyphs with
  | error error => rfl
  | ok result => rfl

theorem skipBlanks_opens {fuel : Nat} {place : Option Position} {position : Position}
    {character : Char} {glyphs : List Glyph} (opens : Lexeme.Opens character) :
    skipBlanks (fuel + 1) place (⟨some character, position⟩ :: glyphs) =
      .ok (⟨some character, position⟩ :: glyphs) := by
  have stays : takeWhile place isBlank (⟨some character, position⟩ :: glyphs) =
      .ok ([], ⟨some character, position⟩ :: glyphs) := by
    have absent : (some character).filter isBlank = none := by
      rw [Option.filter_some, if_neg (by simp [opens.notBlank])]
    rw [takeWhile]
    dsimp only
    rw [absent]
    rfl
  rw [skipBlanks, stays]
  dsimp only [bind, Except.bind]
  split
  next same =>
      cases same
      exact absurd rfl opens.notComment
  next => rfl

theorem scanFrom_lexeme {finish : Position} {fuel : Nat} {glyphs rest : List Glyph}
    {position : Position} {character : Char} {lexeme : Lexeme} {tokens : List Token}
    (opens : Lexeme.Opens character)
    (isLexeme : scanLexeme position character (⟨some character, position⟩ :: glyphs) =
      .ok (lexeme, rest))
    (scanned : scanFrom finish fuel rest = .ok tokens) :
    scanFrom finish (fuel + 1) (⟨some character, position⟩ :: glyphs) =
      .ok (⟨lexeme, position⟩ :: tokens) := by
  rw [scanFrom, skipBlanks_opens opens]
  change scanLexeme position character (⟨some character, position⟩ :: glyphs) >>= _ = _
  rw [isLexeme]
  change scanFrom finish fuel rest >>= _ = _
  rw [scanned]
  rfl

theorem scanFrom_space {finish : Position} {fuel : Nat} {glyphs : List Glyph}
    {position : Position} {tokens : List Token} (checked : Checked glyphs)
    (scanned : scanFrom finish (fuel + 1) glyphs = .ok tokens) :
    scanFrom finish (fuel + 1) (⟨some ' ', position⟩ :: glyphs) = .ok tokens := by
  rw [scanFrom] at scanned ⊢
  rcases bind_eq_ok scanned with ⟨rest, skipped, scanned⟩
  rw [List.length_cons, skipBlanks_space checked, skipBlanks_mono skipped]
  exact scanned

theorem scanFrom_layout {finish : Position} {layout : Layout}
    (separated : layout.Separated) {fuel : Nat} {glyphs : List Glyph}
    (spelled : Spells glyphs layout.characters []) (enough : glyphs.length < fuel) :
    ∃ tokens, scanFrom finish fuel glyphs = .ok (tokens ++ [⟨.finish, finish⟩]) ∧
      tokens.map Token.lexeme = layout.lexemes := by
  cases fuel with
  | zero => cases enough
  | succ fuel =>
      induction layout generalizing glyphs fuel with
      | nil =>
          cases spelled
          exact ⟨[], rfl, rfl⟩
      | cons first layout induction =>
          cases first with
          | none =>
              have separated : Layout.Separated layout := separated
              rcases spelled with ⟨position, following, rfl, spelled⟩
              rcases induction separated spelled fuel (Nat.lt_of_succ_lt enough)
                with ⟨tokens, scanned, isLexemes⟩
              have checked : Checked following :=
                spelled.checked separated.noNul checked_nil
              exact ⟨tokens, scanFrom_space checked scanned, isLexemes⟩
          | some lexeme =>
              rcases separated with ⟨rescans, ends, separated⟩
              rcases rescans.starts with ⟨character, more, written, opens⟩
              rcases spelled.split with ⟨middle, lexemeSpelled, spelled⟩
              have checked : Checked middle := spelled.checked separated.noNul checked_nil
              have current : current? middle = (Layout.characters layout).head? :=
                spelled.current?_eq.trans Option.or_none
              have isLexeme (position : Position)
                  (found : current? glyphs = some character) :=
                rescans.rescans position character glyphs middle found lexemeSpelled
                  checked (current ▸ ends)
              change Spells glyphs lexeme.text.toList middle at lexemeSpelled
              rw [written] at lexemeSpelled
              have length := lexemeSpelled.length_eq
              rw [List.length_cons] at length
              cases fuel with
              | zero => omega
              | succ fuel =>
                  rcases induction separated spelled fuel (by omega) with
                    ⟨tokens, scanned, isLexemes⟩
                  rcases lexemeSpelled with ⟨position, following, rfl, _⟩
                  have started := scanFrom_lexeme opens (isLexeme position rfl) scanned
                  refine ⟨⟨lexeme, position⟩ :: tokens, started, ?_⟩
                  rw [List.map_cons, isLexemes]
                  rfl

theorem spells_place (position : Position) (characters : List Char) :
    Spells (Source.place position (characters.map some)).glyphs characters [] := by
  induction characters generalizing position with
  | nil => rfl
  | cons character characters induction =>
      exact ⟨position, _, rfl, induction (position.next (some character))⟩

theorem scan_ofString {layout : Layout} (separated : layout.Separated) {text : String}
    (written : text.toList = layout.characters) :
    ∃ tokens finish, scan (.ofString text) = .ok (tokens ++ [⟨.finish, finish⟩]) ∧
      tokens.map Token.lexeme = layout.lexemes := by
  have spelled : Spells (Source.ofString text).glyphs layout.characters [] := by
    rw [Source.ofString, written]
    exact spells_place .first layout.characters
  have notOrderMark :
      ¬ (current? (Source.ofString text).glyphs == some '\uFEFF') = true := by
    rw [beq_iff_eq, spelled.current?_eq]
    cases layout with
    | nil => exact nofun
    | cons first layout =>
        cases first with
        | none => exact fun same => absurd (Option.some.inj same) (by decide)
        | some lexeme =>
            rcases separated.1.starts with ⟨character, more, isText, opens⟩
            have isFirst : (Layout.characters (some lexeme :: layout)).head? =
                some character := by
              change (lexeme.text.toList ++ Layout.characters layout).head? = _
              rw [isText]
              rfl
            rw [isFirst]
            exact fun same => opens.notOrderMark (Option.some.inj same)
  rcases scanFrom_layout separated spelled (Nat.lt_succ_self _) with
    ⟨tokens, scanned, isLexemes⟩
  refine ⟨tokens, (Source.ofString text).finish, ?_, isLexemes⟩
  rw [scan, spelled.checked separated.noNul checked_nil]
  change (if _ then _ else _) = _
  rw [if_neg notOrderMark]
  exact scanned

end Token

end Casework
