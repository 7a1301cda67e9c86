import Casework.Expr.Printer
import Casework.Proofs.Rescanning

/-!
The text of an expression as a layout of lexemes.

An expression that the parser has read is made of names and numbers that can be scanned
again. If no field is selected from a number, and `...` stands only where it is the whole
pattern of a choice, every lexeme of the text ends before the next one.
-/

namespace Casework

open Token

/-! ## Layouts -/

/-- Puts the layout of an operand in parentheses if it needs them. -/
def encloseLayout (compound : Bool) (layout : Layout) : Layout :=
  if compound then some (.mark "(") :: (layout ++ [some (.mark ")")]) else layout

def symbolLexeme (name : String) : Lexeme :=
  if name = "..." then .mark "..." else .name name

mutual

def Expr.layout : Expr → Layout
  | .symbol _ name => [some (symbolLexeme name)]
  | .number _ text _ => [some (.number text)]
  | .string _ value => [some (.quoted (Text.quoteBytes value))]
  | .unit _ => [some (.mark "("), some (.mark ")")]
  | .static _ owner field => [some (.name owner), some (.mark "#"), some (.name field)]
  | .list _ items => some (.mark "[") :: (items.layout ++ [some (.mark "]")])
  | .apply _ name argument =>
      some (.name name) :: none :: encloseLayout argument.isCompound argument.layout
  | .binary _ operator left right =>
      encloseLayout left.isCompound left.layout ++
        none :: some (.mark operator.text) :: none ::
          encloseLayout right.isCompound right.layout
  | .record _ fields => some (.mark "\x7b") :: (fields.layout ++ [some (.mark "\x7d")])
  | .select _ record field =>
      encloseLayout record.isCompound record.layout ++
        [some (.mark "."), some (.name field)]
  | .caseOf _ value choices =>
      some (.name "case") :: none :: (value.layout ++
        none :: some (.name "of") :: none :: (choices.layout ++ [some (.name "esac")]))

def Exprs.layout : Exprs → Layout
  | .nil => []
  | .cons head .nil => head.layout
  | .cons head tail => head.layout ++ some (.mark ",") :: none :: tail.layout

def Fields.layout : Fields → Layout
  | .nil => []
  | .cons _ name value .nil =>
      if value.isShorthandFor name then [some (.name name)]
      else some (.name name) :: none :: some (.mark "=") :: none :: value.layout
  | .cons _ name value tail =>
      (if value.isShorthandFor name then [some (.name name)]
        else some (.name name) :: none :: some (.mark "=") :: none :: value.layout) ++
        some (.mark ",") :: none :: tail.layout

def Choices.layout : Choices → Layout
  | .nil => []
  | .cons _ pattern body tail =>
      pattern.layout ++ some (.mark ":") :: none ::
        (body.layout ++ some (.mark ";") :: none :: tail.layout)
  | .rest _ tail => some (.mark "...") :: some (.mark ";") :: none :: tail.layout

end

/-! ## Texts -/

theorem symbolLexeme_text (name : String) : (symbolLexeme name).text = name := by
  unfold symbolLexeme
  split
  next isDots => exact isDots.symm
  next => rfl

@[simp] theorem text_name (text : String) : (Lexeme.name text).text = text := rfl

@[simp] theorem text_number (text : String) : (Lexeme.number text).text = text := rfl

@[simp] theorem text_quoted (text : String) : (Lexeme.quoted text).text = text := rfl

@[simp] theorem text_mark (text : String) : (Lexeme.mark text).text = text := rfl

theorem enclose_toList {text : String} {layout : Layout}
    (written : text.toList = layout.characters) (compound : Bool) :
    (enclose compound text).toList = (encloseLayout compound layout).characters := by
  cases compound with
  | false => exact written
  | true => simp [enclose, encloseLayout, written]

mutual

theorem Expr.text_toList (expression : Expr) :
    expression.text.toList = expression.layout.characters := by
  cases expression with
  | symbol position name => simp [Expr.text, Expr.layout, symbolLexeme_text]
  | number position text value => simp [Expr.text, Expr.layout]
  | string position value => simp [Expr.text, Expr.layout]
  | unit position => simp [Expr.text, Expr.layout]
  | static position owner field => simp [Expr.text, Expr.layout]
  | list position items => simp [Expr.text, Expr.layout, items.text_toList]
  | apply position name argument =>
      simp [Expr.text, Expr.layout, enclose_toList argument.text_toList]
  | binary position operator left right =>
      simp [Expr.text, Expr.layout, enclose_toList left.text_toList,
        enclose_toList right.text_toList]
  | record position fields => simp [Expr.text, Expr.layout, fields.text_toList]
  | select position record field =>
      simp [Expr.text, Expr.layout, enclose_toList record.text_toList]
  | caseOf position value choices =>
      simp [Expr.text, Expr.layout, value.text_toList, choices.text_toList]
termination_by structural expression

theorem Exprs.text_toList (items : Exprs) :
    items.text.toList = items.layout.characters := by
  match items with
  | .nil => rfl
  | .cons head .nil => exact head.text_toList
  | .cons head (.cons second tail) =>
      simp [Exprs.text, Exprs.layout, head.text_toList,
        (Exprs.cons second tail).text_toList]
termination_by structural items

theorem Fields.text_toList (fields : Fields) :
    fields.text.toList = fields.layout.characters := by
  match fields with
  | .nil => rfl
  | .cons position name value .nil =>
      rw [Fields.text, Fields.layout]
      split
      next => simp
      next => simp [value.text_toList]
  | .cons position name value (.cons place second further tail) =>
      rw [Fields.text, Fields.layout]
      · split
        next => simp [(Fields.cons place second further tail).text_toList]
        next =>
            simp [value.text_toList, (Fields.cons place second further tail).text_toList]
      · exact nofun
      · exact nofun
termination_by structural fields

theorem Choices.text_toList (choices : Choices) :
    choices.text.toList = choices.layout.characters := by
  cases choices with
  | nil => rfl
  | cons position pattern body tail =>
      simp [Choices.text, Choices.layout, pattern.text_toList, body.text_toList,
        tail.text_toList]
  | rest position tail => simp [Choices.text, Choices.layout, tail.text_toList]
termination_by structural choices

end

/-! ## Expressions that can be read back -/

structure IsFreeName (name : String) : Prop where
  scanned : (Lexeme.name name).IsScanned
  free : name ∉ Expr.keywords

mutual

/-- The names and literals of an expression are those of tokens. -/
def Expr.IsSpelled : Expr → Prop
  | .symbol _ name => name = "..." ∨ IsFreeName name
  | .number _ text value => (Lexeme.number text).IsScanned ∧
      Number.read? text = some value
  | .string _ _ => True
  | .unit _ => True
  | .static _ owner field => IsFreeName owner ∧ (Lexeme.name field).IsScanned
  | .list _ items => items.IsSpelled
  | .apply _ name argument => IsFreeName name ∧ argument.IsSpelled
  | .binary _ _ left right => left.IsSpelled ∧ right.IsSpelled
  | .record _ fields => fields.IsSpelled
  | .select _ record field => record.IsSpelled ∧ (Lexeme.name field).IsScanned
  | .caseOf _ value choices => value.IsSpelled ∧ choices.IsSpelled

def Exprs.IsSpelled : Exprs → Prop
  | .nil => True
  | .cons head tail => head.IsSpelled ∧ tail.IsSpelled

/-- A field that is bound to its own name may be named by a keyword. -/
def Fields.IsSpelled : Fields → Prop
  | .nil => True
  | .cons _ name value tail =>
      (Lexeme.name name).IsScanned ∧
        (value.isShorthandFor name = false → value.IsSpelled) ∧ tail.IsSpelled

def Choices.IsSpelled : Choices → Prop
  | .nil => True
  | .cons _ pattern body tail => pattern.IsSpelled ∧ body.IsSpelled ∧ tail.IsSpelled
  | .rest _ tail => tail.IsSpelled

end

def Expr.isNumber : Expr → Bool
  | .number .. => true
  | _ => false

def Expr.isDots : Expr → Bool
  | .symbol _ name => name == "..."
  | _ => false

mutual

/-- An expression selects no field directly from a number, and uses `...` only as the
whole pattern of a choice. -/
def Expr.IsRereadable : Expr → Prop
  | .symbol _ name => name ≠ "..."
  | .list _ items => items.IsRereadable
  | .apply _ _ argument => argument.IsRereadable
  | .binary _ _ left right => left.IsRereadable ∧ right.IsRereadable
  | .record _ fields => fields.IsRereadable
  | .select _ record _ => record.isNumber = false ∧ record.IsRereadable
  | .caseOf _ value choices => value.IsRereadable ∧ choices.IsRereadable
  | _ => True

def Exprs.IsRereadable : Exprs → Prop
  | .nil => True
  | .cons head tail => head.IsRereadable ∧ tail.IsRereadable

def Fields.IsRereadable : Fields → Prop
  | .nil => True
  | .cons _ _ value tail => value.IsRereadable ∧ tail.IsRereadable

def Choices.IsRereadable : Choices → Prop
  | .nil => True
  | .cons _ pattern body tail =>
      (pattern.isDots = true ∨ pattern.IsRereadable) ∧ body.IsRereadable ∧
        tail.IsRereadable
  | .rest _ tail => tail.IsRereadable

end

/-! ## Separation -/

namespace Layout

variable {rest : Layout} {text : String}

theorem separated_space (separated : rest.Separated) : Separated (none :: rest) :=
  separated

theorem separated_mark (isMark : text ∈ markTexts) (alone : text ∉ [":", "-", "."])
    (separated : rest.Separated) : Separated (some (.mark text) :: rest) := by
  refine ⟨Lexeme.rescans_mark isMark, ⟨?_, ?_, ?_⟩, separated⟩
  · rintro rfl
    exact absurd (by decide) alone
  · rintro rfl
    exact absurd (by decide) alone
  · rintro rfl
    exact absurd (by decide) alone

theorem separated_mark_space (isMark : text ∈ markTexts) (separated : rest.Separated) :
    Separated (some (.mark text) :: none :: rest) := by
  refine ⟨Lexeme.rescans_mark isMark, ⟨fun _ => nofun, fun _ => nofun, ?_⟩, separated⟩
  rintro _ _ ⟨⟩
  decide

theorem separated_name (scanned : (Lexeme.name text).IsScanned)
    (separated : rest.Separated) (ends : ∀ character, rest.characters.head? =
      some character → continuesName character = false) :
    Separated (some (.name text) :: rest) :=
  ⟨Lexeme.rescans_name scanned, ends, separated⟩

theorem separated_point (scanned : (Lexeme.name text).IsScanned)
    (separated : rest.Separated) (ends : ∀ character, rest.characters.head? =
      some character → continuesName character = false) :
    Separated (some (.mark ".") :: some (.name text) :: rest) := by
  refine ⟨Lexeme.rescans_mark (by decide), ⟨nofun, nofun, ?_⟩,
    separated_name scanned separated ends⟩
  rcases scanned with ⟨first, more, written, starts, _⟩
  rintro _ character found
  rw [characters_lexeme, text_name, written] at found
  cases found
  constructor
  · rintro rfl
    exact absurd starts (by decide)
  · rw [Bool.eq_false_iff]
    intro isDigit
    rw [Lexeme.startsName_of_isDigit isDigit] at starts
    cases starts

end Layout

/-- What may follow an expression: only after a name, a string or a bracket does a point
not matter. -/
def Expr.EndsBefore (expression : Expr) (next? : Option Char) : Prop :=
  (∀ character, next? = some character → continuesName character = false) ∧
    (expression.isCompound = true ∨ expression.isNumber = true → Stops next?)

def Expr.OperandEndsBefore (expression : Expr) (next? : Option Char) : Prop :=
  (∀ character, next? = some character → continuesName character = false) ∧
    (expression.isNumber = true → Stops next?)

theorem Token.Stops.ends {next? : Option Char} (stops : Stops next?) (expression : Expr) :
    expression.EndsBefore next? :=
  ⟨fun character found => (stops character found).1, fun _ => stops⟩

theorem Token.Stops.operandEnds {next? : Option Char} (stops : Stops next?)
    (expression : Expr) :
    expression.OperandEndsBefore next? :=
  ⟨fun character found => (stops character found).1, fun _ => stops⟩

theorem stops_of_mem {character : Char} (isStop : character ∈ " )]\x7d,:;".toList) :
    Stops (some character) := by
  have all : " )]\x7d,:;".toList.all fun character =>
      continuesName character = false ∧ character ≠ '.' := by decide
  rintro _ ⟨⟩
  exact of_decide_eq_true (List.all_eq_true.1 all character isStop)

theorem stops_none : Stops none := nofun

section Separated

variable {rest : Layout}

theorem separated_operand {operand : Expr}
    (inner : ∀ rest : Layout, rest.Separated → operand.EndsBefore rest.characters.head? →
      Layout.Separated (operand.layout ++ rest))
    (separated : rest.Separated)
    (ends : operand.OperandEndsBefore rest.characters.head?) :
    Layout.Separated (encloseLayout operand.isCompound operand.layout ++ rest) := by
  cases compound : operand.isCompound with
  | false =>
      refine inner rest separated ⟨ends.1, ?_⟩
      rintro (isCompound | isNumber)
      · rw [compound] at isCompound
        cases isCompound
      · exact ends.2 isNumber
  | true =>
      have closed := Layout.separated_mark (by decide : ")" ∈ markTexts)
        (by decide) separated
      have stops : Stops (Layout.characters (some (.mark ")") :: rest)).head? :=
        stops_of_mem (by decide)
      have opened := Layout.separated_mark (by decide : "(" ∈ markTexts) (by decide)
        (inner _ closed (stops.ends operand))
      simpa [encloseLayout] using opened

theorem separated_symbol {name : String} (spelled : name = "..." ∨ IsFreeName name)
    (separated : rest.Separated)
    (ends : ∀ character, rest.characters.head? = some character →
      continuesName character = false) :
    Layout.Separated (some (symbolLexeme name) :: rest) := by
  unfold symbolLexeme
  split
  next => exact Layout.separated_mark (by decide) (by decide) separated
  next notDots =>
      rcases spelled with isDots | free
      · exact absurd isDots notDots
      · exact Layout.separated_name free.scanned separated ends

theorem isScanned_keyword {word : String} (isKeyword : word ∈ Expr.keywords) :
    (Lexeme.name word).IsScanned := by
  simp only [Expr.keywords, List.mem_cons, List.not_mem_nil, or_false] at isKeyword
  rcases isKeyword with rfl | rfl | rfl
  · exact ⟨'c', ['a', 's', 'e'], by decide, by decide, List.all_eq_true.1 (by decide)⟩
  · exact ⟨'o', ['f'], by decide, by decide, List.all_eq_true.1 (by decide)⟩
  · exact ⟨'e', ['s', 'a', 'c'], by decide, by decide, List.all_eq_true.1 (by decide)⟩

theorem separated_name_space {name : String} (scanned : (Lexeme.name name).IsScanned)
    (separated : rest.Separated) :
    Layout.Separated (some (.name name) :: none :: rest) := by
  apply Layout.separated_name scanned (Layout.separated_space separated)
  rintro _ ⟨⟩
  decide

theorem separated_entry {name : String} {value : Expr}
    (scanned : (Lexeme.name name).IsScanned)
    (inner : value.isShorthandFor name = false → ∀ rest : Layout, rest.Separated →
      value.EndsBefore rest.characters.head? → Layout.Separated (value.layout ++ rest))
    (separated : rest.Separated) (stops : Stops rest.characters.head?) :
    Layout.Separated ((if value.isShorthandFor name then [some (.name name)]
      else some (.name name) :: none :: some (.mark "=") :: none :: value.layout) ++
        rest) := by
  split
  next => exact Layout.separated_name scanned separated (stops.ends value).1
  next notShort =>
      have valued := inner (Bool.eq_false_iff.2 notShort) rest separated
        (stops.ends value)
      exact separated_name_space scanned (Layout.separated_mark_space (by decide) valued)

mutual

theorem Expr.separated {rest : Layout} (expression : Expr)
    (spelled : expression.IsSpelled) (rereadable : expression.IsRereadable)
    (separated : rest.Separated) (ends : expression.EndsBefore rest.characters.head?) :
    Layout.Separated (expression.layout ++ rest) := by
  cases expression with
  | symbol position name => exact separated_symbol spelled separated ends.1
  | number position text value =>
      exact ⟨Lexeme.rescans_number spelled.1, ends.2 (.inr rfl), separated⟩
  | string position value => exact ⟨Lexeme.rescans_quoted value, trivial, separated⟩
  | unit position =>
      have closed := Layout.separated_mark (by decide : ")" ∈ markTexts)
        (by decide) separated
      exact Layout.separated_mark (by decide) (by decide) closed
  | static position owner field =>
      have fieldSeparated := Layout.separated_name spelled.2 separated ends.1
      have signSeparated := Layout.separated_mark (by decide : "#" ∈ markTexts)
        (by decide) fieldSeparated
      refine Layout.separated_name spelled.1.scanned signSeparated ?_
      rintro _ ⟨⟩
      decide
  | list position items =>
      have closed := Layout.separated_mark (by decide : "]" ∈ markTexts)
        (by decide) separated
      have inner := items.separated spelled rereadable closed (stops_of_mem (by decide))
      have opened := Layout.separated_mark (by decide : "[" ∈ markTexts) (by decide) inner
      simpa [Expr.layout] using opened
  | apply position name argument =>
      have stops : Stops rest.characters.head? := ends.2 (.inl rfl)
      have operand :=
        separated_operand (fun _ => argument.separated spelled.2 rereadable) separated
        (stops.operandEnds argument)
      exact separated_name_space spelled.1.scanned operand
  | binary position operator left right =>
      have stops : Stops rest.characters.head? := ends.2 (.inl rfl)
      have second :=
        separated_operand (fun _ => right.separated spelled.2 rereadable.2) separated
        (stops.operandEnds right)
      have isMark : operator.text ∈ markTexts := by cases operator <;> decide
      have sign := Layout.separated_space (Layout.separated_mark_space isMark second)
      have first :=
        separated_operand (fun _ => left.separated spelled.1 rereadable.1) sign
        ((stops_of_mem (by decide)).operandEnds left)
      simpa [Expr.layout] using first
  | record position fields =>
      have closed := Layout.separated_mark (by decide : "\x7d" ∈ markTexts)
        (by decide) separated
      have inner := fields.separated spelled rereadable closed (stops_of_mem (by decide))
      have opened := Layout.separated_mark (by decide : "\x7b" ∈ markTexts)
        (by decide) inner
      simpa [Expr.layout] using opened
  | select position record field =>
      have point := Layout.separated_point spelled.2 separated ends.1
      have operand :=
        separated_operand (fun _ => record.separated spelled.1 rereadable.2) point
        ⟨by rintro _ ⟨⟩; decide, by simp [rereadable.1]⟩
      simpa [Expr.layout] using operand
  | caseOf position value choices =>
      have closed := Layout.separated_name (isScanned_keyword (by decide : "esac" ∈ _))
        separated ends.1
      have inner := choices.separated spelled.2 rereadable.2 closed
      have word := Layout.separated_space
        (separated_name_space (isScanned_keyword (by decide : "of" ∈ _)) inner)
      have valued := value.separated spelled.1 rereadable.1 word
        ((stops_of_mem (by decide)).ends value)
      have opened :=
        separated_name_space (isScanned_keyword (by decide : "case" ∈ _)) valued
      simpa [Expr.layout] using opened
termination_by structural expression

theorem Exprs.separated {rest : Layout} (items : Exprs) (spelled : items.IsSpelled)
    (rereadable : items.IsRereadable) (separated : rest.Separated)
    (stops : Stops rest.characters.head?) : Layout.Separated (items.layout ++ rest) := by
  match items with
  | .nil => exact separated
  | .cons head .nil =>
      exact head.separated spelled.1 rereadable.1 separated (stops.ends head)
  | .cons head (.cons second tail) =>
      have further :=
        (Exprs.cons second tail).separated spelled.2 rereadable.2 separated stops
      have comma := Layout.separated_mark_space (by decide : "," ∈ markTexts) further
      have first :=
        head.separated spelled.1 rereadable.1 comma ((stops_of_mem (by decide)).ends head)
      simpa [Exprs.layout] using first
termination_by structural items

theorem Fields.separated {rest : Layout} (fields : Fields) (spelled : fields.IsSpelled)
    (rereadable : fields.IsRereadable) (separated : rest.Separated)
    (stops : Stops rest.characters.head?) : Layout.Separated (fields.layout ++ rest) := by
  match fields with
  | .nil => exact separated
  | .cons position name value .nil =>
      rcases spelled with ⟨scanned, valueSpelled, _⟩
      exact separated_entry scanned
        (fun notShort _ => value.separated (valueSpelled notShort) rereadable.1) separated
        stops
  | .cons position name value (.cons place second further tail) =>
      rcases spelled with ⟨scanned, valueSpelled, tailSpelled⟩
      have others :=
        (Fields.cons place second further tail).separated tailSpelled
          rereadable.2 separated stops
      have comma := Layout.separated_mark_space (by decide : "," ∈ markTexts) others
      have first := separated_entry scanned
        (fun notShort _ => value.separated (valueSpelled notShort) rereadable.1) comma
        (stops_of_mem (by decide))
      rw [Fields.layout, List.append_assoc]
      · exact first
      · exact nofun
termination_by structural fields

theorem Choices.separated {rest : Layout} (choices : Choices)
    (spelled : choices.IsSpelled) (rereadable : choices.IsRereadable)
    (separated : rest.Separated) :
    Layout.Separated (choices.layout ++ rest) := by
  cases choices with
  | nil => exact separated
  | cons position pattern body tail =>
      have others := tail.separated spelled.2.2 rereadable.2.2 separated
      have semicolon := Layout.separated_mark_space (by decide : ";" ∈ markTexts) others
      have bodied := body.separated spelled.2.1 rereadable.2.1 semicolon
        ((stops_of_mem (by decide)).ends body)
      have colon := Layout.separated_mark_space (by decide : ":" ∈ markTexts) bodied
      have first : Layout.Separated (pattern.layout ++ some (.mark ":") :: none ::
          (body.layout ++ some (.mark ";") :: none :: (tail.layout ++ rest))) := by
        rcases rereadable.1 with isDots | patternRereadable
        · cases pattern with
          | symbol place name =>
              exact separated_symbol spelled.1 colon
                ((stops_of_mem (by decide)).ends (.symbol place name)).1
          | _ => cases isDots
        · exact pattern.separated spelled.1 patternRereadable colon
            ((stops_of_mem (by decide)).ends pattern)
      simpa [Choices.layout] using first
  | rest position tail =>
      have others := tail.separated spelled rereadable separated
      have semicolon := Layout.separated_mark_space (by decide : ";" ∈ markTexts) others
      exact Layout.separated_mark (by decide) (by decide) semicolon
termination_by structural choices

end

end Separated

end Casework
