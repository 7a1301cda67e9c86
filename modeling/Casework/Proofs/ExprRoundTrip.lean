import Casework.Proofs.Acceptance
import Casework.Proofs.ExprLayout

/-!
The text of an expression is read back.

What the parser has read is made of names and numbers that can be scanned again, so the
text of the expression is scanned as the lexemes it was laid out from. These have a
derivation, with parentheses where the text has them, and the derivation stands for the
same expression at other places. The main statement is that parsing the text gives the
expression back up to positions.
-/

namespace Casework

open Token Grammar

/-! ## Positions -/

mutual

def Expr.unplaced : Expr → Expr
  | .symbol _ name => .symbol .first name
  | .number _ text value => .number .first text value
  | .string _ value => .string .first value
  | .unit _ => .unit .first
  | .static _ owner field => .static .first owner field
  | .list _ items => .list .first items.unplaced
  | .apply _ name argument => .apply .first name argument.unplaced
  | .binary _ operator left right => .binary .first operator left.unplaced right.unplaced
  | .record _ fields => .record .first fields.unplaced
  | .select _ record field => .select .first record.unplaced field
  | .caseOf _ value choices => .caseOf .first value.unplaced choices.unplaced

def Exprs.unplaced : Exprs → Exprs
  | .nil => .nil
  | .cons head tail => .cons head.unplaced tail.unplaced

def Fields.unplaced : Fields → Fields
  | .nil => .nil
  | .cons _ name value tail => .cons .first name value.unplaced tail.unplaced

def Choices.unplaced : Choices → Choices
  | .nil => .nil
  | .cons _ pattern body tail => .cons .first pattern.unplaced body.unplaced tail.unplaced
  | .rest _ tail => .rest .first tail.unplaced

end

namespace Grammar

/-! ## What has been parsed -/

def AllScanned (tokens : List Token) : Prop :=
  ∀ token ∈ tokens, token.lexeme.IsScanned

theorem AllScanned.of_append {left right : List Token}
    (scanned : AllScanned (left ++ right)) :
    AllScanned left ∧ AllScanned right :=
  List.forall_mem_append.1 scanned

theorem AllScanned.of_cons {token : Token} {rest : List Token}
    (scanned : AllScanned (token :: rest)) :
    token.lexeme.IsScanned ∧ AllScanned rest :=
  List.forall_mem_cons.1 scanned

theorem isSpelled_selectAll {inner : Expr} (spelled : inner.IsSpelled)
    {selections : List Selection}
    (scanned : AllScanned (selections.flatMap Selection.tokens)) :
    (selectAll inner selections).IsSpelled := by
  induction selections generalizing inner with
  | nil => exact spelled
  | cons selection selections induction =>
      rcases scanned.of_append with ⟨first, rest⟩
      exact induction ⟨spelled, first.of_cons.2.of_cons.1⟩ rest

mutual

theorem Expression.isSpelled (derivation : Expression) (valid : derivation.Valid false)
    (scanned : AllScanned derivation.tokens) : derivation.tree.IsSpelled := by
  cases derivation with
  | plain left => exact left.isSpelled valid scanned
  | cons left sign right =>
      rcases scanned.of_append with ⟨leftScanned, rest⟩
      exact ⟨left.isSpelled valid.1 leftScanned, right.isSpelled valid.2 rest.of_cons.2⟩
termination_by structural derivation

theorem Additive.isSpelled (derivation : Additive) (valid : derivation.Valid false)
    (scanned : AllScanned derivation.tokens) : derivation.tree.IsSpelled := by
  cases derivation with
  | mk first terms =>
      rcases scanned.of_append with ⟨firstScanned, rest⟩
      exact terms.isSpelled valid.2 rest (first.isSpelled valid.1 firstScanned)
termination_by structural derivation

theorem Terms.isSpelled (derivation : Terms) (valid : derivation.Valid false)
    (scanned : AllScanned derivation.tokens) {left : Expr} (spelled : left.IsSpelled) :
    (derivation.tree left).IsSpelled := by
  cases derivation with
  | nil => exact spelled
  | add sign term rest | subtract sign term rest =>
      rcases scanned.of_cons.2.of_append with ⟨termScanned, restScanned⟩
      exact rest.isSpelled valid.2 restScanned
        ⟨spelled, term.isSpelled valid.1 termScanned⟩
termination_by structural derivation

theorem Product.isSpelled (derivation : Product) (valid : derivation.Valid false)
    (scanned : AllScanned derivation.tokens) : derivation.tree.IsSpelled := by
  cases derivation with
  | mk first factors =>
      rcases scanned.of_append with ⟨firstScanned, rest⟩
      exact factors.isSpelled valid.2 rest (first.isSpelled valid.1 firstScanned)
termination_by structural derivation

theorem Factors.isSpelled (derivation : Factors) (valid : derivation.Valid false)
    (scanned : AllScanned derivation.tokens) {left : Expr} (spelled : left.IsSpelled) :
    (derivation.tree left).IsSpelled := by
  cases derivation with
  | nil => exact spelled
  | cons sign factor rest =>
      rcases scanned.of_cons.2.of_append with ⟨factorScanned, restScanned⟩
      exact rest.isSpelled valid.2 restScanned
        ⟨spelled, factor.isSpelled valid.1 factorScanned⟩
termination_by structural derivation

theorem Application.isSpelled (derivation : Application) (valid : derivation.Valid false)
    (scanned : AllScanned derivation.tokens) : derivation.tree.IsSpelled := by
  cases derivation with
  | plain head => exact head.isSpelled valid scanned
  | apply head argument =>
      rcases valid with ⟨headValid, argumentValid, ⟨position, name, isName, notDots⟩, _⟩
      rcases scanned.of_append with ⟨headScanned, argumentScanned⟩
      have headSpelled := head.isSpelled headValid headScanned
      have argumentSpelled := argument.isSpelled argumentValid argumentScanned
      rw [isName] at headSpelled
      rw [Application.tree, isName]
      rcases headSpelled with isDots | free
      · exact absurd isDots notDots
      · exact ⟨free, argumentSpelled⟩
termination_by structural derivation

theorem Postfix.isSpelled (derivation : Postfix) (valid : derivation.Valid false)
    (scanned : AllScanned derivation.tokens) : derivation.tree.IsSpelled := by
  cases derivation with
  | mk atom selections =>
      rcases scanned.of_append with ⟨atomScanned, rest⟩
      exact isSpelled_selectAll (atom.isSpelled valid atomScanned) rest
termination_by structural derivation

theorem Atom.isSpelled (derivation : Atom) (valid : derivation.Valid false)
    (scanned : AllScanned derivation.tokens) : derivation.tree.IsSpelled := by
  cases derivation with
  | number position text value reads => exact ⟨scanned.of_cons.1, reads⟩
  | string position text value reads => trivial
  | dots position => exact .inl rfl
  | name position own free => exact .inr ⟨scanned.of_cons.1, free⟩
  | static position owner sign place field free =>
      exact ⟨⟨scanned.of_cons.1, free⟩, scanned.of_cons.2.of_cons.2.of_cons.1⟩
  | unit opening closing => trivial
  | parenthesized opening inner closing =>
      exact inner.isSpelled valid scanned.of_cons.2.of_append.1
  | emptyList opening closing => trivial
  | list opening items => exact items.isSpelled valid scanned.of_cons.2
  | emptyRecord opening closing => trivial
  | record opening entries => exact entries.isSpelled valid scanned.of_cons.2
  | caseOf position value place branches =>
      rcases scanned.of_cons.2.of_append with ⟨valueScanned, rest⟩
      exact ⟨value.isSpelled valid.1 valueScanned,
        branches.isSpelled valid.2 rest.of_cons.2⟩
termination_by structural derivation

theorem Items.isSpelled (derivation : Items) (valid : derivation.Valid false)
    (scanned : AllScanned derivation.tokens) : derivation.tree.IsSpelled := by
  cases derivation with
  | last item closing => exact ⟨item.isSpelled valid scanned.of_append.1, trivial⟩
  | next item comma rest =>
      rcases scanned.of_append with ⟨itemScanned, further⟩
      exact ⟨item.isSpelled valid.1 itemScanned, rest.isSpelled valid.2 further.of_cons.2⟩
termination_by structural derivation

theorem Entry.isSpelled (derivation : Entry) (valid : derivation.Valid false)
    (scanned : AllScanned derivation.tokens) {tail : Fields} (spelled : tail.IsSpelled) :
    (derivation.tree tail).IsSpelled := by
  cases derivation with
  | short position name =>
      refine ⟨scanned.of_cons.1, fun notShort => ?_, spelled⟩
      simp [Expr.isShorthandFor] at notShort
  | full position name sign value =>
      exact ⟨scanned.of_cons.1, fun _ =>
        value.isSpelled valid scanned.of_cons.2.of_cons.2, spelled⟩
termination_by structural derivation

theorem Entries.isSpelled (derivation : Entries) (valid : derivation.Valid false)
    (scanned : AllScanned derivation.tokens) : derivation.tree.IsSpelled := by
  cases derivation with
  | last entry closing => exact entry.isSpelled valid scanned.of_append.1 trivial
  | next entry comma rest =>
      rcases scanned.of_append with ⟨entryScanned, further⟩
      exact entry.isSpelled valid.1 entryScanned
        (rest.isSpelled valid.2 further.of_cons.2)
termination_by structural derivation

theorem Branch.isSpelled (derivation : Branch) (valid : derivation.Valid false)
    (scanned : AllScanned derivation.tokens) {tail : Choices} (spelled : tail.IsSpelled) :
    (derivation.tree tail).IsSpelled := by
  cases derivation with
  | rest position => exact spelled
  | dots position colon body =>
      exact ⟨.inl rfl, body.isSpelled valid scanned.of_cons.2.of_cons.2, spelled⟩
  | pattern pattern colon body =>
      rcases scanned.of_append with ⟨patternScanned, rest⟩
      exact ⟨pattern.isSpelled valid.1 patternScanned,
        body.isSpelled valid.2.2 rest.of_cons.2, spelled⟩
termination_by structural derivation

theorem Branches.isSpelled (derivation : Branches) (valid : derivation.Valid false)
    (scanned : AllScanned derivation.tokens) : derivation.tree.IsSpelled := by
  cases derivation with
  | done closing => trivial
  | last branch closing => exact branch.isSpelled valid scanned.of_append.1 trivial
  | next branch semicolon rest =>
      rcases scanned.of_append with ⟨branchScanned, further⟩
      exact branch.isSpelled valid.1 branchScanned
        (rest.isSpelled valid.2 further.of_cons.2)
termination_by structural derivation

end

/-! ## Derivations of the text -/

theorem exists_cons_of_map {tokens : List Token} {lexeme : Lexeme} {lexemes : List Lexeme}
    (same : tokens.map Token.lexeme = lexeme :: lexemes) :
    ∃ position rest, tokens = ⟨lexeme, position⟩ :: rest ∧
      rest.map Token.lexeme = lexemes := by
  rcases List.map_eq_cons_iff.1 same with ⟨⟨_, position⟩, rest, rfl, rfl, further⟩
  exact ⟨position, rest, rfl, further⟩

theorem exists_singleton_of_map {tokens : List Token} {lexeme : Lexeme}
    (same : tokens.map Token.lexeme = [lexeme]) :
    ∃ position, tokens = [⟨lexeme, position⟩] := by
  rcases exists_cons_of_map same with ⟨position, rest, rfl, empty⟩
  rw [List.map_eq_nil_iff.1 empty]
  exact ⟨position, rfl⟩

def Name.ofScanned {text : String} (scanned : (Lexeme.name text).IsScanned) : Name :=
  ⟨text, scanned.isDistinct⟩

theorem ne_dots_of_isScanned {text : String} (scanned : (Lexeme.name text).IsScanned) :
    text ≠ "..." := by
  rintro rfl
  exact scanned.isDistinct (by decide)

def Postfix.alone (operand : Postfix) : Product := .mk (.plain operand) .nil

theorem Postfix.alone_tokens (operand : Postfix) :
    operand.alone.tokens = operand.tokens := by
  simp [alone, Product.tokens, Application.tokens, Factors.tokens]

def Postfix.whole (operand : Postfix) : Expression := .plain (.mk operand.alone .nil)

theorem Postfix.whole_tokens (operand : Postfix) :
    operand.whole.tokens = operand.tokens := by
  simp [whole, Expression.tokens, Additive.tokens, Terms.tokens, alone_tokens]

def Postfix.select (operand : Postfix) (selection : Selection) : Postfix :=
  match operand with
  | .mk atom selections => .mk atom (selections ++ [selection])

theorem Postfix.select_tokens (operand : Postfix) (selection : Selection) :
    (operand.select selection).tokens = operand.tokens ++ selection.tokens := by
  rcases operand with ⟨atom, selections⟩
  simp [select, Postfix.tokens]

theorem Postfix.select_tree (operand : Postfix) (selection : Selection) :
    (operand.select selection).tree =
      .select selection.point operand.tree selection.field.text := by
  rcases operand with ⟨atom, selections⟩
  simp [select, Postfix.tree, selectAll]

/-- A derivation of the tokens stands for the expression, up to positions. -/
def Expression.Restores (derivation : Expression) (tokens : List Token)
    (expression : Expr) : Prop :=
  derivation.Valid false ∧ derivation.tokens = tokens ∧ derivation.tree.unplaced =
    expression.unplaced

/-- An operand derived from the tokens stands for the expression, up to positions. -/
def Postfix.Restores (derivation : Postfix) (tokens : List Token) (expression : Expr) :
    Prop :=
  derivation.Valid false ∧ derivation.tokens = tokens ∧ derivation.tree.unplaced =
    expression.unplaced

/-- Tokens with the lexemes of an expression have a derivation, which is an operand unless
the expression needs parentheses. -/
def HasDerivation (expression : Expr) : Prop :=
  ∀ tokens : List Token, tokens.map Token.lexeme = expression.layout.lexemes →
    if expression.isCompound then ∃ derivation : Expression,
      derivation.Restores tokens expression
    else ∃ derivation : Postfix, derivation.Restores tokens expression

section HasDerivation

variable {expression : Expr} {tokens : List Token}

theorem HasDerivation.whole (derived : HasDerivation expression)
    (same : tokens.map Token.lexeme = expression.layout.lexemes) :
    ∃ derivation : Expression, derivation.Restores tokens expression := by
  have found := derived tokens same
  split at found
  next => exact found
  next =>
      rcases found with ⟨operand, valid, spells, restores⟩
      exact ⟨operand.whole, ⟨⟨valid, trivial⟩, trivial⟩,
        operand.whole_tokens.trans spells, restores⟩

theorem HasDerivation.operand (derived : HasDerivation expression)
    (same : tokens.map Token.lexeme =
      (encloseLayout expression.isCompound expression.layout).lexemes) :
    ∃ derivation : Postfix, derivation.Restores tokens expression := by
  cases compound : expression.isCompound with
  | false =>
      rw [compound] at same
      have found := derived tokens same
      rw [compound] at found
      exact found
  | true =>
      rw [compound, encloseLayout, if_pos rfl, Layout.lexemes_lexeme,
        Layout.lexemes_append] at same
      rcases exists_cons_of_map same with ⟨opening, rest, rfl, further⟩
      rcases List.map_eq_append_iff.1 further with ⟨inner, last, rfl, innerSame, lastSame⟩
      rcases exists_singleton_of_map lastSame with ⟨closing, rfl⟩
      rcases derived.whole innerSame with ⟨derivation, valid, rfl, restores⟩
      exact ⟨.mk (.parenthesized opening derivation closing) [], valid,
        by simp [Postfix.tokens, Atom.tokens, mark], restores⟩

end HasDerivation

theorem head_enclose_ne_dots {expression : Expr} {further : List Lexeme}
    (inner : (expression.layout.lexemes ++ further).head? ≠ some (.mark "..."))
    (compound : Bool) :
    ((encloseLayout compound expression.layout).lexemes ++ further).head? ≠ some
      (.mark "...") := by
  cases compound with
  | false => exact inner
  | true => simp [encloseLayout]

theorem head_lexemes_ne_dots (expression : Expr) (rereadable : expression.IsRereadable)
    (further : List Lexeme) :
    (expression.layout.lexemes ++ further).head? ≠ some (.mark "...") := by
  cases expression with
  | symbol position name =>
      have notDots : name ≠ "..." := rereadable
      simp [Expr.layout, symbolLexeme, notDots]
  | binary position operator left right =>
      rw [Expr.layout, Layout.lexemes_append, List.append_assoc]
      exact head_enclose_ne_dots (head_lexemes_ne_dots left rereadable.1 _) _
  | select position record field =>
      rw [Expr.layout, Layout.lexemes_append, List.append_assoc]
      exact head_enclose_ne_dots (head_lexemes_ne_dots record rereadable.2 _) _
  | _ => simp [Expr.layout]
termination_by structural expression

theorem Expression.Restores.notDots {derivation : Expression} {tokens : List Token}
    {expression : Expr} (restores : derivation.Restores tokens expression)
    (same : tokens.map Token.lexeme = expression.layout.lexemes)
    (rereadable : expression.IsRereadable) :
    ¬ derivation.leading.IsDots := by
  intro isDots
  rcases derivation.exists_tokens with ⟨rest, spelled⟩
  have starts := head_lexemes_ne_dots expression rereadable []
  rw [List.append_nil, ← same, ← restores.2.1, spelled, List.map_cons,
    Atom.first_of_isDots isDots] at starts
  exact starts rfl

theorem Postfix.Restores.notDots {derivation : Postfix} {tokens : List Token}
    {expression : Expr} (restores : derivation.Restores tokens expression)
    (same : tokens.map Token.lexeme =
      (encloseLayout expression.isCompound expression.layout).lexemes)
    (rereadable : expression.IsRereadable) : ¬ derivation.leading.IsDots := by
  intro isDots
  rcases derivation.exists_tokens with ⟨rest, spelled⟩
  have starts := head_enclose_ne_dots (head_lexemes_ne_dots expression rereadable [])
    expression.isCompound
  rw [List.append_nil, ← same, ← restores.2.1, spelled, List.map_cons,
    Atom.first_of_isDots isDots] at starts
  exact starts rfl

theorem exists_binary {left right : Expr} {first second : Postfix}
    {sign position : Position} {operator : Operator} (valid : first.Valid false)
    (restored : first.tree.unplaced = left.unplaced) (validToo : second.Valid false)
    (restoredToo : second.tree.unplaced = right.unplaced) :
    ∃ derivation : Expression, derivation.Restores
      (first.tokens ++ mark operator.text sign :: second.tokens)
        (.binary position operator left right) := by
  have tree : (Expr.binary sign operator first.tree second.tree).unplaced =
      (Expr.binary position operator left right).unplaced := by
    rw [Expr.unplaced, Expr.unplaced, restored, restoredToo]
  cases operator with
  | cons =>
      refine ⟨.cons (.mk first.alone .nil) sign second.whole, ?_, ?_, tree⟩
      · exact ⟨⟨⟨valid, trivial⟩, trivial⟩, ⟨validToo, trivial⟩, trivial⟩
      · simp [Expression.tokens, Additive.tokens, Terms.tokens, first.alone_tokens,
          second.whole_tokens, Operator.text]
  | add =>
      refine ⟨.plain (.mk first.alone (.add sign second.alone .nil)), ?_, ?_, tree⟩
      · exact ⟨⟨valid, trivial⟩, ⟨validToo, trivial⟩, trivial⟩
      · simp [Expression.tokens, Additive.tokens, Terms.tokens, first.alone_tokens,
          second.alone_tokens, Operator.text]
  | subtract =>
      refine ⟨.plain (.mk first.alone (.subtract sign second.alone .nil)), ?_, ?_, tree⟩
      · exact ⟨⟨valid, trivial⟩, ⟨validToo, trivial⟩, trivial⟩
      · simp [Expression.tokens, Additive.tokens, Terms.tokens, first.alone_tokens,
          second.alone_tokens, Operator.text]
  | multiply =>
      refine ⟨.plain (.mk (.mk (.plain first) (.cons sign (.plain second) .nil)) .nil),
        ?_, ?_, tree⟩
      · exact ⟨⟨valid, validToo, trivial⟩, trivial⟩
      · simp [Expression.tokens, Additive.tokens, Terms.tokens,
          Product.tokens, Factors.tokens, Application.tokens, Operator.text]

theorem exists_entry {name : String} {value : Expr} {tokens : List Token}
    (scanned : (Lexeme.name name).IsScanned)
    (derived : value.isShorthandFor name = false → HasDerivation value)
    (same : tokens.map Token.lexeme =
      Layout.lexemes (if value.isShorthandFor name then [some (.name name)]
      else some (.name name) :: none :: some (.mark "=") :: none :: value.layout)) :
    ∃ entry : Entry, entry.Valid false ∧ entry.tokens = tokens ∧
      ∀ tail, (entry.tree tail).unplaced =
        .cons .first name value.unplaced tail.unplaced := by
  split at same
  next isShort =>
      rcases exists_singleton_of_map same with ⟨place, rfl⟩
      refine ⟨.short place (.ofScanned scanned), trivial, rfl, fun tail => ?_⟩
      cases value with
      | symbol own symbol =>
          cases beq_iff_eq.1 isShort
          rfl
      | _ => cases isShort
  next notShort =>
      rcases exists_cons_of_map same with ⟨place, rest, rfl, further⟩
      rcases exists_cons_of_map further with ⟨sign, last, rfl, valueSame⟩
      rcases (derived (Bool.eq_false_iff.2 notShort)).whole valueSame with
        ⟨inner, valid, rfl, restored⟩
      refine ⟨.full place (.ofScanned scanned) sign inner, valid, rfl, fun tail => ?_⟩
      rw [Entry.tree, Fields.unplaced, restored]
      rfl

theorem exists_branch {pattern body : Expr} {front : List Token} (colon : Position)
    {inner : Expression} (bodyValid : inner.Valid false)
    (bodyRestored : inner.tree.unplaced = body.unplaced)
    (derived : pattern.IsRereadable → HasDerivation pattern)
    (rereadable : pattern.isDots ∨ pattern.IsRereadable)
    (same : front.map Token.lexeme = pattern.layout.lexemes) :
    ∃ branch : Branch, branch.Valid false ∧ branch.tokens = front ++
      mark ":" colon :: inner.tokens ∧
      ∀ tail, (branch.tree tail).unplaced =
        .cons .first pattern.unplaced body.unplaced tail.unplaced := by
  rcases rereadable with isDots | patternRereadable
  · cases pattern with
    | symbol place name =>
        cases beq_iff_eq.1 isDots
        rcases exists_singleton_of_map same with ⟨dots, rfl⟩
        refine ⟨.dots dots colon inner, bodyValid, rfl, fun tail => ?_⟩
        rw [Branch.tree, Choices.unplaced, bodyRestored]
        rfl
    | _ => cases isDots
  · rcases (derived patternRereadable).whole same with ⟨derivation, restores⟩
    have notDots := restores.notDots same patternRereadable
    rcases restores with ⟨valid, rfl, restored⟩
    refine ⟨.pattern derivation colon inner, ⟨valid, notDots, bodyValid⟩,
      rfl, fun tail => ?_⟩
    rw [Branch.tree, Choices.unplaced, restored, bodyRestored]

/-- The items of a list and the closing bracket have a derivation. -/
def HaveItems (items : Exprs) : Prop :=
  ∀ tokens : List Token, tokens.map Token.lexeme = items.layout.lexemes ++ [.mark "]"] →
    ∃ derivation : Items, derivation.Valid false ∧ derivation.tokens = tokens ∧
      derivation.tree.unplaced = items.unplaced

/-- The entries of a record and the closing brace have a derivation. -/
def HaveEntries (fields : Fields) : Prop :=
  ∀ tokens : List Token, tokens.map Token.lexeme = fields.layout.lexemes ++
    [.mark "\x7d"] →
    ∃ derivation : Entries, derivation.Valid false ∧ derivation.tokens = tokens ∧
      derivation.tree.unplaced = fields.unplaced

/-- The choices of a case and the closing word have a derivation. -/
def HaveBranches (choices : Choices) : Prop :=
  ∀ tokens : List Token, tokens.map Token.lexeme = choices.layout.lexemes ++
    [.name "esac"] →
    ∃ derivation : Branches, derivation.Valid false ∧ derivation.tokens = tokens ∧
      derivation.tree.unplaced = choices.unplaced

theorem hasDerivation_symbol (position : Position) {name : String}
    (spelled : (Expr.symbol position name).IsSpelled) (notDots : name ≠ "...") :
    HasDerivation (.symbol position name) := by
  intro tokens same
  rcases spelled with isDots | free
  · exact absurd isDots notDots
  · rw [Expr.layout, symbolLexeme, if_neg notDots] at same
    rcases exists_singleton_of_map same with ⟨place, rfl⟩
    exact ⟨.mk (.name place (.ofScanned free.scanned) free.free) [], trivial, rfl, rfl⟩

theorem hasDerivation_static (position : Position) {owner field : String}
    (spelled : (Expr.static position owner field).IsSpelled) :
    HasDerivation (.static position owner field) := by
  intro tokens same
  rcases exists_cons_of_map same with ⟨place, rest, rfl, further⟩
  rcases exists_cons_of_map further with ⟨sign, last, rfl, ended⟩
  rcases exists_singleton_of_map ended with ⟨fieldPlace, rfl⟩
  exact ⟨.mk
    (.static place (.ofScanned spelled.1.scanned) sign fieldPlace (.ofScanned spelled.2)
      spelled.1.free) [], trivial, rfl, rfl⟩

theorem hasDerivation_list (position : Position) {items : Exprs}
    (derived : items ≠ .nil → HaveItems items) :
    HasDerivation (.list position items) := by
  intro tokens same
  rw [Expr.layout, Layout.lexemes_lexeme, Layout.lexemes_append] at same
  rcases exists_cons_of_map same with ⟨opening, rest, rfl, further⟩
  cases items with
  | nil =>
      rcases exists_singleton_of_map further with ⟨closing, rfl⟩
      exact ⟨.mk (.emptyList opening closing) [], trivial, rfl, rfl⟩
  | cons head tail =>
      rcases derived nofun rest further with ⟨items, valid, rfl, restored⟩
      refine ⟨.mk (.list opening items) [], valid, List.append_nil _, ?_⟩
      exact congrArg (Expr.list .first) restored

theorem hasDerivation_record (position : Position) {fields : Fields}
    (derived : fields ≠ .nil → HaveEntries fields) :
    HasDerivation (.record position fields) := by
  intro tokens same
  rw [Expr.layout, Layout.lexemes_lexeme, Layout.lexemes_append] at same
  rcases exists_cons_of_map same with ⟨opening, rest, rfl, further⟩
  cases fields with
  | nil =>
      rcases exists_singleton_of_map further with ⟨closing, rfl⟩
      exact ⟨.mk (.emptyRecord opening closing) [], trivial, rfl, rfl⟩
  | cons place name value tail =>
      rcases derived (by simp) rest further with ⟨entries, valid, rfl, restored⟩
      refine ⟨.mk (.record opening entries) [], valid, List.append_nil _, ?_⟩
      exact congrArg (Expr.record .first) restored

theorem hasDerivation_apply (position : Position) {name : String} {argument : Expr}
    (spelled : (Expr.apply position name argument).IsSpelled)
    (rereadable : argument.IsRereadable) (derived : HasDerivation argument) :
    HasDerivation (.apply position name argument) := by
  intro tokens same
  rcases exists_cons_of_map same with ⟨place, rest, rfl, further⟩
  rcases derived.operand further with ⟨operand, restores⟩
  let head : Postfix := .mk (.name place (.ofScanned spelled.1.scanned) spelled.1.free) []
  have isName : IsName head.tree :=
    ⟨place, name, rfl, ne_dots_of_isScanned spelled.1.scanned⟩
  have notDots := restores.notDots further rereadable
  rcases restores with ⟨valid, rfl, restored⟩
  refine ⟨.plain (.mk (.mk (.apply head operand) .nil) .nil), ?_, ?_, ?_⟩
  · exact ⟨⟨⟨trivial, valid, isName, fun _ => notDots⟩, trivial⟩, trivial⟩
  · simp [Expression.tokens, Additive.tokens, Product.tokens,
      Application.tokens, Terms.tokens, Factors.tokens, head, Postfix.tokens, Atom.tokens,
      Name.token, Name.ofScanned]
  · change Expr.apply .first name operand.tree.unplaced = _
    rw [restored]
    rfl

theorem hasDerivation_binary (position : Position) (operator : Operator)
    {left right : Expr} (leftDerived : HasDerivation left)
    (rightDerived : HasDerivation right) :
    HasDerivation (.binary position operator left right) := by
  intro tokens same
  rw [Expr.layout, Layout.lexemes_append] at same
  rcases List.map_eq_append_iff.1 same with ⟨front, back, rfl, leftSame, further⟩
  rcases exists_cons_of_map further with ⟨sign, rest, rfl, rightSame⟩
  rcases leftDerived.operand leftSame with ⟨first, valid, rfl, restored⟩
  rcases rightDerived.operand rightSame with ⟨second, validToo, rfl, restoredToo⟩
  exact exists_binary valid restored validToo restoredToo

theorem hasDerivation_select (position : Position) {record : Expr} {field : String}
    (spelled : (Lexeme.name field).IsScanned) (derived : HasDerivation record) :
    HasDerivation (.select position record field) := by
  intro tokens same
  rw [Expr.layout, Layout.lexemes_append] at same
  rcases List.map_eq_append_iff.1 same with ⟨front, back, rfl, recordSame, further⟩
  rcases exists_cons_of_map further with ⟨point, last, rfl, ended⟩
  rcases exists_singleton_of_map ended with ⟨place, rfl⟩
  rcases derived.operand recordSame with ⟨operand, valid, rfl, restored⟩
  let selection : Selection := ⟨point, place, .ofScanned spelled⟩
  refine ⟨operand.select selection, ?_, operand.select_tokens selection, ?_⟩
  · rcases operand with ⟨atom, selections⟩
    exact valid
  · rw [operand.select_tree, Expr.unplaced, Expr.unplaced, restored]
    rfl

theorem hasDerivation_caseOf (position : Position) {value : Expr} {choices : Choices}
    (valueDerived : HasDerivation value) (choicesDerived : HaveBranches choices) :
    HasDerivation (.caseOf position value choices) := by
  intro tokens same
  simp only [Expr.layout, Layout.lexemes_lexeme, Layout.lexemes_space,
    Layout.lexemes_append] at same
  rcases exists_cons_of_map same with ⟨place, rest, rfl, further⟩
  rcases List.map_eq_append_iff.1 further with ⟨front, back, rfl, valueSame, rest⟩
  rcases exists_cons_of_map rest with ⟨ofPlace, last, rfl, choicesSame⟩
  rcases valueDerived.whole valueSame with ⟨inner, valid, rfl, restored⟩
  rcases choicesDerived last choicesSame with ⟨branches, validToo, rfl, restoredToo⟩
  refine ⟨.mk (.caseOf place inner ofPlace branches) [], ⟨valid, validToo⟩,
    List.append_nil _, ?_⟩
  change Expr.caseOf .first inner.tree.unplaced branches.tree.unplaced = _
  rw [restored, restoredToo]
  rfl

theorem haveItems_cons {head : Expr} {tail : Exprs} (headDerived : HasDerivation head)
    (tailDerived : tail ≠ .nil → HaveItems tail) : HaveItems (.cons head tail) := by
  intro tokens same
  cases tail with
  | nil =>
      rcases List.map_eq_append_iff.1 same with ⟨front, back, rfl, headSame, further⟩
      rcases exists_singleton_of_map further with ⟨closing, rfl⟩
      rcases headDerived.whole headSame with ⟨item, valid, rfl, restored⟩
      exact ⟨.last item closing, valid, rfl, congrArg (Exprs.cons · .nil) restored⟩
  | cons second tail =>
      rw [Exprs.layout, Layout.lexemes_append, List.append_assoc] at same
      · rcases List.map_eq_append_iff.1 same with ⟨front, back, rfl, headSame, further⟩
        rcases exists_cons_of_map further with ⟨comma, rest, rfl, tailSame⟩
        rcases headDerived.whole headSame with ⟨item, valid, rfl, restored⟩
        rcases tailDerived nofun rest tailSame with ⟨others, validToo, rfl, restoredToo⟩
        refine ⟨.next item comma others, ⟨valid, validToo⟩, rfl, ?_⟩
        rw [Items.tree, Exprs.unplaced, restored, restoredToo]
        rfl
      · exact nofun

theorem haveEntries_cons (position : Position) {name : String}
    {value : Expr} {tail : Fields} (scanned : (Lexeme.name name).IsScanned)
    (valueDerived : value.isShorthandFor name = false → HasDerivation value)
    (tailDerived : tail ≠ .nil → HaveEntries tail) :
    HaveEntries (.cons position name value tail) := by
  intro tokens same
  cases tail with
  | nil =>
      rcases List.map_eq_append_iff.1 same with ⟨front, back, rfl, entrySame, further⟩
      rcases exists_singleton_of_map further with ⟨closing, rfl⟩
      rcases exists_entry scanned valueDerived entrySame with
        ⟨entry, valid, rfl, restored⟩
      exact ⟨.last entry closing, valid, rfl, restored .nil⟩
  | cons place second further tail =>
      rw [Fields.layout, Layout.lexemes_append, List.append_assoc] at same
      · rcases List.map_eq_append_iff.1 same with ⟨front, back, rfl, entrySame, following⟩
        rcases exists_cons_of_map following with ⟨comma, rest, rfl, tailSame⟩
        rcases exists_entry scanned valueDerived entrySame with
          ⟨entry, valid, rfl, restored⟩
        rcases tailDerived (by simp) rest tailSame with
          ⟨others, validToo, rfl, restoredToo⟩
        refine ⟨.next entry comma others, ⟨valid, validToo⟩, rfl, ?_⟩
        rw [Entries.tree, restored, restoredToo]
        rfl
      · simp

theorem haveBranches_cons (position : Position) {pattern body : Expr} {tail : Choices}
    (rereadable : pattern.isDots ∨ pattern.IsRereadable)
    (patternDerived : pattern.IsRereadable → HasDerivation pattern)
    (bodyDerived : HasDerivation body) (tailDerived : HaveBranches tail) :
    HaveBranches (.cons position pattern body tail) := by
  intro tokens same
  simp only [Choices.layout, Layout.lexemes_append, Layout.lexemes_lexeme,
    Layout.lexemes_space, List.append_assoc, List.cons_append] at same
  rcases List.map_eq_append_iff.1 same with ⟨front, back, rfl, patternSame, further⟩
  rcases exists_cons_of_map further with ⟨colon, rest, rfl, following⟩
  rcases List.map_eq_append_iff.1 following with ⟨middle, last, rfl, bodySame, ended⟩
  rcases exists_cons_of_map ended with ⟨semicolon, others, rfl, tailSame⟩
  rcases bodyDerived.whole bodySame with ⟨inner, valid, rfl, restored⟩
  rcases tailDerived others tailSame with ⟨branches, branchesValid, rfl, branchesRestored⟩
  rcases exists_branch colon valid restored patternDerived rereadable patternSame
    with ⟨branch, branchValid, spells, branchRestored⟩
  refine ⟨.next branch semicolon branches, ⟨branchValid, branchesValid⟩, ?_, ?_⟩
  · rw [Branches.tokens, spells, List.append_assoc]
    rfl
  · rw [Branches.tree, branchRestored, branchesRestored]
    rfl

theorem haveBranches_rest (position : Position) {tail : Choices}
    (tailDerived : HaveBranches tail) :
    HaveBranches (.rest position tail) := by
  intro tokens same
  rcases exists_cons_of_map same with ⟨dots, rest, rfl, further⟩
  rcases exists_cons_of_map further with ⟨semicolon, others, rfl, tailSame⟩
  rcases tailDerived others tailSame with ⟨branches, valid, rfl, restored⟩
  refine ⟨.next (.rest dots) semicolon branches, ⟨trivial, valid⟩, rfl, ?_⟩
  exact congrArg (Choices.rest .first) restored

mutual

theorem hasDerivation (expression : Expr) (spelled : expression.IsSpelled)
    (rereadable : expression.IsRereadable) : HasDerivation expression := by
  match expression with
  | .symbol position name => exact hasDerivation_symbol position spelled rereadable
  | .number position text value =>
      intro tokens same
      rcases exists_singleton_of_map same with ⟨place, rfl⟩
      exact ⟨.mk (.number place text value spelled.2) [], trivial, rfl, rfl⟩
  | .string position value =>
      intro tokens same
      rcases exists_singleton_of_map same with ⟨place, rfl⟩
      exact ⟨.mk (.string place _ value (Text.unquote?_quoteBytes value)) [],
        trivial, rfl, rfl⟩
  | .unit position =>
      intro tokens same
      rcases exists_cons_of_map same with ⟨opening, rest, rfl, further⟩
      rcases exists_singleton_of_map further with ⟨closing, rfl⟩
      exact ⟨.mk (.unit opening closing) [], trivial, rfl, rfl⟩
  | .static position owner field => exact hasDerivation_static position spelled
  | .list position items =>
      exact hasDerivation_list position (hasItems items spelled rereadable)
  | .apply position name argument =>
      exact hasDerivation_apply position spelled rereadable
        (hasDerivation argument spelled.2 rereadable)
  | .binary position operator left right =>
      exact hasDerivation_binary position operator
        (hasDerivation left spelled.1 rereadable.1)
        (hasDerivation right spelled.2 rereadable.2)
  | .record position fields =>
      exact hasDerivation_record position (hasEntries fields spelled rereadable)
  | .select position record field =>
      exact hasDerivation_select position spelled.2
        (hasDerivation record spelled.1 rereadable.2)
  | .caseOf position value choices =>
      exact hasDerivation_caseOf position (hasDerivation value spelled.1 rereadable.1)
        (hasBranches choices spelled.2 rereadable.2)
termination_by structural expression

theorem hasItems (items : Exprs) (spelled : items.IsSpelled)
    (rereadable : items.IsRereadable) (nonempty : items ≠ .nil) : HaveItems items := by
  match items with
  | .nil => exact absurd rfl nonempty
  | .cons head tail =>
      exact haveItems_cons (hasDerivation head spelled.1 rereadable.1)
        (hasItems tail spelled.2 rereadable.2)
termination_by structural items

theorem hasEntries (fields : Fields) (spelled : fields.IsSpelled)
    (rereadable : fields.IsRereadable) (nonempty : fields ≠ .nil) :
    HaveEntries fields := by
  match fields with
  | .nil => exact absurd rfl nonempty
  | .cons position name value tail =>
      exact haveEntries_cons position spelled.1
        (fun notShort => hasDerivation value (spelled.2.1 notShort) rereadable.1)
        (hasEntries tail spelled.2.2 rereadable.2)
termination_by structural fields

theorem hasBranches (choices : Choices) (spelled : choices.IsSpelled)
    (rereadable : choices.IsRereadable) : HaveBranches choices := by
  match choices with
  | .nil =>
      intro tokens same
      rcases exists_singleton_of_map same with ⟨closing, rfl⟩
      exact ⟨.done closing, trivial, rfl, rfl⟩
  | .cons position pattern body tail =>
      exact haveBranches_cons position rereadable.1 (hasDerivation pattern spelled.1)
        (hasDerivation body spelled.2.1 rereadable.2.1)
        (hasBranches tail spelled.2.2 rereadable.2.2)
  | .rest position tail =>
      exact haveBranches_rest position (hasBranches tail spelled rereadable)
termination_by structural choices

end

theorem isSpelled_of_parse {source : Source} {expression : Expr}
    (parsed : Expr.parse source = .ok expression) : expression.IsSpelled := by
  rcases bind_eq_ok parsed with ⟨_, scanned, parsed⟩
  rcases isScanned_of_scan scanned with ⟨tokens, rfl, allScanned⟩
  have proper : ∀ token ∈ tokens, token.lexeme ≠ .finish ∧ token.lexeme.IsDistinct :=
    fun token isMember =>
    ⟨(allScanned token isMember).ne_finish, (allScanned token isMember).isDistinct⟩
  rcases exists_derivation_of_ofTokens proper parsed with ⟨⟨derivation, valid, rfl⟩, rfl⟩
  exact derivation.isSpelled valid allScanned

/-- Parsing the text of an expression gives the expression back, up to positions, if it
selects no field directly from a number and uses `...` only as the whole pattern of a
choice. -/
theorem parse_text {source : Source} {expression : Expr}
    (parsed : Expr.parse source = .ok expression) (rereadable : expression.IsRereadable) :
    ∃ again, Expr.parse (.ofString expression.text) = .ok again ∧
      again.unplaced = expression.unplaced := by
  have spelled := isSpelled_of_parse parsed
  have separated : expression.layout.Separated := by
    rw [← List.append_nil expression.layout]
    exact expression.separated spelled rereadable trivial (stops_none.ends expression)
  rcases scan_ofString separated expression.text_toList with
    ⟨tokens, finish, scanned, same⟩
  rcases (hasDerivation expression spelled rereadable).whole same with
    ⟨derivation, valid, rfl, restored⟩
  refine ⟨derivation.tree, ?_, restored⟩
  rw [Expr.parse, scanned]
  exact Derivation.ofTokens_eq ⟨derivation, valid, rfl⟩

def catchingCase : Expr :=
  .caseOf .first (.select ⟨1, 7⟩ (.symbol ⟨1, 6⟩ "x") "a")
    (.cons ⟨1, 13⟩ (.symbol ⟨1, 13⟩ "...")
      (.apply ⟨1, 18⟩ "f"
        (.binary ⟨1, 23⟩ .add (.symbol ⟨1, 21⟩ "y") (.symbol ⟨1, 25⟩ "z"))) .nil)

theorem parse_text_catchingCase :
    Expr.parse (.ofString "case x.a of ...: f (y + z) esac") = .ok catchingCase ∧
      catchingCase.IsRereadable ∧
      ∃ again, Expr.parse (.ofString catchingCase.text) = .ok again ∧
        again.unplaced = catchingCase.unplaced := by
  have decided : (match Expr.parse (.ofString "case x.a of ...: f (y + z) esac") with
      | .ok expression => decide (expression = catchingCase)
      | .error _ => false) = true := by decide +kernel
  have parsed : Expr.parse (.ofString "case x.a of ...: f (y + z) esac") =
      .ok catchingCase := by
    split at decided
    next expression ran => rw [ran, of_decide_eq_true decided]
    next => cases decided
  have rereadable : catchingCase.IsRereadable := by
    simp [catchingCase, Expr.IsRereadable, Choices.IsRereadable,
      Expr.isNumber, Expr.isDots]
  exact ⟨parsed, rereadable, parse_text parsed rereadable⟩

end Grammar

end Casework
