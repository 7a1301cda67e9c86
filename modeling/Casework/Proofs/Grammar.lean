import Casework.Expr.Parser

/-!
The grammar of expressions.

expression := additive ('::' expression)? additive := product (('+' | '-') product)*
product := application ('*' application)* application := postfix | postfix postfix postfix
:= atom ('.' name)* atom := number | string | '...' | name | name '#' name | '(' ')' | '('
expression ')' | '[' ']' | '[' expression (',' expression)* ']' | '{' '}' | '{' entry (','
entry)* '}' | 'case' expression 'of' (branch ';')* branch? 'esac' entry := name ('='
expression)? branch := '...' | '...' ':' expression | expression ':' expression

Only a name is applied, never `...`. A pattern with something after its first `...` is no
pattern, and whether `...` may start an argument is left open here. Numbers and strings
must have a value, and a name that stands alone or before `#` is no keyword.

A derivation is a tree of uses of these rules. It spells tokens and stands for an
expression.
-/

namespace Casework

def markTexts : List String :=
  Token.marks.map (fun character => String.ofList [character]) ++ ["::", "->", "..."]

/-- Words and marks are told apart by their texts, and a literal is not written like the
mark that ends a pattern. -/
def Lexeme.IsDistinct : Lexeme → Prop
  | name text => text ∉ markTexts
  | mark text => text ∉ Expr.keywords
  | number text => text ≠ ":"
  | quoted text => text ≠ ":"
  | finish => True

namespace Grammar

structure Name where
  text : String
  proper : text ∉ markTexts

def Name.token (name : Name) (position : Position) : Token := ⟨.name name.text, position⟩

def Name.IsFree (name : Name) : Prop := name.text ∉ Expr.keywords

def mark (text : String) (position : Position) : Token := ⟨.mark text, position⟩

def word (text : String) (position : Position) : Token := ⟨.name text, position⟩

structure Selection where
  point : Position
  place : Position
  field : Name

def Selection.tokens (selection : Selection) : List Token :=
  [mark "." selection.point, selection.field.token selection.place]

/-! ## Derivations -/

mutual

inductive Expression where
  | plain (left : Additive)
  | cons (left : Additive) (sign : Position) (right : Expression)

inductive Additive where
  | mk (first : Product) (terms : Terms)

inductive Terms where
  | nil
  | add (sign : Position) (term : Product) (rest : Terms)
  | subtract (sign : Position) (term : Product) (rest : Terms)

inductive Product where
  | mk (first : Application) (factors : Factors)

/-- The factors of a product after the first one. -/
inductive Factors where
  | nil
  | cons (sign : Position) (factor : Application) (rest : Factors)

inductive Application where
  | plain (head : Postfix)
  | apply (head argument : Postfix)

inductive Postfix where
  | mk (atom : Atom) (selections : List Selection)

inductive Atom where
  | number (position : Position) (text : String) (value : Number)
    (reads : Number.read? text = some value)
  | string (position : Position) (text : String) (value : List UInt8)
      (reads : Text.unquote? text = some value)
  | dots (position : Position)
  | name (position : Position) (name : Name) (free : name.IsFree)
  | static (position : Position) (owner : Name) (sign place : Position) (field : Name)
      (free : owner.IsFree)
  | unit (opening closing : Position)
  | parenthesized (opening : Position) (inner : Expression) (closing : Position)
  | emptyList (opening closing : Position)
  | list (opening : Position) (items : Items)
  | emptyRecord (opening closing : Position)
  | record (opening : Position) (entries : Entries)
  | caseOf (position : Position) (value : Expression) (place : Position)
    (branches : Branches)

/-- The items of a list and its closing bracket. -/
inductive Items where
  | last (item : Expression) (closing : Position)
  | next (item : Expression) (comma : Position) (rest : Items)

inductive Entry where
  | short (position : Position) (name : Name)
  | full (position : Position) (name : Name) (sign : Position) (value : Expression)

/-- The entries of a record and its closing brace. -/
inductive Entries where
  | last (entry : Entry) (closing : Position)
  | next (entry : Entry) (comma : Position) (rest : Entries)

inductive Branch where
  | rest (position : Position)
  | dots (position colon : Position) (body : Expression)
  | pattern (pattern : Expression) (colon : Position) (body : Expression)

/-- The branches of a case and its closing word. -/
inductive Branches where
  | done (closing : Position)
  | last (branch : Branch) (closing : Position)
  | next (branch : Branch) (semicolon : Position) (rest : Branches)

end

/-! ## What a derivation starts with -/

def Postfix.leading : Postfix → Atom
  | .mk atom _ => atom

def Application.leading : Application → Atom
  | .plain head => head.leading
  | .apply head _ => head.leading

def Product.leading : Product → Atom
  | .mk first _ => first.leading

def Additive.leading : Additive → Atom
  | .mk first _ => first.leading

def Expression.leading : Expression → Atom
  | .plain left => left.leading
  | .cons left _ _ => left.leading

namespace Atom

/-- The first token of an atom. -/
def first : Atom → Token
  | number position text _ _ => ⟨.number text, position⟩
  | string position text _ _ => ⟨.quoted text, position⟩
  | dots position => mark "..." position
  | name position own _ => own.token position
  | static position owner _ _ _ _ => owner.token position
  | unit opening _ => mark "(" opening
  | parenthesized opening _ _ => mark "(" opening
  | emptyList opening _ => mark "[" opening
  | list opening _ => mark "[" opening
  | emptyRecord opening _ => mark "\x7b" opening
  | record opening _ => mark "\x7b" opening
  | caseOf position _ _ _ => word "case" position

def IsDots : Atom → Prop
  | dots _ => True
  | _ => False

end Atom

/-! ## Tokens -/

mutual

def Expression.tokens : Expression → List Token
  | .plain left => left.tokens
  | .cons left sign right => left.tokens ++ mark "::" sign :: right.tokens

def Additive.tokens : Additive → List Token
  | .mk first terms => first.tokens ++ terms.tokens

def Terms.tokens : Terms → List Token
  | .nil => []
  | .add sign term rest => mark "+" sign :: (term.tokens ++ rest.tokens)
  | .subtract sign term rest => mark "-" sign :: (term.tokens ++ rest.tokens)

def Product.tokens : Product → List Token
  | .mk first factors => first.tokens ++ factors.tokens

def Factors.tokens : Factors → List Token
  | .nil => []
  | .cons sign factor rest => mark "*" sign :: (factor.tokens ++ rest.tokens)

def Application.tokens : Application → List Token
  | .plain head => head.tokens
  | .apply head argument => head.tokens ++ argument.tokens

def Postfix.tokens : Postfix → List Token
  | .mk atom selections => atom.tokens ++ selections.flatMap Selection.tokens

def Atom.tokens : Atom → List Token
  | .number position text _ _ => [⟨.number text, position⟩]
  | .string position text _ _ => [⟨.quoted text, position⟩]
  | .dots position => [mark "..." position]
  | .name position name _ => [name.token position]
  | .static position owner sign place field _ =>
      [owner.token position, mark "#" sign, field.token place]
  | .unit opening closing => [mark "(" opening, mark ")" closing]
  | .parenthesized opening inner closing =>
      mark "(" opening :: (inner.tokens ++ [mark ")" closing])
  | .emptyList opening closing => [mark "[" opening, mark "]" closing]
  | .list opening items => mark "[" opening :: items.tokens
  | .emptyRecord opening closing => [mark "\x7b" opening, mark "\x7d" closing]
  | .record opening entries => mark "\x7b" opening :: entries.tokens
  | .caseOf position value place branches =>
      word "case" position :: (value.tokens ++ word "of" place :: branches.tokens)

def Items.tokens : Items → List Token
  | .last item closing => item.tokens ++ [mark "]" closing]
  | .next item comma rest => item.tokens ++ mark "," comma :: rest.tokens

def Entry.tokens : Entry → List Token
  | .short position name => [name.token position]
  | .full position name sign value => name.token position :: mark "=" sign :: value.tokens

def Entries.tokens : Entries → List Token
  | .last entry closing => entry.tokens ++ [mark "\x7d" closing]
  | .next entry comma rest => entry.tokens ++ mark "," comma :: rest.tokens

def Branch.tokens : Branch → List Token
  | .rest position => [mark "..." position]
  | .dots position colon body => mark "..." position :: mark ":" colon :: body.tokens
  | .pattern pattern colon body => pattern.tokens ++ mark ":" colon :: body.tokens

def Branches.tokens : Branches → List Token
  | .done closing => [word "esac" closing]
  | .last branch closing => branch.tokens ++ [word "esac" closing]
  | .next branch semicolon rest => branch.tokens ++ mark ";" semicolon :: rest.tokens

end

/-! ## Expressions -/

/-- Selects fields from an expression, left to right. -/
def selectAll (inner : Expr) (selections : List Selection) : Expr :=
  selections.foldl
    (fun inner selection => .select selection.point inner selection.field.text) inner

def applied (head argument : Expr) : Expr :=
  match head with
  | .symbol position name => .apply position name argument
  | head => head

mutual

def Expression.tree : Expression → Expr
  | .plain left => left.tree
  | .cons left sign right => .binary sign .cons left.tree right.tree

def Additive.tree : Additive → Expr
  | .mk first terms => terms.tree first.tree

def Terms.tree : Terms → Expr → Expr
  | .nil, left => left
  | .add sign term rest, left => rest.tree (.binary sign .add left term.tree)
  | .subtract sign term rest, left => rest.tree (.binary sign .subtract left term.tree)

def Product.tree : Product → Expr
  | .mk first factors => factors.tree first.tree

def Factors.tree : Factors → Expr → Expr
  | .nil, left => left
  | .cons sign factor rest, left => rest.tree (.binary sign .multiply left factor.tree)

def Application.tree : Application → Expr
  | .plain head => head.tree
  | .apply head argument => applied head.tree argument.tree

def Postfix.tree : Postfix → Expr
  | .mk atom selections => selectAll atom.tree selections

def Atom.tree : Atom → Expr
  | .number position text value _ => .number position text value
  | .string position _ value _ => .string position value
  | .dots position => .symbol position "..."
  | .name position name _ => .symbol position name.text
  | .static position owner _ _ field _ => .static position owner.text field.text
  | .unit opening _ => .unit opening
  | .parenthesized _ inner _ => inner.tree
  | .emptyList opening _ => .list opening .nil
  | .list opening items => .list opening items.tree
  | .emptyRecord opening _ => .record opening .nil
  | .record opening entries => .record opening entries.tree
  | .caseOf position value _ branches => .caseOf position value.tree branches.tree

def Items.tree : Items → Exprs
  | .last item _ => .cons item.tree .nil
  | .next item _ rest => .cons item.tree rest.tree

def Entry.tree : Entry → Fields → Fields
  | .short position name, tail =>
      .cons position name.text (.symbol position name.text) tail
  | .full position name _ value, tail => .cons position name.text value.tree tail

def Entries.tree : Entries → Fields
  | .last entry _ => entry.tree .nil
  | .next entry _ rest => entry.tree rest.tree

def Branch.tree : Branch → Choices → Choices
  | .rest position, tail => .rest position tail
  | .dots position _ body, tail => .cons position (.symbol position "...") body.tree tail
  | .pattern pattern _ body, tail =>
      .cons pattern.leading.first.position pattern.tree body.tree tail

def Branches.tree : Branches → Choices
  | .done _ => .nil
  | .last branch _ => branch.tree .nil
  | .next branch _ rest => branch.tree rest.tree

end

/-! ## Conditions of the rules -/

def IsName (expression : Expr) : Prop :=
  ∃ position name, expression = .symbol position name ∧ name ≠ "..."

mutual

/-- A derivation satisfies the conditions of its rules. `dotted` tells whether `...` may
start an argument. -/
def Expression.Valid (dotted : Bool) : Expression → Prop
  | .plain left => left.Valid dotted
  | .cons left _ right => left.Valid dotted ∧ right.Valid dotted

def Additive.Valid (dotted : Bool) : Additive → Prop
  | .mk first terms => first.Valid dotted ∧ terms.Valid dotted

def Terms.Valid (dotted : Bool) : Terms → Prop
  | .nil => True
  | .add _ term rest => term.Valid dotted ∧ rest.Valid dotted
  | .subtract _ term rest => term.Valid dotted ∧ rest.Valid dotted

def Product.Valid (dotted : Bool) : Product → Prop
  | .mk first factors => first.Valid dotted ∧ factors.Valid dotted

def Factors.Valid (dotted : Bool) : Factors → Prop
  | .nil => True
  | .cons _ factor rest => factor.Valid dotted ∧ rest.Valid dotted

def Application.Valid (dotted : Bool) : Application → Prop
  | .plain head => head.Valid dotted
  | .apply head argument => head.Valid dotted ∧ argument.Valid dotted ∧ IsName head.tree ∧
      (dotted = false → ¬ argument.leading.IsDots)

def Postfix.Valid (dotted : Bool) : Postfix → Prop
  | .mk atom _ => atom.Valid dotted

def Atom.Valid (dotted : Bool) : Atom → Prop
  | .parenthesized _ inner _ => inner.Valid dotted
  | .list _ items => items.Valid dotted
  | .record _ entries => entries.Valid dotted
  | .caseOf _ value _ branches => value.Valid dotted ∧ branches.Valid dotted
  | _ => True

def Items.Valid (dotted : Bool) : Items → Prop
  | .last item _ => item.Valid dotted
  | .next item _ rest => item.Valid dotted ∧ rest.Valid dotted

def Entry.Valid (dotted : Bool) : Entry → Prop
  | .short _ _ => True
  | .full _ _ _ value => value.Valid dotted

def Entries.Valid (dotted : Bool) : Entries → Prop
  | .last entry _ => entry.Valid dotted
  | .next entry _ rest => entry.Valid dotted ∧ rest.Valid dotted

def Branch.Valid (dotted : Bool) : Branch → Prop
  | .rest _ => True
  | .dots _ _ body => body.Valid dotted
  | .pattern pattern _ body =>
      pattern.Valid dotted ∧ ¬ pattern.leading.IsDots ∧ body.Valid dotted

def Branches.Valid (dotted : Bool) : Branches → Prop
  | .done _ => True
  | .last branch _ => branch.Valid dotted
  | .next branch _ rest => branch.Valid dotted ∧ rest.Valid dotted

end

/-- A derivation of a list of tokens, where no argument starts with `...`. -/
structure Derivation (tokens : List Token) where
  expression : Expression
  valid : expression.Valid false
  spells : expression.tokens = tokens

/-! ## First tokens -/

theorem Name.isWord_eq_false (name : Name) {text : String} (isMark : text ∈ markTexts) :
    (Lexeme.name name.text).isWord text = false := by
  rw [Lexeme.isWord, beq_eq_false_iff_ne]
  rintro rfl
  exact name.proper isMark

def nonStarts : List String := [")", "]", "\x7d", ".", "#", "esac"]

theorem Atom.isWord_first (atom : Atom) {text : String} (excluded : text ∈ nonStarts) :
    atom.first.lexeme.isWord text = false := by
  have named (name : Name) (free : name.IsFree) : (Lexeme.name name.text).isWord
      text = false := by
    simp only [nonStarts, List.mem_cons, List.not_mem_nil, or_false] at excluded
    rcases excluded with rfl | rfl | rfl | rfl | rfl | rfl
    case inr.inr.inr.inr.inr =>
      rw [Lexeme.isWord, beq_eq_false_iff_ne]
      rintro isKeyword
      exact free (by rw [isKeyword]; decide)
    all_goals exact name.isWord_eq_false (by decide)
  cases atom with
  | name _ own free => exact named own free
  | static _ owner _ _ _ free => exact named owner free
  | number | string => rfl
  | _ =>
      simp only [nonStarts, List.mem_cons, List.not_mem_nil, or_false] at excluded
      rcases excluded with rfl | rfl | rfl | rfl | rfl | rfl <;> rfl

theorem Atom.exists_tokens (atom : Atom) : ∃ rest, atom.tokens = atom.first :: rest := by
  cases atom with
  | _ => exact ⟨_, by rw [Atom.tokens, Atom.first]⟩

theorem Postfix.exists_tokens (postfixed : Postfix) :
    ∃ rest, postfixed.tokens = postfixed.leading.first :: rest := by
  rcases postfixed with ⟨atom, selections⟩
  rcases atom.exists_tokens with ⟨rest, spelled⟩
  exact ⟨rest ++
    selections.flatMap Selection.tokens, by rw [Postfix.tokens, spelled]; rfl⟩

theorem Application.exists_tokens (application : Application) :
    ∃ rest, application.tokens = application.leading.first :: rest := by
  cases application with
  | plain head => exact head.exists_tokens
  | apply head argument =>
      rcases head.exists_tokens with ⟨rest, spelled⟩
      exact ⟨rest ++ argument.tokens, by rw [Application.tokens, spelled]; rfl⟩

theorem Product.exists_tokens (product : Product) :
    ∃ rest, product.tokens = product.leading.first :: rest := by
  rcases product with ⟨first, factors⟩
  rcases first.exists_tokens with ⟨rest, spelled⟩
  exact ⟨rest ++ factors.tokens, by rw [Product.tokens, spelled]; rfl⟩

theorem Additive.exists_tokens (additive : Additive) :
    ∃ rest, additive.tokens = additive.leading.first :: rest := by
  rcases additive with ⟨first, terms⟩
  rcases first.exists_tokens with ⟨rest, spelled⟩
  exact ⟨rest ++ terms.tokens, by rw [Additive.tokens, spelled]; rfl⟩

theorem Expression.exists_tokens (expression : Expression) :
    ∃ rest, expression.tokens = expression.leading.first :: rest := by
  cases expression with
  | plain left => exact left.exists_tokens
  | cons left sign right =>
      rcases left.exists_tokens with ⟨rest, spelled⟩
      exact ⟨rest ++ mark "::" sign ::
        right.tokens, by rw [Expression.tokens, spelled]; rfl⟩

/-! ## What follows

A rule ends where the next token cannot go on with it. -/

def endsAtom (lexeme : Lexeme) : Bool :=
  !lexeme.isWord "#"

def endsPostfix (lexeme : Lexeme) : Bool :=
  endsAtom lexeme && !lexeme.isWord "."

def endsApplication (lexeme : Lexeme) : Bool :=
  endsPostfix lexeme && !Expr.startsArgument lexeme

def endsProduct (lexeme : Lexeme) : Bool :=
  endsApplication lexeme && !lexeme.isWord "*"

def endsAdditive (lexeme : Lexeme) : Bool :=
  endsProduct lexeme && !lexeme.isWord "+" && !lexeme.isWord "-"

def endsExpression (lexeme : Lexeme) : Bool :=
  endsAdditive lexeme && !lexeme.isWord "::"

def endsEntry (lexeme : Lexeme) : Bool :=
  endsExpression lexeme && !lexeme.isWord "="

def endsBranch (lexeme : Lexeme) : Bool :=
  endsExpression lexeme && !lexeme.isWord ":"

/-- The tokens start with one that ends a rule. -/
def Follow (ends : Lexeme → Bool) (tokens : List Token) : Prop :=
  ∃ token rest, tokens = token :: rest ∧ ends token.lexeme = true

theorem Follow.cons {ends : Lexeme → Bool} {token : Token}
    (holds : ends token.lexeme = true) (rest : List Token) :
    Follow ends (token :: rest) :=
  ⟨token, rest, rfl, holds⟩

theorem Follow.imp {ends other : Lexeme → Bool} {tokens : List Token}
    (follow : Follow ends tokens) (implies : ∀ lexeme, ends lexeme = true → other lexeme =
      true) : Follow other tokens := by
  rcases follow with ⟨token, rest, rfl, holds⟩
  exact .cons (implies _ holds) rest

section Follow

variable {tokens rest : List Token}

theorem Follow.entry (follow : Follow endsEntry tokens) : Follow endsExpression tokens :=
  follow.imp fun _ holds => (Bool.and_eq_true_iff.1 holds).1

theorem Follow.branch (follow : Follow endsBranch tokens) :
    Follow endsExpression tokens :=
  follow.imp fun _ holds => (Bool.and_eq_true_iff.1 holds).1

theorem Follow.additive (follow : Follow endsExpression tokens) :
    Follow endsAdditive tokens :=
  follow.imp fun _ holds => (Bool.and_eq_true_iff.1 holds).1

theorem Follow.product (follow : Follow endsAdditive tokens) :
    Follow endsProduct tokens :=
  follow.imp fun _ holds => (Bool.and_eq_true_iff.1 (Bool.and_eq_true_iff.1 holds).1).1

theorem Follow.application (follow : Follow endsProduct tokens) :
    Follow endsApplication tokens :=
  follow.imp fun _ holds => (Bool.and_eq_true_iff.1 holds).1

theorem Follow.afterPostfix (follow : Follow endsApplication tokens) :
    Follow endsPostfix tokens :=
  follow.imp fun _ holds => (Bool.and_eq_true_iff.1 holds).1

theorem Follow.atom (follow : Follow endsPostfix tokens) : Follow endsAtom tokens :=
  follow.imp fun _ holds => (Bool.and_eq_true_iff.1 holds).1

theorem Follow.terms (follow : Follow endsAdditive rest) (terms : Terms) :
    Follow endsProduct (terms.tokens ++ rest) := by
  cases terms with
  | nil => exact follow.product
  | add sign term later | subtract sign term later => exact .cons rfl _

theorem Follow.factors (follow : Follow endsProduct rest) (factors : Factors) :
    Follow endsApplication (factors.tokens ++ rest) := by
  cases factors with
  | nil => exact follow.application
  | cons sign factor later => exact .cons rfl _

theorem Follow.selections (follow : Follow endsPostfix rest)
    (selections : List Selection) :
    Follow endsAtom (selections.flatMap Selection.tokens ++ rest) := by
  cases selections with
  | nil => exact follow.atom
  | cons selection later => exact .cons rfl _

theorem Follow.argument (argument : Postfix) (rest : List Token) :
    Follow endsPostfix (argument.tokens ++ rest) := by
  rcases argument.exists_tokens with ⟨following, spelled⟩
  rw [spelled]
  apply Follow.cons
  simp [endsPostfix, endsAtom, Atom.isWord_first _ (show "." ∈ nonStarts by decide),
    Atom.isWord_first _ (show "#" ∈ nonStarts by decide)]

end Follow

end Grammar

end Casework
