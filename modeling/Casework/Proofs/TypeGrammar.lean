import Casework.Proofs.Unambiguity
import Casework.TypeGraph.Parser

/-!
The grammar of types.

type := alternatives ('->' type)? alternatives := tag atom ('|' tag atom)* ('|' '...')? |
atom atom := 'number' | 'string' | 'boolean' | 'bool' | '(' ')' | ''' name | 'list' '<'
type '>' | '{' (field (',' field)*)? '}' | '(' type ')' field := '.'? name 'is' type

A tag is a name that starts with a letter in upper case. Every other name may be any name.

A derivation is a tree of uses of these rules. It spells tokens, and a list of tokens has
at most one derivation: where a type ends, no arrow and no bar follow.
-/

namespace Casework.TypeGrammar

open Grammar

inductive PrimitiveWord where
  | number
  | string
  | boolean
  | bool

namespace PrimitiveWord

def text : PrimitiveWord → String
  | number => "number"
  | string => "string"
  | boolean => "boolean"
  | bool => "bool"

def primitive : PrimitiveWord → Primitive
  | number => .number
  | string => .text
  | boolean => .boolean
  | bool => .boolean

end PrimitiveWord

structure Tag where
  name : Name
  isTag : isTagName name.text = true

/-! ## Derivations -/

mutual

inductive Written where
  | plain (left : Alternatives)
  | function (left : Alternatives) (arrow : Position) (right : Written)

inductive Alternatives where
  | atom (atom : Atom)
  | variant (tags : Tags)

/-- The tags of a variant, which may end in dots. -/
inductive Tags where
  | last (place : Position) (tag : Tag) (payload : Atom)
  | dots (place : Position) (tag : Tag) (payload : Atom) (bar dots : Position)
  | next (place : Position) (tag : Tag) (payload : Atom) (bar : Position) (rest : Tags)

inductive Atom where
  | primitive (place : Position) (word : PrimitiveWord)
  | unit (opening closing : Position)
  | variable (sign place : Position) (name : Name)
  | list (place opening : Position) (element : Written) (closing : Position)
  | emptyStruct (opening closing : Position)
  | struct (opening : Position) (fields : Fields)
  | parenthesized (opening : Position) (inner : Written) (closing : Position)

inductive Field where
  | plain (place : Position) (name : Name) (sign : Position) (type : Written)
  | pointed (point place : Position) (name : Name) (sign : Position) (type : Written)

/-- The fields of a struct and its closing brace. -/
inductive Fields where
  | last (field : Field) (closing : Position)
  | next (field : Field) (comma : Position) (rest : Fields)

end

/-! ## Tokens -/

mutual

def Written.tokens : Written → List Token
  | .plain left => left.tokens
  | .function left arrow right => left.tokens ++ mark "->" arrow :: right.tokens

def Alternatives.tokens : Alternatives → List Token
  | .atom atom => atom.tokens
  | .variant tags => tags.tokens

def Tags.tokens : Tags → List Token
  | .last place tag payload => tag.name.token place :: payload.tokens
  | .dots place tag payload bar dots =>
      tag.name.token place :: (payload.tokens ++ [mark "|" bar, mark "..." dots])
  | .next place tag payload bar rest =>
      tag.name.token place :: (payload.tokens ++ mark "|" bar :: rest.tokens)

def Atom.tokens : Atom → List Token
  | .primitive place own => [word own.text place]
  | .unit opening closing => [mark "(" opening, mark ")" closing]
  | .variable sign place name => [mark "'" sign, name.token place]
  | .list place opening element closing =>
      word "list" place :: mark "<" opening :: (element.tokens ++ [mark ">" closing])
  | .emptyStruct opening closing => [mark "\x7b" opening, mark "\x7d" closing]
  | .struct opening fields => mark "\x7b" opening :: fields.tokens
  | .parenthesized opening inner closing =>
      mark "(" opening :: (inner.tokens ++ [mark ")" closing])

def Field.tokens : Field → List Token
  | .plain place name sign type => name.token place :: word "is" sign :: type.tokens
  | .pointed point place name sign type =>
      mark "." point :: name.token place :: word "is" sign :: type.tokens

def Fields.tokens : Fields → List Token
  | .last field closing => field.tokens ++ [mark "\x7d" closing]
  | .next field comma rest => field.tokens ++ mark "," comma :: rest.tokens

end

/-- A derivation of a list of tokens. -/
structure Derivation (tokens : List Token) where
  type : Written
  spells : type.tokens = tokens

/-! ## What is written -/

def Tags.isOpen : Tags → Bool
  | .last _ _ _ => false
  | .dots _ _ _ _ _ => true
  | .next _ _ _ _ rest => rest.isOpen

def Field.isPointed : Field → Bool
  | .plain _ _ _ _ => false
  | .pointed _ _ _ _ _ => true

def Fields.isOpen : Fields → Bool
  | .last field _ => field.isPointed
  | .next field _ rest => field.isPointed || rest.isOpen

mutual

/-- The names of the type variables, in order of appearance. -/
def Written.names : Written → List String
  | .plain left => left.names
  | .function left _ right => left.names ++ right.names

def Alternatives.names : Alternatives → List String
  | .atom atom => atom.names
  | .variant tags => tags.names

def Tags.names : Tags → List String
  | .last _ _ payload => payload.names
  | .dots _ _ payload _ _ => payload.names
  | .next _ _ payload _ rest => payload.names ++ rest.names

def Atom.names : Atom → List String
  | .primitive _ _ => []
  | .unit _ _ => []
  | .variable _ _ name => [name.text]
  | .list _ _ element _ => element.names
  | .emptyStruct _ _ => []
  | .struct _ fields => fields.names
  | .parenthesized _ inner _ => inner.names

def Field.names : Field → List String
  | .plain _ _ _ type => type.names
  | .pointed _ _ _ _ type => type.names

def Fields.names : Fields → List String
  | .last field _ => field.names
  | .next field _ rest => field.names ++ rest.names

end

/-! ## What follows -/

def endsAlternatives (lexeme : Lexeme) : Bool :=
  !lexeme.isWord "|"

def endsWritten (lexeme : Lexeme) : Bool :=
  endsAlternatives lexeme && !lexeme.isWord "->"

variable {rest other : List Token} {text : String} {place : Position}

theorem follow_alternatives (follow : Follow endsWritten rest) :
    Follow endsAlternatives rest :=
  follow.imp fun _ holds => (Bool.and_eq_true_iff.1 holds).1

/-! ## First tokens -/

/-- A name may start an atom if it is no tag. A mark opens an atom or is the sign of a
variable. -/
def startsAtom : Lexeme → Bool
  | .name text => !isTagName text
  | .mark text => text = "'" || text = "(" || text = "\x7b"
  | _ => false

theorem Atom.exists_tokens (atom : Atom) :
    ∃ token following, atom.tokens = token :: following ∧ startsAtom token.lexeme = true ∧
      token.lexeme.isWord ")" = false := by
  cases atom with
  | primitive place own =>
      have noTag : isTagName own.text = false := by cases own <;> decide
      have noClosing : (own.text == ")") = false := by cases own <;> decide
      exact ⟨_, _, rfl, congrArg not noTag, noClosing⟩
  | list place opening element closing =>
      have noTag : isTagName "list" = false := by decide
      exact ⟨_, _, rfl, congrArg not noTag, show ("list" == ")") = false by decide⟩
  | _ => exact ⟨_, _, rfl, rfl, rfl⟩

theorem Tags.exists_tokens (tags : Tags) :
    ∃ (place : Position) (tag : Tag) (following : List Token),
      tags.tokens = tag.name.token place :: following := by
  cases tags with
  | _ => exact ⟨_, _, _, rfl⟩

theorem Written.exists_tokens (type : Written) :
    ∃ token following, type.tokens = token :: following ∧
      token.lexeme.isWord ")" = false := by
  have alternatives (left : Alternatives) :
      ∃ token following, left.tokens = token :: following ∧
      token.lexeme.isWord ")" = false := by
    cases left with
    | atom atom =>
        rcases atom.exists_tokens with ⟨token, following, spelled, _, noClosing⟩
        exact ⟨token, following, spelled, noClosing⟩
    | variant tags =>
        rcases tags.exists_tokens with ⟨place, tag, following, spelled⟩
        exact ⟨_, following, spelled, tag.name.isWord_eq_false (by decide)⟩
  cases type with
  | plain left => exact alternatives left
  | function left arrow right =>
      rcases alternatives left with ⟨token, following, spelled, noClosing⟩
      exact ⟨token, following ++ mark "->" arrow ::
        right.tokens, by rw [Written.tokens, spelled]; rfl, noClosing⟩

theorem Field.exists_tokens (field : Field) :
    ∃ token following, field.tokens = token :: following ∧
      token.lexeme.isWord "\x7d" = false := by
  cases field with
  | plain place name sign type => exact ⟨_, _, rfl, name.isWord_eq_false (by decide)⟩
  | pointed point place name sign type => exact ⟨_, _, rfl, rfl⟩

theorem Fields.exists_tokens (fields : Fields) :
    ∃ token following, fields.tokens = token :: following ∧
      token.lexeme.isWord "\x7d" = false := by
  cases fields with
  | last field _ | next field _ _ =>
      rcases field.exists_tokens with ⟨token, following, spelled, noClosing⟩
      exact ⟨token, _, by rw [Fields.tokens, spelled, List.cons_append], noClosing⟩

theorem Written.tokens_ne_closing (type : Written) :
    type.tokens ++ rest ≠ mark ")" place :: other := by
  rcases type.exists_tokens with ⟨token, following, spelled, noClosing⟩
  rw [spelled]
  intro same
  rw [(List.cons.inj same).1] at noClosing
  cases noClosing

theorem Fields.tokens_ne_closing (fields : Fields) :
    fields.tokens ++ rest ≠ mark "\x7d" place :: other := by
  rcases fields.exists_tokens with ⟨token, following, spelled, noClosing⟩
  rw [spelled]
  intro same
  rw [(List.cons.inj same).1] at noClosing
  cases noClosing

theorem Atom.tokens_ne_tags (atom : Atom) (tags : Tags) :
    atom.tokens ++ rest ≠ tags.tokens ++ other := by
  rcases atom.exists_tokens with ⟨token, following, atomSpelled, starts, _⟩
  rcases tags.exists_tokens with ⟨place, tag, later, tagsSpelled⟩
  rw [atomSpelled, tagsSpelled]
  intro same
  have first : token = tag.name.token place := (List.cons.inj same).1
  rw [first, Name.token, startsAtom, tag.isTag] at starts
  cases starts

theorem Tags.tokens_ne_mark (tags : Tags) :
    tags.tokens ++ rest ≠ mark text place :: other := by
  rcases tags.exists_tokens with ⟨own, tag, following, spelled⟩
  rw [spelled]
  exact fun same => token_ne_mark (List.cons.inj same).1

@[simp] theorem mark_ne_word {text other : String} {place second : Position} :
    mark text place ≠ word other second := by
  simp [mark, word]

@[simp] theorem word_ne_mark {text other : String} {place second : Position} :
    word other second ≠ mark text place := by
  simp [mark, word]

theorem Tag.eq_of_name {left right : Tag} (same : left.name = right.name) :
    left = right := by
  cases left
  cases right
  cases same
  rfl

@[simp] theorem PrimitiveWord.text_inj {left right : PrimitiveWord} :
    left.text = right.text ↔ left = right := by
  cases left <;> cases right <;> simp [text]

@[simp] theorem PrimitiveWord.text_ne_list (own : PrimitiveWord) : own.text ≠ "list" := by
  cases own <;> simp [text]

/-! ## One derivation -/

mutual

theorem Written.unique {left right : Written} {rest other : List Token}
    (followLeft : Follow endsWritten rest)
    (followRight : Follow endsWritten other)
    (same : left.tokens ++ rest = right.tokens ++ other) :
    left = right ∧ rest = other := by
  match left, right with
  | .plain first, .plain second =>
      rcases first.unique (follow_alternatives followLeft)
        (follow_alternatives followRight) same with ⟨rfl, rfl⟩
      exact ⟨rfl, rfl⟩
  | .plain first, .function second arrow result =>
      rw [Written.tokens, Written.tokens, List.append_assoc] at same
      rcases first.unique (follow_alternatives followLeft) (.cons rfl _)
        same with ⟨_, rfl⟩
      exact absurd followLeft (Follow.ne_mark rfl)
  | .function first arrow result, .plain second =>
      rw [Written.tokens, Written.tokens, List.append_assoc] at same
      rcases first.unique (.cons rfl _) (follow_alternatives followRight)
        same with ⟨_, rfl⟩
      exact absurd followRight (Follow.ne_mark rfl)
  | .function first arrow result, .function second otherArrow otherResult =>
      rw [Written.tokens, Written.tokens, List.append_assoc, List.append_assoc] at same
      rcases first.unique (.cons rfl _) (.cons rfl _) same with ⟨rfl, after⟩
      simp only [List.cons.injEq, mark_inj, true_and] at after
      rcases after with ⟨rfl, after⟩
      rcases result.unique followLeft followRight after with ⟨rfl, rfl⟩
      exact ⟨rfl, rfl⟩
termination_by structural left

theorem Alternatives.unique {left right : Alternatives} {rest other : List Token}
    (followLeft : Follow endsAlternatives rest)
    (followRight : Follow endsAlternatives other)
    (same : left.tokens ++ rest = right.tokens ++ other) :
    left = right ∧ rest = other := by
  match left, right with
  | .atom first, .atom second =>
      rcases first.unique same with ⟨rfl, rfl⟩
      exact ⟨rfl, rfl⟩
  | .atom first, .variant second => exact absurd same (first.tokens_ne_tags second)
  | .variant first, .atom second => exact absurd same.symm (second.tokens_ne_tags first)
  | .variant first, .variant second =>
      rcases first.unique followLeft followRight same with ⟨rfl, rfl⟩
      exact ⟨rfl, rfl⟩
termination_by structural left

theorem Tags.unique {left right : Tags} {rest other : List Token}
    (followLeft : Follow endsAlternatives rest)
    (followRight : Follow endsAlternatives other)
    (same : left.tokens ++ rest = right.tokens ++ other) :
    left = right ∧ rest = other := by
  match left, right with
  | .last place tag payload, .last second otherTag otherPayload =>
      simp only [Tags.tokens, List.cons_append, List.cons.injEq, Name.token_inj] at same
      rcases same with ⟨⟨names, rfl⟩, same⟩
      cases Tag.eq_of_name names
      rcases payload.unique same with ⟨rfl, rfl⟩
      exact ⟨rfl, rfl⟩
  | .last place tag payload, .dots second otherTag otherPayload bar dots
  | .last place tag payload, .next second otherTag otherPayload bar later =>
      simp only [Tags.tokens, List.cons_append, List.cons.injEq,
        List.append_assoc] at same
      rcases payload.unique same.2 with ⟨_, rfl⟩
      exact absurd followLeft (Follow.ne_mark rfl)
  | .dots place tag payload bar dots, .last second otherTag otherPayload
  | .next place tag payload bar later, .last second otherTag otherPayload =>
      simp only [Tags.tokens, List.cons_append, List.cons.injEq,
        List.append_assoc] at same
      rcases payload.unique same.2 with ⟨_, rfl⟩
      exact absurd followRight (Follow.ne_mark rfl)
  | .dots place tag payload bar dots,
    .dots second otherTag otherPayload otherBar otherDots =>
      simp only [Tags.tokens, List.cons_append, List.cons.injEq, List.append_assoc,
        Name.token_inj] at same
      rcases same with ⟨⟨names, rfl⟩, same⟩
      cases Tag.eq_of_name names
      rcases payload.unique same with ⟨rfl, after⟩
      simp only [List.nil_append, List.cons.injEq, mark_inj, true_and] at after
      rcases after with ⟨rfl, rfl, rfl⟩
      exact ⟨rfl, rfl⟩
  | .dots place tag payload bar dots, .next second otherTag otherPayload otherBar later =>
      simp only [Tags.tokens, List.cons_append, List.cons.injEq,
        List.append_assoc] at same
      rcases payload.unique same.2 with ⟨_, after⟩
      exact absurd (List.cons.inj after).2.symm later.tokens_ne_mark
  | .next place tag payload bar later, .dots second otherTag otherPayload otherBar dots =>
      simp only [Tags.tokens, List.cons_append, List.cons.injEq,
        List.append_assoc] at same
      rcases payload.unique same.2 with ⟨_, after⟩
      exact absurd (List.cons.inj after).2 later.tokens_ne_mark
  | .next place tag payload bar later,
    .next second otherTag otherPayload otherBar further =>
      simp only [Tags.tokens, List.cons_append, List.cons.injEq, List.append_assoc,
        Name.token_inj] at same
      rcases same with ⟨⟨names, rfl⟩, same⟩
      cases Tag.eq_of_name names
      rcases payload.unique same with ⟨rfl, after⟩
      simp only [List.cons.injEq, mark_inj, true_and] at after
      rcases after with ⟨rfl, after⟩
      rcases later.unique followLeft followRight after with ⟨rfl, rfl⟩
      exact ⟨rfl, rfl⟩
termination_by structural left

theorem Atom.unique {left right : Atom} {rest other : List Token}
    (same : left.tokens ++ rest = right.tokens ++ other) :
    left = right ∧ rest = other := by
  match left, right with
  | .primitive place own, .primitive _ _ =>
      simpa [Atom.tokens, and_assoc, and_comm] using same
  | .unit opening closing, .unit _ _ => simpa [Atom.tokens, and_assoc] using same
  | .variable sign place name, .variable _ _ _ =>
      simpa [Atom.tokens, Name.token_inj, and_assoc, and_comm, and_left_comm] using same
  | .list place opening element closing, .list _ _ second otherClosing =>
      simp only [Atom.tokens, List.cons_append, List.append_assoc, List.cons.injEq,
        mark_inj, word_inj, true_and] at same
      rcases same with ⟨rfl, rfl, same⟩
      rcases element.unique (.cons rfl _) (.cons rfl _) same with ⟨rfl, closed⟩
      simpa using closed
  | .emptyStruct opening closing, .emptyStruct _ _ =>
      simpa [Atom.tokens, and_assoc] using same
  | .emptyStruct opening closing, .struct _ second =>
      simp only [Atom.tokens, List.cons_append, List.cons.injEq] at same
      exact absurd same.2.symm second.tokens_ne_closing
  | .struct opening fields, .emptyStruct _ _ =>
      simp only [Atom.tokens, List.cons_append, List.cons.injEq] at same
      exact absurd same.2 fields.tokens_ne_closing
  | .struct opening fields, .struct _ second =>
      simp only [Atom.tokens, List.cons_append, List.cons.injEq, mark_inj,
        true_and] at same
      rcases same with ⟨rfl, same⟩
      rcases fields.unique same with ⟨rfl, rfl⟩
      exact ⟨rfl, rfl⟩
  | .unit opening closing, .parenthesized _ second _ =>
      simp only [Atom.tokens, List.cons_append, List.append_assoc,
        List.cons.injEq] at same
      exact absurd same.2.symm second.tokens_ne_closing
  | .parenthesized opening inner closing, .unit _ _ =>
      simp only [Atom.tokens, List.cons_append, List.append_assoc,
        List.cons.injEq] at same
      exact absurd same.2 inner.tokens_ne_closing
  | .parenthesized opening inner closing, .parenthesized _ second otherClosing =>
      simp only [Atom.tokens, List.cons_append, List.append_assoc,
        List.cons.injEq, mark_inj, true_and] at same
      rcases same with ⟨rfl, same⟩
      rcases inner.unique (.cons rfl _) (.cons rfl _) same with ⟨rfl, closed⟩
      simpa using closed
  | .primitive _ _, .unit _ _ | .primitive _ _,
    .variable _ _ _ | .primitive _ _, .list _ _ _ _
  | .primitive _ _, .emptyStruct _ _ | .primitive _ _, .struct _ _
  | .primitive _ _, .parenthesized _ _ _
  | .unit _ _, .primitive _ _ | .unit _ _, .variable _ _ _ | .unit _ _, .list _ _ _ _
  | .unit _ _, .emptyStruct _ _ | .unit _ _, .struct _ _
  | .variable _ _ _, .primitive _ _ | .variable _ _ _,
    .unit _ _ | .variable _ _ _, .list _ _ _ _
  | .variable _ _ _, .emptyStruct _ _ | .variable _ _ _, .struct _ _
  | .variable _ _ _, .parenthesized _ _ _
  | .list _ _ _ _, .primitive _ _ | .list _ _ _ _,
    .unit _ _ | .list _ _ _ _, .variable _ _ _
  | .list _ _ _ _, .emptyStruct _ _ | .list _ _ _ _, .struct _ _
  | .list _ _ _ _, .parenthesized _ _ _
  | .emptyStruct _ _, .primitive _ _ | .emptyStruct _ _, .unit _ _
  | .emptyStruct _ _, .variable _ _ _ | .emptyStruct _ _, .list _ _ _ _
  | .emptyStruct _ _, .parenthesized _ _ _
  | .struct _ _, .primitive _ _ | .struct _ _, .unit _ _ | .struct _ _, .variable _ _ _
  | .struct _ _, .list _ _ _ _ | .struct _ _, .parenthesized _ _ _
  | .parenthesized _ _ _, .primitive _ _ | .parenthesized _ _ _, .variable _ _ _
  | .parenthesized _ _ _, .list _ _ _ _ | .parenthesized _ _ _, .emptyStruct _ _
  | .parenthesized _ _ _, .struct _ _ => simp [Atom.tokens, Ne.symm] at same
termination_by structural left

theorem Field.unique {left right : Field} {rest other : List Token}
    (followLeft : Follow endsWritten rest)
    (followRight : Follow endsWritten other)
    (same : left.tokens ++ rest = right.tokens ++ other) :
    left = right ∧ rest = other := by
  match left, right with
  | .plain place name sign type, .plain _ _ _ second =>
      simp only [Field.tokens, List.cons_append, List.cons.injEq, word_inj, true_and,
        Name.token_inj] at same
      rcases same with ⟨⟨rfl, rfl⟩, rfl, same⟩
      rcases type.unique followLeft followRight same with ⟨rfl, rfl⟩
      exact ⟨rfl, rfl⟩
  | .plain place name sign type, .pointed _ _ _ _ second
  | .pointed point place name sign type, .plain _ _ _ second =>
      simp [Field.tokens] at same
  | .pointed point place name sign type, .pointed _ _ _ _ second =>
      simp only [Field.tokens, List.cons_append, List.cons.injEq, mark_inj,
        word_inj, true_and, Name.token_inj] at same
      rcases same with ⟨rfl, ⟨rfl, rfl⟩, rfl, same⟩
      rcases type.unique followLeft followRight same with ⟨rfl, rfl⟩
      exact ⟨rfl, rfl⟩
termination_by structural left

theorem Fields.unique {left right : Fields} {rest other : List Token}
    (same : left.tokens ++ rest = right.tokens ++ other) :
    left = right ∧ rest = other := by
  match left, right with
  | .last field closing, .last second _ =>
      simp only [Fields.tokens, List.append_assoc, List.cons_append,
        List.nil_append] at same
      rcases field.unique (.cons rfl _) (.cons rfl _) same with ⟨rfl, closed⟩
      simpa using closed
  | .last field closing, .next second comma later =>
      simp only [Fields.tokens, List.append_assoc, List.cons_append,
        List.nil_append] at same
      rcases field.unique (.cons rfl _) (.cons rfl _) same with ⟨_, closed⟩
      simp at closed
  | .next field comma later, .last second closing =>
      simp only [Fields.tokens, List.append_assoc, List.cons_append,
        List.nil_append] at same
      rcases field.unique (.cons rfl _) (.cons rfl _) same with ⟨_, closed⟩
      simp at closed
  | .next field comma later, .next second otherComma further =>
      simp only [Fields.tokens, List.append_assoc, List.cons_append] at same
      rcases field.unique (.cons rfl _) (.cons rfl _) same with ⟨rfl, separated⟩
      simp only [List.cons.injEq, mark_inj, true_and] at separated
      rcases separated with ⟨rfl, separated⟩
      rcases later.unique separated with ⟨rfl, rfl⟩
      exact ⟨rfl, rfl⟩
termination_by structural left

end

theorem Derivation.eq {tokens : List Token} (left right : Derivation tokens) :
    left = right := by
  rcases left with ⟨first, rfl⟩
  rcases right with ⟨second, spells⟩
  have follow : Follow endsWritten [Token.mk .finish ⟨0, 0⟩] := .cons rfl _
  rcases first.unique follow follow (congrArg (· ++ _) spells.symm) with ⟨rfl, _⟩
  rfl

end Casework.TypeGrammar
