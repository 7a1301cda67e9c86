import Casework.Expr.Basic
import Casework.Number.Reader
import Casework.Token.Scanner

/-!
Parsing expressions.

Each rule of the grammar is a parser of its own, given the parser for expressions inside
brackets:

    expression := additive ('::' expression)?
    additive   := product (('+' | '-') product)*
    product    := application ('*' application)*
    application := postfix postfix?          where the head is a name
    postfix    := atom ('.' name)*

The rules take at least one token before they use the inner parser, so nesting is never
deeper than the number of tokens, and repetitions are never longer.
-/

namespace Casework

/-- Parsers take tokens from the front of a list that ends with the end of the source. -/
abbrev Parser := StateT (List Token) (Except SyntaxError)

namespace Parser

/-! ## Tokens -/

def peek : Parser Token := do
  match ← get with
  | token :: _ => return token
  | [] => throw ⟨none, .pastEnd⟩

/-- Takes the first of the remaining tokens. The end of the source is never left
behind. -/
def take : Parser Token := do
  match ← get with
  | ⟨.finish, position⟩ :: _ => return ⟨.finish, position⟩
  | token :: rest =>
      set rest
      return token
  | [] => throw ⟨none, .pastEnd⟩

def refuse {α : Type} (token : Token) (cause : SyntaxCause) : Parser α :=
  throw ⟨some token.position, cause⟩

def endless {α : Type} : Parser α :=
  throw ⟨none, .endless⟩

def sees (text : String) : Parser Bool := do
  return (← peek).lexeme.isWord text

def accept (text : String) : Parser Bool := do
  if ← sees text then
    let _ ← take
    return true
  else return false

def expect (text : String) : Parser Unit := do
  unless ← accept text do
    let token ← peek
    refuse token (.expected text token.lexeme)

def takeName (cause : Lexeme → SyntaxCause) : Parser (Position × String) := do
  let token ← take
  match token.lexeme with
  | .name text => return (token.position, text)
  | lexeme => refuse token (cause lexeme)

end Parser

namespace Expr

open Casework.Parser

def keywords : List String := ["case", "of", "esac"]

/-! ## Repetitions -/

def parseItems (expression : Parser Expr) : (fuel : Nat) → Parser Exprs
  | 0 => endless
  | fuel + 1 => do
      let item ← expression
      if ← accept "]" then return .cons item .nil
      expect ","
      return .cons item (← parseItems expression fuel)

/-- The value of a field; a field without one is bound to its own name. -/
def parseFieldValue (expression : Parser Expr) (position : Position) (name : String) :
    Parser Expr := do
  if ← accept "=" then expression else return .symbol position name

/-- The fields of a record, at least one, and the closing brace. -/
def parseFields (expression : Parser Expr) : (fuel : Nat) → Parser Fields
  | 0 => endless
  | fuel + 1 => do
      let (position, name) ← takeName .expectedField
      let value ← parseFieldValue expression position name
      if ← accept "\x7d" then return .cons position name value .nil
      expect ","
      return .cons position name value (← parseFields expression fuel)

def seesRest : Parser Bool := do
  match ← get with
  | token :: following :: _ =>
      return token.lexeme.isWord "..." && following.lexeme.text != ":"
  | [token] => if token.lexeme.isWord "..." then throw ⟨none, .pastEnd⟩ else return false
  | [] => throw ⟨none, .pastEnd⟩

def endChoice : Parser Unit := do
  unless ← accept ";" do
    unless ← sees "esac" do
      let token ← peek
      refuse token (.expectedChoiceEnd token.lexeme)

def parseChoices (expression : Parser Expr) : (fuel : Nat) → Parser Choices
  | 0 => endless
  | fuel + 1 => do
      if ← accept "esac" then return .nil
      let position := (← peek).position
      if ← seesRest then
        let _ ← take
        endChoice
        return .rest position (← parseChoices expression fuel)
      else
        let pattern ← expression
        expect ":"
        let body ← expression
        endChoice
        return .cons position pattern body (← parseChoices expression fuel)

def allowance : Parser Nat := do
  return (← get).length + 1

/-! ## Rules -/

def parseCase (expression : Parser Expr) (position : Position) : Parser Expr := do
  let value ← expression
  expect "of"
  return .caseOf position value (← parseChoices expression (← allowance))

def parseName (position : Position) (name : String) : Parser Expr := do
  if ← accept "#" then
    let (_, field) ← takeName .expectedStatic
    return .static position name field
  else return .symbol position name

def parseParenthesized (expression : Parser Expr) (position : Position) :
    Parser Expr := do
  if ← accept ")" then return .unit position
  let inner ← expression
  expect ")"
  return inner

def parseAtom (expression : Parser Expr) : Parser Expr := do
  let token ← take
  let position := token.position
  match token.lexeme with
  | .number text =>
      match Number.read? text with
      | some value => return .number position text value
      | none => refuse token (.badNumber text)
  | .quoted text =>
      match Text.unquote? text with
      | some value => return .string position value
      | none => refuse token (.badString text)
  | .name text =>
      if text == "case" then parseCase expression position
      else if text ∈ keywords then refuse token (.unexpected token.lexeme)
      else parseName position text
  | .mark "..." => return .symbol position "..."
  | .mark "(" => parseParenthesized expression position
  | .mark "[" =>
      if ← accept "]" then return .list position .nil
      return .list position (← parseItems expression (← allowance))
  | .mark "\x7b" =>
      if ← accept "\x7d" then return .record position .nil
      return .record position (← parseFields expression (← allowance))
  | lexeme => refuse token (.unexpected lexeme)

def parseSelections : (fuel : Nat) → Expr → Parser Expr
  | 0, _ => endless
  | fuel + 1, inner => do
      let point ← peek
      if ← accept "." then
        let (_, field) ← takeName .expectedField
        parseSelections fuel (.select point.position inner field)
      else return inner

def parsePostfix (expression : Parser Expr) : Parser Expr := do
  let atom ← parseAtom expression
  parseSelections (← allowance) atom

def startsArgument : Lexeme → Bool
  | .name text => text == "case" || text ∉ keywords
  | .number _ => true
  | .quoted _ => true
  | .mark text => text == "(" || text == "[" || text == "\x7b"
  | .finish => false

def parseApplication (expression : Parser Expr) : Parser Expr := do
  let head ← parsePostfix expression
  match head with
  | .symbol position name =>
      if name != "..." && startsArgument (← peek).lexeme then
        return .apply position name (← parsePostfix expression)
      else return head
  | _ => return head

def parseFactors (expression : Parser Expr) : (fuel : Nat) → Expr → Parser Expr
  | 0, _ => endless
  | fuel + 1, left => do
      let sign ← peek
      if ← accept "*" then
        let right ← parseApplication expression
        parseFactors expression fuel (.binary sign.position .multiply left right)
      else return left

def parseProduct (expression : Parser Expr) : Parser Expr := do
  let left ← parseApplication expression
  parseFactors expression (← allowance) left

def parseTerms (expression : Parser Expr) : (fuel : Nat) → Expr → Parser Expr
  | 0, _ => endless
  | fuel + 1, left => do
      let sign ← peek
      if ← accept "+" then
        let right ← parseProduct expression
        parseTerms expression fuel (.binary sign.position .add left right)
      else if ← accept "-" then
        let right ← parseProduct expression
        parseTerms expression fuel (.binary sign.position .subtract left right)
      else return left

def parseAdditive (expression : Parser Expr) : Parser Expr := do
  let left ← parseProduct expression
  parseTerms expression (← allowance) left

/-- An expression, given the parser for the expressions inside it. -/
def parseWith (expression : Parser Expr) : Parser Expr := do
  let left ← parseAdditive expression
  let sign ← peek
  if ← accept "::" then
    return .binary sign.position .cons left (← expression)
  else return left

/-- An expression whose brackets and right operands nest no deeper than the fuel. -/
def parseNested : (fuel : Nat) → Parser Expr
  | 0 => endless
  | fuel + 1 => parseWith (parseNested fuel)

/-! ## Whole sources -/

def parseWhole (fuel : Nat) : Parser Expr := do
  let expression ← parseNested fuel
  let token ← peek
  match token.lexeme with
  | .finish => return expression
  | lexeme => refuse token (.afterExpression lexeme)

/-- The expression that a list of tokens spells. -/
def ofTokens (tokens : List Token) : Except SyntaxError Expr := do
  let (expression, _) ← (parseWhole (tokens.length + 1)).run tokens
  return expression

def parse (source : Source) : Except SyntaxError Expr := do
  ofTokens (← Token.scan source)

end Expr

end Casework
