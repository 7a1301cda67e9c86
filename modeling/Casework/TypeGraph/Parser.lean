import Casework.Expr.Parser
import Casework.TypeGraph.Basic

/-!
Parsing types into a type graph.

type := alternatives ('->' type)? alternatives := Tag atom ('|' Tag atom)* ('|' '...')? |
atom atom := number | string | boolean | () | 'name | list '<' type '>' | '{' fields '}' |
'(' type ')' field := '.'? name 'is' type

A variant that ends in `| ...` stays open, otherwise it is sealed. A struct with a field
written after a point only requires its fields, otherwise it has exactly those. Each
written type is a node of its own, except that all occurrences of a variable share one.
-/

namespace Casework.TypeGraph

/-- What is left to read, and the type variables met so far. -/
structure Reading where
  tokens : List Token
  named : Row := .empty

abbrev TypeParser := StateT Reading Build

namespace TypeParser

def reading {α : Type} (parser : Parser α) : TypeParser α := do
  let state ← get
  match parser.run state.tokens with
  | .ok (value, rest) =>
      set { state with tokens := rest }
      return value
  | .error error => throw (.badSyntax error)

def accept (text : String) : TypeParser Bool := reading (Parser.accept text)

def expect (text : String) : TypeParser Unit := reading (Parser.expect text)

def allowance : TypeParser Nat := do
  return (← get).tokens.length + 1

/-- The type variable of a name: the one met before, or a new one. -/
def typeVariable (name : String) : TypeParser Ref := do
  match (← get).named.get? name with
  | some ref => return ref
  | none =>
      let ref ← Build.newVar
      modify fun state => { state with named := state.named.put name ref }
      return ref

/-! ## Repetitions -/

/-- The fields of a struct up to the closing brace, and whether one was written after a
point. A comma stands before every field but the first. -/
def parseFields (type : TypeParser Ref) :
    (fuel : Nat) → (first : Bool) → TypeParser (List (String × Ref) × Bool)
  | 0, _ => reading Parser.endless
  | fuel + 1, first => do
      if ← accept "\x7d" then return ([], false)
      unless first do expect ","
      let pointed ← accept "."
      let (_, name) ← reading (Parser.takeName .expectedField)
      expect "is"
      let field ← type
      let (fields, someLaterPointed) ← parseFields type fuel false
      return ((name, field) :: fields, pointed || someLaterPointed)

def parseNamed (type : TypeParser Ref) (token : Token) (name : String) :
    TypeParser Ref := do
  match name with
  | "number" => Build.newPrimitive .number
  | "string" => Build.newPrimitive .text
  | "boolean" => Build.newPrimitive .boolean
  | "bool" => Build.newPrimitive .boolean
  | "list" =>
      expect "<"
      let element ← type
      expect ">"
      Build.newList element
  | _ => reading (Parser.refuse token (.unexpectedInType token.lexeme))

def parseAtom (type : TypeParser Ref) : TypeParser Ref := do
  let token ← reading Parser.take
  match token.lexeme with
  | .name name => parseNamed type token name
  | .mark "'" =>
      let (_, name) ← reading (Parser.takeName .expectedVariable)
      typeVariable name
  | .mark "(" =>
      if ← accept ")" then Build.newPrimitive .unit
      else
        let inner ← type
        expect ")"
        return inner
  | .mark "\x7b" =>
      let (fields, pointed) ← parseFields type (← allowance) true
      if pointed then Build.newOpen .struct fields else Build.newClosed .struct fields
  | lexeme => reading (Parser.refuse token (.unexpectedInType lexeme))

def takeTag : TypeParser String := do
  let token ← reading Parser.take
  match token.lexeme with
  | .name name =>
      if isTagName name then return name
      else reading (Parser.refuse token (.expectedTag token.lexeme))
  | lexeme => reading (Parser.refuse token (.expectedTag lexeme))

def parseTags (type : TypeParser Ref) :
    (fuel : Nat) → TypeParser (List (String × Ref) × Bool)
  | 0 => reading Parser.endless
  | fuel + 1 => do
      let tag ← takeTag
      let payload ← parseAtom type
      if ← accept "|" then
        if ← accept "..." then return ([(tag, payload)], true)
        let (tags, isOpen) ← parseTags type fuel
        return ((tag, payload) :: tags, isOpen)
      else return ([(tag, payload)], false)

/-! ## Rules -/

def startsVariant : Lexeme → Bool
  | .name name => isTagName name
  | _ => false

def parseAlternatives (type : TypeParser Ref) : TypeParser Ref := do
  if startsVariant (← reading Parser.peek).lexeme then
    let (tags, isOpen) ← parseTags type (← allowance)
    if isOpen then Build.newOpen .variant tags else Build.newClosed .variant tags
  else parseAtom type

def parseWith (type : TypeParser Ref) : TypeParser Ref := do
  let argument ← parseAlternatives type
  if ← accept "->" then
    let result ← type
    Build.newFunction argument result
  else return argument

def parseNested : (fuel : Nat) → TypeParser Ref
  | 0 => reading Parser.endless
  | fuel + 1 => parseWith (parseNested fuel)

def parseWhole (fuel : Nat) : TypeParser Ref := do
  let ref ← parseNested fuel
  let token ← reading Parser.peek
  match token.lexeme with
  | .finish => return ref
  | lexeme => reading (Parser.refuse token (.afterType lexeme))

end TypeParser

/-- Builds the type that a list of tokens spells. -/
def ofTokens (tokens : List Token) : Build Ref := do
  let (ref, _) ← (TypeParser.parseWhole (tokens.length + 1)).run { tokens := tokens }
  return ref

end Casework.TypeGraph

namespace Casework

def Build.parseType (source : Source) : Build Ref := do
  match Token.scan source with
  | .ok tokens => TypeGraph.ofTokens tokens
  | .error error => throw (.badSyntax error)

end Casework
