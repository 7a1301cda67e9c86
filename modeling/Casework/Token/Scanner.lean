import Casework.Text.DecimalDigit
import Casework.Text.Letter
import Casework.Number.Reader
import Casework.Token.SyntaxError

/-!
Scanning: splitting a source into tokens.

The scanner looks one character ahead. The character looked at is the first of the
remaining glyphs, and it has been checked: taking a character checks the one after it,
which must not be malformed or NUL. A character refused in this way is reported at the
start of the token that is being scanned, or nowhere in particular between tokens.
-/

namespace Casework.Token

/-! ## Taking characters -/

/-- Checks the character that the remaining glyphs start with. -/
def look (place : Option Position) (rest : List Glyph) : Except SyntaxError Unit :=
  match rest with
  | [] => pure ()
  | glyph :: _ =>
      match glyph.character? with
      | none => throw ⟨place, .malformedText⟩
      | some character =>
          if character.toNat = 0 then throw ⟨place, .nulCharacter⟩ else pure ()

def advance (place : Option Position) (glyphs : List Glyph) :
    Except SyntaxError (List Glyph) := do
  let rest := glyphs.drop 1
  look place rest
  return rest

def current? (glyphs : List Glyph) : Option Char :=
  glyphs.head?.bind Glyph.character?

def takeWhile (place : Option Position) (holds : Char → Bool) :
    List Glyph → Except SyntaxError (List Char × List Glyph)
  | [] => return ([], [])
  | glyph :: rest =>
      match glyph.character?.filter holds with
      | none => return ([], glyph :: rest)
      | some character => do
          look place rest
          let (taken, rest) ← takeWhile place holds rest
          return (character :: taken, rest)

/-! ## Spaces and comments -/

def isBlank (character : Char) : Bool :=
  character == ' ' || character == '\t' || character == '\n' || character == '\r'

def skipBlock (place : Option Position) (starred : Bool) :
    List Glyph → Except SyntaxError (List Glyph)
  | [] => throw ⟨place, .unterminatedComment⟩
  | glyph :: rest => do
      look place rest
      if starred && glyph.character? == some '/' then return rest
      else skipBlock place (glyph.character? == some '*') rest

def skipComment (place : Option Position) (glyphs : List Glyph) :
    Except SyntaxError (List Glyph) := do
  if current? glyphs == some '*' then
    skipBlock place false (← advance place glyphs)
  else
    let (_, rest) ← takeWhile place (· != '\n') glyphs
    return rest

def skipBlanks : (fuel : Nat) → (place : Option Position) → List Glyph →
    Except SyntaxError (List Glyph)
  | 0, place, _ => throw ⟨place, .endless⟩
  | fuel + 1, place, glyphs => do
      let (_, glyphs) ← takeWhile place isBlank glyphs
      match glyphs with
      | ⟨some '/', position⟩ :: ⟨some second, _⟩ :: _ =>
          if second == '/' || second == '*' then
            let start := some position
            let glyphs ← skipComment start (← advance start glyphs)
            skipBlanks fuel start glyphs
          else return glyphs
      | glyphs => return glyphs

/-! ## Names -/

def startsName (character : Char) : Bool :=
  character == '_' || Text.isLetter character

def continuesName (character : Char) : Bool :=
  startsName character || Text.isDecimalDigit character

/-! ## Strings -/

def escapeDigits (place : Option Position) (digit? : Char → Option Nat) :
    (count : Nat) → List Glyph → Except SyntaxError (List Char × List Glyph)
  | 0, glyphs => return ([], glyphs)
  | count + 1, glyphs =>
      match (current? glyphs).filter (fun character => (digit? character).isSome) with
      | none => throw ⟨place, .invalidEscape⟩
      | some character => do
          let rest ← advance place glyphs
          let (taken, rest) ← escapeDigits place digit? count rest
          return (character :: taken, rest)

def scanEscape (place : Option Position) (glyphs : List Glyph) :
    Except SyntaxError (List Char × List Glyph) := do
  match current? glyphs with
  | none => throw ⟨place, .invalidEscape⟩
  | some letter =>
      if letter ∈ ['a', 'b', 'f', 'n', 'r', 't', 'v', '\\', '"'] then
        return ([letter], ← advance place glyphs)
      else if (Text.octalValue? letter).isSome then
        escapeDigits place Text.octalValue? 3 glyphs
      else
        let count ← match letter with
          | 'x' => pure 2
          | 'u' => pure 4
          | 'U' => pure 8
          | _ => throw ⟨place, .invalidEscape⟩
        let rest ← advance place glyphs
        let (taken, rest) ← escapeDigits place Text.hexValue? count rest
        return (letter :: taken, rest)

/-- The rest of a string after its opening quote, the closing quote included. The fuel
bounds the number of characters and escapes. -/
def scanString (place : Option Position) :
    (fuel : Nat) → List Glyph → Except SyntaxError (List Char × List Glyph)
  | 0, _ => throw ⟨place, .endless⟩
  | fuel + 1, glyphs =>
      match current? glyphs with
      | none => throw ⟨place, .unterminatedLiteral⟩
      | some character => do
          if character == '\n' then throw ⟨place, .unterminatedLiteral⟩
          let rest ← advance place glyphs
          if character == '"' then return ([character], rest)
          let (taken, rest) ←
            if character == '\\' then scanEscape place rest else pure ([], rest)
          let (following, rest) ← scanString place fuel rest
          return (character :: taken ++ following, rest)

/-! ## Numbers -/

/-- How a number literal starts. A zero alone announces an octal literal, which turns
decimal when a point or an exponent follows. -/
inductive Opening where
  | plain
  | zero
  | octal
  | binary
  | hexadecimal
deriving DecidableEq

namespace Opening

def radix : Opening → Radix
  | plain => .decimal
  | zero => .octal
  | octal => .octal
  | binary => .binary
  | hexadecimal => .hexadecimal

def isValid : Opening → Char → Bool
  | plain, character => character.isDigit
  | zero, character => (Text.octalValue? character).isSome
  | octal, character => (Text.octalValue? character).isSome
  | binary, character => character == '0' || character == '1'
  | hexadecimal, character => (Text.hexValue? character).isSome

def isTaken : Opening → Char → Bool
  | hexadecimal, character => (Text.hexValue? character).isSome
  | _, character => character.isDigit

def ofLetter? (letter : Char) : Option Opening :=
  match letter.toLower with
  | 'x' => some hexadecimal
  | 'o' => some octal
  | 'b' => some binary
  | _ => none

end Opening

def takeDigits (place : Option Position) (isDigit : Char → Bool) (glyphs : List Glyph) :
    Except SyntaxError (List Char × List Glyph) :=
  takeWhile place (fun character => character == '_' || isDigit character) glyphs

def hasDigit (run : List Char) : Bool :=
  run.any (· != '_')

def scanOpening (place : Option Position) (glyphs : List Glyph) :
    Except SyntaxError (Opening × List Char × List Glyph) := do
  if current? glyphs != some '0' then return (.plain, [], glyphs)
  let rest ← advance place glyphs
  match (current? rest).bind fun letter => (Opening.ofLetter? letter).map (letter, ·) with
  | some (letter, opening) => return (opening, ['0', letter], ← advance place rest)
  | none => return (.zero, ['0'], rest)

def scanExponent (place : Option Position) (opening : Opening) (glyphs : List Glyph) :
    Except SyntaxError (List Char × List Glyph) := do
  match (current? glyphs).filter
    (fun letter => letter.toLower == 'e' || letter.toLower == 'p') with
  | none => return ([], glyphs)
  | some letter =>
      if letter.toLower == 'e' && opening != .plain && opening != .zero then
        throw ⟨place, .decimalExponent letter⟩
      if letter.toLower == 'p' && opening != .hexadecimal then
        throw ⟨place, .hexadecimalExponent letter⟩
      let rest ← advance place glyphs
      let (sign, rest) ← match current? rest with
        | some '+' => pure (['+'], ← advance place rest)
        | some '-' => pure (['-'], ← advance place rest)
        | _ => pure ([], rest)
      let (digits, rest) ← takeDigits place Char.isDigit rest
      unless hasDigit digits do throw ⟨place, .noExponentDigits⟩
      return (letter :: sign ++ digits, rest)

def finishNumber (place : Option Position) (opening : Opening) (pointed : Bool)
    (start whole point fraction : List Char) (glyphs : List Glyph) :
    Except SyntaxError (List Char × List Glyph) := do
  unless hasDigit whole || hasDigit fraction || opening == .zero do
    throw ⟨place, .noDigits opening.radix⟩
  let (exponent, rest) ← scanExponent place opening glyphs
  let whollyInteger := !pointed && exponent.isEmpty
  if opening == .hexadecimal && pointed && exponent.isEmpty then
    throw ⟨place, .missingExponent⟩
  if whollyInteger then
    if let some digit :=
      whole.find? (fun digit => digit != '_' && !opening.isValid digit) then
      throw ⟨place, .invalidDigit digit opening.radix⟩
  let text := start ++ whole ++ point ++ fraction ++ exponent
  if text.contains '_' && !Number.separatorsAllowed text then
    throw ⟨place, .misplacedSeparator⟩
  return (text, rest)

def scanNumber (place : Option Position) (glyphs : List Glyph) :
    Except SyntaxError (List Char × List Glyph) := do
  let (opening, start, rest) ← scanOpening place glyphs
  let (whole, rest) ← takeDigits place opening.isTaken rest
  if current? rest == some '.' then
    let rest ← advance place rest
    if opening == .octal || opening == .binary then
      throw ⟨place, .radixPoint opening.radix⟩
    let (fraction, rest) ← takeDigits place opening.isTaken rest
    finishNumber place opening true start whole ['.'] fraction rest
  else finishNumber place opening false start whole [] [] rest

/-! ## Marks -/

def marks : List Char :=
  "()[]\x7b\x7d,;:=+-*.|'#<>".toList

/-- A mark. Three marks are longer than a character; what follows them is looked at before
the next token has started, so a character refused there has no place. -/
def scanMark (position : Position) (character : Char) (glyphs : List Glyph) :
    Except SyntaxError (String × List Glyph) := do
  let rest ← advance (some position) glyphs
  match character, current? rest with
  | ':', some ':' => return ("::", ← advance none rest)
  | '-', some '>' => return ("->", ← advance none rest)
  | '.', some '.' =>
      let rest := rest.drop 1
      if current? rest == some '.' then return ("...", ← advance none rest)
      else throw ⟨some position, .twoDots⟩
  | _, _ =>
      if character ∈ marks then return (String.ofList [character], rest)
      else throw ⟨some position, .unexpectedCharacter character⟩

/-! ## Tokens -/

def scanLexeme (position : Position) (character : Char) (glyphs : List Glyph) :
    Except SyntaxError (Lexeme × List Glyph) := do
  let place := some position
  if startsName character then
    let (text, rest) ← takeWhile place continuesName glyphs
    return (.name (String.ofList text), rest)
  else if character.isDigit then
    let (text, rest) ← scanNumber place glyphs
    return (.number (String.ofList text), rest)
  else if character == '.' && ((current? (glyphs.drop 1)).any Char.isDigit) then
    let (text, rest) ← scanNumber place glyphs
    return (.number (String.ofList text), rest)
  else if character == '"' then
    let rest ← advance place glyphs
    let (text, rest) ← scanString place (rest.length + 1) rest
    return (.quoted (String.ofList (character :: text)), rest)
  else
    let (text, rest) ← scanMark position character glyphs
    return (.mark text, rest)

/-- The tokens of the remaining glyphs, ending with the end of the source. The fuel bounds
the number of tokens. -/
def scanFrom (finish : Position) :
    (fuel : Nat) → List Glyph → Except SyntaxError (List Token)
  | 0, _ => throw ⟨none, .endless⟩
  | fuel + 1, glyphs => do
      let glyphs ← skipBlanks (glyphs.length + 1) none glyphs
      match glyphs with
      | ⟨some character, position⟩ :: _ =>
          let (lexeme, rest) ← scanLexeme position character glyphs
          let following ← scanFrom finish fuel rest
          return ⟨lexeme, position⟩ :: following
      | _ => return [⟨.finish, finish⟩]

/-- The tokens of a source, ending with the end of the source. A byte order mark in front
is skipped, though it takes up a column. -/
def scan (source : Source) : Except SyntaxError (List Token) := do
  look none source.glyphs
  let glyphs ←
    if current? source.glyphs == some '\uFEFF' then advance none source.glyphs
    else pure source.glyphs
  scanFrom source.finish (glyphs.length + 1) glyphs

end Casework.Token
