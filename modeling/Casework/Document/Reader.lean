import Casework.Document.Basic
import Casework.Document.Refusal

/-!
Reading documents from JSON text.

Reading is by recursive descent with fuel. Every value takes at least one character, so
the length of the text is enough. Numbers are not interpreted here.
-/

namespace Casework.Document

/-- What is read at the start of a text, and the text that follows it. -/
abbrev Part (α : Type) := α × List Char

def refuse {α : Type} (stage : Stage) : List Char → Except Refusal α
  | [] => .error .unfinished
  | character :: _ => .error (.unexpected character stage)

def trimStart (text : List Char) : List Char :=
  text.dropWhile fun c => c == ' ' || c == '\t' || c == '\n' || c == '\r'

/-- The letters that remain of a word, and then the value that the word stands for. -/
def readWord (word : String) (value : Document) : (letters : List Char) → List Char →
    Except Refusal (Part Document)
  | [], rest => .ok (value, rest)
  | _ :: _, [] => .error .unfinished
  | letter :: letters, character :: rest =>
      if character = letter then readWord word value letters rest
      else .error (.unexpected character (.inWord word letter))

/-! ## Strings -/

def readUnit : (count : Nat) → (value : Nat) → List Char → Except Refusal (Part Nat)
  | 0, value, rest => .ok (value, rest)
  | _ + 1, _, [] => .error .unfinished
  | count + 1, value, character :: rest =>
      match Text.hexValue? character with
      | some digit => readUnit count (value * 16 + digit) rest
      | none => .error (.unexpected character .unicodeEscape)

def isHighSurrogate (unit : Nat) : Bool := 0xD800 ≤ unit && unit < 0xDC00

def isLowSurrogate (unit : Nat) : Bool := 0xDC00 ≤ unit && unit < 0xE000

def lowSurrogate? : List Char → Option (Nat × List Char)
  | '\\' :: 'u' :: text =>
      match readUnit 4 0 text with
      | .ok (unit, rest) => if isLowSurrogate unit then some (unit, rest) else none
      | .error _ => none
  | _ => none

/-- The character of an escaped code unit. Two surrogates that belong together make one
character, a surrogate on its own makes the replacement character. -/
def readUnicodeEscape (text : List Char) : Except Refusal (Part Char) := do
  let (first, rest) ← readUnit 4 0 text
  if isHighSurrogate first then
    match lowSurrogate? rest with
    | some (second, rest) =>
        return (Char.ofNat (0x10000 + (first - 0xD800) * 0x400 + (second - 0xDC00)), rest)
    | none => return ('\uFFFD', rest)
  else return (if first.isValidChar then Char.ofNat first else '\uFFFD', rest)

def readEscape : List Char → Except Refusal (Part Char)
  | '"' :: rest => .ok ('"', rest)
  | '\\' :: rest => .ok ('\\', rest)
  | '/' :: rest => .ok ('/', rest)
  | 'b' :: rest => .ok ('\x08', rest)
  | 'f' :: rest => .ok ('\x0c', rest)
  | 'n' :: rest => .ok ('\n', rest)
  | 'r' :: rest => .ok ('\r', rest)
  | 't' :: rest => .ok ('\t', rest)
  | 'u' :: rest => readUnicodeEscape rest
  | text => refuse .escape text

def readString :
    (fuel : Nat) → (read : List Char) → List Char → Except Refusal (Part String)
  | 0, _, _ => .error .unfinished
  | _ + 1, _, [] => .error .unfinished
  | fuel + 1, read, character :: rest =>
      if character = '"' then .ok (String.ofList read.reverse, rest)
      else if character = '\\' then
        match readEscape rest with
        | .ok (escaped, rest) => readString fuel (escaped :: read) rest
        | .error refusal => .error refusal
      else if character < ' ' then .error (.unexpected character .inString)
      else readString fuel (character :: read) rest

/-! ## Numbers -/

def readDigits (stage : Stage) (text : List Char) : Except Refusal (Part (List Char)) :=
  match text.takeWhile Char.isDigit with
  | [] => refuse stage text
  | digits => .ok (digits, text.dropWhile Char.isDigit)

def readWhole : List Char → Except Refusal (Part (List Char))
  | '0' :: rest => .ok (['0'], rest)
  | text => readDigits .numeral text

def readFraction : List Char → Except Refusal (Part (List Char))
  | '.' :: rest => do
      let (digits, rest) ← readDigits .fraction rest
      return ('.' :: digits, rest)
  | text => .ok ([], text)

def readSign (signs : List Char) : List Char → List Char × List Char
  | [] => ([], [])
  | character :: rest =>
      if character ∈ signs then ([character], rest) else ([], character :: rest)

def readExponent : List Char → Except Refusal (Part (List Char))
  | [] => .ok ([], [])
  | letter :: rest =>
      if letter ∈ ['e', 'E'] then do
        let (sign, rest) := readSign ['+', '-'] rest
        let (digits, rest) ← readDigits .exponent rest
        return (letter :: sign ++ digits, rest)
      else .ok ([], letter :: rest)

def readNumeral (text : List Char) : Except Refusal (Part Document) := do
  let (sign, rest) := readSign ['-'] text
  let (whole, rest) ← readWhole rest
  let (fraction, rest) ← readFraction rest
  let (exponent, rest) ← readExponent rest
  return (.number (String.ofList (sign ++ whole ++ fraction ++ exponent)), rest)

/-! ## Values -/

mutual

def readValue : (fuel : Nat) → List Char → Except Refusal (Part Document)
  | 0, _ => .error .unfinished
  | fuel + 1, text =>
      match trimStart text with
      | '"' :: rest => do
          let (text, rest) ← readString (rest.length + 1) [] rest
          return (.string text, rest)
      | '[' :: rest =>
          match trimStart rest with
          | ']' :: rest => .ok (.list [], rest)
          | rest => do
              let (items, rest) ← readItems fuel rest
              return (.list items, rest)
      | '\x7b' :: rest =>
          match trimStart rest with
          | '\x7d' :: rest => .ok (.object [], rest)
          | rest => do
              let (entries, rest) ← readEntries fuel rest
              return (.object entries, rest)
      | 't' :: rest => readWord "true" (.boolean true) ['r', 'u', 'e'] rest
      | 'f' :: rest => readWord "false" (.boolean false) ['a', 'l', 's', 'e'] rest
      | 'n' :: rest => readWord "null" .null ['u', 'l', 'l'] rest
      | [] => .error .unfinished
      | character :: rest =>
          if character.isDigit || character = '-' then readNumeral (character :: rest)
          else .error (.unexpected character .value)

def readItems : (fuel : Nat) → List Char → Except Refusal (Part (List Document))
  | 0, _ => .error .unfinished
  | fuel + 1, text => do
      let (item, rest) ← readValue fuel text
      match trimStart rest with
      | ',' :: rest =>
          let (items, rest) ← readItems fuel rest
          return (item :: items, rest)
      | ']' :: rest => return ([item], rest)
      | rest => refuse .afterItem rest

def readEntries :
    (fuel : Nat) → List Char → Except Refusal (Part (List (String × Document)))
  | 0, _ => .error .unfinished
  | fuel + 1, text =>
      match trimStart text with
      | '"' :: rest => do
          let (key, rest) ← readString (rest.length + 1) [] rest
          match trimStart rest with
          | ':' :: rest =>
              let (item, rest) ← readValue fuel rest
              match trimStart rest with
              | ',' :: rest =>
                  let (entries, rest) ← readEntries fuel rest
                  return ((key, item) :: entries, rest)
              | '\x7d' :: rest => return ([(key, item)], rest)
              | rest => refuse .afterEntry rest
          | rest => refuse .afterKey rest
      | text => refuse .key text

end

/-- The document a text holds, if it holds exactly one. A space is taken to follow the
text, so a word or an escape that is cut short is refused for that space. -/
def read (text : String) : Except Refusal Document := do
  let characters := text.toList ++ [' ']
  let (document, rest) ← readValue (2 * characters.length + 2) characters
  match trimStart rest with
  | [] => return document
  | rest => refuse .afterDocument rest

end Casework.Document
