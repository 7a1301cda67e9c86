import Casework.Text.Printable
import Casework.Text.Utf8

/-!
Quoted text: how diagnostics and listings show a text between quotes, and how a string
literal of the source is read.

Showing escapes the quote, the backslash and whatever is not printable; bytes that spell
no character are shown as two hexadecimal digits each. Reading accepts more escapes than
showing uses.
-/

namespace Casework.Text

/-! ## Showing -/

def hexDigit (value : Nat) : Char :=
  if value < 10 then Char.ofNat ('0'.toNat + value) else
    Char.ofNat ('a'.toNat + (value - 10))

def hex : (width : Nat) → (value : Nat) → List Char
  | 0, _ => []
  | width + 1, value => hex width (value / 16) ++ [hexDigit (value % 16)]

example : hex 4 0x200b = ['2', '0', '0', 'b'] := by decide

def controlLetter? (character : Char) : Option Char :=
  match character.toNat with
  | 0x07 => some 'a'
  | 0x08 => some 'b'
  | 0x0c => some 'f'
  | 0x0a => some 'n'
  | 0x0d => some 'r'
  | 0x09 => some 't'
  | 0x0b => some 'v'
  | _ => none

def showChar (quote character : Char) : List Char :=
  if character = quote || character = '\\' then ['\\', character]
  else if isPrintable character then [character]
  else match controlLetter? character with
    | some letter => ['\\', letter]
    | none =>
        let code := character.toNat
        if code < 0x80 then '\\' :: 'x' :: hex 2 code
        else if code < 0x10000 then '\\' :: 'u' :: hex 4 code
        else '\\' :: 'U' :: hex 8 code

def showByte (byte : UInt8) : List Char :=
  '\\' :: 'x' :: hex 2 byte.toNat

def quoteBytes (bytes : List UInt8) : String :=
  let body := (decode bytes).flatMap fun (character?, byte) =>
    match character? with
    | some character => showChar '"' character
    | none => showByte byte
  String.ofList ('"' :: body ++ ['"'])

def quote (text : String) : String :=
  String.ofList ('"' :: text.toList.flatMap (showChar '"') ++ ['"'])

def quoteChar (character : Char) : String :=
  String.ofList ('\'' :: showChar '\'' character ++ ['\''])

/-! ## Reading -/

def hexValue? (character : Char) : Option Nat :=
  if character.isDigit then some (character.toNat - '0'.toNat)
  else if 'a' ≤ character && character ≤ 'f' then some (character.toNat - 'a'.toNat + 10)
  else if 'A' ≤ character && character ≤ 'F' then some (character.toNat - 'A'.toNat + 10)
  else none

def octalValue? (character : Char) : Option Nat :=
  if '0' ≤ character && character ≤ '7' then some (character.toNat - '0'.toNat) else none

def digits? (base : Nat) (value? : Char → Option Nat) :
    (count : Nat) → List Char → (value : Nat) → Option (Nat × List Char)
  | 0, rest, value => some (value, rest)
  | count + 1, character :: rest, value => do
      let digit ← value? character
      digits? base value? count rest (value * base + digit)
  | _ + 1, [], _ => none

def codePointBytes? (code : Nat) : Option (List UInt8) :=
  if code.isValidChar then some (String.utf8EncodeChar (Char.ofNat code)) else none

/-- The bytes an escape stands for, given what follows its backslash, and what follows
it. -/
def readEscape? : List Char → Option (List UInt8 × List Char)
  | 'a' :: rest => some ([0x07], rest)
  | 'b' :: rest => some ([0x08], rest)
  | 'f' :: rest => some ([0x0c], rest)
  | 'n' :: rest => some ([0x0a], rest)
  | 'r' :: rest => some ([0x0d], rest)
  | 't' :: rest => some ([0x09], rest)
  | 'v' :: rest => some ([0x0b], rest)
  | '\\' :: rest => some ([0x5c], rest)
  | '"' :: rest => some ([0x22], rest)
  | 'x' :: rest => do
      let (value, rest) ← digits? 16 hexValue? 2 rest 0
      some ([value.toUInt8], rest)
  | 'u' :: rest => do
      let (value, rest) ← digits? 16 hexValue? 4 rest 0
      some (← codePointBytes? value, rest)
  | 'U' :: rest => do
      let (value, rest) ← digits? 16 hexValue? 8 rest 0
      some (← codePointBytes? value, rest)
  | rest => do
      let (value, rest) ← digits? 8 octalValue? 3 rest 0
      if value < 256 then some ([value.toUInt8], rest) else none

/-- The bytes of a literal's characters up to the closing quote, which must be the last
one. The fuel bounds the number of characters read. -/
def readBody? : (fuel : Nat) → List Char → Option (List UInt8)
  | 0, _ => none
  | _ + 1, [] => none
  | _ + 1, ['"'] => some []
  | fuel + 1, character :: rest =>
      if character = '"' || character = '\n' then none
      else if character = '\\' then do
        let (escaped, rest) ← readEscape? rest
        let following ← readBody? fuel rest
        some (escaped ++ following)
      else do
        let following ← readBody? fuel rest
        some (String.utf8EncodeChar character ++ following)

/-- The bytes that a string literal, quotes included, stands for. -/
def unquote? (literal : String) : Option (List UInt8) :=
  match literal.toList with
  | '"' :: rest => readBody? (rest.length + 1) rest
  | _ => none

end Casework.Text
