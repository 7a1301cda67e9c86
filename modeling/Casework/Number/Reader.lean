import Casework.Number.Basic
import Casework.Text.Quoted

/-!
Reading numbers: the value of a number literal.

A literal is decimal, with an optional fraction and exponent of ten, or hexadecimal, with
an optional fraction and a required exponent of two. A leading zero does not make it
octal. Underscores may stand between digits. The value is the nearest number to what is
written, and there is none when that is too large.
-/

namespace Casework.Number

open Casework.Text (hexValue?)

/-! ## Separators -/

/-- What stands before a character of a literal: a digit, an underscore, or anything
else. -/
inductive Before where
  | digit
  | separator
  | other
deriving DecidableEq

def separatesDigits (isDigit : Char → Bool) : Before → List Char → Bool
  | before, [] => before != .separator
  | before, '_' :: rest => before == .digit && separatesDigits isDigit .separator rest
  | before, character :: rest =>
      if isDigit character then separatesDigits isDigit .digit rest
      else before != .separator && separatesDigits isDigit .other rest

/-- Whether every underscore of a literal separates digits. A base prefix counts as a
digit, and letters are digits in a hexadecimal literal. -/
def separatorsAllowed (literal : List Char) : Bool :=
  match literal with
  | '0' :: letter :: rest =>
      if letter.toLower = 'x' then
        separatesDigits (fun c => (hexValue? c).isSome) .digit rest
      else if letter.toLower = 'o' || letter.toLower = 'b' then
        separatesDigits Char.isDigit .digit rest
      else separatesDigits Char.isDigit .other literal
  | _ => separatesDigits Char.isDigit .other literal

example : separatorsAllowed "1_000".toList = true := by decide

example : separatorsAllowed "0x_ff".toList = true := by decide

example : separatorsAllowed "1__0".toList = false := by decide

example : separatorsAllowed "1_".toList = false := by decide

/-! ## Parts of a literal -/

structure Run where
  value : Nat
  count : Nat

def Run.extend (base : Nat) (digit? : Char → Option Nat) (run : Run) :
    List Char → Run × List Char
  | [] => (run, [])
  | character :: rest =>
      match digit? character with
      | some digit =>
          Run.extend base digit? ⟨run.value * base + digit, run.count + 1⟩ rest
      | none => (run, character :: rest)

structure Mantissa where
  value : Nat
  fractionDigits : Nat
  count : Nat

def readMantissa (base : Nat) (digit? : Char → Option Nat) (text : List Char) :
    Mantissa × List Char :=
  let (whole, rest) := Run.extend base digit? ⟨0, 0⟩ text
  match rest with
  | '.' :: rest =>
      let (all, rest) := Run.extend base digit? whole rest
      (⟨all.value, all.count - whole.count, all.count⟩, rest)
  | rest => (⟨whole.value, 0, whole.count⟩, rest)

def decimalValue? (character : Char) : Option Nat :=
  if character.isDigit then some (character.toNat - '0'.toNat) else none

def extendExponent (value digit : Nat) : Nat :=
  if value < 10000 then value * 10 + digit else value

def readExponent? (text : List Char) : Option Int := do
  let (negative, text) := match text with
    | '-' :: rest => (true, rest)
    | '+' :: rest => (false, rest)
    | text => (false, text)
  let digits ← text.mapM decimalValue?
  if digits.isEmpty then none
  else
    let value := digits.foldl extendExponent 0
    some (if negative then -(value : Int) else value)

example : readExponent? "-12".toList = some (-12) := by decide

example : readExponent? "123456".toList = some 12345 := by decide

/-! ## Values -/

/-- The number nearest to `value * 10 ^ exponent`. An exponent far outside the range of
numbers is settled without computing the power. -/
def ofDecimal? (value : Nat) (exponent : Int) : Option Number :=
  let magnitude := exponent + (Nat.toDigits 10 value).length
  if value = 0 || magnitude < -400 then some zero
  else if 400 < magnitude then none
  else nearest? (value * tenTo exponent.toNat) (tenTo (-exponent).toNat)

def ofBinary? (value : Nat) (exponent : Int) : Option Number :=
  let magnitude := exponent + Nat.log2 value
  if value = 0 || magnitude < -1200 then some zero
  else if 1200 < magnitude then none
  else nearest? (value * twoTo exponent.toNat) (twoTo (-exponent).toNat)

def readDecimal? (literal : List Char) : Option Number := do
  let (mantissa, rest) := readMantissa 10 decimalValue? literal
  if mantissa.count = 0 then none
  else
    let exponent ← match rest with
      | [] => some 0
      | letter :: rest => if letter.toLower = 'e' then readExponent? rest else none
    ofDecimal? mantissa.value (exponent - mantissa.fractionDigits)

def readHexadecimal? (literal : List Char) : Option Number := do
  let (mantissa, rest) := readMantissa 16 hexValue? literal
  if mantissa.count = 0 then none
  else
    let exponent ← match rest with
      | [] => none
      | letter :: rest => if letter.toLower = 'p' then readExponent? rest else none
    ofBinary? mantissa.value (exponent - 4 * mantissa.fractionDigits)

def read? (literal : String) : Option Number :=
  let characters := literal.toList
  let digits := characters.filter (· != '_')
  if characters.contains '_' && !separatorsAllowed characters then none
  else match digits with
    | '0' :: letter :: first :: rest =>
        if letter.toLower = 'x' then readHexadecimal? (first :: rest) else
          readDecimal? digits
    | digits => readDecimal? digits

example : (read? "007").map Number.bits = (nearest? 7 1).map Number.bits := by
  decide +kernel

example : read? "0x1p-1" = nearest? 1 2 := by decide +kernel

example : read? "1_0.5e1" = nearest? 105 1 := by decide +kernel

example : read? "0b1" = none := by decide +kernel

example : read? "1e400" = none := by decide +kernel

end Casework.Number
