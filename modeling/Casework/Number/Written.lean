import Casework.Number.Shortest

/-!
Written numbers: the text of a number in a listing.

The digits are the fewest that name the number. They are written positionally while the
exponent of the leading digit is at least -4 and below 6, and with an exponent of a sign
and at least two digits otherwise.
-/

namespace Casework.Number

/-- Digits without trailing zeros, and the exponent of the leading one. -/
structure Significant where
  digits : List Char
  exponent : Int

def Decimal.significant (decimal : Decimal) : Significant :=
  let digits := Nat.toDigits 10 decimal.coefficient
  { digits := (digits.reverse.dropWhile (· == '0')).reverse
    exponent := decimal.exponent + digits.length - 1 }

def isPositional (exponent : Int) : Bool :=
  -4 ≤ exponent && exponent < 6

def Significant.positional (significant : Significant) : List Char :=
  let digits := significant.digits
  if significant.exponent < 0 then
    '0' :: '.' :: List.replicate (-significant.exponent - 1).toNat '0' ++ digits
  else
    let whole := significant.exponent.toNat + 1
    let padded := digits ++ List.replicate (whole - digits.length) '0'
    if digits.length ≤ whole then padded
    else padded.take whole ++ '.' :: padded.drop whole

def Significant.scientific (significant : Significant) : List Char :=
  let mantissa := match significant.digits with
    | [] => []
    | [digit] => [digit]
    | digit :: rest => digit :: '.' :: rest
  let sign := if significant.exponent < 0 then '-' else '+'
  let magnitude := Nat.toDigits 10 significant.exponent.natAbs
  let padded := if magnitude.length < 2 then '0' :: magnitude else magnitude
  mantissa ++ 'e' :: sign :: padded

def Significant.text (significant : Significant) : List Char :=
  if isPositional significant.exponent then significant.positional else
    significant.scientific

/-- The text of a number. -/
def text (number : Number) : String :=
  match number.parts with
  | .notANumber => "NaN"
  | .infinite negative => if negative then "-Inf" else "+Inf"
  | .finite negative fraction exponent =>
      let magnitude :=
        if fraction = 0 then ['0'] else (shortest fraction exponent).significant.text
      String.ofList (if negative then '-' :: magnitude else magnitude)

example : (nearest? 999999 1).map text = some "999999" := by decide +kernel

example : (nearest? 1000000 1).map text = some "1e+06" := by decide +kernel

example : (nearest? 1234567 1).map text = some "1.234567e+06" := by decide +kernel

example : (nearest? 246913 2).map text = some "123456.5" := by decide +kernel

example : (nearest? 1 10000).map text = some "0.0001" := by decide +kernel

example : (nearest? 1 100000).map text = some "1e-05" := by decide +kernel

example : zero.negate.text = "-0" := by decide +kernel

end Casework.Number
