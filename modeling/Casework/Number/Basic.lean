/-!
Numbers: binary floating-point values of sixty-four bits.

Nothing is ever computed with a number at compile time. It is read from a literal, carried
through the compiler and written into a listing, so a number is its bits, and two numbers
are equal when their bits are: this keeps the sign of a zero.
-/

namespace Casework

/-- A floating-point value of sixty-four bits, given by its bits. -/
structure Number where
  bits : UInt64
deriving DecidableEq, Repr, Inhabited

namespace Number

def twoTo (exponent : Nat) : Nat := Nat.pow 2 exponent

def tenTo (exponent : Nat) : Nat := Nat.pow 10 exponent

def fractionBits : Nat := 52

def leastExponent : Int := -1074

def greatestExponent : Int := 971

def zero : Number := ⟨0⟩

def negate (number : Number) : Number :=
  ⟨number.bits ^^^ 0x8000000000000000⟩

/-! ## Taking numbers apart -/

inductive Parts where
  | notANumber
  | infinite (negative : Bool)
  /-- The value `fraction * 2 ^ exponent`, with the fraction below `2 ^ 53`. -/
  | finite (negative : Bool) (fraction : Nat) (exponent : Int)
deriving DecidableEq, Repr

def parts (number : Number) : Parts :=
  let bits := number.bits.toNat
  let negative := bits / twoTo 63 == 1
  let exponentField : Nat := bits / twoTo fractionBits % twoTo 11
  let fraction : Nat := bits % twoTo fractionBits
  if exponentField = 2047 then
    if fraction = 0 then .infinite negative else .notANumber
  else if exponentField = 0 then
    .finite negative fraction leastExponent
  else
    .finite negative (fraction + twoTo fractionBits) (exponentField + leastExponent - 1)

example : parts ⟨0x3FF0000000000000⟩ = .finite false (twoTo 52) (-52) := by decide

/-! ## Whole parts -/

def leastWord : Int := -9223372036854775808

def wholePart (number : Number) : Int :=
  match number.parts with
  | .finite negative fraction exponent =>
      let magnitude : Int := fraction * twoTo exponent.toNat / twoTo (-exponent).toNat
      let value := if negative then -magnitude else magnitude
      if leastWord ≤ value && value < -leastWord then value else leastWord
  | _ => leastWord

example : wholePart ⟨0xC007333333333333⟩ = -2 := by decide +kernel

/-! ## Rounding -/

def roundQuotient (numerator denominator : Nat) : Nat :=
  let quotient := numerator / denominator
  let remainder := numerator % denominator
  if 2 * remainder < denominator then quotient
  else if denominator < 2 * remainder then quotient + 1
  else quotient + quotient % 2

example : (roundQuotient 5 2, roundQuotient 7 2, roundQuotient 8 3) = (2, 4, 3) := by
  decide

def scaledRound (numerator denominator : Nat) (exponent : Int) : Nat :=
  roundQuotient (numerator * twoTo (-exponent).toNat) (denominator * twoTo exponent.toNat)

/-- The number nearest to a non-negative quotient; a tie goes to the even fraction. There
is none when the quotient is too large. The denominator is positive. -/
def nearest? (numerator denominator : Nat) : Option Number :=
  if numerator = 0 then some zero
  else
    let estimate : Int := (Nat.log2 numerator : Int) - Nat.log2 denominator - 52
    -- The estimate is the exponent wanted or one too large.
    let low := max leastExponent (estimate - 1)
    let (fraction, exponent) :=
      let fraction := scaledRound numerator denominator low
      if fraction < twoTo 53 then (fraction, low)
      else
        let exponent := low + 1
        let fraction := scaledRound numerator denominator exponent
        if fraction < twoTo 53 then (fraction, exponent) else (fraction / 2, exponent + 1)
    if greatestExponent < exponent then none
    else if fraction < twoTo fractionBits then some ⟨fraction.toUInt64⟩
    else
      let exponentField := (exponent - leastExponent + 1).toNat
      some
        ⟨(exponentField * twoTo fractionBits + (fraction - twoTo fractionBits)).toUInt64⟩

example : nearest? 1 1 = some ⟨0x3FF0000000000000⟩ := by decide +kernel

example : nearest? 1 10 = some ⟨0x3FB999999999999A⟩ := by decide +kernel

end Number

end Casework
