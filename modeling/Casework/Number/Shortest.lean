import Casework.Number.Basic

/-!
Shortest decimals: the fewest digits that still name a number.

A decimal names a number when the number is the nearest one to it. All decimals that do so
lie between the two midpoints towards the neighbouring numbers, the midpoints included
exactly when the fraction is even. For each count of digits only the two decimals around
the value need a look: if any decimal of that many digits lies between the midpoints, so
does one of these.
-/

namespace Casework.Number

structure Decimal where
  coefficient : Nat
  exponent : Int
deriving DecidableEq, Repr, Inhabited

def digitCount (value : Nat) : Nat :=
  (Nat.toDigits 10 value).length

def decimalExponent (numerator denominator : Nat) : Int :=
  if denominator ≤ numerator then
    (digitCount (numerator / denominator) : Int) - 1
  else
    -(digitCount ((denominator - 1) / numerator) : Int)

example :
    (decimalExponent 999 1, decimalExponent 1 1, decimalExponent 1 10,
      decimalExponent 1 11)
    = (2, 0, -1, -2) := by decide

/-! ## The decimals that name a number -/

/-- A value and the midpoints around it, in quarters of a unit in the last place of its
fraction. -/
structure Neighbourhood where
  value : Nat
  below : Nat
  above : Nat
  exponent : Int
  closed : Bool

def neighbourhood (fraction : Nat) (exponent : Int) : Neighbourhood where
  value := 4 * fraction
  below := 4 * fraction -
    (if fraction = twoTo fractionBits && leastExponent < exponent then 1 else 2)
  above := 4 * fraction + 2
  exponent := exponent - 2
  closed := fraction % 2 == 0

namespace Neighbourhood

def scaled (around : Neighbourhood) (quarters : Nat) (exponent : Int) : Nat × Nat :=
  (quarters * twoTo around.exponent.toNat * tenTo (-exponent).toNat,
    twoTo (-around.exponent).toNat * tenTo exponent.toNat)

/-- Whether a decimal lies between the midpoints. -/
def holds (around : Neighbourhood) (decimal : Decimal) : Bool :=
  let (below, unit) := around.scaled around.below decimal.exponent
  let (above, _) := around.scaled around.above decimal.exponent
  let point := decimal.coefficient * unit
  if around.closed then below ≤ point && point ≤ above else below < point && point < above

def onGrid? (around : Neighbourhood) (exponent : Int) : Option Decimal :=
  let (value, unit) := around.scaled around.value exponent
  let lower : Decimal := ⟨value / unit, exponent⟩
  let upper : Decimal := ⟨value / unit + 1, exponent⟩
  let remainder := value % unit
  let lowerFirst := 2 * remainder < unit ||
    (2 * remainder == unit && lower.coefficient % 2 == 0)
  match around.holds lower, around.holds upper with
  | true, true => some (if lowerFirst then lower else upper)
  | true, false => some lower
  | false, true => some upper
  | false, false => none

def search (around : Neighbourhood) : (tries : Nat) → (exponent : Int) → Decimal
  | 0, exponent =>
      let (value, unit) := around.scaled around.value exponent
      ⟨value / unit, exponent⟩
  | tries + 1, exponent =>
      match around.onGrid? exponent with
      | some decimal => decimal
      | none => around.search tries (exponent - 1)

end Neighbourhood

def shortest (fraction : Nat) (exponent : Int) : Decimal :=
  let around := neighbourhood fraction exponent
  let (value, unit) := around.scaled around.value 0
  around.search 17 (decimalExponent value unit)

example : shortest 1 leastExponent = ⟨5, -324⟩ := by decide +kernel

example : shortest 0x1999999999999A (-56) = ⟨1, -1⟩ := by decide +kernel

end Casework.Number
