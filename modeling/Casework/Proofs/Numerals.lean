import Mathlib.Algebra.Group.Nat.Defs
import Mathlib.Data.Nat.Log
import Casework.Number.Reader

/-!
The sign of number literals.

A literal has no sign, so no negative number is written as one. The first bit of a number
is its sign: the exponent and the fraction of a number that is read leave it alone.
-/

namespace Casework.Number

variable {number : Number} {numerator denominator : Nat} {exponent : Int}

def IsUnsigned (number : Number) : Prop :=
  number.bits.toNat < 2 ^ 63

instance (number : Number) : Decidable number.IsUnsigned :=
  inferInstanceAs (Decidable (_ < _))

theorem isUnsigned_zero : zero.IsUnsigned := by decide

theorem isUnsigned_of_lt {bits : Nat} (small : bits < 2 ^ 63) :
    (Number.mk bits.toUInt64).IsUnsigned := by
  rw [IsUnsigned, Nat.toUInt64_eq, UInt64.toNat_ofNat', Nat.mod_eq_of_lt (by omega)]
  exact small

/-! ## Rounding -/

theorem roundQuotient_le {bound : Nat} (positive : 0 < denominator)
    (small : numerator < bound * denominator) :
    roundQuotient numerator denominator ≤ bound := by
  have quotient : numerator / denominator < bound :=
    (Nat.div_lt_iff_lt_mul positive).2 small
  unfold roundQuotient
  dsimp only
  split
  · omega
  · split <;> omega

/-- A quotient scaled by at least its size takes no more than the bits of a fraction. -/
theorem scaledRound_le (positive : 0 < denominator)
    (large : (Nat.log2 numerator : Int) - Nat.log2 denominator - 52 ≤ exponent) :
    scaledRound numerator denominator exponent ≤ twoTo 53 := by
  have above : numerator < 2 ^ (numerator.log2 + 1) := Nat.lt_log2_self
  have below : 2 ^ denominator.log2 ≤ denominator := Nat.log2_self_le positive.ne'
  apply roundQuotient_le (Nat.mul_pos positive (Nat.two_pow_pos _))
  calc numerator * 2 ^ (-exponent).toNat
      < 2 ^ (numerator.log2 + 1) * 2 ^ (-exponent).toNat :=
        Nat.mul_lt_mul_of_pos_right above (Nat.two_pow_pos _)
    _ = 2 ^ (numerator.log2 + 1 + (-exponent).toNat) := (Nat.pow_add ..).symm
    _ ≤ 2 ^ (53 + (denominator.log2 + exponent.toNat)) :=
      Nat.pow_le_pow_right (by decide) (by omega)
    _ = 2 ^ 53 * (2 ^ denominator.log2 * 2 ^ exponent.toNat) := by
      rw [Nat.pow_add, Nat.pow_add]
    _ ≤ 2 ^ 53 * (denominator * 2 ^ exponent.toNat) :=
        Nat.mul_le_mul_left _ (Nat.mul_le_mul_right _ below)

theorem isUnsigned_of_parts {fraction : Nat} (fractionSmall : fraction < twoTo 53)
    (packed : (if greatestExponent < exponent then none
      else if fraction < twoTo fractionBits then some (Number.mk fraction.toUInt64)
      else some (Number.mk ((exponent - leastExponent + 1).toNat * twoTo fractionBits +
        (fraction - twoTo fractionBits)).toUInt64)) = some number) :
        number.IsUnsigned := by
  have bits : twoTo 53 = 2 * twoTo fractionBits ∧ 2 ^ 63 = 2048 * twoTo fractionBits := by
    decide
  split at packed
  · cases packed
  · next notLarge =>
      rw [greatestExponent] at notLarge
      split at packed
      · rw [← Option.some.inj packed]
        exact isUnsigned_of_lt (by omega)
      · rw [← Option.some.inj packed]
        apply isUnsigned_of_lt
        have field : (exponent - leastExponent + 1).toNat ≤ 2046 := by
          rw [leastExponent]
          omega
        have scaled := Nat.mul_le_mul_right (twoTo fractionBits) field
        omega

theorem isUnsigned_of_nearest? (positive : 0 < denominator)
    (found : nearest? numerator denominator = some number) : number.IsUnsigned := by
  unfold nearest? at found
  split at found
  · cases found
    exact isUnsigned_zero
  · dsimp only at found
    have half : twoTo 53 / 2 < twoTo 53 := by decide
    split at found
    · next small => exact isUnsigned_of_parts small found
    · split at found
      · next small => exact isUnsigned_of_parts small found
      · refine isUnsigned_of_parts
          (Nat.lt_of_le_of_lt (Nat.div_le_div_right ?_) half) found
        exact scaledRound_le positive (by omega)

/-! ## Literals -/

theorem isUnsigned_of_ofDecimal? {value : Nat}
    (found : ofDecimal? value exponent = some number) :
    number.IsUnsigned := by
  unfold ofDecimal? at found
  dsimp only at found
  split at found
  · cases found
    exact isUnsigned_zero
  · split at found
    · cases found
    · exact isUnsigned_of_nearest? (Nat.pow_pos (by decide)) found

theorem isUnsigned_of_ofBinary? {value : Nat}
    (found : ofBinary? value exponent = some number) :
    number.IsUnsigned := by
  unfold ofBinary? at found
  dsimp only at found
  split at found
  · cases found
    exact isUnsigned_zero
  · split at found
    · cases found
    · exact isUnsigned_of_nearest? (Nat.two_pow_pos _) found

theorem isUnsigned_of_readDecimal? {literal : List Char}
    (found : readDecimal? literal = some number) :
    number.IsUnsigned := by
  unfold readDecimal? at found
  dsimp only at found
  split at found
  · cases found
  · split at found
    · rcases Option.bind_eq_some_iff.1 found with ⟨exponent, _, isNumber⟩
      exact isUnsigned_of_ofDecimal? isNumber
    · split at found
      · rcases Option.bind_eq_some_iff.1 found with ⟨exponent, _, isNumber⟩
        exact isUnsigned_of_ofDecimal? isNumber
      · cases found

theorem isUnsigned_of_readHexadecimal? {literal : List Char}
    (found : readHexadecimal? literal = some number) : number.IsUnsigned := by
  unfold readHexadecimal? at found
  dsimp only at found
  split at found
  · cases found
  · split at found
    · rcases Option.bind_eq_some_iff.1 found with ⟨exponent, _, isNumber⟩
      exact isUnsigned_of_ofBinary? isNumber
    · split at found
      · rcases Option.bind_eq_some_iff.1 found with ⟨exponent, _, isNumber⟩
        exact isUnsigned_of_ofBinary? isNumber
      · cases found

theorem isUnsigned_of_read? {literal : String} (found : read? literal = some number) :
    number.IsUnsigned := by
  unfold read? at found
  dsimp only at found
  split at found
  · cases found
  · split at found
    · split at found
      · exact isUnsigned_of_readHexadecimal? found
      · exact isUnsigned_of_readDecimal? found
    · exact isUnsigned_of_readDecimal? found

end Casework.Number
