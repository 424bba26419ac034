import Mathlib
import ParaLang.Decimal.Binary64

/-! # Bit patterns

A binary64 number is determined by its bits, so `ofMagnitude` gives back every finite number from
what `ofFloat` reads off it. -/

namespace ParaLang.Binary64

open Float.Model (Format UnpackedFloat)
open Float.Model.UnpackedFloat (packComponents unpackSign unpackExponent unpackMantissa)

/-- The bits of a binary64 number. -/
abbrev Bits : Type := BitVec Format.binary64.numBits

section Bits

variable {bits : Bits} {exponent : BitVec 11} {mantissa : BitVec 52}

theorem packComponents_fields (isExponent : unpackExponent bits = exponent)
    (isMantissa : unpackMantissa bits = mantissa) :
    packComponents .binary64 (.ofBitVec (unpackSign bits)) exponent mantissa = bits := by
  have sign (bit : BitVec 1) : (UnpackedFloat.Sign.ofBitVec bit).toBitVec = bit := by
    revert bit
    decide
  subst isExponent isMantissa
  simp only [packComponents, sign, unpackSign, unpackExponent, unpackMantissa, BitVec.extractLsb]
  ext index inside
  grind

/-- Whether a mantissa has its leading bit can be told from its logarithm. -/
theorem log2_eq_iff {mantissa : Nat} (below : mantissa < 2 ^ 53) :
    mantissa.log2 + 1 = Format.binary64.mantissaBits ↔ 2 ^ 52 ≤ mantissa := by
  have width : Format.binary64.mantissaBits = 53 := rfl
  rw [width]
  rcases Nat.eq_zero_or_pos mantissa with rfl | positive
  · decide
  · have lower := @Nat.le_log2 mantissa 52 (by omega)
    have upper := @Nat.log2_lt mantissa 53 (by omega)
    omega

theorem exponentBias_eq : (Format.binary64.exponentBias : Int) = 1023 := rfl

theorem implicitBit_eq : (Format.binary64.mantissaBitsWithoutImplicit : Int) = 52 := rfl

/-- A subnormal number has the least exponent and no leading bit. -/
theorem pack_subnormal (sign : UnpackedFloat.Sign) (least : unpackExponent bits = 0)
    (positive : 0 < (unpackMantissa bits).toNat) :
    UnpackedFloat.pack .binary64 (.finite sign (unpackMantissa bits).toNat
      (((unpackExponent bits).toNat : Int) -
        (Format.binary64.exponentBias + Format.binary64.mantissaBitsWithoutImplicit) + 1) positive) =
      packComponents .binary64 sign (unpackExponent bits) (unpackMantissa bits) := by
  have mantissaBelow : (unpackMantissa bits).toNat < 2 ^ 52 := (unpackMantissa bits).isLt
  have biased : (((unpackExponent bits).toNat : Int) -
      (Format.binary64.exponentBias + Format.binary64.mantissaBitsWithoutImplicit) + 1 +
      Format.binary64.exponentBias +
      Format.binary64.mantissaBitsWithoutImplicit).toNat = 1 := by
    rw [least, exponentBias_eq, implicitBit_eq]
    rfl
  have noLeading := (log2_eq_iff (by omega)).not.mpr (Nat.not_le.mpr mantissaBelow)
  simp only [UnpackedFloat.pack, biased, if_neg noLeading, BitVec.ofNat_toNat, BitVec.setWidth_eq]
  rw [least]
  rfl

/-- A normal number has a leading bit that is not written. -/
theorem pack_normal (sign : UnpackedFloat.Sign) (notFull : (unpackExponent bits).toNat ≠ 2047)
    (positive : 0 < (1#1 ++ unpackMantissa bits).toNat) :
    UnpackedFloat.pack .binary64 (.finite sign (1#1 ++ unpackMantissa bits).toNat
      (((unpackExponent bits).toNat : Int) -
        (Format.binary64.exponentBias + Format.binary64.mantissaBitsWithoutImplicit)) positive) =
      packComponents .binary64 sign (unpackExponent bits) (unpackMantissa bits) := by
  have exponentBelow : (unpackExponent bits).toNat < 2048 := (unpackExponent bits).isLt
  have mantissaBelow : (unpackMantissa bits).toNat < 2 ^ 52 := (unpackMantissa bits).isLt
  have leading : (1#1 ++ unpackMantissa bits).toNat = 2 ^ 52 + (unpackMantissa bits).toNat := by
    rw [BitVec.toNat_append, ← Nat.shiftLeft_add_eq_or_of_lt (unpackMantissa bits).isLt]
    rfl
  have biased : (((unpackExponent bits).toNat : Int) -
      (Format.binary64.exponentBias + Format.binary64.mantissaBitsWithoutImplicit) +
      Format.binary64.exponentBias +
      Format.binary64.mantissaBitsWithoutImplicit).toNat = (unpackExponent bits).toNat := by
    rw [exponentBias_eq, implicitBit_eq]
    omega
  have hasLeading := (@log2_eq_iff (1#1 ++ unpackMantissa bits).toNat (by omega)).mpr (by omega)
  have inRange : ¬ 2 ^ Format.binary64.exponentBits ≤ (unpackExponent bits).toNat + 1 := by
    change ¬ 2048 ≤ _
    omega
  have dropped : BitVec.ofNat 52 (1#1 ++ unpackMantissa bits).toNat = unpackMantissa bits := by
    refine BitVec.eq_of_toNat_eq ?_
    change _ % 2 ^ 52 = _
    rw [leading]
    omega
  simp only [UnpackedFloat.pack, biased, if_neg inRange, if_pos hasLeading, BitVec.ofNat_toNat,
    BitVec.setWidth_eq]
  exact congrArg (packComponents .binary64 sign (unpackExponent bits)) dropped

/-- Packing undoes unpacking. -/
theorem pack_unpack (valid : Format.binary64.Valid bits) :
    UnpackedFloat.pack .binary64 (UnpackedFloat.unpack .binary64 bits) = bits := by
  rw [UnpackedFloat.unpack]
  split
  · rename_i full
    split
    · rename_i empty
      exact packComponents_fields full empty
    · rename_i nonempty
      exact (valid.eq_packedNaN full nonempty).symm
  · rename_i notFull
    split
    · rename_i least
      split
      · rename_i empty
        exact packComponents_fields least empty
      · exact (pack_subnormal _ least _).trans (packComponents_fields rfl rfl)
    · exact (pack_normal _ (fun equal => notFull (BitVec.eq_of_toNat_eq equal)) _).trans
        (packComponents_fields rfl rfl)

end Bits

theorem ofBits_toBits (number : Float) : Float.ofBits number.toBits = number := by
  obtain ⟨⟨bits, valid⟩⟩ := number
  have packed : UInt64.ofBitVec (UnpackedFloat.pack .binary64
      (UnpackedFloat.unpack .binary64 bits.toBitVec)) = bits :=
    congrArg UInt64.ofBitVec (pack_unpack valid)
  simp only [Float.ofBits, Float.toBits, Float.Model.ofBits, Float.Model.pack, packed]

/-! ## Finite numbers -/

/-- A mantissa and an exponent as the fields of a number hold them. -/
structure IsNormal (mantissa : Nat) (exponent : Int) : Prop where
  below : mantissa < 2 ^ 53
  least : leastExponent ≤ exponent
  most : exponent ≤ 971
  leading : 2 ^ 52 ≤ mantissa ∨ exponent = leastExponent

/-- The bits of the number `mantissa * 2 ^ exponent`. -/
def magnitudeOf (mantissa : Nat) (exponent : Int) : Nat :=
  (exponent - leastExponent).toNat * 2 ^ 52 + mantissa

theorem magnitudeOf_lt {mantissa : Nat} {exponent : Int} (normal : IsNormal mantissa exponent) :
    magnitudeOf mantissa exponent < infiniteMagnitude := by
  obtain ⟨below, least, most, -⟩ := normal
  simp only [magnitudeOf, infiniteMagnitude, leastExponent, Nat.pow_eq] at *
  omega

theorem eq_ofMagnitude {number : Float} {negative : Bool} {mantissa : Nat} {exponent : Int}
    (contents : ofFloat number = .finite negative mantissa exponent) :
    IsNormal mantissa exponent ∧
      number = ofMagnitude negative (magnitudeOf mantissa exponent) := by
  have bound : number.toBits.toNat < 2 ^ 64 := number.toBits.toNat_lt
  have rebuilt {magnitude : Nat} (same : number.toBits.toNat = magnitude) :
      number = Float.ofBits (UInt64.ofNat magnitude) := by
    rw [← same, UInt64.ofNat_toNat, ofBits_toBits]
  simp only [ofFloat, Nat.pow_eq] at contents
  split at contents
  · split at contents <;> cases contents
  · split at contents
    · rename_i subnormal
      simp only [Binary64.finite.injEq] at contents
      obtain ⟨rfl, rfl, rfl⟩ := contents
      refine ⟨⟨by omega, le_refl _, by decide, .inr rfl⟩, ?_⟩
      rw [ofMagnitude]
      refine rebuilt ?_
      simp only [magnitudeOf, Nat.pow_eq, sub_self, Int.toNat_zero, beq_iff_eq]
      split <;> omega
    · simp only [Binary64.finite.injEq] at contents
      obtain ⟨rfl, rfl, rfl⟩ := contents
      refine ⟨⟨by omega, by simp only [leastExponent]; omega, by omega, .inl (by omega)⟩, ?_⟩
      rw [ofMagnitude]
      refine rebuilt ?_
      simp only [magnitudeOf, leastExponent, Nat.pow_eq, beq_iff_eq]
      split <;> omega

end ParaLang.Binary64
