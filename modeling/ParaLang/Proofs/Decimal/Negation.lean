import ParaLang.Decimal.Shortest
import ParaLang.Proofs.Decimal.Contents

/-! # Negation

The negation of a finite binary64 number has the other sign and the same magnitude, so a negative
number is written as a sign in front of its negation. -/

namespace ParaLang.Binary64

open Float.Model (Format UnpackedFloat)
open Float.Model.UnpackedFloat (packComponents unpackSign unpackExponent unpackMantissa)

section Bits

variable {bits : Bits}

/-- Of a number that is no infinity and not undefined only the sign changes. -/
theorem pack_neg_unpack (notFull : unpackExponent bits ≠ -1#11) :
    UnpackedFloat.pack .binary64 (UnpackedFloat.unpack .binary64 bits).neg =
      packComponents .binary64 (-.ofBitVec (unpackSign bits)) (unpackExponent bits)
        (unpackMantissa bits) := by
  rw [UnpackedFloat.unpack]
  split
  · next full => exact absurd full notFull
  · split
    · next least =>
      split
      · next empty =>
        rw [least, empty]
        rfl
      · exact pack_subnormal _ least _
    · exact pack_normal _ (fun equal => notFull (BitVec.eq_of_toNat_eq equal)) _

theorem toNat_packComponents (sign : UnpackedFloat.Sign) (exponent : BitVec 11)
    (mantissa : BitVec 52) : (packComponents .binary64 sign exponent mantissa).toNat =
      sign.toBitVec.toNat * 2 ^ 63 + exponent.toNat * 2 ^ 52 + mantissa.toNat := by
  change (sign.toBitVec ++ exponent ++ mantissa).toNat = _
  rw [BitVec.toNat_append, BitVec.toNat_append, ← Nat.shiftLeft_add_eq_or_of_lt exponent.isLt,
    ← Nat.shiftLeft_add_eq_or_of_lt mantissa.isLt, Nat.shiftLeft_eq, Nat.shiftLeft_eq]
  ring

theorem toNat_unpackMantissa (bits : Bits) : (unpackMantissa bits).toNat = bits.toNat % 2 ^ 52 := by
  change (BitVec.extractLsb 51 0 bits).toNat = _
  simp [BitVec.extractLsb]

theorem toNat_unpackExponent (bits : Bits) :
    (unpackExponent bits).toNat = bits.toNat / 2 ^ 52 % 2 ^ 11 := by
  change (BitVec.extractLsb 62 52 bits).toNat = _
  simp [BitVec.extractLsb, Nat.shiftRight_eq_div_pow]

theorem toNat_unpackSign (bits : Bits) : (unpackSign bits).toNat = bits.toNat / 2 ^ 63 := by
  have bound : bits.toNat < 2 ^ 64 := bits.isLt
  change (BitVec.extractLsb 63 63 bits).toNat = _
  simp [BitVec.extractLsb, Nat.shiftRight_eq_div_pow]
  omega

end Bits

/-- The bits of the negation are those of the number but for the first one. -/
theorem toNat_toBits_neg {number : Float}
    (notFull : number.toBits.toNat / 2 ^ 52 % 2 ^ 11 ≠ 2047) :
    (-number).toBits.toNat =
      (1 - number.toBits.toNat / 2 ^ 63) * 2 ^ 63 + number.toBits.toNat % 2 ^ 63 := by
  obtain ⟨bits, isBits⟩ : ∃ bits : Bits, bits = number.toBits.toBitVec := ⟨_, rfl⟩
  have toNat : bits.toNat = number.toBits.toNat := congrArg BitVec.toNat isBits
  have exponent : unpackExponent bits ≠ -1#11 := by
    intro full
    rw [← toNat, ← toNat_unpackExponent, full] at notFull
    exact notFull rfl
  have negated : (-number).toBits.toBitVec =
      UnpackedFloat.pack .binary64 (UnpackedFloat.unpack .binary64 bits).neg := by
    rw [isBits]
    rfl
  have flipped : (-UnpackedFloat.Sign.ofBitVec (unpackSign bits)).toBitVec.toNat =
      1 - (unpackSign bits).toNat := by
    generalize unpackSign bits = sign
    revert sign
    decide
  change (-number).toBits.toBitVec.toNat = _
  rw [negated, pack_neg_unpack exponent, toNat_packComponents, flipped, toNat_unpackSign,
    toNat_unpackExponent, toNat_unpackMantissa, toNat]
  omega

/-- The negation of a finite number has the other sign. -/
theorem ofFloat_neg {number : Float} {negative : Bool} {mantissa : Nat} {exponent : Int}
    (contents : ofFloat number = .finite negative mantissa exponent) :
    ofFloat (-number) = .finite (!negative) mantissa exponent := by
  have notFull : number.toBits.toNat / 2 ^ 52 % 2 ^ 11 ≠ 2047 := by
    intro full
    simp only [ofFloat, Nat.pow_eq, full, if_true] at contents
    split at contents <;> cases contents
  have bits := toNat_toBits_neg notFull
  have bound : number.toBits.toNat < 2 ^ 64 := number.toBits.toNat_lt
  simp only [ofFloat, Nat.pow_eq] at contents ⊢
  generalize (-number).toBits.toNat = other at bits
  generalize number.toBits.toNat = given at *
  have field : other / 2 ^ 52 % 2 ^ 11 = given / 2 ^ 52 % 2 ^ 11 := by omega
  have fraction : other % 2 ^ 52 = given % 2 ^ 52 := by omega
  have sign : (other / 2 ^ 63 == 1) = !(given / 2 ^ 63 == 1) := by
    rw [Bool.eq_iff_iff, Bool.not_eq_true', beq_iff_eq, beq_eq_false_iff_ne]
    omega
  rw [field, fraction, sign]
  split at contents
  · split at contents <;> cases contents
  · next inRange =>
    rw [if_neg inRange]
    split at contents
    · next least =>
      rw [if_pos least]
      cases contents
      rfl
    · next normal =>
      rw [if_neg normal]
      cases contents
      rfl

theorem neg_neg_of_finite {number : Float} {negative : Bool} {mantissa : Nat} {exponent : Int}
    (contents : ofFloat number = .finite negative mantissa exponent) : - -number = number := by
  have again := ofFloat_neg (ofFloat_neg contents)
  rw [Bool.not_not] at again
  exact (eq_ofMagnitude again).2.trans (eq_ofMagnitude contents).2.symm

end ParaLang.Binary64

/-- A negative number is written as its negation behind a sign. -/
theorem ParaLang.Decimal.text_negative {number : Float} {mantissa : Nat} {exponent : Int}
    (contents : Binary64.ofFloat number = .finite true mantissa exponent) :
    text number = "-" ++ text (-number) := by
  have negated := Binary64.ofFloat_neg contents
  simp only [text, textIn, contents, negated, Bool.not_true, if_true, Bool.false_eq_true, if_false]
  rw [← String.toList_inj, String.toList_append, String.toList_ofList]
  exact congrArg (['-'] ++ ·) String.toList_ofList.symm
