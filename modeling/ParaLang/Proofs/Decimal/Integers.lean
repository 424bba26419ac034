import ParaLang.Proofs.Decimal.Nearest
import ParaLang.Proofs.Decimal.Negation

/-! # Integers as binary64 numbers

An integer of 32 bits is far from the numbers that are too large, so it always widens, and a
negative one widens to a number below zero. -/

namespace ParaLang.Binary64

open Float.Model (Format UnpackedFloat)
open Float.Model.UnpackedFloat (unpackSign unpackExponent)

/-- The leading bit of a natural is no higher than its logarithm, and at most one lower. -/
theorem binaryExponent_natural (number : Nat) :
    (number.log2 : Int) - 1 ≤ binaryExponent number 1 ∧ binaryExponent number 1 ≤ number.log2 := by
  have unit : Nat.log2 1 = 0 := by decide
  simp only [binaryExponent, unit]
  split <;> constructor <;> omega

theorem roundHalfEven_one (number : Nat) : roundHalfEven number 1 = number := by
  simp [roundHalfEven, Nat.mod_one]

theorem magnitude_natural {number : Nat} (positive : 0 < number) (small : number < 2 ^ 33) :
    magnitude number 1 < infiniteMagnitude := by
  obtain ⟨lower, upper⟩ := binaryExponent_natural number
  have bits : number.log2 < 33 := (Nat.log2_lt positive.ne').mpr small
  -- the last bit lies below the point, so that nothing is rounded
  obtain ⟨shift, isShift⟩ : ∃ shift : Nat, binaryExponent number 1 - 52 = -(shift : Int) :=
    ⟨(52 - binaryExponent number 1).toNat, by omega⟩
  have unit : max leastExponent (binaryExponent number 1 - 52) = -(shift : Int) := by
    simp only [leastExponent]
    omega
  have unrounded : roundHalfEven (scaled 2 number 1 (-(shift : Int))).1
      (scaled 2 number 1 (-(shift : Int))).2 = number * 2 ^ shift := by
    have up : (- -(shift : Int)).toNat = shift := by omega
    have down : (-(shift : Int)).toNat = 0 := by omega
    simp only [scaled, up, down, Nat.pow_eq, pow_zero, mul_one, roundHalfEven_one]
  have bound : number * 2 ^ shift ≤ 2 ^ 54 :=
    calc number * 2 ^ shift
        ≤ 2 ^ (number.log2 + 1) * 2 ^ shift := Nat.mul_le_mul_right _ Nat.lt_log2_self.le
      _ = 2 ^ (number.log2 + 1 + shift) := (pow_add _ _ _).symm
      _ ≤ 2 ^ 54 := Nat.pow_le_pow_right (by decide) (by omega)
  have field : (-(shift : Int) - leastExponent).toNat ≤ 1074 := by
    simp only [leastExponent]
    omega
  rw [magnitude_eq_of_unit positive unit unrounded]
  calc (-(shift : Int) - leastExponent).toNat * 2 ^ 52 + number * 2 ^ shift
      ≤ 1074 * 2 ^ 52 + 2 ^ 54 := Nat.add_le_add (Nat.mul_le_mul_right _ field) bound
    _ < infiniteMagnitude := by norm_num [infiniteMagnitude]

theorem ofInt?_of_bounds {number : Int} (lower : -2147483648 ≤ number)
    (upper : number ≤ 2147483647) : ∃ widened, ofInt? number = some widened := by
  have finite : magnitude number.natAbs 1 < infiniteMagnitude := by
    rcases Nat.eq_zero_or_pos number.natAbs with zero | positive
    · rw [zero]
      decide
    · exact magnitude_natural positive (by omega)
  simp only [ofInt?, if_pos finite]
  exact ⟨_, rfl⟩

/-! ## Signs -/

/-- A number with a sign that is neither zero nor out of range lies below zero. -/
theorem ofMagnitude_lt_zero {magnitude : Nat} (positive : 0 < magnitude)
    (finite : magnitude < infiniteMagnitude) : ofMagnitude true magnitude < 0.0 := by
  simp only [infiniteMagnitude, Nat.pow_eq] at finite
  obtain ⟨bits, isBits⟩ : ∃ bits : Bits,
      bits = (UInt64.ofNat (Nat.pow 2 63 + magnitude)).toBitVec := ⟨_, rfl⟩
  have toNat : bits.toNat = 2 ^ 63 + magnitude := by
    have below : 2 ^ 63 + magnitude < 2 ^ 64 := by omega
    rw [isBits]
    exact Nat.mod_eq_of_lt below
  have exponent : unpackExponent bits ≠ -1#11 := by
    intro full
    have isFull := toNat_unpackExponent bits
    rw [full, toNat] at isFull
    change 2047 = _ at isFull
    omega
  have sign : unpackSign bits = 1#1 := by
    refine BitVec.eq_of_toNat_eq ?_
    rw [toNat_unpackSign, toNat]
    change _ = 1
    omega
  have unpacked : (ofMagnitude true magnitude).toModel.unpack =
      UnpackedFloat.unpack .binary64 bits := by
    have valid : Format.binary64.Valid bits := ⟨fun full => absurd full exponent⟩
    rw [← congrArg (UnpackedFloat.unpack .binary64) (pack_unpack valid), isBits]
    rfl
  have zero : (0.0 : Float).toModel.unpack = .zero .positive := rfl
  have below (mantissa : Nat) (power : Int) (nonzero : 0 < mantissa) :
      UnpackedFloat.lt (.finite (.ofBitVec (unpackSign bits)) mantissa power nonzero)
        (.zero .positive) = true := by
    rw [sign]
    rfl
  change decide (UnpackedFloat.lt (ofMagnitude true magnitude).toModel.unpack
    (0.0 : Float).toModel.unpack = true) = true
  rw [unpacked, zero, UnpackedFloat.unpack, decide_eq_true_eq, if_neg exponent]
  split
  · next least =>
    split
    · next empty =>
      have noExponent := toNat_unpackExponent bits
      have noMantissa := toNat_unpackMantissa bits
      rw [least, toNat] at noExponent
      rw [empty, toNat] at noMantissa
      change 0 = _ at noExponent
      change 0 = _ at noMantissa
      omega
    · exact below _ _ _
  · exact below _ _ _

theorem magnitude_pos {number : Nat} (positive : 0 < number) : 0 < magnitude number 1 := by
  obtain ⟨lower, -⟩ := binaryExponent_natural number
  have unit :
      0 < (max leastExponent (binaryExponent number 1 - 52) - leastExponent).toNat := by
    simp only [leastExponent]
    omega
  simp only [magnitude, if_neg positive.ne', Nat.pow_eq]
  exact Nat.add_pos_left (Nat.mul_pos unit (by decide)) _

theorem ofInt?_of_negative {number : Int} (negative : number < 0) {widened : Float}
    (isWidened : ofInt? number = some widened) : widened < 0.0 := by
  simp only [ofInt?] at isWidened
  split at isWidened
  · next finite =>
    rw [decide_eq_true negative] at isWidened
    cases isWidened
    exact ofMagnitude_lt_zero (magnitude_pos (by omega)) finite
  · cases isWidened

end ParaLang.Binary64
