import ParaLang.Proofs.Decimal.Contents

/-! # The number closest to a quotient

Around every binary64 number lies an interval of rationals that round to it: half a unit of its
last place to both sides, or a quarter below a power of two.  `nearest` gives the number back for
all of them, however the rational is written as a quotient. -/

namespace ParaLang.Binary64

/-! ## Quotients -/

/-- The rational `numerator / denominator`. -/
def quotient (numerator denominator : Nat) : ℚ :=
  numerator / denominator

theorem zpow_split (base : Nat) (positive : 0 < base) (exponent : Int) :
    (base : ℚ) ^ exponent = (base : ℚ) ^ exponent.toNat / (base : ℚ) ^ (-exponent).toNat := by
  have nonzero : (base : ℚ) ≠ 0 := by positivity
  rcases Int.le_total 0 exponent with nonnegative | nonpositive
  · have back : (-exponent).toNat = 0 := by omega
    rw [back, pow_zero, div_one, ← zpow_natCast, Int.toNat_of_nonneg nonnegative]
  · have front : exponent.toNat = 0 := by omega
    rw [front, pow_zero, one_div, ← zpow_natCast, Int.toNat_of_nonneg (by omega), zpow_neg, inv_inv]

theorem quotient_scaled {base numerator denominator : Nat} (positive : 0 < base)
    (exponent : Int) :
    quotient (scaled base numerator denominator exponent).1
      (scaled base numerator denominator exponent).2 =
      quotient numerator denominator / (base : ℚ) ^ exponent := by
  rw [zpow_split base positive]
  simp only [quotient, scaled, Nat.pow_eq]
  push_cast
  field_simp

theorem scaled_pos {base numerator denominator : Nat} (positive : 0 < base)
    (nonzero : 0 < denominator) (exponent : Int) :
    0 < (scaled base numerator denominator exponent).2 :=
  Nat.mul_pos nonzero (Nat.pow_pos positive)

theorem reachesPower_iff {base numerator denominator : Nat} (positive : 0 < base)
    (nonzero : 0 < denominator) (exponent : Int) :
    reachesPower base numerator denominator exponent = true ↔
      (base : ℚ) ^ exponent ≤ quotient numerator denominator := by
  have bottom : (0 : ℚ) < (scaled base numerator denominator exponent).2 :=
    Nat.cast_pos.mpr (scaled_pos positive nonzero exponent)
  have power : (0 : ℚ) < (base : ℚ) ^ exponent := zpow_pos (Nat.cast_pos.mpr positive) exponent
  have same := @quotient_scaled base numerator denominator positive exponent
  rw [← one_le_div₀ power, ← same, quotient, one_le_div₀ bottom, Nat.cast_le, reachesPower]
  exact decide_eq_true_iff

/-! ## Rounding -/

theorem fraction_lt_half_iff {remainder denominator : Nat} (positive : 0 < denominator) :
    (remainder : ℚ) / denominator < 1 / 2 ↔ 2 * remainder < denominator := by
  rw [div_lt_div_iff₀ (Nat.cast_pos.mpr positive) two_pos, one_mul, mul_comm]
  norm_cast

theorem half_lt_fraction_iff {remainder denominator : Nat} (positive : 0 < denominator) :
    1 / 2 < (remainder : ℚ) / denominator ↔ denominator < 2 * remainder := by
  rw [div_lt_div_iff₀ two_pos (Nat.cast_pos.mpr positive), one_mul, mul_comm]
  norm_cast

/-- A rational within half a unit of a natural rounds to it; just half a unit away it does if the
natural is even. -/
theorem roundHalfEven_eq {numerator denominator result : Nat} (positive : 0 < denominator)
    (lower : (result : ℚ) - 1 / 2 ≤ quotient numerator denominator)
    (upper : quotient numerator denominator ≤ result + 1 / 2)
    (even : result % 2 = 0 ∨ ((result : ℚ) - 1 / 2 < quotient numerator denominator ∧
      quotient numerator denominator < result + 1 / 2)) :
    roundHalfEven numerator denominator = result := by
  have bottom : (0 : ℚ) < denominator := Nat.cast_pos.mpr positive
  have split := Nat.div_add_mod numerator denominator
  have rest := Nat.mod_lt numerator positive
  set whole := numerator / denominator with isWhole
  set remainder := numerator % denominator with isRemainder
  have value : quotient numerator denominator = whole + remainder / denominator := by
    rw [quotient, ← split]
    push_cast
    field_simp
  rw [value] at lower upper even
  have fraction : (remainder : ℚ) / denominator < 1 := by
    rw [div_lt_one bottom]
    exact_mod_cast rest
  have nonnegative : (0 : ℚ) ≤ (remainder : ℚ) / denominator := by positivity
  have below : (result : ℚ) < whole + 2 := by linarith
  have above : (whole : ℚ) < result + 1 := by linarith
  have half := @fraction_lt_half_iff remainder denominator positive
  have pastHalf := @half_lt_fraction_iff remainder denominator positive
  have possible : result = whole ∨ result = whole + 1 := by
    have below : result < whole + 2 := by exact_mod_cast below
    have above : whole < result + 1 := by exact_mod_cast above
    omega
  simp only [roundHalfEven, ← isWhole, ← isRemainder]
  rcases possible with rfl | rfl
  · have notPast : ¬ denominator < 2 * remainder := by
      rw [← pastHalf]
      linarith
    split
    · rfl
    · rename_i notBelow
      rcases even with isEven | ⟨-, strict⟩
      · omega
      · exact absurd (half.mp (by linarith)) notBelow
  · push_cast at lower even
    have notBelow : ¬ 2 * remainder < denominator := by
      rw [← half]
      linarith
    rw [if_neg notBelow]
    split
    · rfl
    · rename_i notPast
      rcases even with isEven | ⟨strict, -⟩
      · omega
      · exact absurd (pastHalf.mp (by linarith)) notPast

/-! ## Powers of two -/

theorem log2_bounds {value : Nat} (positive : 0 < value) :
    (2 : ℚ) ^ (value.log2 : Int) ≤ value ∧ (value : ℚ) < 2 ^ ((value.log2 : Int) + 1) := by
  rw [← Nat.cast_succ, zpow_natCast, zpow_natCast]
  exact ⟨by exact_mod_cast Nat.log2_self_le positive.ne', by exact_mod_cast Nat.lt_log2_self⟩

theorem quotient_log2 {numerator denominator : Nat} (top : 0 < numerator)
    (bottom : 0 < denominator) :
    (2 : ℚ) ^ ((numerator.log2 : Int) - denominator.log2 - 1) < quotient numerator denominator ∧
      quotient numerator denominator < 2 ^ ((numerator.log2 : Int) - denominator.log2 + 1) := by
  have positive : (0 : ℚ) < denominator := Nat.cast_pos.mpr bottom
  obtain ⟨topLower, topUpper⟩ := log2_bounds top
  obtain ⟨bottomLower, bottomUpper⟩ := log2_bounds bottom
  constructor
  · rw [quotient, lt_div_iff₀ positive]
    calc (2 : ℚ) ^ ((numerator.log2 : Int) - denominator.log2 - 1) * denominator
        < 2 ^ ((numerator.log2 : Int) - denominator.log2 - 1) * 2 ^ ((denominator.log2 : Int) + 1) :=
          mul_lt_mul_of_pos_left bottomUpper (by positivity)
      _ = 2 ^ (numerator.log2 : Int) := by
          rw [← zpow_add₀ two_ne_zero]
          congr 1
          ring
      _ ≤ numerator := topLower
  · rw [quotient, div_lt_iff₀ positive]
    calc (numerator : ℚ) < 2 ^ ((numerator.log2 : Int) + 1) := topUpper
      _ = 2 ^ ((numerator.log2 : Int) - denominator.log2 + 1) * 2 ^ (denominator.log2 : Int) := by
          rw [← zpow_add₀ two_ne_zero]
          congr 1
          ring
      _ ≤ 2 ^ ((numerator.log2 : Int) - denominator.log2 + 1) * denominator :=
          mul_le_mul_of_nonneg_left bottomLower (by positivity)

/-- The binary exponent brackets the quotient. -/
theorem binaryExponent_spec {numerator denominator : Nat} (top : 0 < numerator)
    (bottom : 0 < denominator) :
    (2 : ℚ) ^ binaryExponent numerator denominator ≤ quotient numerator denominator ∧
      quotient numerator denominator < 2 ^ (binaryExponent numerator denominator + 1) := by
  obtain ⟨lower, upper⟩ := quotient_log2 top bottom
  have reaches := @reachesPower_iff 2 numerator denominator two_pos bottom
    ((numerator.log2 : Int) - denominator.log2)
  simp only [binaryExponent]
  split
  · rename_i reached
    exact ⟨reaches.mp reached, upper⟩
  · rename_i unreached
    refine ⟨lower.le, ?_⟩
    have above := lt_of_not_ge (reaches.not.mp unreached)
    simpa using above

theorem binaryExponent_eq {numerator denominator : Nat} (top : 0 < numerator)
    (bottom : 0 < denominator) {exponent : Int}
    (lower : (2 : ℚ) ^ exponent ≤ quotient numerator denominator)
    (upper : quotient numerator denominator < 2 ^ (exponent + 1)) :
    binaryExponent numerator denominator = exponent := by
  obtain ⟨specLower, specUpper⟩ := binaryExponent_spec top bottom
  have below := (zpow_lt_zpow_iff_right₀ (one_lt_two (α := ℚ))).mp (lower.trans_lt specUpper)
  have above := (zpow_lt_zpow_iff_right₀ (one_lt_two (α := ℚ))).mp (specLower.trans_lt upper)
  omega

theorem binaryExponent_lt {numerator denominator : Nat} (top : 0 < numerator)
    (bottom : 0 < denominator) {exponent : Int}
    (upper : quotient numerator denominator < 2 ^ exponent) :
    binaryExponent numerator denominator < exponent := by
  obtain ⟨specLower, -⟩ := binaryExponent_spec top bottom
  exact (zpow_lt_zpow_iff_right₀ (one_lt_two (α := ℚ))).mp (specLower.trans_lt upper)

/-! ## The interval of a number -/

/-- How far the interval of a number reaches down, in units of its last place. -/
def reachBelow (mantissa : Nat) (exponent : Int) : ℚ :=
  if mantissa = 2 ^ 52 ∧ exponent ≠ leastExponent then 1 / 4 else 1 / 2

/-- A rational in the interval around `mantissa * 2 ^ exponent`; the ends belong to it if the
mantissa is even. -/
structure RoundsTo (value : ℚ) (mantissa : Nat) (exponent : Int) : Prop where
  lower : ((mantissa : ℚ) - reachBelow mantissa exponent) * 2 ^ exponent ≤ value
  upper : value ≤ ((mantissa : ℚ) + 1 / 2) * 2 ^ exponent
  even : mantissa % 2 = 0 ∨
    (((mantissa : ℚ) - reachBelow mantissa exponent) * 2 ^ exponent < value ∧
      value < ((mantissa : ℚ) + 1 / 2) * 2 ^ exponent)

theorem reachBelow_le (mantissa : Nat) (exponent : Int) : reachBelow mantissa exponent ≤ 1 / 2 := by
  unfold reachBelow
  split <;> norm_num

theorem RoundsTo.pos {value : ℚ} {mantissa : Nat} {exponent : Int}
    (rounds : RoundsTo value mantissa exponent) (positive : 0 < mantissa) : 0 < value := by
  have reach := reachBelow_le mantissa exponent
  have atLeastOne : (1 : ℚ) ≤ mantissa := by exact_mod_cast positive
  have power : (0 : ℚ) < 2 ^ exponent := by positivity
  have low : 0 < ((mantissa : ℚ) - reachBelow mantissa exponent) * 2 ^ exponent :=
    mul_pos (by linarith) power
  exact low.trans_le rounds.lower

section Magnitude

variable {numerator denominator mantissa : Nat} {exponent : Int}

theorem magnitude_eq_of_unit (top : 0 < numerator) {unit : Int} {rounded : Nat}
    (isUnit : max leastExponent (binaryExponent numerator denominator - 52) = unit)
    (isRounded : roundHalfEven (scaled 2 numerator denominator unit).1
      (scaled 2 numerator denominator unit).2 = rounded) :
    magnitude numerator denominator = (unit - leastExponent).toNat * 2 ^ 52 + rounded := by
  subst isUnit isRounded
  rw [magnitude, if_neg (by omega)]
  rfl

/-- Rounding to the unit of the number itself. -/
theorem roundHalfEven_scaled (bottom : 0 < denominator)
    (rounds : RoundsTo (quotient numerator denominator) mantissa exponent) :
    roundHalfEven (scaled 2 numerator denominator exponent).1
      (scaled 2 numerator denominator exponent).2 = mantissa := by
  have power : (0 : ℚ) < 2 ^ exponent := by positivity
  have reach := reachBelow_le mantissa exponent
  have same := @quotient_scaled 2 numerator denominator two_pos exponent
  push_cast at same
  refine roundHalfEven_eq (scaled_pos two_pos bottom exponent) ?_ ?_ ?_
  · rw [same, le_div_iff₀ power]
    exact (mul_le_mul_of_nonneg_right (by linarith) power.le).trans rounds.lower
  · rw [same, div_le_iff₀ power]
    exact rounds.upper
  · refine rounds.even.imp_right fun strict => ⟨?_, ?_⟩
    · rw [same, lt_div_iff₀ power]
      exact (mul_le_mul_of_nonneg_right (by linarith) power.le).trans_lt strict.1
    · rw [same, div_lt_iff₀ power]
      exact strict.2

/-- Below a power of two the numbers are twice as dense; what lies there and rounds to the power
does so in that finer unit as well. -/
theorem roundHalfEven_scaled_finer (bottom : 0 < denominator)
    (lower : ((2 : ℚ) ^ 52 - 1 / 4) * 2 ^ exponent ≤ quotient numerator denominator)
    (upper : quotient numerator denominator < 2 ^ 52 * 2 ^ exponent) :
    roundHalfEven (scaled 2 numerator denominator (exponent - 1)).1
      (scaled 2 numerator denominator (exponent - 1)).2 = 2 ^ 53 := by
  have power : (0 : ℚ) < 2 ^ (exponent - 1) := by positivity
  have double : (2 : ℚ) ^ exponent = 2 * 2 ^ (exponent - 1) := by
    rw [mul_comm, ← zpow_add_one₀ two_ne_zero, sub_add_cancel]
  have same := @quotient_scaled 2 numerator denominator two_pos (exponent - 1)
  push_cast at same
  rw [double] at lower upper
  refine roundHalfEven_eq (scaled_pos two_pos bottom _) ?_ ?_ (.inl (by norm_num))
  · rw [same, le_div_iff₀ power]
    push_cast
    linarith
  · rw [same, div_le_iff₀ power]
    push_cast
    linarith

/-- The binary exponent of a quotient that is bracketed in units of `2 ^ exponent`. -/
theorem binaryExponent_shifted (top : 0 < numerator) (bottom : 0 < denominator) {places : Nat}
    (lower : (2 : ℚ) ^ places * 2 ^ exponent ≤ quotient numerator denominator)
    (upper : quotient numerator denominator < 2 ^ (places + 1) * 2 ^ exponent) :
    binaryExponent numerator denominator = places + exponent := by
  refine binaryExponent_eq top bottom ?_ ?_
  · rwa [zpow_add₀ two_ne_zero, zpow_natCast]
  · rwa [add_right_comm, zpow_add₀ two_ne_zero, ← Nat.cast_succ, zpow_natCast]

/-- Only a power of two has rationals below it that have a smaller binary exponent and still round
to it. -/
theorem eq_power_of_under (normal : IsNormal mantissa exponent) {value : ℚ}
    (rounds : RoundsTo value mantissa exponent) (under : value < 2 ^ 52 * 2 ^ exponent)
    (notLeast : exponent ≠ leastExponent) : mantissa = 2 ^ 52 := by
  have power : (0 : ℚ) < 2 ^ exponent := by positivity
  have atLeast : 2 ^ 52 ≤ mantissa := normal.leading.resolve_right notLeast
  have reach := reachBelow_le mantissa exponent
  have close : (mantissa : ℚ) - 1 / 2 < 2 ^ 52 :=
    lt_of_mul_lt_mul_right ((mul_le_mul_of_nonneg_right (by linarith) power.le).trans_lt
      (rounds.lower.trans_lt under)) power.le
  have bound : (mantissa : ℚ) < ((2 ^ 52 + 1 : Nat) : ℚ) := by
    push_cast
    linarith
  have bound : mantissa < 2 ^ 52 + 1 := by exact_mod_cast bound
  omega

theorem RoundsTo.numerator_pos (rounds : RoundsTo (quotient numerator denominator) mantissa exponent)
    (positive : 0 < mantissa) : 0 < numerator := by
  by_contra zero
  have value : quotient numerator denominator = 0 := by
    rw [quotient, Nat.eq_zero_of_not_pos zero, Nat.cast_zero, zero_div]
  exact absurd (rounds.pos positive) (by rw [value]; exact lt_irrefl 0)

/-- A rational in the interval of a number is written as that number. -/
theorem magnitude_eq (bottom : 0 < denominator) (normal : IsNormal mantissa exponent)
    (positive : 0 < mantissa)
    (rounds : RoundsTo (quotient numerator denominator) mantissa exponent) :
    magnitude numerator denominator = magnitudeOf mantissa exponent := by
  have power : (0 : ℚ) < 2 ^ exponent := by positivity
  have top := rounds.numerator_pos positive
  have least := normal.least
  by_cases reaches : (2 : ℚ) ^ 52 * 2 ^ exponent ≤ quotient numerator denominator
  · have below : (mantissa : ℚ) + 1 / 2 < 2 ^ 53 := by
      have bound : ((mantissa + 1 : Nat) : ℚ) ≤ (2 ^ 53 : Nat) := by exact_mod_cast normal.below
      push_cast at bound
      linarith
    have binary := binaryExponent_shifted top bottom reaches
      (rounds.upper.trans_lt (mul_lt_mul_of_pos_right below power))
    exact magnitude_eq_of_unit top (by rw [binary]; push_cast; omega)
      (roundHalfEven_scaled bottom rounds)
  · have under := lt_of_not_ge reaches
    by_cases isLeast : exponent = leastExponent
    · have binary : binaryExponent numerator denominator < (52 : Nat) + exponent :=
        binaryExponent_lt top bottom (by rwa [zpow_add₀ two_ne_zero, zpow_natCast])
      exact magnitude_eq_of_unit top (by push_cast at binary; omega)
        (roundHalfEven_scaled bottom rounds)
    · -- in the finer unit the quotient rounds up to a mantissa too many, which carries
      have isPower := eq_power_of_under normal rounds under isLeast
      have lower := rounds.lower
      rw [reachBelow, if_pos ⟨isPower, isLeast⟩, isPower] at lower
      push_cast at lower
      have half : (2 : ℚ) ^ 51 * 2 ^ exponent ≤ quotient numerator denominator :=
        (mul_le_mul_of_nonneg_right (by norm_num) power.le).trans lower
      have binary := binaryExponent_shifted top bottom half under
      rw [magnitude_eq_of_unit top (by rw [binary]; push_cast; omega)
        (roundHalfEven_scaled_finer bottom lower under), magnitudeOf, isPower]
      omega

theorem nearest_eq (bottom : 0 < denominator) (normal : IsNormal mantissa exponent)
    (positive : 0 < mantissa)
    (rounds : RoundsTo (quotient numerator denominator) mantissa exponent) (negative : Bool) :
    nearest negative numerator denominator =
      ofMagnitude negative (magnitudeOf mantissa exponent) := by
  have finite := magnitudeOf_lt normal
  rw [nearest, magnitude_eq bottom normal positive rounds, Nat.min_eq_left finite.le]

end Magnitude

end ParaLang.Binary64
