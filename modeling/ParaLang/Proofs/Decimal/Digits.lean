import ParaLang.Decimal.Shortest
import ParaLang.Proofs.Decimal.Nearest

/-! # Shortest digits round to their number

The digits that `shortest` finds lie in the interval of the number.  Seventeen digits always
suffice: their grid is finer than any interval is wide. -/

namespace ParaLang.Decimal

open ParaLang.Binary64

/-! ## Intervals -/

theorem quotient_two (numerator : Nat) (exponent : Int) :
    quotient (numerator * Nat.pow 2 (exponent - 2).toNat) (Nat.pow 2 (2 - exponent).toNat) =
      (numerator : ℚ) / 4 * 2 ^ exponent := by
  have split := zpow_split 2 two_pos (exponent - 2)
  have back : -(exponent - 2) = 2 - exponent := by ring
  rw [back] at split
  have quarter : (2 : ℚ) ^ exponent = 4 * 2 ^ (exponent - 2) := by
    rw [show exponent = exponent - 2 + 2 by ring, zpow_add₀ two_ne_zero]
    norm_num
    ring
  push_cast at split
  rw [quarter, split, quotient]
  simp only [Nat.pow_eq]
  push_cast
  field_simp

section Interval

variable {mantissa : Nat} {exponent : Int}

/-- The rational that digits denote. -/
def decimal (digits : Nat) (power : Int) : ℚ :=
  digits * 10 ^ power

theorem decimal_eq (digits : Nat) (power : Int) :
    decimal digits power = (digits * 10 ^ power.toNat : ℚ) / 10 ^ (-power).toNat := by
  have split := zpow_split 10 (by norm_num) power
  push_cast at split
  rw [decimal, split, mul_div_assoc]

/-- Comparing a bound of an interval with a decimal, as `holds` does it. -/
theorem bound_le_iff {bound denominator : Nat} (positive : 0 < denominator) (digits : Nat)
    (power : Int) :
    (bound * Nat.pow 10 (-power).toNat ≤ digits * Nat.pow 10 power.toNat * denominator ↔
      quotient bound denominator ≤ decimal digits power) ∧
    (bound * Nat.pow 10 (-power).toNat < digits * Nat.pow 10 power.toNat * denominator ↔
      quotient bound denominator < decimal digits power) ∧
    (digits * Nat.pow 10 power.toNat * denominator ≤ bound * Nat.pow 10 (-power).toNat ↔
      decimal digits power ≤ quotient bound denominator) ∧
    (digits * Nat.pow 10 power.toNat * denominator < bound * Nat.pow 10 (-power).toNat ↔
      decimal digits power < quotient bound denominator) := by
  have bottom : (0 : ℚ) < denominator := Nat.cast_pos.mpr positive
  have unit : (0 : ℚ) < 10 ^ (-power).toNat := by positivity
  rw [decimal_eq, quotient, div_le_div_iff₀ bottom unit, div_lt_div_iff₀ bottom unit,
    div_le_div_iff₀ unit bottom, div_lt_div_iff₀ unit bottom]
  simp only [Nat.pow_eq]
  norm_cast

theorem denominator_pos (mantissa : Nat) (exponent : Int) :
    0 < (RoundingInterval.around mantissa exponent).denominator :=
  Nat.pow_pos two_pos

theorem quotient_low (positive : 0 < mantissa) :
    quotient (RoundingInterval.around mantissa exponent).low
      (RoundingInterval.around mantissa exponent).denominator =
      ((mantissa : ℚ) - reachBelow mantissa exponent) * 2 ^ exponent := by
  simp only [RoundingInterval.around, reachBelow]
  rw [quotient_two]
  simp only [Nat.pow_eq]
  split
  · rw [Nat.cast_sub (by omega)]
    push_cast
    ring
  · rw [Nat.cast_sub (by omega)]
    push_cast
    ring

theorem quotient_high :
    quotient (RoundingInterval.around mantissa exponent).high
      (RoundingInterval.around mantissa exponent).denominator =
      ((mantissa : ℚ) + 1 / 2) * 2 ^ exponent := by
  simp only [RoundingInterval.around, quotient_two]
  push_cast
  ring

theorem quotient_centre :
    quotient (RoundingInterval.around mantissa exponent).centre
      (RoundingInterval.around mantissa exponent).denominator = mantissa * 2 ^ exponent := by
  simp only [RoundingInterval.around, quotient_two]
  push_cast
  ring

/-- An interval holds the decimals that round to its number. -/
theorem holds_iff (positive : 0 < mantissa) (digits : Nat) (power : Int) :
    (RoundingInterval.around mantissa exponent).holds digits power = true ↔
      RoundsTo (decimal digits power) mantissa exponent := by
  obtain ⟨lowLe, lowLt, -, -⟩ := @bound_le_iff (RoundingInterval.around mantissa exponent).low _
    (denominator_pos mantissa exponent) digits power
  obtain ⟨-, -, highLe, highLt⟩ := @bound_le_iff (RoundingInterval.around mantissa exponent).high _
    (denominator_pos mantissa exponent) digits power
  rw [quotient_low positive] at lowLe lowLt
  rw [quotient_high] at highLe highLt
  have isClosed : (RoundingInterval.around mantissa exponent).closed = decide (mantissa % 2 = 0) :=
    rfl
  simp only [RoundingInterval.holds, isClosed, decide_eq_true_eq]
  split
  · rename_i isEven
    rw [Bool.and_eq_true, decide_eq_true_eq, decide_eq_true_eq, lowLe, highLe]
    exact ⟨fun inside => ⟨inside.1, inside.2, .inl isEven⟩, fun rounds => ⟨rounds.1, rounds.2⟩⟩
  · rename_i isOdd
    rw [Bool.and_eq_true, decide_eq_true_eq, decide_eq_true_eq, lowLt, highLt]
    exact ⟨fun inside => ⟨inside.1.le, inside.2.le, .inr inside⟩,
      fun rounds => rounds.even.resolve_left isOdd⟩

/-! ## Grids -/

theorem holds_of_onGrid {power : Int} {digits : Nat}
    (found : (RoundingInterval.around mantissa exponent).onGrid power = some digits) :
    (RoundingInterval.around mantissa exponent).holds digits power = true := by
  simp only [RoundingInterval.onGrid] at found
  split at found
  · rename_i holdsBelow holdsAbove
    simp only [Option.some.injEq] at found
    subst found
    simp only [roundHalfEven]
    split
    · exact holdsBelow
    · split
      · exact holdsAbove
      · rcases Nat.mod_two_eq_zero_or_one _ with isEven | isOdd
        · rw [isEven]
          exact holdsBelow
        · rw [isOdd]
          exact holdsAbove
  · rename_i holdsBelow _
    cases found
    exact holdsBelow
  · rename_i holdsAbove
    cases found
    exact holdsAbove
  · cases found

/-- The point of a grid just below a quotient. -/
def gridBelow (numerator denominator : Nat) (power : Int) : Nat :=
  (scaled 10 numerator denominator power).1 / (scaled 10 numerator denominator power).2

theorem gridBelow_spec {numerator denominator : Nat} (bottom : 0 < denominator) (power : Int) :
    decimal (gridBelow numerator denominator power) power ≤ quotient numerator denominator ∧
      quotient numerator denominator < decimal (gridBelow numerator denominator power + 1) power := by
  have step : (0 : ℚ) < 10 ^ power := by positivity
  have positive := @scaled_pos 10 numerator denominator (by norm_num) bottom power
  have same := @quotient_scaled 10 numerator denominator (by norm_num) power
  push_cast at same
  have cast : (0 : ℚ) < (scaled 10 numerator denominator power).2 := Nat.cast_pos.mpr positive
  constructor
  · rw [decimal, ← le_div_iff₀ step, ← same, quotient, le_div_iff₀ cast]
    exact_mod_cast Nat.div_mul_le_self _ _
  · rw [decimal, ← div_lt_iff₀ step, ← same, quotient, div_lt_iff₀ cast, mul_comm]
    exact_mod_cast Nat.lt_mul_div_succ _ positive

theorem decimal_succ (digits : Nat) (power : Int) :
    decimal (digits + 1) power = decimal digits power + 10 ^ power := by
  rw [decimal, decimal]
  push_cast
  ring

/-- What an interval does not hold lies past one of its ends. -/
theorem outside_of_unheld (positive : 0 < mantissa) {digits : Nat} {power : Int}
    (unheld : (RoundingInterval.around mantissa exponent).holds digits power = false) :
    decimal digits power ≤ ((mantissa : ℚ) - reachBelow mantissa exponent) * 2 ^ exponent ∨
      ((mantissa : ℚ) + 1 / 2) * 2 ^ exponent ≤ decimal digits power := by
  by_contra within
  obtain ⟨above, below⟩ := not_or.mp within
  have above := lt_of_not_ge above
  have below := lt_of_not_ge below
  rw [← Bool.not_eq_true, holds_iff positive] at unheld
  exact unheld ⟨above.le, below.le, .inr ⟨above, below⟩⟩

/-- A grid that is finer than the interval is wide meets it. -/
theorem onGrid_ne_none (positive : 0 < mantissa) {power : Int}
    (fine : (10 : ℚ) ^ power < (reachBelow mantissa exponent + 1 / 2) * 2 ^ exponent) :
    (RoundingInterval.around mantissa exponent).onGrid power ≠ none := by
  have scale : (0 : ℚ) < 2 ^ exponent := by positivity
  have reach : 0 < reachBelow mantissa exponent * 2 ^ exponent := by
    refine mul_pos ?_ scale
    unfold reachBelow
    split <;> norm_num
  have around := @gridBelow_spec (RoundingInterval.around mantissa exponent).centre _
    (denominator_pos mantissa exponent) power
  rw [quotient_centre, decimal_succ] at around
  simp only [RoundingInterval.onGrid]
  split
  · simp
  · simp
  · simp
  · rename_i notBelow notAbove
    -- the interval would have to fit between two neighbours of the grid
    have below := outside_of_unheld positive notBelow
    have above := outside_of_unheld positive notAbove
    rw [decimal_succ] at above
    simp only [gridBelow] at around
    rcases below with below | below <;> rcases above with above | above <;> linarith

end Interval

/-! ## The leading digit -/

/-- `places / units` as the decimal logarithm of two is good enough for an estimate that overshoots
by one at most, as long as the binary exponent is not far larger than the units. -/
theorem estimate_le {units places : Nat} {binary estimate : Int} (positive : 0 < units)
    (lower : Nat.pow 2 units ≤ Nat.pow 10 places)
    (upper : Nat.pow 10 places ≤ Nat.pow 2 (units + 1))
    (within : binary ≤ units) (isEstimate : estimate * units ≤ binary * places) :
    (10 : ℚ) ^ (estimate - 1) ≤ 2 ^ (binary - 1) := by
  have lower : (2 : ℚ) ^ units ≤ 10 ^ places := by exact_mod_cast lower
  have upper : (10 : ℚ) ^ places ≤ 2 ^ (units + 1) := by exact_mod_cast upper
  have scaledUp : (10 : ℚ) ^ (estimate * units) ≤ 2 ^ (binary * units + units) := by
    calc (10 : ℚ) ^ (estimate * units) ≤ 10 ^ (binary * places) :=
          zpow_le_zpow_right₀ (by norm_num) isEstimate
      _ = (10 ^ places) ^ binary := by rw [← zpow_natCast, ← zpow_mul, mul_comm]
      _ ≤ 2 ^ (binary * units + units) := by
        rcases Int.le_total 0 binary with nonnegative | nonpositive
        · refine (zpow_le_zpow_left₀ nonnegative (by positivity) upper).trans ?_
          rw [← zpow_natCast, ← zpow_mul]
          refine zpow_le_zpow_right₀ one_le_two ?_
          push_cast
          linarith
        · obtain ⟨size, rfl⟩ := Int.exists_eq_neg_ofNat nonpositive
          rw [zpow_neg, zpow_natCast]
          calc ((10 ^ places : ℚ) ^ size)⁻¹ ≤ ((2 ^ units) ^ size)⁻¹ :=
                inv_anti₀ (by positivity) (pow_le_pow_left₀ (by positivity) lower size)
            _ = 2 ^ (-(size : Int) * units) := by
                rw [← pow_mul, neg_mul, zpow_neg, ← Nat.cast_mul, zpow_natCast, mul_comm]
            _ ≤ 2 ^ (-(size : Int) * units + units) :=
                zpow_le_zpow_right₀ one_le_two (by omega)
  have fourths : (2 : ℚ) ^ (2 * units) ≤ 10 ^ units := by
    rw [pow_mul]
    exact pow_le_pow_left₀ (by norm_num) (by norm_num) units
  refine le_of_pow_le_pow_left₀ (Nat.pos_iff_ne_zero.mp positive) (by positivity) ?_
  rw [← zpow_natCast, ← zpow_natCast, ← zpow_mul, ← zpow_mul, sub_mul, one_mul, sub_mul, one_mul,
    zpow_sub₀ (by norm_num), zpow_natCast, div_le_iff₀ (by positivity)]
  calc (10 : ℚ) ^ (estimate * units) ≤ 2 ^ (binary * units + units) := scaledUp
    _ = 2 ^ (binary * units - units) * 2 ^ (2 * units) := by
        rw [← zpow_natCast 2 (2 * units), ← zpow_add₀ two_ne_zero]
        congr 1
        push_cast
        ring
    _ ≤ 2 ^ (binary * units - units) * 10 ^ units :=
        mul_le_mul_of_nonneg_left fourths (by positivity)

/-- The estimate of the decimal exponent overshoots by one at most. -/
theorem estimate_bound {binary : Int} (most : binary ≤ 1100) :
    (10 : ℚ) ^ (Int.fdiv (binary * 30103) 100000 - 1) ≤ 2 ^ (binary - 1) := by
  refine @estimate_le 100000 30103 binary _ (by norm_num) (by decide +kernel) (by decide +kernel)
    (by push_cast; omega) ?_
  have floored := @Int.mul_fdiv_self_le (binary * 30103) 100000 (by norm_num)
  push_cast
  linarith

/-- The decimal exponent does not exceed the number. -/
theorem decimalExponent_le {numerator denominator : Nat} (top : 0 < numerator)
    (bottom : 0 < denominator)
    (most : (numerator.log2 : Int) - denominator.log2 ≤ 1100) :
    (10 : ℚ) ^ decimalExponent numerator denominator ≤ quotient numerator denominator := by
  have reaches := @reachesPower_iff 10 numerator denominator (by norm_num) bottom
  push_cast at reaches
  simp only [decimalExponent]
  split
  · rename_i reached
    exact (reaches _).mp reached
  · split
    · rename_i reached
      exact (reaches _).mp reached
    · exact (estimate_bound most).trans (quotient_log2 top bottom).1.le

/-! ## Shortest digits -/

section Shortest

variable {mantissa : Nat} {exponent : Int}

theorem centre_log2 (normal : IsNormal mantissa exponent) (positive : 0 < mantissa) :
    ((RoundingInterval.around mantissa exponent).centre.log2 : Int) -
      (RoundingInterval.around mantissa exponent).denominator.log2 ≤ 1100 := by
  obtain ⟨below, least, most, -⟩ := normal
  have centre : (RoundingInterval.around mantissa exponent).centre <
      2 ^ (55 + (exponent - 2).toNat) := by
    simp only [RoundingInterval.around, Nat.pow_eq]
    calc 4 * mantissa * 2 ^ (exponent - 2).toNat < 2 ^ 55 * 2 ^ (exponent - 2).toNat :=
          Nat.mul_lt_mul_of_pos_right (by omega) (Nat.pow_pos two_pos)
      _ = 2 ^ (55 + (exponent - 2).toNat) := (Nat.pow_add _ _ _).symm
  have nonzero : (RoundingInterval.around mantissa exponent).centre ≠ 0 := by
    simp only [RoundingInterval.around, Nat.pow_eq]
    positivity
  have log := (Nat.log2_lt nonzero).mpr centre
  omega

/-- Ten to the sixteenth exceeds every mantissa, so the grid of seventeen digits is fine enough. -/
theorem seventeen_digits (normal : IsNormal mantissa exponent) {leading : Int}
    (below : (10 : ℚ) ^ leading ≤ mantissa * 2 ^ exponent) :
    (10 : ℚ) ^ (leading - 16) < (reachBelow mantissa exponent + 1 / 2) * 2 ^ exponent := by
  have scale : (0 : ℚ) < 2 ^ exponent := by positivity
  have unit : (10 : ℚ) ^ (leading - 16) = 10 ^ leading / 10 ^ 16 := by
    rw [zpow_sub₀ (by norm_num)]
    norm_num
  rw [unit, div_lt_iff₀ (by positivity)]
  refine below.trans_lt ?_
  rw [mul_right_comm]
  refine mul_lt_mul_of_pos_right ?_ scale
  unfold reachBelow
  split
  · rename_i isPower
    rw [isPower.1]
    norm_num
  · have bound : (mantissa : ℚ) < (2 ^ 53 : Nat) := by exact_mod_cast normal.below
    push_cast at bound
    linarith

theorem shortest_rounds (normal : IsNormal mantissa exponent) (positive : 0 < mantissa) :
    RoundsTo (decimal (shortest mantissa exponent).1 (shortest mantissa exponent).2)
      mantissa exponent := by
  have most := centre_log2 normal positive
  have centre : 0 < (RoundingInterval.around mantissa exponent).centre := by
    simp only [RoundingInterval.around, Nat.pow_eq]
    positivity
  have below := decimalExponent_le centre (denominator_pos mantissa exponent) most
  rw [quotient_centre] at below
  have met := onGrid_ne_none positive (seventeen_digits normal below)
  simp only [shortest]
  generalize decimalExponent (RoundingInterval.around mantissa exponent).centre
    (RoundingInterval.around mantissa exponent).denominator = leading at met ⊢
  cases found : (List.range 17).findSome? fun (count : Nat) =>
      ((RoundingInterval.around mantissa exponent).onGrid (leading - count)).map
        fun digits => (digits, leading - (count : Int)) with
  | none =>
    rw [List.findSome?_eq_none_iff] at found
    have last := found 16 (by simp)
    rw [Option.map_eq_none_iff] at last
    exact absurd last met
  | some result =>
    obtain ⟨count, -, onGrid⟩ := List.exists_of_findSome?_eq_some found
    obtain ⟨digits, isDigits, rfl⟩ := Option.map_eq_some_iff.mp onGrid
    exact (holds_iff positive _ _).mp (holds_of_onGrid isDigits)

end Shortest

end ParaLang.Decimal
