/-
Module: LoxLang.Proofs.Number.Shortest
Purpose: The shortest digits of a number.  Seventeen digits are enough, so a grid of at most
  seventeen digits has a point in the interval around a number; what is taken from the coarsest such
  grid reads back as the number, and no decimal with fewer digits does.
Main exports: Decimal.value, Binary.magnitude_le, Binary.lt_magnitude, Binary.exists_decimal?,
  Decimal.Shortest, Decimal.shortest_spec
-/
import LoxLang.Proofs.Number.Rounding
import Mathlib.Data.Nat.Cast.Order.Field

namespace LoxLang

/-! ### Digits and widths -/

namespace Decimal

/-- The magnitude of a decimal. -/
def value (decimal : Decimal) : ℚ :=
  decimal.digits * 10 ^ decimal.exponent

theorem width_le_iff {n k : ℕ} (positive : 0 < k) : width n ≤ k ↔ n < 10 ^ k :=
  Nat.length_toDigits_le_iff (by decide) positive

theorem width_pos (n : ℕ) : 0 < width n :=
  Nat.length_toDigits_pos

theorem lt_width (n : ℕ) : n < 10 ^ width n :=
  (width_le_iff (width_pos n)).1 le_rfl

theorem width_le {n : ℕ} (positive : 0 < n) : 10 ^ (width n - 1) ≤ n := by
  obtain ⟨k, isWidth⟩ := Nat.exists_eq_succ_of_ne_zero (width_pos n).ne'
  rw [isWidth, Nat.succ_sub_one]
  cases k with
  | zero => exact positive
  | succ k =>
      refine not_lt.1 fun less => ?_
      have := (width_le_iff k.succ_pos).2 less
      omega

end Decimal

theorem ten_zpow_pos (exponent : ℤ) : (0 : ℚ) < 10 ^ exponent :=
  zpow_pos (by norm_num) exponent

/-! ### The power of ten above a number -/

namespace Binary

variable {number : Binary}

theorem value_pos (nonzero : number.mantissa ≠ 0) : 0 < number.value :=
  mul_pos (by exact_mod_cast Nat.pos_of_ne_zero nonzero) (two_zpow_pos _)

/-- Ten to less than a third of a number of places is more than two to all of them. -/
theorem two_pow_le_ten_pow (shift : ℕ) : 2 ^ shift ≤ 10 ^ (shift * 31 / 100 + 1) := by
  refine (Nat.pow_le_pow_iff_left (by decide : 100 ≠ 0)).1 ?_
  calc (2 ^ shift) ^ 100 = (2 ^ 100) ^ shift := by rw [← pow_mul, ← pow_mul, mul_comm]
    _ ≤ (10 ^ 31) ^ shift := Nat.pow_le_pow_left (by norm_num) shift
    _ = 10 ^ (31 * shift) := (pow_mul ..).symm
    _ ≤ 10 ^ ((shift * 31 / 100 + 1) * 100) := Nat.pow_le_pow_right (by decide) (by omega)
    _ = (10 ^ (shift * 31 / 100 + 1)) ^ 100 := pow_mul ..

/-- The integer part whose digits are counted. -/
theorem exists_scaled (nonzero : number.mantissa ≠ 0) :
    ∃ scale scaled : ℕ, number.magnitude = (Decimal.width scaled : ℤ) - scale ∧ 0 < scaled ∧
      (scaled : ℚ) ≤ number.value * 10 ^ scale ∧ number.value * 10 ^ scale < scaled + 1 := by
  set shift := (-number.exponent).toNat with isShift
  set scale := shift * 31 / 100 + 1 with isScale
  set whole := number.mantissa * 2 ^ number.exponent.toNat * 10 ^ scale with isWhole
  have positive : 0 < 2 ^ shift := by positivity
  have isValue : number.value * 10 ^ scale = (whole : ℚ) / (2 ^ shift : ℕ) := by
    have split : (2 : ℚ) ^ number.exponent = 2 ^ number.exponent.toNat / 2 ^ shift := by
      rw [← zpow_natCast, ← zpow_natCast, ← zpow_sub₀ (by norm_num)]
      congr 1
      omega
    rw [value, split, isWhole]
    push_cast
    ring
  have enough : 2 ^ shift ≤ whole := by
    calc 2 ^ shift ≤ 10 ^ scale := two_pow_le_ten_pow shift
      _ = 1 * 1 * 10 ^ scale := by ring
      _ ≤ whole := Nat.mul_le_mul_right _
          (Nat.mul_le_mul (Nat.pos_of_ne_zero nonzero) Nat.one_le_two_pow)
  refine ⟨scale, whole / 2 ^ shift, rfl, Nat.div_pos enough positive, ?_, ?_⟩
  · rw [isValue]
    exact Nat.cast_div_le
  · rw [isValue, div_lt_iff₀ (by exact_mod_cast positive)]
    have below := Nat.lt_mul_div_succ whole positive
    rw [mul_comm] at below
    exact_mod_cast below

/-- A number is at least the power of ten below its magnitude. -/
theorem magnitude_le (nonzero : number.mantissa ≠ 0) :
    (10 : ℚ) ^ (number.magnitude - 1) ≤ number.value := by
  obtain ⟨scale, scaled, isMagnitude, positive, low, -⟩ := exists_scaled nonzero
  have digits : (10 : ℚ) ^ (Decimal.width scaled - 1) ≤ scaled := by
    exact_mod_cast Decimal.width_le positive
  have width := Decimal.width_pos scaled
  have split : (10 : ℚ) ^ (Decimal.width scaled - 1) =
      10 ^ (number.magnitude - 1) * 10 ^ scale :=
    pow_eq_zpow_mul (by norm_num) (by omega)
  refine le_of_mul_le_mul_right ?_ (by positivity : (0 : ℚ) < 10 ^ scale)
  rw [← split]
  exact digits.trans low

/-- A number is less than the power of ten that is its magnitude. -/
theorem lt_magnitude (nonzero : number.mantissa ≠ 0) :
    number.value < (10 : ℚ) ^ number.magnitude := by
  obtain ⟨scale, scaled, isMagnitude, -, -, high⟩ := exists_scaled nonzero
  have digits : (scaled : ℚ) + 1 ≤ 10 ^ Decimal.width scaled := by
    exact_mod_cast Decimal.lt_width scaled
  have split : (10 : ℚ) ^ Decimal.width scaled = 10 ^ number.magnitude * 10 ^ scale :=
    pow_eq_zpow_mul (by norm_num) (by omega)
  refine lt_of_mul_lt_mul_right ?_ (by positivity : (0 : ℚ) ≤ 10 ^ scale)
  rw [← split]
  exact high.trans_le digits

/-! ### The interval around a number -/

/-- What lies in the interval between two magnitudes that do lies in it, too. -/
theorem Reads.between {low place high : ℚ} (readsLow : number.Reads low)
    (readsHigh : number.Reads high) (above : low ≤ place) (below : place ≤ high) :
    number.Reads place := by
  by_cases even : number.mantissa % 2 = 0
  · simp only [Reads, if_pos even] at *
    exact ⟨readsLow.1.trans above, below.trans readsHigh.2⟩
  · simp only [Reads, if_neg even] at *
    exact ⟨readsLow.1.trans_le above, below.trans_lt readsHigh.2⟩

/-- What lies strictly between the ends of the interval lies in it. -/
theorem reads_of_lt {place : ℚ}
    (above : (number.mantissa - if number.tightBelow then 1 / 4 else 1 / 2 : ℚ) *
      2 ^ number.exponent < place)
    (below : place < (number.mantissa + 1 / 2 : ℚ) * 2 ^ number.exponent)
    (nonzero : number.mantissa ≠ 0) : number.Reads place := by
  have isLow : (number.lowQuarters : ℚ) / 4 =
      number.mantissa - if number.tightBelow then 1 / 4 else 1 / 2 := by
    unfold lowQuarters
    split
    · rw [Nat.cast_sub (by omega)]
      push_cast
      ring
    · rw [Nat.cast_sub (by omega)]
      push_cast
      ring
  have isHigh : ((4 * number.mantissa + 2 : ℕ) : ℚ) / 4 = number.mantissa + 1 / 2 := by
    push_cast
    ring
  rw [← isLow] at above
  rw [← isHigh] at below
  rw [Reads, quarter_mul, quarter_mul]
  split
  · exact ⟨above.le, below.le⟩
  · exact ⟨above, below⟩

/-- A number lies in its own interval. -/
theorem reads_value (nonzero : number.mantissa ≠ 0) : number.Reads number.value := by
  have positive := two_zpow_pos number.exponent
  refine reads_of_lt ?_ ?_ nonzero
  · rw [value, mul_lt_mul_iff_left₀ positive]
    split <;> linarith
  · rw [value, mul_lt_mul_iff_left₀ positive]
    linarith

/-- What lies in the interval around a number other than zero is not zero. -/
theorem Reads.pos {place : ℚ} (reads : number.Reads place) (nonzero : number.mantissa ≠ 0) :
    0 < place := by
  have positive := two_zpow_pos (number.exponent - 2)
  have low : 1 ≤ number.lowQuarters := by
    unfold lowQuarters
    split <;> omega
  have lowCast : (1 : ℚ) ≤ number.lowQuarters := by exact_mod_cast low
  have bound : (0 : ℚ) < number.lowQuarters * 2 ^ (number.exponent - 2) := by positivity
  unfold Reads at reads
  dsimp only at reads
  split at reads
  · exact bound.trans_le reads.1
  · exact bound.trans reads.1

end Binary

/-! ### Grid points next to a number -/

namespace Interval

variable {number : Binary} {step : ℤ} {point : ℕ}

theorem grid_pos (number : Binary) (step : ℤ) : 0 < (onGrid number step).grid := by
  simp only [onGrid, twoPow_eq, tenPow_eq]
  positivity

theorem quarters_eq (number : Binary) :
    ((4 * number.mantissa : ℕ) : ℚ) * 2 ^ (number.exponent - 2) = number.value := by
  rw [Binary.quarter_mul, Binary.value]
  push_cast
  ring

/-- A number lies between two grid points that follow each other. -/
theorem floor_le (number : Binary) (step : ℤ) :
    ((onGrid number step).floor : ℚ) * 10 ^ step ≤ number.value := by
  rw [← quarters_eq, ← grid_le_scale_iff]
  exact Nat.div_mul_le_self _ _

theorem lt_floor (number : Binary) (step : ℤ) :
    number.value < ((onGrid number step).floor + 1 : ℕ) * 10 ^ step := by
  rw [← quarters_eq, ← not_le, ← grid_le_scale_iff, not_le, mul_comm (_ + 1)]
  exact Nat.lt_mul_div_succ _ (grid_pos number step)

/-- Of two grid points around a number that lie in its interval one is taken. -/
theorem nearest_cases (interval : Interval) :
    interval.nearest = interval.floor ∨ interval.nearest = interval.floor + 1 := by
  unfold nearest
  dsimp only
  split
  · exact .inl rfl
  · split
    · exact .inr rfl
    · split
      · exact .inl rfl
      · exact .inr rfl

/-- What is taken is one of the two grid points around a number and lies in its interval. -/
theorem pick?_eq_some {interval : Interval} (picked : interval.pick? = some point) :
    (point = interval.floor ∨ point = interval.floor + 1) ∧ interval.contains point = true := by
  unfold pick? at picked
  dsimp only at picked
  split at picked
  · rename_i below above
    cases picked
    refine ⟨interval.nearest_cases, ?_⟩
    obtain isNearest | isNearest := interval.nearest_cases
    · rwa [isNearest]
    · rwa [isNearest]
  · rename_i below _
    cases picked
    exact ⟨.inl rfl, below⟩
  · rename_i above
    cases picked
    exact ⟨.inr rfl, above⟩
  · cases picked

theorem pick?_isSome {interval : Interval}
    (some : interval.contains interval.floor = true ∨
      interval.contains (interval.floor + 1) = true) :
    interval.pick?.isSome = true := by
  unfold pick?
  dsimp only
  split
  · rfl
  · rfl
  · rfl
  · rename_i below above
    rw [below, above] at some
    exact absurd some (by decide)

/-- If any grid point lies in the interval around a number, one of those next to it does. -/
theorem pick?_isSome_of_reads (nonzero : number.mantissa ≠ 0)
    (reads : number.Reads (point * 10 ^ step)) : (onGrid number step).pick?.isSome = true := by
  have positive := ten_zpow_pos step
  have readsSelf := Binary.reads_value nonzero
  refine pick?_isSome ?_
  rw [contains_iff, contains_iff]
  obtain less | more := le_or_gt point (onGrid number step).floor
  · have cast : (point : ℚ) ≤ (onGrid number step).floor := by exact_mod_cast less
    exact .inl (reads.between readsSelf (by nlinarith) (floor_le number step))
  · have cast : ((onGrid number step).floor + 1 : ℕ) ≤ (point : ℚ) := by exact_mod_cast more
    exact .inr (readsSelf.between reads (lt_floor number step).le (by nlinarith))

/-- A grid that is fine enough has a point in the interval around a number. -/
theorem pick?_isSome_of_fine (nonzero : number.mantissa ≠ 0)
    (fine : (10 : ℚ) ^ step < (if number.tightBelow then 3 / 4 else 1) * 2 ^ number.exponent) :
    (onGrid number step).pick?.isSome = true := by
  have positive := two_zpow_pos number.exponent
  have low := floor_le number step
  have high := lt_floor number step
  refine pick?_isSome ?_
  rw [contains_iff, contains_iff]
  by_contra neither
  obtain ⟨notBelow, notAbove⟩ := not_or.1 neither
  -- a point that is not in the interval is beyond its end, so the step is as wide as the interval
  have outsideLow := not_lt.1 fun above => notBelow (Binary.reads_of_lt above (by
    rw [Binary.value] at low
    nlinarith) nonzero)
  have outsideHigh := not_lt.1 fun below => notAbove (Binary.reads_of_lt (by
    rw [Binary.value] at high
    split <;> nlinarith) below nonzero)
  push_cast at outsideHigh
  split at fine <;> simp_all <;> nlinarith

end Interval

/-! ### Grids of at most seventeen digits -/

namespace Binary

variable {number : Binary} {step : ℤ} {decimal : Decimal}

/-- A grid of seventeen digits is fine enough for every number. -/
theorem seventeen_isSome (normal : number.Normal) (nonzero : number.mantissa ≠ 0) :
    (number.decimal? (number.magnitude - 17)).isSome = true := by
  have positive := two_zpow_pos number.exponent
  have split : (10 : ℚ) ^ (number.magnitude - 1) = 10 ^ 16 * 10 ^ (number.magnitude - 17) :=
    zpow_eq_pow_mul (by norm_num) (by omega)
  have low := magnitude_le nonzero
  rw [split, value] at low
  rw [decimal?, Option.isSome_map]
  refine Interval.pick?_isSome_of_fine nonzero ?_
  split
  · rename_i isTight
    have isFirst : (number.mantissa : ℚ) = 2 ^ 52 := by
      exact_mod_cast (normal.tight.1 isTight).1
    rw [isFirst] at low
    linarith
  · have fits : (number.mantissa : ℚ) < 2 ^ 53 := by exact_mod_cast normal.fits
    have := mul_lt_mul_of_pos_right fits positive
    linarith

theorem decimal?_eq_some (found : number.decimal? step = some decimal) :
    decimal.exponent = step ∧ number.Reads decimal.value ∧
      (decimal.digits = (Interval.onGrid number step).floor ∨
        decimal.digits = (Interval.onGrid number step).floor + 1) := by
  obtain ⟨digits, picked, rfl⟩ := Option.map_eq_some_iff.1 found
  obtain ⟨isNext, inside⟩ := Interval.pick?_eq_some picked
  exact ⟨rfl, (Interval.contains_iff ..).1 inside, isNext⟩

/-- The digits that are found on a grid are as many as the grid has, or a power of ten. -/
theorem decimal?_bounds {i : ℕ} (nonzero : number.mantissa ≠ 0)
    (found : number.decimal? (number.magnitude - (i + 1)) = some decimal) :
    10 ^ i ≤ decimal.digits ∧ decimal.digits ≤ 10 ^ (i + 1) := by
  obtain ⟨isExponent, -, isNext⟩ := decimal?_eq_some found
  set step := number.magnitude - (i + 1) with isStep
  have positive := ten_zpow_pos step
  have splitLow : (10 : ℚ) ^ (number.magnitude - 1) = 10 ^ i * 10 ^ step :=
    zpow_eq_pow_mul (by norm_num) (by omega)
  have splitHigh : (10 : ℚ) ^ number.magnitude = 10 ^ (i + 1) * 10 ^ step :=
    zpow_eq_pow_mul (by norm_num) (by omega)
  have low := (magnitude_le nonzero).trans_lt (Interval.lt_floor number step)
  have high := (Interval.floor_le number step).trans_lt (lt_magnitude nonzero)
  rw [splitLow, mul_lt_mul_iff_left₀ positive] at low
  rw [splitHigh, mul_lt_mul_iff_left₀ positive] at high
  have lowNat : 10 ^ i < (Interval.onGrid number step).floor + 1 := by exact_mod_cast low
  have highNat : (Interval.onGrid number step).floor < 10 ^ (i + 1) := by exact_mod_cast high
  omega

/-- A decimal of so many digits that reads back as a number can be found on the grid of so many
digits. -/
theorem decimal?_isSome_of_reads (nonzero : number.mantissa ≠ 0)
    (reads : number.Reads decimal.value) :
    (number.decimal? (number.magnitude - Decimal.width decimal.digits)).isSome = true := by
  rw [decimal?, Option.isSome_map]
  set step := number.magnitude - Decimal.width decimal.digits with isStep
  have width := Decimal.width_pos decimal.digits
  obtain onGrid | beyond := le_or_gt step decimal.exponent
  · have split : (10 : ℚ) ^ decimal.exponent =
        10 ^ (decimal.exponent - step).toNat * 10 ^ step :=
      zpow_eq_pow_mul (by norm_num) (by omega)
    have onPoint : number.Reads
        ((decimal.digits * 10 ^ (decimal.exponent - step).toNat : ℕ) * 10 ^ step) := by
      rw [Decimal.value, split, ← mul_assoc] at reads
      exact_mod_cast reads
    exact Interval.pick?_isSome_of_reads nonzero onPoint
  · -- a finer decimal is below the power of ten under the number, which has one digit only
    have split : (10 : ℚ) ^ (number.magnitude - 1) =
        10 ^ (Decimal.width decimal.digits - 1) * 10 ^ step :=
      zpow_eq_pow_mul (by norm_num) (by omega)
    have below : decimal.value ≤ 10 ^ (number.magnitude - 1) := by
      calc decimal.value ≤ 10 ^ Decimal.width decimal.digits * 10 ^ decimal.exponent :=
            mul_le_mul_of_nonneg_right (by exact_mod_cast (Decimal.lt_width _).le)
              (ten_zpow_pos _).le
        _ = 10 ^ (Decimal.width decimal.digits + decimal.exponent) :=
            (zpow_eq_pow_mul (by norm_num) rfl).symm
        _ ≤ 10 ^ (number.magnitude - 1) := zpow_le_zpow_right₀ (by norm_num) (by omega)
    have onPoint : number.Reads
        ((10 ^ (Decimal.width decimal.digits - 1) : ℕ) * 10 ^ step) := by
      push_cast
      rw [← split]
      exact reads.between (reads_value nonzero) below (magnitude_le nonzero)
    exact Interval.pick?_isSome_of_reads nonzero onPoint

end Binary

/-! ### The shortest decimal -/

namespace Decimal

theorem stripZeros_value (bound : ℕ) (decimal : Decimal) :
    (stripZeros bound decimal).value = decimal.value := by
  induction bound generalizing decimal with
  | zero => rfl
  | succ bound ih =>
      rw [stripZeros]
      split
      · rename_i divisible
        rw [ih, value, value, zpow_add_one₀ (by norm_num)]
        have whole : (decimal.digits : ℚ) = (decimal.digits / 10 : ℕ) * 10 := by
          exact_mod_cast (Nat.div_mul_cancel (Nat.dvd_of_mod_eq_zero divisible.2)).symm
        rw [whole]
        ring
      · rfl

theorem stripZeros_le (bound : ℕ) (decimal : Decimal) :
    (stripZeros bound decimal).digits ≤ decimal.digits := by
  induction bound generalizing decimal with
  | zero => exact le_rfl
  | succ bound ih =>
      rw [stripZeros]
      split
      · exact (ih _).trans (Nat.div_le_self _ _)
      · exact le_rfl

/-- All zeros are moved out of digits that are not too many. -/
theorem stripZeros_stripped (bound : ℕ) {decimal : Decimal} (positive : 0 < decimal.digits)
    (fits : decimal.digits ≤ 10 ^ bound) : (stripZeros bound decimal).digits % 10 ≠ 0 := by
  induction bound generalizing decimal with
  | zero =>
      rw [stripZeros]
      omega
  | succ bound ih =>
      rw [stripZeros]
      split
      · rename_i divisible
        refine ih ?_ ?_
        · simp only
          omega
        · simp only
          omega
      · omega

/-- What the shortest decimal of a number is: it reads back as the number, does not end in a zero,
lies between the powers of ten around the number, and has no more digits than any other decimal that
reads back. -/
structure Shortest (number : Binary) (decimal : Decimal) : Prop where
  reads : number.Reads decimal.value
  stripped : decimal.digits % 10 ≠ 0
  narrow : decimal.digits < 10 ^ 17
  above : (10 : ℚ) ^ (number.magnitude - 1) ≤ decimal.value
  below : decimal.value ≤ 10 ^ number.magnitude
  least : ∀ other : Decimal, number.Reads other.value → width decimal.digits ≤ width other.digits

/-- The digits without their zeros are fewer than those of the grid they were found on allow. -/
theorem stripZeros_lt {decimal : Decimal} {i bound : ℕ} (positive : 0 < decimal.digits)
    (fits : decimal.digits ≤ 10 ^ (i + 1)) (enough : i + 1 ≤ bound) :
    (stripZeros bound decimal).digits < 10 ^ (i + 1) := by
  have stripped := stripZeros_stripped bound positive
    (fits.trans (Nat.pow_le_pow_right (by decide) enough))
  refine lt_of_le_of_ne ((stripZeros_le bound decimal).trans fits) fun isPower => ?_
  rw [isPower, Nat.pow_succ] at stripped
  exact stripped (Nat.mul_mod_left _ _)

/-- What is found first in a range is found at no smaller number. -/
theorem findSome?_range {α : Type} {f : ℕ → Option α} {n : ℕ} {found : α}
    (isFound : (List.range n).findSome? f = some found) :
    ∃ i < n, f i = some found ∧ ∀ j < i, f j = none := by
  induction n with
  | zero => cases isFound
  | succ n ih =>
      rw [List.range_succ, List.findSome?_append, Option.or_eq_some_iff] at isFound
      obtain earlier | ⟨nothing, last⟩ := isFound
      · obtain ⟨i, less, rest⟩ := ih earlier
        exact ⟨i, Nat.lt_succ_of_lt less, rest⟩
      · refine ⟨n, Nat.lt_succ_self n, by simpa using last, fun j less => ?_⟩
        exact List.findSome?_eq_none_iff.1 nothing j (List.mem_range.2 less)

/-- The shortest decimal is found on the first grid that has a point in the interval. -/
theorem shortest_eq {number : Binary} (normal : number.Normal) (nonzero : number.mantissa ≠ 0) :
    ∃ i : ℕ, i < 17 ∧ ∃ found, number.decimal? (number.magnitude - (i + 1)) = some found ∧
      (∀ j : ℕ, j < i → number.decimal? (number.magnitude - (j + 1)) = none) ∧
      shortest number = found.stripZeros 17 := by
  have enough := Binary.seventeen_isSome normal nonzero
  unfold shortest
  dsimp only
  generalize isSearch : (List.range 17).findSome? _ = search
  cases search with
  | none =>
      have nothing := List.findSome?_eq_none_iff.1 isSearch 16 (by decide)
      norm_num at nothing
      rw [nothing] at enough
      cases enough
  | some found =>
      obtain ⟨i, less, isFound, nothing⟩ := findSome?_range isSearch
      exact ⟨i, less, found, isFound, nothing, rfl⟩

/-- The shortest decimal of a number is what it is meant to be. -/
theorem shortest_spec {number : Binary} (normal : number.Normal) (nonzero : number.mantissa ≠ 0) :
    Shortest number (shortest number) := by
  obtain ⟨i, less, found, isFound, nothing, isShortest⟩ := shortest_eq normal nonzero
  obtain ⟨isExponent, reads, -⟩ := Binary.decimal?_eq_some isFound
  obtain ⟨low, high⟩ := Binary.decimal?_bounds nonzero isFound
  have positive : 0 < found.digits := (Nat.pow_pos (by decide)).trans_le low
  have fewer := stripZeros_lt positive high less
  have place := ten_zpow_pos found.exponent
  rw [isShortest]
  refine ⟨by rwa [stripZeros_value], stripZeros_stripped 17 positive ?_, ?_, ?_, ?_, ?_⟩
  · exact high.trans (Nat.pow_le_pow_right (by decide) less)
  · exact fewer.trans_le (Nat.pow_le_pow_right (by decide) less)
  · have split : (10 : ℚ) ^ (number.magnitude - 1) = 10 ^ i * 10 ^ found.exponent :=
      zpow_eq_pow_mul (by norm_num) (by omega)
    rw [stripZeros_value, value, split]
    exact mul_le_mul_of_nonneg_right (by exact_mod_cast low) place.le
  · have split : (10 : ℚ) ^ number.magnitude = 10 ^ (i + 1) * 10 ^ found.exponent :=
      zpow_eq_pow_mul (by norm_num) (by omega)
    rw [stripZeros_value, value, split]
    exact mul_le_mul_of_nonneg_right (by exact_mod_cast high) place.le
  · intro other readsOther
    refine ((width_le_iff i.succ_pos).2 fewer).trans (not_lt.1 fun shorter => ?_)
    obtain ⟨j, isWidth⟩ := Nat.exists_eq_succ_of_ne_zero (width_pos other.digits).ne'
    have isSome := Binary.decimal?_isSome_of_reads nonzero readsOther
    rw [isWidth] at isSome shorter
    have isNone := nothing j (by omega)
    push_cast at isSome
    rw [isNone] at isSome
    cases isSome

/-! ### Powers of ten -/

/-- The power of ten that the first digit of a decimal stands for. -/
def lead (decimal : Decimal) : ℤ :=
  decimal.exponent + width decimal.digits - 1

/-- A decimal is at least a power of ten if its first digit stands for no smaller one. -/
theorem le_lead_iff {decimal : Decimal} (positive : 0 < decimal.digits) (power : ℤ) :
    power ≤ decimal.lead ↔ (10 : ℚ) ^ power ≤ decimal.value := by
  have place := ten_zpow_pos decimal.exponent
  have width := width_pos decimal.digits
  constructor
  · intro less
    calc (10 : ℚ) ^ power ≤ 10 ^ decimal.lead := zpow_le_zpow_right₀ (by norm_num) less
      _ = 10 ^ (Decimal.width decimal.digits - 1) * 10 ^ decimal.exponent :=
          zpow_eq_pow_mul (by norm_num) (by rw [lead]; omega)
      _ ≤ decimal.value := by
          refine mul_le_mul_of_nonneg_right ?_ place.le
          exact_mod_cast width_le positive
  · intro reached
    by_contra more
    have below : decimal.value < 10 ^ (decimal.lead + 1) := by
      calc decimal.value < 10 ^ Decimal.width decimal.digits * 10 ^ decimal.exponent := by
            refine mul_lt_mul_of_pos_right ?_ place
            exact_mod_cast lt_width decimal.digits
        _ = 10 ^ (decimal.lead + 1) :=
            (zpow_eq_pow_mul (by norm_num) (by rw [lead]; omega)).symm
    have step : (10 : ℚ) ^ (decimal.lead + 1) ≤ 10 ^ power :=
      zpow_le_zpow_right₀ (by norm_num) (by omega)
    linarith

/-- The first digit of the shortest decimal tells on which side of a power of ten a number is, if
the number that this power is read as is not below it. -/
theorem power_le_lead_iff {number power : Binary} {exponent : ℤ} (normal : number.Normal)
    (nonzero : number.mantissa ≠ 0) (normalPower : power.Normal)
    (reads : power.Reads (10 ^ exponent)) (above : (10 : ℚ) ^ exponent ≤ power.value) :
    exponent ≤ (shortest number).lead ↔ (10 : ℚ) ^ exponent ≤ number.value := by
  have spec := shortest_spec normal nonzero
  have positive : 0 < (shortest number).digits := by
    have := spec.stripped
    omega
  rw [le_lead_iff positive]
  constructor
  · intro reached
    by_contra less
    have readsPower := (Binary.reads_value nonzero).between spec.reads (not_le.1 less).le reached
    have sameOrder := (readsPower.rounds normal).unique (reads.rounds normalPower)
    exact less (normal.eq_of_order normalPower sameOrder ▸ above)
  · intro reached
    have less := reached.trans_lt (Binary.lt_magnitude nonzero)
    rw [zpow_lt_zpow_iff_right₀ (by norm_num)] at less
    calc (10 : ℚ) ^ exponent ≤ 10 ^ (number.magnitude - 1) :=
          zpow_le_zpow_right₀ (by norm_num) (by omega)
      _ ≤ (shortest number).value := spec.above

end Decimal

end LoxLang
