/-
Module: LoxLang.Proofs.Number.Rounding
Purpose: Which number a decimal is read as.  Magnitudes of finite numbers are counted from zero up
  by their exponent and fraction fields taken together, and every magnitude that is not too large
  rounds to one of them: the nearest one, and of two equally near ones the even one.  The interval
  in which the shortest digits of a number are looked for holds nothing that rounds to another
  number.
Main exports: Binary.value, Binary.order, Binary.Reads, Rounds, Rounds.unique, Binary.Reads.rounds,
  Interval.contains_iff
-/
import LoxLang.Decimal.Shortest
import Mathlib.Algebra.Order.Field.Power
import Mathlib.Data.Rat.Cast.Order
import Mathlib.Tactic.FieldSimp
import Mathlib.Tactic.Linarith
import Mathlib.Tactic.Ring

namespace LoxLang

/-! ### Rounding to the nearest number -/

/-- Whether the numbers around a magnitude have this exponent: the last of their fifty-three binary
digits stands there, unless the exponent is the least there is. -/
structure Binade (place : ℚ) (exponent : ℤ) : Prop where
  least : -1074 ≤ exponent
  below : place < 2 ^ 53 * 2 ^ exponent
  above : exponent = -1074 ∨ 2 ^ 52 * 2 ^ exponent ≤ place

/-- Whether a natural number is the nearest one to a magnitude, the even one if two are. -/
structure NearestEven (place : ℚ) (n : ℕ) : Prop where
  below : (n : ℚ) - 1 / 2 ≤ place
  above : place ≤ n + 1 / 2
  tie : place = (n : ℚ) - 1 / 2 ∨ place = n + 1 / 2 → n % 2 = 0

/-- Whether a magnitude rounds to the number that is counted in this place.  Numbers of one exponent
follow each other, and behind the last of them comes the first one of the next exponent. -/
def Rounds (place : ℚ) (order : ℕ) : Prop :=
  ∃ (exponent : ℤ) (mantissa : ℕ), Binade place exponent ∧
    NearestEven (place / 2 ^ exponent) mantissa ∧
    (order : ℤ) = (exponent + 1074) * 2 ^ 52 + mantissa

theorem two_zpow_pos (exponent : ℤ) : (0 : ℚ) < 2 ^ exponent :=
  zpow_pos (by norm_num) exponent

/-- A part of an exponent that is a count of factors. -/
theorem zpow_eq_pow_mul {base : ℚ} (nonzero : base ≠ 0) {whole rest : ℤ} {count : ℕ}
    (isSum : whole = count + rest) : base ^ whole = base ^ count * base ^ rest := by
  rw [isSum, zpow_add₀ nonzero, zpow_natCast]

theorem pow_eq_zpow_mul {base : ℚ} (nonzero : base ≠ 0) {rest : ℤ} {whole count : ℕ}
    (isSum : (whole : ℤ) = rest + count) : base ^ whole = base ^ rest * base ^ count := by
  rw [← zpow_natCast, isSum, zpow_add₀ nonzero, zpow_natCast]

theorem Binade.le {place : ℚ} {exponent other : ℤ} (binade : Binade place exponent)
    (binadeOther : Binade place other) : other ≤ exponent := by
  by_contra more
  have less := not_le.1 more
  have notLeast : other ≠ -1074 := by
    have := binade.least
    omega
  have reaches := binadeOther.above.resolve_left notLeast
  have next : (2 : ℚ) ^ (exponent + 1) ≤ 2 ^ other :=
    zpow_le_zpow_right₀ (by norm_num) (by omega)
  have within := binade.below
  rw [zpow_add_one₀ (by norm_num)] at next
  linarith

theorem Binade.unique {place : ℚ} {exponent other : ℤ} (binade : Binade place exponent)
    (binadeOther : Binade place other) : exponent = other :=
  le_antisymm (binadeOther.le binade) (binade.le binadeOther)

theorem NearestEven.le {place : ℚ} {n other : ℕ} (nearest : NearestEven place n)
    (nearestOther : NearestEven place other) : n ≤ other := by
  by_contra more
  have next : (other : ℚ) + 1 ≤ n := by exact_mod_cast not_le.1 more
  -- both are half a step away, so both are even, but they follow each other
  have low := nearest.below
  have high := nearestOther.above
  have isNext : (other : ℚ) + 1 = n := by linarith
  have even := nearest.tie (.inl (by linarith))
  have evenOther := nearestOther.tie (.inr (by linarith))
  have isNextNat : other + 1 = n := by exact_mod_cast isNext
  omega

/-- Rounding does not go beyond a whole number. -/
theorem NearestEven.le_of_lt {place : ℚ} {n bound : ℕ} (nearest : NearestEven place n)
    (less : place < bound) : n ≤ bound := by
  by_contra more
  have next : (bound : ℚ) + 1 ≤ n := by exact_mod_cast not_le.1 more
  have := nearest.below
  linarith

theorem NearestEven.le_of_le {place : ℚ} {n bound : ℕ} (nearest : NearestEven place n)
    (reached : bound ≤ place) : bound ≤ n := by
  by_contra more
  have next : (n : ℚ) + 1 ≤ bound := by exact_mod_cast not_le.1 more
  have := nearest.above
  linarith

/-- A magnitude rounds to one number only. -/
theorem Rounds.unique {place : ℚ} {order other : ℕ} (rounds : Rounds place order)
    (roundsOther : Rounds place other) : order = other := by
  obtain ⟨exponent, mantissa, binade, nearest, isOrder⟩ := rounds
  obtain ⟨exponentOther, mantissaOther, binadeOther, nearestOther, isOther⟩ := roundsOther
  obtain rfl := binade.unique binadeOther
  obtain rfl := le_antisymm (nearest.le nearestOther) (nearestOther.le nearest)
  exact_mod_cast isOrder.trans isOther.symm

/-! ### Numbers and their magnitudes -/

namespace Binary

/-- The magnitude of a number. -/
def value (number : Binary) : ℚ :=
  number.mantissa * 2 ^ number.exponent

/-- The place of a number when magnitudes are counted from zero up. -/
def order (number : Binary) : ℕ :=
  (number.exponent + 1074).toNat * 2 ^ 52 + number.mantissa

/-- Whether a number is one that fields can have: its mantissa has as many digits as there is room
for, unless its exponent is the least there is. -/
structure Normal (number : Binary) : Prop where
  least : -1074 ≤ number.exponent
  fits : number.mantissa < 2 ^ 53
  full : number.exponent = -1074 ∨ 2 ^ 52 ≤ number.mantissa
  tight : number.tightBelow = true ↔ number.mantissa = 2 ^ 52 ∧ number.exponent ≠ -1074

/-- The first magnitude of the interval around a number, in quarters of its last binary place. -/
def lowQuarters (number : Binary) : ℕ :=
  4 * number.mantissa - (if number.tightBelow then 1 else 2)

/-- Whether a magnitude lies in the interval around a number.  The ends belong to the interval if
the mantissa is even. -/
def Reads (number : Binary) (place : ℚ) : Prop :=
  let low := number.lowQuarters * (2 : ℚ) ^ (number.exponent - 2)
  let high := (4 * number.mantissa + 2 : ℕ) * (2 : ℚ) ^ (number.exponent - 2)
  if number.mantissa % 2 = 0 then low ≤ place ∧ place ≤ high else low < place ∧ place < high

variable {number : Binary} {place : ℚ}

theorem order_cast (normal : number.Normal) :
    (number.order : ℤ) = (number.exponent + 1074) * 2 ^ 52 + number.mantissa := by
  have := normal.least
  rw [order]
  push_cast
  omega

/-- Numbers that are counted in the same place are the same. -/
theorem Normal.eq_of_order {other : Binary} (normal : number.Normal) (normalOther : other.Normal)
    (same : number.order = other.order) : number = other := by
  have isOrder := order_cast normal
  have isOther := order_cast normalOther
  have fits := normal.fits
  have fitsOther := normalOther.fits
  have least := normal.least
  have leastOther := normalOther.least
  have full := normal.full
  have fullOther := normalOther.full
  have sameExponent : number.exponent = other.exponent := by omega
  have sameMantissa : number.mantissa = other.mantissa := by omega
  have sameTight : number.tightBelow = other.tightBelow := by
    rw [Bool.eq_iff_iff, normal.tight, normalOther.tight, sameExponent, sameMantissa]
  cases number
  cases other
  simp_all

/-- The quarters of a place, counted in places. -/
theorem quarter_mul (count : ℚ) (exponent : ℤ) :
    count * 2 ^ (exponent - 2) = count / 4 * 2 ^ exponent := by
  rw [zpow_sub₀ (by norm_num)]
  ring

theorem le_lowQuarters (number : Binary) :
    4 * (number.mantissa : ℚ) - (if number.tightBelow then 1 else 2) ≤ number.lowQuarters := by
  rw [lowQuarters, sub_le_iff_le_add]
  split
  · exact_mod_cast (by omega : 4 * number.mantissa ≤ 4 * number.mantissa - 1 + 1)
  · exact_mod_cast (by omega : 4 * number.mantissa ≤ 4 * number.mantissa - 2 + 2)

/-- A magnitude in the interval around a number is no further from it than half a last place. -/
theorem Reads.bounds (reads : number.Reads place) :
    number.mantissa - (if number.tightBelow then 1 / 4 else 1 / 2 : ℚ) ≤
        place / 2 ^ number.exponent ∧
      place / 2 ^ number.exponent ≤ number.mantissa + 1 / 2 ∧
      (place / 2 ^ number.exponent = number.mantissa - 1 / 2 ∨
        place / 2 ^ number.exponent = number.mantissa + 1 / 2 → number.mantissa % 2 = 0) := by
  have positive := two_zpow_pos number.exponent
  have low := number.le_lowQuarters
  rw [Reads, quarter_mul, quarter_mul] at reads
  push_cast at reads
  obtain ⟨ratio, rfl⟩ : ∃ ratio, place = ratio * 2 ^ number.exponent :=
    ⟨place / 2 ^ number.exponent, by field_simp⟩
  rw [mul_div_cancel_right₀ _ positive.ne']
  simp only [mul_le_mul_iff_left₀ positive, mul_lt_mul_iff_left₀ positive] at reads
  split at reads
  · rename_i even
    refine ⟨?_, ?_, fun _ => even⟩
    · split at low <;> simp_all <;> linarith
    · linarith
  · refine ⟨?_, ?_, ?_⟩
    · split at low <;> simp_all <;> linarith
    · linarith
    · rintro (isLow | isHigh)
      · split at low <;> linarith
      · linarith

/-- What lies in the interval around a number rounds to it. -/
theorem Reads.rounds (reads : number.Reads place) (normal : number.Normal) :
    Rounds place number.order := by
  have positive := two_zpow_pos number.exponent
  obtain ⟨low, high, tie⟩ := reads.bounds
  have fits : (number.mantissa : ℚ) + 1 ≤ 2 ^ 53 := by exact_mod_cast normal.fits
  set ratio := place / 2 ^ number.exponent with isRatio
  have isPlace : place = ratio * 2 ^ number.exponent := by
    rw [isRatio]
    field_simp
  by_cases inside : number.exponent = -1074 ∨ 2 ^ 52 ≤ ratio
  · refine ⟨number.exponent, number.mantissa, ⟨normal.least, ?_, inside.imp_right fun less => ?_⟩,
      ⟨?_, high, tie⟩, order_cast normal⟩
    · rw [isPlace]
      nlinarith
    · rw [isPlace]
      nlinarith
    · split at low <;> linarith
  · -- just below the first number of an exponent places are half as wide
    obtain ⟨notLeast, less⟩ := not_or.1 inside
    have full := normal.full.resolve_left notLeast
    have isFirst : number.mantissa = 2 ^ 52 := by
      refine le_antisymm (not_lt.1 fun more => ?_) full
      have next : (2 : ℚ) ^ 52 + 1 ≤ number.mantissa := by exact_mod_cast more
      split at low <;> linarith
    have tight := normal.tight.2 ⟨isFirst, notLeast⟩
    rw [if_pos tight, isFirst] at low
    push_cast at low
    have half : (2 : ℚ) ^ number.exponent = 2 * 2 ^ (number.exponent - 1) := by
      rw [zpow_sub_one₀ (by norm_num)]
      ring
    have isRatioBelow : place / 2 ^ (number.exponent - 1) = 2 * ratio := by
      rw [isPlace, half]
      field_simp
    have positiveBelow := two_zpow_pos (number.exponent - 1)
    rw [half] at isPlace
    refine ⟨number.exponent - 1, 2 ^ 53, ⟨?_, ?_, .inr ?_⟩, ⟨?_, ?_, fun _ => by norm_num⟩, ?_⟩
    · have := normal.least
      omega
    · rw [isPlace]
      nlinarith
    · rw [isPlace]
      nlinarith
    · rw [isRatioBelow]
      push_cast
      linarith
    · rw [isRatioBelow]
      push_cast
      linarith
    · rw [order_cast normal, isFirst]
      push_cast
      ring

end Binary

/-! ### Fields of a bit pattern -/

@[simp] theorem twoPow_eq (n : ℕ) : twoPow n = 2 ^ n := rfl

@[simp] theorem tenPow_eq (n : ℕ) : tenPow n = 10 ^ n := rfl

namespace Fields

theorem fraction_lt (bits : UInt64) : (ofBits bits).fraction < 2 ^ 52 :=
  Nat.mod_lt _ (by decide)

theorem exponent_lt (bits : UInt64) : (ofBits bits).exponent < 2 ^ 11 :=
  Nat.mod_lt _ (by decide)

/-- A bit pattern is put together from its fields. -/
theorem toNat_eq (bits : UInt64) :
    bits.toNat = (if (ofBits bits).negative then 2 ^ 63 else 0) +
      ((ofBits bits).exponent * 2 ^ 52 + (ofBits bits).fraction) := by
  have inside := bits.toNat_lt
  have isNegative : (ofBits bits).negative = true ↔ 2 ^ 63 ≤ bits.toNat := decide_eq_true_iff
  simp only [isNegative]
  simp only [ofBits, twoPow_eq]
  split <;> omega

/-- Different bit patterns have different fields. -/
theorem ofBits_injective : Function.Injective ofBits := by
  intro bits other same
  rw [← UInt64.toNat_inj, toNat_eq, toNat_eq other, same]

variable {fields : Fields}

/-- The magnitude of a finite number is one that fields can have. -/
theorem normal (inside : fields.fraction < 2 ^ 52) : (Binary.ofFields fields).Normal := by
  unfold Binary.ofFields
  split
  · exact ⟨le_rfl, by simp only; omega, .inl rfl, by simp⟩
  · refine ⟨by simp only; omega, ?_, .inr ?_, ?_⟩
    · simp only [twoPow_eq]
      omega
    · simp only [twoPow_eq]
      omega
    · simp only [twoPow_eq, Bool.and_eq_true, decide_eq_true_eq]
      omega

/-- The exponent and fraction fields taken together count the magnitudes. -/
theorem order_eq (fields : Fields) :
    (Binary.ofFields fields).order = fields.exponent * 2 ^ 52 + fields.fraction := by
  unfold Binary.ofFields Binary.order
  split
  · simp_all
  · simp only [twoPow_eq]
    rw [show ((fields.exponent : ℤ) - 1075 + 1074).toNat = fields.exponent - 1 by omega]
    obtain ⟨before, isNext⟩ := Nat.exists_eq_succ_of_ne_zero (by assumption)
    rw [isNext]
    simp only [Nat.succ_eq_add_one, Nat.add_sub_cancel]
    ring

/-- Fields are the same if signs and magnitudes are counted alike. -/
theorem eq_of_order {bits other : UInt64}
    (sameSign : (ofBits bits).negative = (ofBits other).negative)
    (sameOrder : (ofBits bits).exponent * 2 ^ 52 + (ofBits bits).fraction =
      (ofBits other).exponent * 2 ^ 52 + (ofBits other).fraction) : ofBits bits = ofBits other := by
  have inside := fraction_lt bits
  have insideOther := fraction_lt other
  have sameExponent : (ofBits bits).exponent = (ofBits other).exponent := by omega
  have sameFraction : (ofBits bits).fraction = (ofBits other).fraction := by omega
  generalize ofBits bits = fields at *
  generalize ofBits other = fieldsOther at *
  cases fields
  cases fieldsOther
  simp_all

end Fields

/-! ### The interval on a decimal grid -/

/-- Powers with exponents of either sign are compared by natural numbers. -/
theorem scaled_eq (count : ℕ) (exponent step : ℤ) :
    ((count * (2 ^ exponent.toNat * 10 ^ (-step).toNat) : ℕ) : ℚ) =
      count * 2 ^ exponent * (2 ^ (-exponent).toNat * 10 ^ (-step).toNat) := by
  have split : (2 : ℚ) ^ exponent.toNat = 2 ^ exponent * 2 ^ (-exponent).toNat :=
    pow_eq_zpow_mul (by norm_num) (by omega)
  push_cast
  rw [split]
  ring

theorem gridded_eq (point : ℕ) (exponent step : ℤ) :
    ((point * (2 ^ (-exponent).toNat * 10 ^ step.toNat) : ℕ) : ℚ) =
      point * 10 ^ step * (2 ^ (-exponent).toNat * 10 ^ (-step).toNat) := by
  have split : (10 : ℚ) ^ step.toNat = 10 ^ step * 10 ^ (-step).toNat :=
    pow_eq_zpow_mul (by norm_num) (by omega)
  push_cast
  rw [split]
  ring

namespace Interval

variable (number : Binary) (step : ℤ) (count point : ℕ)

theorem scale_le_grid_iff :
    count * (onGrid number step).scale ≤ point * (onGrid number step).grid ↔
      (count : ℚ) * 2 ^ (number.exponent - 2) ≤ point * 10 ^ step := by
  have positive : (0 : ℚ) < 2 ^ (-(number.exponent - 2)).toNat * 10 ^ (-step).toNat := by positivity
  rw [← Nat.cast_le (α := ℚ)]
  simp only [onGrid, twoPow_eq, tenPow_eq]
  rw [scaled_eq, gridded_eq, mul_le_mul_iff_left₀ positive]

theorem grid_le_scale_iff :
    point * (onGrid number step).grid ≤ count * (onGrid number step).scale ↔
      (point : ℚ) * 10 ^ step ≤ count * 2 ^ (number.exponent - 2) := by
  have positive : (0 : ℚ) < 2 ^ (-(number.exponent - 2)).toNat * 10 ^ (-step).toNat := by positivity
  rw [← Nat.cast_le (α := ℚ)]
  simp only [onGrid, twoPow_eq, tenPow_eq]
  rw [scaled_eq, gridded_eq, mul_le_mul_iff_left₀ positive]

/-- A grid point is taken for a number if it lies in the interval around it. -/
theorem contains_iff :
    (onGrid number step).contains point = true ↔ number.Reads (point * 10 ^ step) := by
  have below := scale_le_grid_iff number step number.lowQuarters point
  have above := grid_le_scale_iff number step (4 * number.mantissa + 2) point
  have belowStrict := (grid_le_scale_iff number step number.lowQuarters point).not
  have aboveStrict := (scale_le_grid_iff number step (4 * number.mantissa + 2) point).not
  rw [not_le, not_le] at belowStrict aboveStrict
  have isLow : (onGrid number step).low = number.lowQuarters := rfl
  have isHigh : (onGrid number step).high = 4 * number.mantissa + 2 := rfl
  have isClosed : (onGrid number step).closed = decide (number.mantissa % 2 = 0) := rfl
  rw [contains, Binary.Reads, isLow, isHigh, isClosed]
  simp only [decide_eq_true_eq]
  split
  · rw [Bool.and_eq_true, decide_eq_true_eq, decide_eq_true_eq, below, above]
  · rw [Bool.and_eq_true, decide_eq_true_eq, decide_eq_true_eq, belowStrict, aboveStrict]

end Interval

end LoxLang
