/-
Module: LoxLang.Proofs.Number.Reading
Purpose: Numerals are read correctly.  The logical model of binary64 arithmetic shifts mantissas,
  keeps what is lost as a round bit and a sticky bit, and rounds at the end; followed as exact
  rational arithmetic, the number that is made of digits is the one that their decimal rounds to.
Main exports: Reading.Stands, Reading.roundWithAccuracy_rounds, Reading.div_rounds,
  Reading.ofNat_rounds, Reading.toBits_ofScientific
-/
import LoxLang.Proofs.Number.Packing
import LoxLang.Proofs.Number.Shortest

namespace LoxLang.Reading

open Float.Model (Format UnpackedFloat totalExponent)
open Float.Model.UnpackedFloat
open Packing

/-! ### What is lost when a mantissa is shifted -/

/-- Whether a mantissa with the bits behind it stands for a magnitude: the round bit is the first
binary digit behind the mantissa, and the sticky bit tells whether any digit follows it. -/
structure Stands (extended : ExtendedMantissa) (place : ℚ) : Prop where
  above : (extended.mantissa : ℚ) ≤ place
  below : place < extended.mantissa + 1
  round : extended.roundBit = true ↔ (extended.mantissa : ℚ) + 1 / 2 ≤ place
  sticky : extended.stickyBit = true ↔
    place ≠ extended.mantissa ∧ place ≠ extended.mantissa + 1 / 2

variable {extended : ExtendedMantissa} {place : ℚ}

/-- Something is lost unless both bits are clear. -/
theorem Stands.lost (stands : Stands extended place) :
    (extended.roundBit || extended.stickyBit) = true ↔ place ≠ extended.mantissa := by
  rw [Bool.or_eq_true, stands.round, stands.sticky]
  constructor
  · rintro (half | ⟨inexact, -⟩)
    · exact fun exact => by linarith
    · exact inexact
  · intro inexact
    by_cases half : place = extended.mantissa + 1 / 2
    · exact .inl half.ge
    · exact .inr ⟨inexact, half⟩

/-- Shifting by one place halves the magnitude. -/
theorem Stands.shiftRightOne (stands : Stands extended place) :
    Stands extended.shiftRightOne (place / 2) := by
  have halves : (extended.mantissa : ℚ) =
      2 * (extended.mantissa / 2 : ℕ) + (extended.mantissa % 2 : ℕ) := by
    exact_mod_cast (Nat.div_add_mod extended.mantissa 2).symm
  have above := stands.above
  have below := stands.below
  have lost := stands.lost
  obtain even | odd := Nat.mod_two_eq_zero_or_one extended.mantissa
  · rw [even, Nat.cast_zero, add_zero] at halves
    refine ⟨?_, ?_, ?_, ?_⟩
    · change ((extended.mantissa / 2 : ℕ) : ℚ) ≤ _
      linarith
    · change _ < ((extended.mantissa / 2 : ℕ) : ℚ) + 1
      linarith
    · change (extended.mantissa % 2 != 0) = true ↔ ((extended.mantissa / 2 : ℕ) : ℚ) + 1 / 2 ≤ _
      simp only [even, bne_self_eq_false, Bool.false_eq_true, false_iff, not_le]
      linarith
    · change (extended.roundBit || extended.stickyBit) = true ↔
        _ ≠ ((extended.mantissa / 2 : ℕ) : ℚ) ∧ _ ≠ ((extended.mantissa / 2 : ℕ) : ℚ) + 1 / 2
      rw [lost]
      refine ⟨fun inexact => ⟨fun exact => inexact (by linarith), fun half => ?_⟩,
        fun inexact exact => inexact.1 (by linarith)⟩
      linarith
  · rw [odd, Nat.cast_one] at halves
    refine ⟨?_, ?_, ?_, ?_⟩
    · change ((extended.mantissa / 2 : ℕ) : ℚ) ≤ _
      linarith
    · change _ < ((extended.mantissa / 2 : ℕ) : ℚ) + 1
      linarith
    · change (extended.mantissa % 2 != 0) = true ↔ ((extended.mantissa / 2 : ℕ) : ℚ) + 1 / 2 ≤ _
      rw [odd]
      refine ⟨fun _ => by linarith, fun _ => rfl⟩
    · change (extended.roundBit || extended.stickyBit) = true ↔
        _ ≠ ((extended.mantissa / 2 : ℕ) : ℚ) ∧ _ ≠ ((extended.mantissa / 2 : ℕ) : ℚ) + 1 / 2
      rw [lost]
      refine ⟨fun inexact => ⟨fun exact => ?_, fun half => inexact (by linarith)⟩,
        fun inexact exact => inexact.2 (by linarith)⟩
      linarith

theorem Stands.shift (stands : Stands extended place) (count : ℕ) :
    Stands (extended >>> count) (place / 2 ^ count) := by
  induction count with
  | zero =>
      rw [pow_zero, div_one]
      exact stands
  | succ count ih =>
      rw [pow_succ, ← div_div]
      exact ih.shiftRightOne

/-- Rounding takes the nearest mantissa, and of two equally near ones the even one. -/
theorem Stands.nearest (stands : Stands extended place) :
    NearestEven place extended.roundedMantissa := by
  obtain ⟨mantissa, roundBit, stickyBit⟩ := extended
  obtain ⟨above, below, round, sticky⟩ := stands
  dsimp only at above below round sticky
  cases roundBit with
  | false =>
      -- less than half a place is lost
      have less : place < mantissa + 1 / 2 := not_le.1 fun half => nomatch round.2 half
      have isRounded :
          ExtendedMantissa.roundedMantissa ⟨mantissa, false, stickyBit⟩ = mantissa := by
        cases stickyBit <;> rfl
      rw [isRounded]
      refine ⟨by linarith, less.le, ?_⟩
      rintro (half | half) <;> linarith
  | true =>
      have half := round.1 rfl
      cases stickyBit with
      | true =>
          have notHalf := (sticky.1 rfl).2
          have more : (mantissa : ℚ) + 1 / 2 < place := lt_of_le_of_ne half notHalf.symm
          change NearestEven place (mantissa + 1)
          refine ⟨?_, ?_, ?_⟩
          · push_cast
            linarith
          · push_cast
            linarith
          · push_cast
            rintro (isHalf | isHalf) <;> linarith
      | false =>
          have isHalf : place = mantissa + 1 / 2 := by
            by_contra notHalf
            exact nomatch sticky.2 ⟨fun exact => by linarith, notHalf⟩
          change NearestEven place (mantissa + mantissa % 2)
          obtain even | odd := Nat.mod_two_eq_zero_or_one mantissa
          · rw [even, add_zero]
            exact ⟨by linarith, isHalf.le, fun _ => even⟩
          · rw [odd]
            refine ⟨?_, ?_, fun _ => by omega⟩
            · push_cast
              linarith
            · push_cast
              linarith

/-! ### Rounding -/

/-- What a mantissa with an accuracy stands for before it is shifted. -/
abbrev StandsFor (mantissa : ℕ) (accuracy : Accuracy) (place : ℚ) : Prop :=
  Stands (.ofMantissaAndAccuracy mantissa accuracy) place

theorem standsFor_exact (mantissa : ℕ) : StandsFor mantissa .exact mantissa := by
  refine ⟨le_rfl, lt_add_one _, ?_, ?_⟩
  · simp [ExtendedMantissa.ofMantissaAndAccuracy]
  · simp [ExtendedMantissa.ofMantissaAndAccuracy]

/-- The bits that stand for the remainder of a division. -/
theorem ofMantissaAndAccuracy_fraction (whole rest : ℕ) {denominator : ℕ}
    (positive : 0 < denominator) :
    ExtendedMantissa.ofMantissaAndAccuracy whole (accuracyOfFraction rest denominator) =
      ⟨whole, decide (denominator ≤ 2 * rest), decide (rest ≠ 0 ∧ 2 * rest ≠ denominator)⟩ := by
  unfold accuracyOfFraction
  split
  · rename_i isZero
    have notHalf : ¬denominator ≤ 2 * rest := by omega
    simp [ExtendedMantissa.ofMantissaAndAccuracy, isZero, positive.ne']
  · rename_i nonzero
    cases order : compare (2 * rest) denominator with
    | lt =>
        have less := Nat.compare_eq_lt.1 order
        simp [ExtendedMantissa.ofMantissaAndAccuracy, nonzero, less, less.ne]
    | eq =>
        have same := Nat.compare_eq_eq.1 order
        simp [ExtendedMantissa.ofMantissaAndAccuracy, same]
    | gt =>
        have more := Nat.compare_eq_gt.1 order
        simp [ExtendedMantissa.ofMantissaAndAccuracy, nonzero, more.le, more.ne']

/-- The remainder of a division tells what is lost. -/
theorem standsFor_fraction (numerator : ℕ) {denominator : ℕ} (positive : 0 < denominator) :
    StandsFor (numerator / denominator)
      (accuracyOfFraction (numerator % denominator) denominator)
      ((numerator : ℚ) / denominator) := by
  have positiveCast : (0 : ℚ) < denominator := by exact_mod_cast positive
  have parts : (numerator : ℚ) =
      (numerator / denominator : ℕ) * denominator + (numerator % denominator : ℕ) := by
    exact_mod_cast (Nat.div_add_mod' numerator denominator).symm
  have less := Nat.mod_lt numerator positive
  have isPlace : (numerator : ℚ) / denominator =
      (numerator / denominator : ℕ) + ((numerator % denominator : ℕ) : ℚ) / denominator := by
    field_simp
    linarith
  rw [StandsFor, ofMantissaAndAccuracy_fraction _ _ positive, isPlace]
  generalize numerator / denominator = whole
  generalize numerator % denominator = rest at *
  refine ⟨?_, ?_, ?_, ?_⟩
  · exact le_add_of_nonneg_right (by positivity)
  · exact add_lt_add_right ((div_lt_one positiveCast).2 (by exact_mod_cast less)) _
  · rw [decide_eq_true_iff, add_le_add_iff_left, div_le_div_iff₀ two_pos positiveCast, one_mul,
      mul_comm (rest : ℚ)]
    norm_cast
  · rw [decide_eq_true_iff, ne_eq _ (whole : ℚ), add_eq_left, div_eq_zero_iff,
      or_iff_left positiveCast.ne', Nat.cast_eq_zero, ne_eq _ (_ + _), add_right_inj,
      div_eq_div_iff positiveCast.ne' two_ne_zero, one_mul, mul_comm (rest : ℚ)]
    norm_cast

theorem targetExponent_eq (total : ℤ) :
    Format.binary64.targetExponent total = max (total - 53) (-1074) := rfl

theorem totalExponent_eq (mantissa : ℕ) (exponent : ℤ) :
    totalExponent mantissa exponent = mantissa.log2 + 1 + exponent := rfl

/-- A mantissa with enough digits is shifted to the exponent of the numbers around it. -/
theorem binade_of_shift {mantissa : ℕ} {exponent : ℤ} {count : ℕ}
    (isCount : (count : ℤ) = max ((mantissa.log2 : ℤ) + exponent - 52) (-1074) - exponent)
    (above : (mantissa : ℚ) ≤ place) (below : place < mantissa + 1) :
    Binade (place * 2 ^ exponent) (exponent + count) := by
  have positive := two_zpow_pos exponent
  have log : place < 2 ^ (mantissa.log2 + 1) := by
    have next : (mantissa : ℚ) + 1 ≤ 2 ^ (mantissa.log2 + 1) := by
      exact_mod_cast Nat.lt_log2_self
    linarith
  refine ⟨by omega, ?_, ?_⟩
  · calc place * 2 ^ exponent < 2 ^ (mantissa.log2 + 1) * 2 ^ exponent :=
          mul_lt_mul_of_pos_right log positive
      _ = 2 ^ ((mantissa.log2 : ℤ) + 1 + exponent) :=
          (zpow_eq_pow_mul two_ne_zero (by omega)).symm
      _ ≤ 2 ^ (53 + (exponent + count)) := zpow_le_zpow_right₀ one_le_two (by omega)
      _ = 2 ^ 53 * 2 ^ (exponent + count) := zpow_eq_pow_mul two_ne_zero (by omega)
  · by_cases least : exponent + count = -1074
    · exact .inl least
    · by_cases isZero : mantissa = 0
      · rw [isZero, Nat.log2_zero] at isCount
        omega
      · have digits : (2 : ℚ) ^ mantissa.log2 ≤ mantissa := by
          exact_mod_cast Nat.log2_self_le isZero
        right
        calc (2 : ℚ) ^ 52 * 2 ^ (exponent + count) = 2 ^ (52 + (exponent + count)) :=
              (zpow_eq_pow_mul two_ne_zero (by omega)).symm
          _ = 2 ^ mantissa.log2 * 2 ^ exponent := zpow_eq_pow_mul two_ne_zero (by omega)
          _ ≤ place * 2 ^ exponent :=
              mul_le_mul_of_nonneg_right (digits.trans above) positive.le

/-- A mantissa and an exponent that have room in the format. -/
def canonical (mantissa : ℕ) (exponent : ℤ) : Binary where
  mantissa := mantissa
  exponent := exponent
  tightBelow := mantissa = 2 ^ 52 ∧ exponent ≠ -1074

theorem canonical_normal {mantissa : ℕ} {exponent : ℤ} (least : -1074 ≤ exponent)
    (fits : mantissa < 2 ^ 53) (full : exponent = -1074 ∨ 2 ^ 52 ≤ mantissa) :
    (canonical mantissa exponent).Normal :=
  ⟨least, fits, full, decide_eq_true_iff⟩

theorem shiftToTargetExponent_eq {mantissa : ℕ} {exponent : ℤ} (accuracy : Accuracy) {count : ℕ}
    (isCount : (max ((mantissa.log2 : ℤ) + exponent - 52) (-1074) - exponent).toNat = count) :
    shiftToTargetExponent Format.binary64 mantissa exponent accuracy =
      (ExtendedMantissa.ofMantissaAndAccuracy mantissa accuracy >>> count, exponent + count) := by
  unfold shiftToTargetExponent shiftToExponent
  dsimp only
  rw [targetExponent_eq, totalExponent_eq, ← isCount,
    show (mantissa.log2 : ℤ) + 1 + exponent - 53 = mantissa.log2 + exponent - 52 by ring]

/-- After rounding a mantissa may have one digit too many; it is then shifted once more, and nothing
is lost. -/
theorem shift_rounded {mantissa : ℕ} {exponent : ℤ} (fits : mantissa ≤ 2 ^ 53)
    (least : -1074 ≤ exponent) (full : exponent = -1074 ∨ 2 ^ 52 ≤ mantissa) :
    ∃ number : Binary, number.Normal ∧
      (number.order : ℤ) = (exponent + 1074) * 2 ^ 52 + mantissa ∧
      (shiftToTargetExponent Format.binary64 mantissa exponent .exact).1.mantissa =
        number.mantissa ∧
      (shiftToTargetExponent Format.binary64 mantissa exponent .exact).2 = number.exponent := by
  obtain less | rfl := lt_or_eq_of_le fits
  · have normal := canonical_normal least less full
    have digits : mantissa.log2 ≤ 52 := by
      by_cases isZero : mantissa = 0
      · rw [isZero]
        decide
      · exact Nat.le_of_lt_succ ((Nat.log2_lt isZero).2 less)
    refine ⟨canonical mantissa exponent, normal, Binary.order_cast normal, ?_⟩
    have none : (max ((mantissa.log2 : ℤ) + exponent - 52) (-1074) - exponent).toNat = 0 := by
      omega
    rw [shiftToTargetExponent_eq .exact none, Nat.cast_zero, add_zero]
    exact ⟨rfl, rfl⟩
  · have normal : (canonical (2 ^ 52) (exponent + 1)).Normal :=
      canonical_normal (by omega) (by norm_num) (.inr le_rfl)
    refine ⟨canonical (2 ^ 52) (exponent + 1), normal, ?_, ?_⟩
    · rw [Binary.order_cast normal]
      simp only [canonical]
      push_cast
      ring
    · have one : (max (((2 ^ 53 : ℕ).log2 : ℤ) + exponent - 52) (-1074) - exponent).toNat = 1 := by
        rw [Nat.log2_two_pow]
        omega
      rw [shiftToTargetExponent_eq .exact one, Nat.cast_one]
      exact ⟨rfl, rfl⟩

/-- Rounding leads to the number that the magnitude rounds to. -/
theorem roundWithAccuracy_rounds (negative : Bool) (exponent : ℤ) {mantissa : ℕ}
    {accuracy : Accuracy} (stands : StandsFor mantissa accuracy place)
    (enough : 52 ≤ mantissa.log2 ∨ exponent ≤ -1074) :
    ∃ number : Binary, number.Normal ∧ Rounds (place * 2 ^ exponent) number.order ∧
      roundWithAccuracy Format.binary64 (signOf negative) mantissa exponent accuracy =
        unpacked negative number := by
  obtain ⟨count, isCount⟩ : ∃ count : ℕ,
      (count : ℤ) = max ((mantissa.log2 : ℤ) + exponent - 52) (-1074) - exponent :=
    ⟨(max ((mantissa.log2 : ℤ) + exponent - 52) (-1074) - exponent).toNat, by omega⟩
  have isMantissa :
      (ExtendedMantissa.ofMantissaAndAccuracy mantissa accuracy).mantissa = mantissa := by
    unfold ExtendedMantissa.ofMantissaAndAccuracy
    split <;> rfl
  have above := stands.above
  have below := stands.below
  rw [isMantissa] at above below
  have binade := binade_of_shift isCount above below
  have nearest := (stands.shift count).nearest
  have isPlace : place / 2 ^ count = place * 2 ^ exponent / 2 ^ (exponent + count) := by
    rw [zpow_add₀ two_ne_zero, zpow_natCast]
    field_simp
  rw [isPlace] at nearest
  set rounded :=
    (ExtendedMantissa.ofMantissaAndAccuracy mantissa accuracy >>> count).roundedMantissa with
    isRounded
  have positive := two_zpow_pos (exponent + count)
  have fits : rounded ≤ 2 ^ 53 := nearest.le_of_lt (by
    rw [div_lt_iff₀ positive]
    exact_mod_cast binade.below)
  have full : exponent + count = -1074 ∨ 2 ^ 52 ≤ rounded := binade.above.imp_right fun reaches =>
    nearest.le_of_le (by
      rw [le_div_iff₀ positive]
      exact_mod_cast reaches)
  obtain ⟨number, normal, isOrder, isNumber, isExponent⟩ := shift_rounded fits binade.least full
  refine ⟨number, normal, ⟨exponent + count, rounded, binade, nearest, isOrder⟩, ?_⟩
  have first := shiftToTargetExponent_eq accuracy (show (max ((mantissa.log2 : ℤ) + exponent - 52)
    (-1074) - exponent).toNat = count by omega)
  unfold roundWithAccuracy
  rw [first]
  dsimp only
  by_cases isZero : number.mantissa = 0
  · rw [dif_pos (isNumber.trans isZero), unpacked, dif_pos isZero]
  · rw [dif_neg fun none => isZero (isNumber.symm.trans none), unpacked, dif_neg isZero]
    exact finite_congr isNumber isExponent

/-! ### Arithmetic -/

theorem two_zpow_shift (count : ℕ) (exponent : ℤ) :
    (2 : ℚ) ^ exponent = 2 ^ count * 2 ^ (exponent - count) :=
  zpow_eq_pow_mul two_ne_zero (by omega)

/-- A quotient has enough digits to be rounded. -/
theorem quotient_enough {numerator denominator count : ℕ} (positive : numerator ≠ 0)
    (positiveBelow : denominator ≠ 0)
    (shifted : denominator.log2 + 53 ≤ numerator.log2 + count) :
    52 ≤ ((numerator <<< count) / denominator).log2 := by
  have below : denominator * 2 ^ 52 ≤ numerator <<< count := by
    rw [Nat.shiftLeft_eq]
    calc denominator * 2 ^ 52 ≤ 2 ^ (denominator.log2 + 1) * 2 ^ 52 :=
          Nat.mul_le_mul_right _ Nat.lt_log2_self.le
      _ = 2 ^ (denominator.log2 + 53) := by rw [← pow_add]
      _ ≤ 2 ^ (numerator.log2 + count) := Nat.pow_le_pow_right (by decide) shifted
      _ = 2 ^ numerator.log2 * 2 ^ count := pow_add ..
      _ ≤ numerator * 2 ^ count := Nat.mul_le_mul_right _ (Nat.log2_self_le positive)
  have reaches : 2 ^ 52 ≤ (numerator <<< count) / denominator :=
    (Nat.le_div_iff_mul_le (Nat.pos_of_ne_zero positiveBelow)).2 (by rwa [mul_comm])
  exact (Nat.le_log2 (by omega)).2 reaches

/-- Division leads to the number that the quotient rounds to. -/
theorem div_rounds (exponent exponentBelow : ℤ) {numerator denominator : ℕ}
    (positive : 0 < numerator) (positiveBelow : 0 < denominator) :
    ∃ number : Binary, number.Normal ∧
      Rounds (numerator * 2 ^ exponent / (denominator * 2 ^ exponentBelow)) number.order ∧
      UnpackedFloat.div Format.binary64 (.finite .positive numerator exponent positive)
        (.finite .positive denominator exponentBelow positiveBelow) = unpacked false number := by
  set target := min (exponent - exponentBelow) (Format.binary64.targetExponent
    (totalExponent numerator exponent - totalExponent denominator exponentBelow)) with isTarget
  set count := (exponent - exponentBelow - target).toNat with isCount
  have isShift : target = exponent - exponentBelow - count := by
    have := min_le_left (exponent - exponentBelow) (Format.binary64.targetExponent
      (totalExponent numerator exponent - totalExponent denominator exponentBelow))
    omega
  have stands := standsFor_fraction (numerator <<< count) positiveBelow
  have enough : 52 ≤ ((numerator <<< count) / denominator).log2 ∨ target ≤ -1074 := by
    rw [targetExponent_eq, totalExponent_eq, totalExponent_eq] at isTarget
    by_cases least : target ≤ -1074
    · exact .inr least
    · exact .inl (quotient_enough positive.ne' positiveBelow.ne' (by omega))
  obtain ⟨number, normal, rounds, isNumber⟩ := roundWithAccuracy_rounds false _ stands enough
  refine ⟨number, normal, ?_, isNumber⟩
  have isPlace : (numerator : ℚ) * 2 ^ exponent / (denominator * 2 ^ exponentBelow) =
      ((numerator <<< count : ℕ) : ℚ) / denominator * 2 ^ target := by
    have isExponent : (2 : ℚ) ^ exponent = 2 ^ count * 2 ^ target * 2 ^ exponentBelow := by
      rw [mul_assoc, ← zpow_add₀ two_ne_zero]
      exact zpow_eq_pow_mul two_ne_zero (by omega)
    rw [isExponent, Nat.shiftLeft_eq]
    push_cast
    field_simp
  rw [isPlace]
  exact rounds

/-- A natural number is turned into the number that it rounds to. -/
theorem ofNat_rounds {n : ℕ} (positive : 0 < n) :
    ∃ number : Binary, number.Normal ∧ Rounds n number.order ∧
      UnpackedFloat.ofNat Format.binary64 n = unpacked false number := by
  set count := (0 - Format.binary64.targetExponent (totalExponent n 0)).toNat with isCount
  have stands := standsFor_exact (n <<< count)
  have enough : 52 ≤ (n <<< count).log2 ∨ (0 - count : ℤ) ≤ -1074 := by
    rw [targetExponent_eq, totalExponent_eq] at isCount
    refine .inl ((Nat.le_log2 (by simp [positive.ne'])).2 ?_)
    rw [Nat.shiftLeft_eq]
    calc 2 ^ 52 ≤ 2 ^ (n.log2 + count) := Nat.pow_le_pow_right (by decide) (by omega)
      _ = 2 ^ n.log2 * 2 ^ count := pow_add ..
      _ ≤ n * 2 ^ count := Nat.mul_le_mul_right _ (Nat.log2_self_le positive.ne')
  obtain ⟨number, normal, rounds, isNumber⟩ := roundWithAccuracy_rounds false _ stands enough
  refine ⟨number, normal, ?_, ?_⟩
  · have isPlace : (n : ℚ) = ((n <<< count : ℕ) : ℚ) * 2 ^ (0 - count : ℤ) := by
      rw [Nat.shiftLeft_eq, Nat.cast_mul, Nat.cast_pow, Nat.cast_ofNat, mul_assoc,
        ← two_zpow_shift, zpow_zero, mul_one]
    rw [isPlace]
    exact rounds
  · rw [← isNumber]
    unfold UnpackedFloat.ofNat UnpackedFloat.ofInt UnpackedFloat.normalize
    rw [Int.compare_eq_gt.mpr (by omega)]
    rfl

/-! ### Exact numbers -/

/-- A natural number of at most fifty-three binary digits is a number. -/
theorem exists_value {n : ℕ} (positive : 0 < n) (fits : n < 2 ^ 53) :
    ∃ number : Binary, number.Normal ∧ number.mantissa ≠ 0 ∧ number.exponent ≤ 0 ∧
      number.value = n := by
  have digits : n.log2 ≤ 52 := Nat.le_of_lt_succ ((Nat.log2_lt positive.ne').2 fits)
  have full : 2 ^ 52 ≤ n * 2 ^ (52 - n.log2) := by
    calc 2 ^ 52 = 2 ^ n.log2 * 2 ^ (52 - n.log2) := by
          rw [← pow_add]
          congr 1
          omega
      _ ≤ n * 2 ^ (52 - n.log2) := Nat.mul_le_mul_right _ (Nat.log2_self_le positive.ne')
  have room : n * 2 ^ (52 - n.log2) < 2 ^ 53 := by
    calc n * 2 ^ (52 - n.log2) < 2 ^ (n.log2 + 1) * 2 ^ (52 - n.log2) :=
          Nat.mul_lt_mul_of_pos_right Nat.lt_log2_self (by positivity)
      _ = 2 ^ 53 := by
          rw [← pow_add]
          congr 1
          omega
  refine ⟨canonical (n * 2 ^ (52 - n.log2)) (0 - (52 - n.log2 : ℕ)),
    canonical_normal (by omega) room (.inr full), ?_, ?_, ?_⟩
  · simp only [canonical]
    omega
  · simp only [canonical]
    omega
  · simp only [Binary.value, canonical]
    rw [Nat.cast_mul, Nat.cast_pow, Nat.cast_ofNat, mul_assoc, ← two_zpow_shift, zpow_zero, mul_one]

/-- What a number rounds to is the number itself. -/
theorem eq_of_rounds_value {number other : Binary} (normal : number.Normal)
    (normalOther : other.Normal) (nonzero : other.mantissa ≠ 0)
    (rounds : Rounds other.value number.order) : number = other :=
  normal.eq_of_order normalOther
    (rounds.unique ((Binary.reads_value nonzero).rounds normalOther))

/-- A natural number of at most fifty-three binary digits is turned into itself. -/
theorem ofNat_exact {n : ℕ} (positive : 0 < n) (fits : n < 2 ^ 53) :
    ∃ number : Binary, number.Normal ∧ number.order < 2047 * 2 ^ 52 ∧ number.mantissa ≠ 0 ∧
      number.value = n ∧ UnpackedFloat.ofNat Format.binary64 n = unpacked false number := by
  obtain ⟨number, normal, rounds, isNumber⟩ := ofNat_rounds positive
  obtain ⟨exact, normalExact, nonzero, small, isValue⟩ := exists_value positive fits
  rw [← isValue] at rounds
  obtain rfl := eq_of_rounds_value normal normalExact nonzero rounds
  refine ⟨number, normal, ?_, nonzero, isValue, isNumber⟩
  have isOrder := Binary.order_cast normal
  have fitsMantissa := normal.fits
  omega

/-- A power of ten of the table. -/
def tablePower (power : Fin 23) : Float :=
  getElem Float.exactlyRepresentablePowersOfTen power.val power.isLt

/-- The powers of ten of the table are exact. -/
theorem tablePower_exact : ∀ power : Fin 23,
    let fields := Fields.ofBits (tablePower power).toBits
    let number := Binary.ofFields fields
    fields.isSpecial = false ∧ fields.negative = false ∧ -52 ≤ number.exponent ∧
      number.mantissa * 2 ^ (number.exponent + 52).toNat = 10 ^ power.val * 2 ^ 52 := by
  decide +kernel

/-- A power of ten of the table is unpacked into a number of this value. -/
theorem unpack_tablePower (power : Fin 23) :
    ∃ number : Binary, number.mantissa ≠ 0 ∧ number.value = 10 ^ power.val ∧
      (tablePower power).toModel.unpack = unpacked false number := by
  obtain ⟨finite, positive, integral, isPower⟩ := tablePower_exact power
  set number := Binary.ofFields (.ofBits (tablePower power).toBits) with isNumber
  refine ⟨number, ?_, ?_, ?_⟩
  · intro isZero
    rw [isZero, Nat.zero_mul] at isPower
    exact absurd isPower.symm (by positivity)
  · have isPowerCast : (number.mantissa : ℚ) * 2 ^ (number.exponent + 52).toNat =
        10 ^ power.val * 2 ^ 52 := by exact_mod_cast isPower
    have split : (2 : ℚ) ^ (number.exponent + 52).toNat = 2 ^ number.exponent * 2 ^ 52 :=
      pow_eq_zpow_mul two_ne_zero (by omega)
    rw [split, ← mul_assoc] at isPowerCast
    exact mul_right_cancel₀ (by positivity) isPowerCast
  · rw [Float.Model.unpack]
    exact (unpack_finite finite).trans (by rw [positive])

theorem unpacked_positive {number : Binary} (nonzero : number.mantissa ≠ 0) :
    unpacked false number =
      .finite .positive number.mantissa number.exponent (Nat.pos_of_ne_zero nonzero) :=
  dif_neg nonzero

/-! ### Numerals -/

/-- Whether a result of arithmetic is the number that a magnitude rounds to. -/
def Yields (result : UnpackedFloat) (place : ℚ) : Prop :=
  ∃ number : Binary, number.Normal ∧ Rounds place number.order ∧ result = unpacked false number

/-- A result that is rounded correctly is packed into the bit pattern that is counted in its
place. -/
theorem Yields.toBits {result : UnpackedFloat} {order : ℕ} (yields : Yields result place)
    (rounds : Rounds place order) (finite : order < 2047 * 2 ^ 52) :
    (Float.Model.pack result).toBits.toNat = order := by
  obtain ⟨number, normal, isRounded, rfl⟩ := yields
  obtain rfl := isRounded.unique rounds
  rw [toNat_toBits_pack _ normal finite]
  exact Nat.zero_add _

/-- What is too small for half the least number is read as zero. -/
theorem yields_zero (nonneg : 0 ≤ place) (small : place < 2 ^ (-1075 : ℤ)) :
    Yields (.zero .positive) place := by
  refine ⟨canonical 0 (-1074), canonical_normal le_rfl (by norm_num) (.inl rfl), ?_, rfl⟩
  have half : (2 : ℚ) ^ (-1074 : ℤ) = 2 * 2 ^ (-1075 : ℤ) := by
    rw [← zpow_one_add₀ two_ne_zero]
    norm_num
  have positive := two_zpow_pos (-1074)
  refine ⟨-1074, 0, ⟨le_rfl, ?_, .inl rfl⟩, ⟨?_, ?_, fun _ => rfl⟩, rfl⟩
  · linarith
  · rw [Nat.cast_zero, zero_sub]
    have : 0 ≤ place / 2 ^ (-1074 : ℤ) := by positivity
    linarith
  · rw [Nat.cast_zero, zero_add, div_le_iff₀ positive]
    linarith

/-- Zero is read as zero. -/
theorem yields_zero_self : Yields (.zero .positive) 0 :=
  yields_zero le_rfl (two_zpow_pos _)

/-- Dividing by a power of ten of the table is rounded once. -/
theorem div_tablePower_yields {value : ℕ} (fits : value < 2 ^ 53) (power : Fin 23) :
    Yields (UnpackedFloat.div Format.binary64 (Float.Model.ofNat value).unpack
      (tablePower power).toModel.unpack) (value / 10 ^ power.val) := by
  obtain ⟨numberBelow, nonzeroBelow, isPower, isBelow⟩ := unpack_tablePower power
  rw [isBelow, unpacked_positive nonzeroBelow, ← isPower]
  obtain rfl | positive := Nat.eq_zero_or_pos value
  · have normal : (canonical 0 (-1074)).Normal :=
      canonical_normal le_rfl (by norm_num) (.inl rfl)
    have isZero : (Float.Model.ofNat 0).unpack = .zero .positive :=
      @unpack_pack false (canonical 0 (-1074)) normal (by decide)
    rw [isZero, Nat.cast_zero, zero_div]
    exact yields_zero_self
  · obtain ⟨number, normal, finite, nonzero, isValue, isNumber⟩ := ofNat_exact positive fits
    have isAbove : (Float.Model.ofNat value).unpack = unpacked false number := by
      rw [Float.Model.ofNat, isNumber, unpack_pack _ normal finite]
    rw [isAbove, unpacked_positive nonzero, ← isValue]
    exact div_rounds _ _ (Nat.pos_of_ne_zero nonzero) (Nat.pos_of_ne_zero nonzeroBelow)

/-- A decimal with so many places and so few digits is too small for half the least number. -/
theorem decimal_small {value places : ℕ} (many : 2 ^ 11 + value.log2 < places) :
    (value : ℚ) / 10 ^ places < 2 ^ (-1075 : ℤ) := by
  have few : (value : ℚ) < 2 ^ (value.log2 + 1) := by exact_mod_cast Nat.lt_log2_self
  have deep : (2 : ℚ) ^ places ≤ 10 ^ places := pow_le_pow_left₀ (by norm_num) (by norm_num) _
  rw [div_lt_iff₀ (by positivity)]
  calc (value : ℚ) < 2 ^ (value.log2 + 1) := few
    _ = 2 ^ ((value.log2 : ℤ) + 1) := by norm_cast
    _ ≤ 2 ^ (-1075 + (places : ℤ)) := zpow_le_zpow_right₀ one_le_two (by omega)
    _ = 2 ^ (-1075 : ℤ) * 2 ^ places := by rw [zpow_add₀ two_ne_zero, zpow_natCast]
    _ ≤ 2 ^ (-1075 : ℤ) * 10 ^ places := mul_le_mul_of_nonneg_left deep (two_zpow_pos _).le

/-- A decimal of any length is rounded once. -/
theorem ofScientific_yields (value places : ℕ) :
    Yields (UnpackedFloat.ofScientific Format.binary64 value (-(places : ℤ)))
      (value / 10 ^ places) := by
  unfold UnpackedFloat.ofScientific
  obtain rfl | positive := Nat.eq_zero_or_pos value
  · rw [dif_pos rfl, Nat.cast_zero, zero_div]
    exact yields_zero_self
  have range : (2 : ℤ) ^ Format.binary64.exponentBits = 2048 := rfl
  rw [dif_neg positive.ne', range, if_neg (by omega)]
  by_cases many : -(places : ℤ) < -(2048 + value.log2)
  · rw [if_pos many]
    exact yields_zero (by positivity) (decimal_small (by omega))
  rw [if_neg many]
  by_cases whole : 0 ≤ -(places : ℤ)
  · obtain rfl : places = 0 := by omega
    have stands := standsFor_exact (value <<< 53 * 10 ^ 0)
    have enough : 52 ≤ (value <<< 53 * 10 ^ 0).log2 := by
      rw [pow_zero, mul_one, Nat.le_log2 (by simp [positive.ne']), Nat.shiftLeft_eq]
      exact Nat.le_trans (by norm_num) (Nat.le_mul_of_pos_left (2 ^ 53) positive)
    have rounded := roundWithAccuracy_rounds false (-53 + 0) stands (.inl enough)
    have isPlace : (value : ℚ) / (10 : ℚ) ^ 0 =
        ((value <<< 53 * 10 ^ 0 : ℕ) : ℚ) * 2 ^ (-53 + 0 : ℤ) := by
      rw [Nat.shiftLeft_eq]
      push_cast
      norm_num
      ring
    rw [if_pos whole, isPlace]
    exact rounded
  · have positiveBelow : 0 < 10 ^ places := Nat.pow_pos (by decide)
    have quotient := div_rounds 0 0 positive positiveBelow
    rw [zpow_zero, mul_one, mul_one, Nat.cast_pow, Nat.cast_ofNat] at quotient
    have isPlaces : (- -(places : ℤ)).toNat = places := by omega
    have isDivisor : UnpackedFloat.finite .positive (10 ^ (- -(places : ℤ)).toNat) 0
        (Nat.pow_pos (by decide)) = .finite .positive (10 ^ places) 0 positiveBelow :=
      finite_congr (congrArg (10 ^ ·) isPlaces) rfl
    rw [if_neg whole, isDivisor]
    exact quotient

/-- The number that is made of digits is the one that their decimal rounds to. -/
theorem toBits_ofScientific {value places order : ℕ}
    (rounds : Rounds ((value : ℚ) / 10 ^ places) order) (finite : order < 2047 * 2 ^ 52) :
    (Float.ofScientific value true places).toBits.toNat = order := by
  unfold Float.ofScientific
  split
  · rename_i fast
    have inside : value < UInt64.size := fast.1.trans (by decide)
    have isValue : Float.Model.ofUInt64 value.toUInt64 = Float.Model.ofNat value :=
      congrArg Float.Model.ofNat (UInt64.toNat_ofNat_of_lt' inside)
    have yields := div_tablePower_yields fast.1 ⟨places, Nat.lt_succ_of_le fast.2⟩
    rw [← isValue] at yields
    exact yields.toBits rounds finite
  · exact (ofScientific_yields value places).toBits rounds finite

end LoxLang.Reading
