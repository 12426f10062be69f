/-
Module: LoxLang.Proofs.Number.Packing
Purpose: The logical model of binary64 numbers in terms of their fields.  A finite number is
  unpacked into the mantissa and the exponent that its fields stand for, and it is packed into the
  bit pattern in whose place its magnitude is counted.
Main exports: Packing.unpacked, Packing.unpack_finite, Packing.unpack_pack,
  Number.toNat_toBits_neg, Number.eq_of_sameBits
-/
import LoxLang.Proofs.Number.Rounding
import LoxLang.Number

namespace LoxLang

open Float.Model (Format UnpackedFloat)
open Float.Model.UnpackedFloat

namespace Packing

/-! ### The parts of a bit pattern -/

theorem toNat_packComponents (sign : Sign) (exponent : BitVec 11) (mantissa : BitVec 52) :
    (packComponents Format.binary64 sign exponent mantissa).toNat =
      sign.toBitVec.toNat * 2 ^ 63 + (exponent.toNat * 2 ^ 52 + mantissa.toNat) := by
  have insideExponent := exponent.isLt
  have insideMantissa := mantissa.isLt
  have isWhole : (packComponents Format.binary64 sign exponent mantissa).toNat =
      ((sign.toBitVec.toNat <<< 11 ||| exponent.toNat) <<< 52) ||| mantissa.toNat := by
    unfold packComponents
    rw [BitVec.toNat_append, BitVec.toNat_append]
  rw [isWhole, ← Nat.shiftLeft_add_eq_or_of_lt insideExponent,
    ← Nat.shiftLeft_add_eq_or_of_lt insideMantissa, Nat.shiftLeft_eq, Nat.shiftLeft_eq]
  ring

theorem toNat_unpackExponent (bits : UInt64) :
    (@unpackExponent Format.binary64 bits.toBitVec).toNat =
      (Fields.ofBits bits).exponent := by
  unfold unpackExponent
  rw [BitVec.toNat_cast, BitVec.extractLsb_toNat, Nat.shiftRight_eq_div_pow]
  rfl

theorem toNat_unpackMantissa (bits : UInt64) :
    (@unpackMantissa Format.binary64 bits.toBitVec).toNat =
      (Fields.ofBits bits).fraction := by
  unfold unpackMantissa
  rw [BitVec.toNat_cast, BitVec.extractLsb_toNat, Nat.shiftRight_eq_div_pow]
  simp [Fields.ofBits]

theorem toNat_unpackSign (bits : UInt64) :
    (@unpackSign Format.binary64 bits.toBitVec).toNat =
      if (Fields.ofBits bits).negative then 1 else 0 := by
  have inside := bits.toNat_lt
  have isNegative : (Fields.ofBits bits).negative = true ↔ 2 ^ 63 ≤ bits.toNat :=
    decide_eq_true_iff
  unfold unpackSign
  rw [BitVec.toNat_cast, BitVec.extractLsb_toNat, Nat.shiftRight_eq_div_pow]
  simp only [isNegative]
  change bits.toNat / 2 ^ 63 % 2 = _
  split <;> omega

/-- The sign that a bit pattern has. -/
def signOf (negative : Bool) : Sign :=
  if negative then .negative else .positive

theorem ofBitVec_unpackSign (bits : UInt64) :
    Sign.ofBitVec (@unpackSign Format.binary64 bits.toBitVec) =
      signOf (Fields.ofBits bits).negative := by
  have isSign := toNat_unpackSign bits
  cases negative : (Fields.ofBits bits).negative with
  | true =>
      rw [negative] at isSign
      have isOne : @unpackSign Format.binary64 bits.toBitVec = 1#1 :=
        BitVec.eq_of_toNat_eq isSign
      rw [isOne]
      rfl
  | false =>
      rw [negative] at isSign
      have isZero : @unpackSign Format.binary64 bits.toBitVec = 0#1 :=
        BitVec.eq_of_toNat_eq isSign
      rw [isZero]
      rfl

theorem toNat_signOf (negative : Bool) :
    (signOf negative).toBitVec.toNat = if negative then 1 else 0 := by
  cases negative <;> rfl

/-! ### Unpacking and packing finite numbers -/

/-- A finite number as it is unpacked. -/
def unpacked (negative : Bool) (number : Binary) : UnpackedFloat :=
  if nonzero : number.mantissa = 0 then .zero (signOf negative)
  else .finite (signOf negative) number.mantissa number.exponent (Nat.pos_of_ne_zero nonzero)

theorem finite_congr {sign : Sign} {mantissa other : ℕ} {exponent exponentOther : ℤ}
    {positive : 0 < mantissa} {positiveOther : 0 < other} (sameMantissa : mantissa = other)
    (sameExponent : exponent = exponentOther) :
    UnpackedFloat.finite sign mantissa exponent positive =
      .finite sign other exponentOther positiveOther := by
  subst sameMantissa sameExponent
  rfl

/-- A finite bit pattern is unpacked into the number that its fields stand for. -/
theorem unpack_finite {bits : UInt64} (finite : (Fields.ofBits bits).isSpecial = false) :
    UnpackedFloat.unpack Format.binary64 bits.toBitVec =
      unpacked (Fields.ofBits bits).negative (.ofFields (.ofBits bits)) := by
  have notSpecial : (Fields.ofBits bits).exponent ≠ 2047 := of_decide_eq_false finite
  have isExponent := toNat_unpackExponent bits
  have isFraction := toNat_unpackMantissa bits
  have isZero : ∀ {n : ℕ} {part : BitVec n}, part = 0#n ↔ part.toNat = 0 := fun {n part} => by
    rw [← BitVec.toNat_inj, BitVec.toNat_zero]
  have notOnes : @unpackExponent Format.binary64 bits.toBitVec ≠ -1#11 := by
    intro isOnes
    rw [isOnes] at isExponent
    exact notSpecial isExponent.symm
  unfold UnpackedFloat.unpack
  dsimp only
  rw [if_neg notOnes, ofBitVec_unpackSign]
  by_cases small : (Fields.ofBits bits).exponent = 0
  · rw [if_pos (isZero.2 (isExponent.trans small)), Binary.ofFields, if_pos small]
    by_cases noFraction : (Fields.ofBits bits).fraction = 0
    · rw [dif_pos (isZero.2 (isFraction.trans noFraction)), unpacked, dif_pos noFraction]
    · have hasFraction : @unpackMantissa Format.binary64 bits.toBitVec ≠ 0#52 := fun none =>
        noFraction (isFraction.symm.trans (isZero.1 none))
      rw [dif_neg hasFraction, unpacked, dif_neg noFraction]
      refine finite_congr isFraction ?_
      rw [isExponent, small]
      rfl
  · have positive : @unpackExponent Format.binary64 bits.toBitVec ≠ 0#11 := fun none =>
      small (isExponent.symm.trans (isZero.1 none))
    have inside := Fields.fraction_lt bits
    have isWhole : (1#1 ++ @unpackMantissa Format.binary64 bits.toBitVec).toNat =
        (Fields.ofBits bits).fraction + twoPow 52 := by
      rw [BitVec.toNat_append, isFraction]
      change 1 <<< 52 ||| (Fields.ofBits bits).fraction = _
      rw [← Nat.shiftLeft_add_eq_or_of_lt inside, Nat.shiftLeft_eq, twoPow_eq]
      omega
    rw [if_neg positive, Binary.ofFields, if_neg small, unpacked, dif_neg (by simp [twoPow_eq])]
    refine finite_congr isWhole ?_
    rw [isExponent]
    rfl

/-- A finite number is packed into the bit pattern in whose place its magnitude is counted. -/
theorem toNat_pack {negative : Bool} {number : Binary} (normal : number.Normal)
    (finite : number.order < 2047 * 2 ^ 52) :
    (UnpackedFloat.pack Format.binary64 (unpacked negative number)).toNat =
      (if negative then 2 ^ 63 else 0) + number.order := by
  have isOrder := Binary.order_cast normal
  have least := normal.least
  have fits := normal.fits
  have full := normal.full
  have isSign : (signOf negative).toBitVec.toNat * 2 ^ 63 = if negative then 2 ^ 63 else 0 := by
    rw [toNat_signOf]
    split <;> rfl
  by_cases nonzero : number.mantissa = 0
  · have noOrder : number.order = 0 := by omega
    rw [unpacked, dif_pos nonzero]
    change (packComponents Format.binary64 (signOf negative) 0 0).toNat = _
    rw [toNat_packComponents, isSign, noOrder]
    rfl
  · rw [unpacked, dif_neg nonzero]
    have isBiased : (number.exponent + Format.binary64.exponentBias + (52 : ℕ)).toNat =
        (number.exponent + 1075).toNat := by
      rw [show (Format.binary64.exponentBias : ℤ) = 1023 from rfl]
      congr 1
      omega
    unfold UnpackedFloat.pack
    dsimp only
    rw [isBiased, if_neg (by norm_num; omega)]
    split
    · rename_i normalBits
      have isWidth : number.mantissa.log2 + 1 = 53 := normalBits
      have isFull := (Nat.log2_eq_iff nonzero).1 (Nat.succ.inj isWidth)
      rw [toNat_packComponents, isSign, BitVec.toNat_ofNat, BitVec.toNat_ofNat]
      omega
    · rename_i fewerBits
      have isLeast : number.exponent = -1074 := by
        refine full.resolve_right fun isFull => fewerBits ?_
        rw [(Nat.log2_eq_iff nonzero).2 ⟨isFull, fits⟩]
        rfl
      have isSmall : number.mantissa < 2 ^ 52 := by
        refine not_le.1 fun isFull => fewerBits ?_
        rw [(Nat.log2_eq_iff nonzero).2 ⟨isFull, fits⟩]
        rfl
      rw [toNat_packComponents, isSign, BitVec.toNat_ofNat, BitVec.toNat_ofNat]
      omega

/-- The fields of the bit pattern in whose place a magnitude is counted are those of the number. -/
theorem fields_of_toNat {bits : UInt64} {negative : Bool} {number : Binary}
    (normal : number.Normal) (finite : number.order < 2047 * 2 ^ 52)
    (isBits : bits.toNat = (if negative then 2 ^ 63 else 0) + number.order) :
    (Fields.ofBits bits).isSpecial = false ∧ (Fields.ofBits bits).negative = negative ∧
      Binary.ofFields (.ofBits bits) = number := by
  have isExponent : (Fields.ofBits bits).exponent = bits.toNat / 2 ^ 52 % 2 ^ 11 := rfl
  have isFraction : (Fields.ofBits bits).fraction = bits.toNat % 2 ^ 52 := rfl
  have isNegative : (Fields.ofBits bits).negative = true ↔ 2 ^ 63 ≤ bits.toNat :=
    decide_eq_true_iff
  refine ⟨decide_eq_false ?_, ?_, ?_⟩
  · rw [isExponent, isBits]
    split <;> omega
  · rw [Bool.eq_iff_iff, isNegative, isBits]
    split
    · simp_all
    · simp_all
      omega
  · refine (Fields.normal (Fields.fraction_lt bits)).eq_of_order normal ?_
    rw [Fields.order_eq, isExponent, isFraction, isBits]
    split <;> omega

theorem toNat_toBits_pack (negative : Bool) {number : Binary} (normal : number.Normal)
    (finite : number.order < 2047 * 2 ^ 52) :
    (Float.Model.pack (unpacked negative number)).toBits.toNat =
      (if negative then 2 ^ 63 else 0) + number.order :=
  toNat_pack normal finite

/-- Packing a finite number loses nothing. -/
theorem unpack_pack (negative : Bool) {number : Binary} (normal : number.Normal)
    (finite : number.order < 2047 * 2 ^ 52) :
    (Float.Model.pack (unpacked negative number)).unpack = unpacked negative number := by
  obtain ⟨notSpecial, isSign, isNumber⟩ :=
    fields_of_toNat normal finite (toNat_toBits_pack negative normal finite)
  rw [Float.Model.unpack, unpack_finite notSpecial, isSign, isNumber]

theorem neg_unpacked (negative : Bool) (number : Binary) :
    (unpacked negative number).neg = unpacked (!negative) number := by
  by_cases isZero : number.mantissa = 0
  · rw [unpacked, unpacked, dif_pos isZero, dif_pos isZero]
    cases negative <;> rfl
  · rw [unpacked, unpacked, dif_neg isZero, dif_neg isZero]
    cases negative <;> rfl

/-- The magnitude of a finite bit pattern is counted below that of infinity. -/
theorem order_lt {bits : UInt64} (finite : (Fields.ofBits bits).isSpecial = false) :
    (Binary.ofFields (.ofBits bits)).order < 2047 * 2 ^ 52 := by
  have notSpecial : (Fields.ofBits bits).exponent ≠ 2047 := of_decide_eq_false finite
  have insideExponent := Fields.exponent_lt bits
  have insideFraction := Fields.fraction_lt bits
  rw [Fields.order_eq]
  omega

end Packing

namespace Number

open Packing

/-- Taking the opposite of a finite number changes its sign bit only. -/
theorem toNat_toBits_neg {number : Float}
    (finite : (Fields.ofBits number.toBits).isSpecial = false) :
    (-number).toBits.toNat =
      (if (Fields.ofBits number.toBits).negative then 0 else 2 ^ 63) +
        (Binary.ofFields (.ofBits number.toBits)).order := by
  have normal := Fields.normal (Fields.fraction_lt number.toBits)
  change (Float.Model.pack number.toModel.unpack.neg).toBits.toNat = _
  rw [Float.Model.unpack, show number.toModel.toBits = number.toBits from rfl,
    unpack_finite finite, neg_unpacked, toNat_toBits_pack _ normal (order_lt finite)]
  cases (Fields.ofBits number.toBits).negative <;> rfl

/-- The bit pattern of no number is the same for all of them. -/
theorem toBitVec_of_isNaN {number : Float} (isNaN : (Fields.ofBits number.toBits).isNaN = true) :
    number.toBits.toBitVec = UnpackedFloat.packedNaN Format.binary64 := by
  obtain ⟨special, hasFraction⟩ := Bool.and_eq_true_iff.1 isNaN
  refine number.toModel.valid.eq_packedNaN ?_ ?_
  · refine BitVec.eq_of_toNat_eq ?_
    exact (toNat_unpackExponent number.toBits).trans (of_decide_eq_true special)
  · intro isZero
    have noFraction :=
      (toNat_unpackMantissa number.toBits).symm.trans (congrArg BitVec.toNat isZero)
    exact of_decide_eq_true hasFraction noFraction

/-- Numbers whose bit patterns stand for the same number are equal. -/
theorem eq_of_sameBits {number other : Float}
    (same : Number.sameBits number.toBits other.toBits = true) : number = other := by
  have sameBits : number.toBits = other.toBits := by
    unfold Number.sameBits at same
    dsimp only at same
    split at same
    · obtain ⟨isNaN, isNaNOther⟩ := Bool.and_eq_true_iff.1 same
      rw [← UInt64.toBitVec_inj, toBitVec_of_isNaN isNaN, toBitVec_of_isNaN isNaNOther]
    · exact beq_iff_eq.1 same
  cases number with
  | ofModel model =>
      cases other with
      | ofModel modelOther =>
          cases model
          cases modelOther
          cases sameBits
          rfl

end Number

end LoxLang
