/-
Module: LoxLang.Proofs.Number.Writing
Purpose: The texts of numbers.  What a program prints and what a listing shows for a finite number
  denote the same decimal, which reads back as the number, so different numbers have different
  texts.  Programs print numbers between a thousandth and ten million with all their places and
  others with an exponent.
Main exports: Numeral.Positional, Numeral.Scientific, Binary.shown, Layout.value_writeBits,
  Layout.writeBits_eq_iff, Number.printed_form
-/
import LoxLang.Number
import LoxLang.Proofs.Number.Numeral

namespace LoxLang

/-! ### First and last digits -/

namespace Decimal

theorem digitChars_ne_nil (n : ℕ) : digitChars n ≠ [] :=
  Nat.toDigits_ne_nil

theorem digitChars_head (n : ℕ) (positive : 0 < n) : (digitChars n).head? ≠ some '0' := by
  induction n using Nat.strongRecOn with
  | ind n ih =>
      rw [digitChars, Nat.toDigits_eq_if (by decide)]
      split
      · rename_i small
        rw [List.head?_cons, ne_eq, Option.some_inj, Nat.digitChar_eq_zero]
        exact positive.ne'
      · rw [List.head?_append_of_ne_nil _ Nat.toDigits_ne_nil]
        exact ih (n / 10) (by omega) (by omega)

theorem digitChars_last {n : ℕ} (stripped : n % 10 ≠ 0) :
    (digitChars n).getLast? ≠ some '0' := by
  rw [digitChars, Nat.toDigits_eq_if (by decide)]
  split
  · rename_i small
    rw [List.getLast?_singleton, ne_eq, Option.some_inj, Nat.digitChar_eq_zero]
    omega
  · rw [List.getLast?_append_of_ne_nil _ (List.cons_ne_nil _ _), List.getLast?_singleton, ne_eq,
      Option.some_inj, Nat.digitChar_eq_zero]
    exact stripped

end Decimal

/-! ### Two ways to write a decimal -/

namespace Numeral

/-- Whether a text is digits, with a point and more digits behind them if these do not end in a
zero: no zero is in front but a single one, and no fraction is empty. -/
def Positional (text : List Char) : Prop :=
  ∃ whole fraction, Digits whole ∧ Digits fraction ∧ whole ≠ [] ∧
    (whole.head? = some '0' → whole = ['0']) ∧ fraction.getLast? ≠ some '0' ∧
    text = whole ++ Layout.fraction false fraction

/-- Whether a text is one digit other than zero, a point, at least one digit and an exponent: a zero
ends the digits behind the point only if it is the only one. -/
def Scientific (text : List Char) : Prop :=
  ∃ first fraction, ∃ exponent : ℤ, first.isDigit = true ∧ first ≠ '0' ∧ Digits fraction ∧
    fraction ≠ [] ∧ (fraction = ['0'] ∨ fraction.getLast? ≠ some '0') ∧
    text = first :: '.' :: (fraction ++ 'E' :: exponent.repr.toList)

theorem Positional.isMantissa {text : List Char} (positional : Positional text) :
    ∀ c ∈ text, Numeral.isMantissa c = true := by
  obtain ⟨whole, fraction, digits, digitsFraction, -, -, -, rfl⟩ := positional
  intro c member
  obtain inWhole | inPoint := List.mem_append.1 member
  · exact digits.isMantissa _ inWhole
  · exact point_isMantissa digitsFraction _ inPoint

/-- No text is written in both ways. -/
theorem Positional.not_scientific {text : List Char} (positional : Positional text) :
    ¬Scientific text := by
  rintro ⟨first, fraction, exponent, -, -, -, -, -, rfl⟩
  exact absurd (positional.isMantissa 'E' (by simp)) (by decide)

end Numeral

namespace Layout

variable {layout : Layout} {digits : List Char} {lead : ℤ}

/-- A decimal is written with all its places. -/
theorem positional_form (noFraction : layout.integralFraction = false)
    (isDigits : Numeral.Digits digits) (nonempty : digits ≠ [])
    (isFirst : digits.head? ≠ some '0') (isLast : digits.getLast? ≠ some '0') :
    Numeral.Positional (layout.positional digits lead) := by
  unfold positional
  split
  · refine ⟨['0'], List.replicate (-lead - 1).toNat '0' ++ digits,
      List.forall_mem_singleton.2 rfl, (Numeral.digits_replicate _).append isDigits,
      List.cons_ne_nil _ _, fun _ => rfl, ?_, ?_⟩
    · rwa [List.getLast?_append_of_ne_nil _ nonempty]
    · rw [fraction_of_ne_nil (by simp [nonempty])]
      rfl
  · dsimp only
    rw [noFraction]
    refine ⟨_, _, Numeral.Digits.append (fun c member => isDigits c (List.mem_of_mem_take member))
      (Numeral.digits_replicate _), fun c member => isDigits c (List.mem_of_mem_drop member),
      ?_, ?_, ?_, rfl⟩
    · cases digits with
      | nil => exact absurd rfl nonempty
      | cons c digits => simp
    · cases digits with
      | nil => exact absurd rfl nonempty
      | cons c digits => exact fun isZero => absurd isZero isFirst
    · rw [List.getLast?_drop]
      split
      · exact nofun
      · exact isLast

/-- An exponent is written as a number without superfluous zeros. -/
theorem exponent_repr (lead : ℤ) :
    (if lead < 0 then ['-'] else []) ++ padLeft 1 (Decimal.digitChars lead.natAbs) =
      lead.repr.toList := by
  have noZeros : padLeft 1 (Decimal.digitChars lead.natAbs) = Decimal.digitChars lead.natAbs := by
    have enough : 1 - (Decimal.digitChars lead.natAbs).length = 0 :=
      Nat.sub_eq_zero_of_le Nat.length_toDigits_pos
    rw [padLeft, enough]
    rfl
  rw [noZeros, Int.repr_eq_if]
  split
  · rw [if_neg (by omega), String.toList_append, Nat.toList_repr, Decimal.digitChars,
      show lead.natAbs = (-lead).toNat by omega]
    rfl
  · rw [if_pos (by omega), Nat.toList_repr, Decimal.digitChars,
      show lead.natAbs = lead.toNat by omega]
    rfl

/-- A decimal is written with an exponent. -/
theorem scientific_form (isDigits : Numeral.Digits digits) (nonempty : digits ≠ [])
    (isFirst : digits.head? ≠ some '0') (isLast : digits.getLast? ≠ some '0') :
    Numeral.Scientific (Number.printed.scientific digits lead) := by
  have isExponent := exponent_repr lead
  obtain ⟨first, rest, rfl⟩ := List.exists_cons_of_ne_nil nonempty
  obtain ⟨firstDigit, restDigits⟩ := List.forall_mem_cons.1 isDigits
  have notZero : first ≠ '0' := fun isZero => isFirst (congrArg some isZero)
  cases rest with
  | nil =>
      refine ⟨first, ['0'], lead, firstDigit, notZero, List.forall_mem_singleton.2 rfl,
        List.cons_ne_nil _ _, .inl rfl, ?_⟩
      rw [← isExponent]
      rfl
  | cons second rest =>
      refine ⟨first, second :: rest, lead, firstDigit, notZero, restDigits, List.cons_ne_nil _ _,
        .inr ?_, ?_⟩
      · rwa [List.getLast?_cons_cons] at isLast
      · rw [← isExponent]
        simp [scientific, Number.printed, fraction]

end Layout

/-! ### Numbers and decimals -/

namespace Binary

/-- The decimal that is written for a number. -/
def shown (number : Binary) : ℚ :=
  if number.mantissa = 0 then 0 else (Decimal.shortest number).value

variable {number : Binary}

/-- The decimal that is written for a number reads back as the number. -/
theorem shown_rounds (normal : number.Normal) : Rounds number.shown number.order := by
  unfold shown
  split
  · rename_i isZero
    have reads : number.Reads 0 := by
      rw [Reads, if_pos (by rw [isZero]), lowQuarters, isZero]
      have := two_zpow_pos (number.exponent - 2)
      constructor
      · simp
      · push_cast
        linarith
    exact reads.rounds normal
  · rename_i nonzero
    exact (Decimal.shortest_spec normal nonzero).reads.rounds normal

/-- What is written for a number shows which number it is. -/
theorem eq_of_shown {other : Binary} (normal : number.Normal) (normalOther : other.Normal)
    (same : number.shown = other.shown) : number = other :=
  normal.eq_of_order normalOther
    ((same ▸ shown_rounds normal).unique (shown_rounds normalOther))

end Binary

/-! ### Texts of bit patterns -/

namespace Layout

variable {layout : Layout} {bits other : UInt64}

/-- The text of a bit pattern without its sign. -/
def body (layout : Layout) (fields : Fields) : List Char :=
  if fields.isNaN then layout.notANumber.toList
  else if fields.isSpecial then layout.infinity.toList
  else layout.magnitude (.ofFields fields)

theorem toList_writeBits (layout : Layout) (bits : UInt64) :
    (layout.writeBits bits).toList =
      if (Fields.ofBits bits).negative && !(Fields.ofBits bits).isNaN then
        '-' :: layout.body (.ofBits bits)
      else layout.body (.ofBits bits) := by
  unfold writeBits body
  dsimp only
  cases (Fields.ofBits bits).isNaN <;> cases (Fields.ofBits bits).isSpecial <;>
    cases (Fields.ofBits bits).negative <;> simp

theorem magnitude_denotes (legible : layout.Legible) (number : Binary) :
    Numeral.magnitude (layout.magnitude number) = number.shown := by
  unfold magnitude Binary.shown
  split
  · have noDigits : Numeral.Digits [] := List.forall_mem_nil _
    refine (Numeral.magnitude_point layout.integralFraction Numeral.digits_zero noDigits).trans ?_
    simp [Nat.ofDigitChars_cons]
  · exact decimal_denotes legible _

/-- The text of a magnitude begins with a digit. -/
theorem magnitude_head (layout : Layout) (number : Binary) :
    ∃ c text, layout.magnitude number = c :: text ∧ c.isDigit = true := by
  unfold magnitude
  split
  · exact ⟨_, _, rfl, rfl⟩
  · unfold decimal
    have isDigits := Numeral.digits_digitChars (Decimal.shortest number).digits
    have nonempty := Decimal.digitChars_ne_nil (Decimal.shortest number).digits
    generalize Decimal.digitChars (Decimal.shortest number).digits = digits at *
    obtain ⟨c, rest, rfl⟩ := List.exists_cons_of_ne_nil nonempty
    have isDigit := isDigits c List.mem_cons_self
    dsimp only
    split
    · unfold positional
      split
      · exact ⟨_, _, rfl, rfl⟩
      · exact ⟨_, _, rfl, isDigit⟩
    · exact ⟨_, _, rfl, isDigit⟩

/-- Only the text of a magnitude begins with a digit, and the sign is not taken for a part of any
text. -/
theorem body_head (legible : layout.Legible) (fields : Fields) :
    ∃ c text, layout.body fields = c :: text ∧ c ≠ '-' ∧
      (c.isDigit = true ↔ fields.isSpecial = false) := by
  unfold body
  split
  · rename_i isNaN
    obtain ⟨c, text, isText, noSign, noDigit⟩ := legible.notANumber
    have isSpecial := (Bool.and_eq_true_iff.1 isNaN).1
    exact ⟨c, text, isText, noSign, by simp [noDigit, isSpecial]⟩
  · split
    · rename_i isSpecial
      obtain ⟨c, text, isText, noSign, noDigit⟩ := legible.infinity
      exact ⟨c, text, isText, noSign, by simp [noDigit, isSpecial]⟩
    · rename_i finite
      obtain ⟨c, text, isText, isDigit⟩ := layout.magnitude_head (.ofFields fields)
      refine ⟨c, text, isText, ?_, by simp [isDigit, finite]⟩
      rintro rfl
      exact absurd isDigit (by decide)

/-- The text of a finite number denotes the decimal that is written for it. -/
theorem value_writeBits (legible : layout.Legible)
    (finite : (Fields.ofBits bits).isSpecial = false) :
    Numeral.value (layout.writeBits bits).toList =
      (if (Fields.ofBits bits).negative then -1 else 1) *
        (Binary.ofFields (.ofBits bits)).shown := by
  have number : (Fields.ofBits bits).isNaN = false := by simp [Fields.isNaN, finite]
  have isBody : layout.body (.ofBits bits) = layout.magnitude (.ofFields (.ofBits bits)) := by
    simp [body, number, finite]
  obtain ⟨c, text, isText, noSign, -⟩ := body_head legible (.ofBits bits)
  rw [toList_writeBits, number, ← magnitude_denotes legible, ← isBody]
  cases (Fields.ofBits bits).negative with
  | true => simp [Numeral.value]
  | false =>
      rw [isText]
      simp only [Bool.false_and, Bool.false_eq_true, if_false, one_mul]
      unfold Numeral.value
      split
      · rename_i isSign
        exact absurd (List.cons.inj isSign).1 noSign
      · rfl

/-- A sign in front can be told from what stands behind it. -/
theorem sign_injective {sign signOther : Bool} {text textOther : List Char}
    (plain : text.head? ≠ some '-') (plainOther : textOther.head? ≠ some '-')
    (same : (if sign then '-' :: text else text) =
      if signOther then '-' :: textOther else textOther) :
    sign = signOther ∧ text = textOther := by
  cases sign <;> cases signOther
  · exact ⟨rfl, same⟩
  · exact absurd (congrArg List.head? same) plain
  · exact absurd (congrArg List.head? same).symm plainOther
  · exact ⟨rfl, (List.cons.inj same).2⟩

theorem body_head?_ne (legible : layout.Legible) (fields : Fields) :
    (layout.body fields).head? ≠ some '-' := by
  obtain ⟨c, text, isText, noSign, -⟩ := body_head legible fields
  rw [isText]
  exact fun isSign => noSign (Option.some.inj isSign)

/-- The text without its sign shows what kind of number it is, and which one if it is finite. -/
theorem body_eq (legible : layout.Legible)
    (same : layout.body (.ofBits bits) = layout.body (.ofBits other)) :
    (Fields.ofBits bits).isSpecial = (Fields.ofBits other).isSpecial ∧
      (Fields.ofBits bits).isNaN = (Fields.ofBits other).isNaN ∧
      ((Fields.ofBits bits).isSpecial = false →
        Binary.ofFields (.ofBits bits) = .ofFields (.ofBits other)) := by
  obtain ⟨c, text, isText, -, kind⟩ := body_head legible (.ofBits bits)
  obtain ⟨d, textOther, isOther, -, kindOther⟩ := body_head legible (.ofBits other)
  obtain ⟨rfl, rfl⟩ : c = d ∧ text = textOther := by
    simpa using isText.symm.trans (same.trans isOther)
  have sameSpecial : (Fields.ofBits bits).isSpecial = (Fields.ofBits other).isSpecial := by
    rw [← Bool.not_inj_iff, Bool.eq_iff_iff, Bool.not_eq_true', Bool.not_eq_true', ← kind,
      kindOther]
  refine ⟨sameSpecial, ?_, fun finite => ?_⟩
  · by_contra differ
    -- one of them is no number and the other is infinite
    have apart : layout.notANumber.toList ≠ layout.infinity.toList :=
      fun isSame => legible.apart (String.toList_inj.1 isSame)
    unfold body at same
    cases isNaN : (Fields.ofBits bits).isNaN <;> cases isNaNOther : (Fields.ofBits other).isNaN
    · exact differ (isNaN.trans isNaNOther.symm)
    · have isSpecial := sameSpecial.trans (Bool.and_eq_true_iff.1 isNaNOther).1
      simp only [isNaN, isNaNOther, isSpecial, Bool.false_eq_true, if_false, if_true] at same
      exact apart same.symm
    · have isSpecial := sameSpecial.symm.trans (Bool.and_eq_true_iff.1 isNaN).1
      simp only [isNaN, isNaNOther, isSpecial, Bool.false_eq_true, if_false, if_true] at same
      exact apart same
    · exact differ (isNaN.trans isNaNOther.symm)
  · have finiteOther := sameSpecial.symm.trans finite
    simp only [body, Fields.isNaN, finite, finiteOther, Bool.false_and, Bool.false_eq_true,
      if_false] at same
    refine Binary.eq_of_shown (Fields.normal (Fields.fraction_lt bits))
      (Fields.normal (Fields.fraction_lt other)) ?_
    rw [← magnitude_denotes legible, ← magnitude_denotes legible, same]

/-- Two bit patterns have the same text in a layout exactly if they stand for the same number. -/
theorem writeBits_eq_iff (legible : layout.Legible) :
    layout.writeBits bits = layout.writeBits other ↔ Number.sameBits bits other = true := by
  unfold Number.sameBits
  dsimp only
  constructor
  · intro same
    have sameText := congrArg String.toList same
    rw [toList_writeBits, toList_writeBits] at sameText
    obtain ⟨sameSign, sameBody⟩ := sign_injective (body_head?_ne legible _)
      (body_head?_ne legible _) sameText
    obtain ⟨sameSpecial, sameNaN, sameFinite⟩ := body_eq legible sameBody
    rw [sameNaN]
    split
    · rename_i isNaN
      simpa using isNaN
    · rename_i number
      have notNaN : (Fields.ofBits other).isNaN = false := by simpa using number
      rw [sameNaN, notNaN] at sameSign
      simp only [Bool.not_false, Bool.and_true] at sameSign
      rw [beq_iff_eq]
      refine Fields.ofBits_injective (Fields.eq_of_order sameSign ?_)
      cases special : (Fields.ofBits bits).isSpecial with
      | true =>
          -- infinities have no fraction
          have specialOther := sameSpecial.symm.trans special
          have noFraction : (Fields.ofBits bits).fraction = 0 := by
            simpa [Fields.isNaN, special] using sameNaN.trans notNaN
          have noFractionOther : (Fields.ofBits other).fraction = 0 := by
            simpa [Fields.isNaN, specialOther] using notNaN
          rw [noFraction, noFractionOther, of_decide_eq_true special,
            of_decide_eq_true specialOther]
      | false =>
          rw [← Fields.order_eq, ← Fields.order_eq, sameFinite special]
  · intro same
    split at same
    · obtain ⟨isNaN, isNaNOther⟩ := Bool.and_eq_true_iff.1 same
      rw [writeBits, writeBits, if_pos isNaN, if_pos isNaNOther]
    · rw [beq_iff_eq.1 same]

end Layout

/-! ### The two layouts -/

namespace Number

theorem printed_legible : printed.Legible :=
  ⟨rfl, ⟨'N', _, rfl, by decide, rfl⟩, ⟨'I', _, rfl, by decide, rfl⟩, by decide⟩

theorem listed_legible : listed.Legible :=
  ⟨rfl, ⟨'n', _, rfl, by decide, rfl⟩, ⟨'i', _, rfl, by decide, rfl⟩, by decide⟩

/-- Whether a number is printed with all its places: it is zero, or it is at least a thousandth and
less than ten million. -/
def Plain (number : Binary) : Prop :=
  number.value = 0 ∨ 1 / 1000 ≤ number.value ∧ number.value < 10 ^ 7

variable {number : Binary}

/-- The first digit of the shortest decimal tells on which side of a thousandth a number is, since
the number that a thousandth is read as is no smaller. -/
theorem thousandth_le_iff (normal : number.Normal) (nonzero : number.mantissa ≠ 0) :
    -3 ≤ (Decimal.shortest number).lead ↔ 1 / 1000 ≤ number.value := by
  let thousandth : Binary := { mantissa := 4611686018427388, exponent := -62, tightBelow := false }
  have reads := (Interval.contains_iff thousandth (-3) 1).1 (by decide)
  rw [Nat.cast_one, one_mul] at reads
  have above : (10 : ℚ) ^ (-3 : ℤ) ≤ thousandth.value := by
    norm_num [Binary.value, thousandth]
  rw [Decimal.power_le_lead_iff normal nonzero ⟨by decide, by decide, .inr (by decide), by decide⟩
    reads above]
  norm_num

/-- It also tells on which side of ten million a number is. -/
theorem lt_tenMillion_iff (normal : number.Normal) (nonzero : number.mantissa ≠ 0) :
    (Decimal.shortest number).lead < 7 ↔ number.value < 10 ^ 7 := by
  let tenMillion : Binary := { mantissa := 5368709120000000, exponent := -29, tightBelow := false }
  have reads := (Interval.contains_iff tenMillion 7 1).1 (by decide)
  rw [Nat.cast_one, one_mul] at reads
  have above : (10 : ℚ) ^ (7 : ℤ) ≤ tenMillion.value := by
    norm_num [Binary.value, tenMillion]
  rw [← not_le, Decimal.power_le_lead_iff normal nonzero
    ⟨by decide, by decide, .inr (by decide), by decide⟩ reads above, not_le]
  norm_num

/-- Numbers between a thousandth and ten million are printed with all their places, all others with
an exponent. -/
theorem printed_form (normal : number.Normal) :
    (Plain number → Numeral.Positional (printed.magnitude number)) ∧
      (¬Plain number → Numeral.Scientific (printed.magnitude number)) := by
  unfold Layout.magnitude
  split
  · rename_i isZero
    refine ⟨fun _ => ⟨['0'], [], List.forall_mem_singleton.2 rfl, nofun, List.cons_ne_nil _ _,
      fun _ => rfl, nofun, rfl⟩, fun exponent => absurd (.inl ?_) exponent⟩
    rw [Binary.value, isZero, Nat.cast_zero, zero_mul]
  · rename_i nonzero
    have spec := Decimal.shortest_spec normal nonzero
    have isPlain : Plain number ↔
        -3 ≤ (Decimal.shortest number).lead ∧ (Decimal.shortest number).lead < 7 := by
      rw [thousandth_le_iff normal nonzero, lt_tenMillion_iff normal nonzero]
      exact or_iff_right (Binary.value_pos nonzero).ne'
    have stripped := spec.stripped
    have isDigits := Numeral.digits_digitChars (Decimal.shortest number).digits
    have nonempty := Decimal.digitChars_ne_nil (Decimal.shortest number).digits
    have isFirst := Decimal.digitChars_head (Decimal.shortest number).digits (by omega)
    have isLast := Decimal.digitChars_last stripped
    rw [isPlain]
    unfold Layout.decimal
    dsimp only
    constructor
    · intro inside
      rw [if_pos (by exact inside)]
      exact Layout.positional_form rfl isDigits nonempty isFirst isLast
    · intro outside
      rw [if_neg (by exact outside)]
      exact Layout.scientific_form isDigits nonempty isFirst isLast

end Number

end LoxLang
