/-
Module: LoxLang.Proofs.Number.Numeral
Purpose: What the text of a number denotes.  Numerals are read as decimals, digit by digit, without
  looking at how they were written; every layout writes a decimal as a numeral that denotes it.
Main exports: Numeral.value, Numeral.magnitude_append, Layout.Legible, Layout.decimal_denotes
-/
import LoxLang.Decimal.Layout
import LoxLang.Proofs.Number.Shortest

namespace LoxLang

/-! ### The number a numeral denotes -/

namespace Numeral

/-- The characters of a numeral in front of its exponent. -/
def isMantissa (c : Char) : Bool :=
  c.isDigit || c = '.'

/-- The exponent of a numeral behind its mark, zero if there is none. -/
def exponent : List Char → ℤ
  | _ :: '-' :: digits => -(Nat.ofDigitChars 10 digits 0 : ℤ)
  | _ :: '+' :: digits => Nat.ofDigitChars 10 digits 0
  | _ :: digits => Nat.ofDigitChars 10 digits 0
  | [] => 0

/-- What a numeral without sign denotes. -/
def magnitude (text : List Char) : ℚ :=
  let mantissa := text.takeWhile isMantissa
  let whole := mantissa.takeWhile Char.isDigit
  let fraction := (mantissa.dropWhile Char.isDigit).drop 1
  Nat.ofDigitChars 10 (whole ++ fraction) 0 *
    10 ^ (exponent (text.dropWhile isMantissa) - fraction.length)

/-- What a numeral denotes. -/
def value : List Char → ℚ
  | '-' :: text => -magnitude text
  | text => magnitude text

example : value "-12.50e-1".toList = -5 / 4 := by
  have parts : magnitude "12.50e-1".toList = 1250 * 10 ^ (-3 : ℤ) := rfl
  change -magnitude "12.50e-1".toList = _
  rw [parts]
  norm_num

/-- Whether a text consists of digits. -/
def Digits (text : List Char) : Prop :=
  ∀ c ∈ text, c.isDigit = true

theorem digits_zero : Digits ['0'] :=
  List.forall_mem_singleton.2 rfl

theorem Digits.append {first second : List Char} (digits : Digits first)
    (digitsSecond : Digits second) : Digits (first ++ second) := by
  intro c member
  obtain inFirst | inSecond := List.mem_append.1 member
  · exact digits c inFirst
  · exact digitsSecond c inSecond

theorem digits_replicate (n : ℕ) : Digits (List.replicate n '0') := by
  intro c member
  rw [List.eq_of_mem_replicate member]
  rfl

theorem digits_digitChars (n : ℕ) : Digits (Decimal.digitChars n) :=
  fun _ => Nat.isDigit_of_mem_toDigits (by decide) (by decide)

theorem Digits.isMantissa {text : List Char} (digits : Digits text) :
    ∀ c ∈ text, isMantissa c = true := by
  intro c member
  rw [Numeral.isMantissa, digits c member]
  rfl

theorem exponent_digits {mark : Char} {digits : List Char} (isDigits : Digits digits) :
    exponent (mark :: digits) = Nat.ofDigitChars 10 digits 0 := by
  unfold exponent
  split
  · rename_i isText
    cases isText
    exact absurd (isDigits '-' List.mem_cons_self) (by decide)
  · rename_i isText
    cases isText
    exact absurd (isDigits '+' List.mem_cons_self) (by decide)
  · rename_i isText
    cases isText
    rfl
  · rename_i isText
    cases isText

theorem point_isMantissa {keep : Bool} {fraction : List Char} (digits : Digits fraction) :
    ∀ c ∈ Layout.fraction keep fraction, isMantissa c = true := by
  unfold Layout.fraction
  split
  · cases keep
    · exact fun c member => absurd member List.not_mem_nil
    · exact List.forall_mem_cons.2 ⟨rfl, List.forall_mem_singleton.2 rfl⟩
  · exact List.forall_mem_cons.2 ⟨rfl, digits.isMantissa⟩

/-- Zeros in front of digits make no difference. -/
theorem ofDigitChars_zeros (n : ℕ) (digits : List Char) :
    Nat.ofDigitChars 10 (List.replicate n '0' ++ digits) 0 = Nat.ofDigitChars 10 digits 0 := by
  rw [Nat.ofDigitChars_append, Nat.ofDigitChars_replicate_zero, Nat.mul_zero]

/-- What digits, a point with more digits and an exponent denote.  An empty fraction may be written
as a zero. -/
theorem magnitude_append {keep : Bool} {whole fraction tail : List Char} (digits : Digits whole)
    (digitsFraction : Digits fraction) (stops : ∀ c ∈ tail.head?, isMantissa c = false) :
    magnitude (whole ++ Layout.fraction keep fraction ++ tail) =
      Nat.ofDigitChars 10 (whole ++ fraction) 0 * 10 ^ (exponent tail - fraction.length) := by
  have isFront : ∀ c ∈ whole ++ Layout.fraction keep fraction, isMantissa c = true := by
    intro c member
    obtain inWhole | inPoint := List.mem_append.1 member
    · exact digits.isMantissa c inWhole
    · exact point_isMantissa digitsFraction c inPoint
  have nothing : tail.takeWhile isMantissa = [] ∧ tail.dropWhile isMantissa = tail := by
    cases tail with
    | nil => exact ⟨rfl, rfl⟩
    | cons c tail =>
        have stop := stops c rfl
        simp [stop]
  rw [magnitude, List.takeWhile_append_of_pos isFront, List.dropWhile_append_of_pos isFront,
    nothing.1, nothing.2, List.append_nil, List.takeWhile_append_of_pos digits,
    List.dropWhile_append_of_pos digits]
  cases fraction with
  | cons c fraction => simp [Layout.fraction]
  | nil =>
      cases keep with
      | false => simp [Layout.fraction]
      | true =>
          have isZero : ('0' : Char).isDigit = true := rfl
          simp [Layout.fraction, Nat.ofDigitChars_append, Nat.ofDigitChars_cons]
          rw [zpow_sub_one₀ (by norm_num)]
          ring

/-- A text without an exponent denotes its digits, those behind the point taken as places. -/
theorem magnitude_point (keep : Bool) {whole fraction : List Char} (digits : Digits whole)
    (digitsFraction : Digits fraction) :
    magnitude (whole ++ Layout.fraction keep fraction) =
      Nat.ofDigitChars 10 (whole ++ fraction) 0 * 10 ^ (-(fraction.length : ℤ)) := by
  have denotes : magnitude (whole ++ Layout.fraction keep fraction ++ []) =
      Nat.ofDigitChars 10 (whole ++ fraction) 0 * 10 ^ (exponent [] - fraction.length) :=
    magnitude_append digits digitsFraction nofun
  rwa [List.append_nil, show exponent [] = 0 from rfl, zero_sub] at denotes

end Numeral

/-! ### Layouts -/

namespace Layout

/-- Whether the texts of a layout can be told apart and read back. -/
structure Legible (layout : Layout) : Prop where
  mark : Numeral.isMantissa layout.exponentMark = false
  notANumber : ∃ c text, layout.notANumber.toList = c :: text ∧ c ≠ '-' ∧ c.isDigit = false
  infinity : ∃ c text, layout.infinity.toList = c :: text ∧ c ≠ '-' ∧ c.isDigit = false
  apart : layout.notANumber ≠ layout.infinity

variable {layout : Layout} {digits : List Char} {lead : ℤ}

theorem fraction_of_ne_nil {keep : Bool} (nonempty : digits ≠ []) :
    fraction keep digits = '.' :: digits := by
  cases digits with
  | nil => exact absurd rfl nonempty
  | cons c digits => rfl

theorem positional_denotes (layout : Layout) (isDigits : Numeral.Digits digits)
    (nonempty : digits ≠ []) :
    Numeral.magnitude (layout.positional digits lead) =
      Nat.ofDigitChars 10 digits 0 * 10 ^ (lead + 1 - digits.length) := by
  unfold positional
  split
  · -- the digits stand behind the point and some zeros
    have isFraction := (Numeral.digits_replicate (-lead - 1).toNat).append isDigits
    have denotes := Numeral.magnitude_point true Numeral.digits_zero isFraction
    rw [fraction_of_ne_nil (by simp [nonempty])] at denotes
    refine denotes.trans ?_
    have isZeros : ['0'] ++ (List.replicate (-lead - 1).toNat '0' ++ digits) =
        List.replicate ((-lead - 1).toNat + 1) '0' ++ digits := rfl
    rw [isZeros, Numeral.ofDigitChars_zeros, List.length_append, List.length_replicate]
    congr 2
    push_cast
    omega
  · rename_i whole
    have isWhole : Numeral.Digits (digits.take (lead.toNat + 1)) :=
      fun c member => isDigits c (List.mem_of_mem_take member)
    have isFraction : Numeral.Digits (digits.drop (lead.toNat + 1)) :=
      fun c member => isDigits c (List.mem_of_mem_drop member)
    refine (Numeral.magnitude_point layout.integralFraction
      (isWhole.append (Numeral.digits_replicate _)) isFraction).trans ?_
    obtain all | some := le_or_gt digits.length (lead.toNat + 1)
    · -- all digits stand before the point, with zeros behind them
      rw [List.take_of_length_le all, List.drop_of_length_le all, List.append_nil,
        Nat.ofDigitChars_append, Nat.ofDigitChars_replicate_zero]
      push_cast
      rw [mul_comm, ← mul_assoc, List.length_nil, ← zpow_natCast, ← mul_comm (10 ^ _ : ℚ),
        ← zpow_add₀ (by norm_num), mul_comm]
      congr 2
      push_cast
      omega
    · rw [List.length_take_of_le some.le, Nat.sub_self, List.replicate_zero, List.append_nil,
        List.take_append_drop, List.length_drop]
      congr 2
      omega

theorem digits_padLeft (width n : ℕ) : Numeral.Digits (padLeft width (Decimal.digitChars n)) :=
  (Numeral.digits_replicate _).append (Numeral.digits_digitChars n)

theorem ofDigitChars_padLeft (width n : ℕ) :
    Nat.ofDigitChars 10 (padLeft width (Decimal.digitChars n)) 0 = n := by
  rw [padLeft, Numeral.ofDigitChars_zeros, Decimal.digitChars, Nat.ofDigitChars_ten_toDigits]

/-- The exponent that is written is the one that is read. -/
theorem exponent_written (layout : Layout) (lead : ℤ) :
    Numeral.exponent (layout.exponentMark ::
      (if lead < 0 then ['-'] else if layout.exponentPlus then ['+'] else []) ++
        padLeft layout.exponentWidth (Decimal.digitChars lead.natAbs)) = lead := by
  split
  · have := ofDigitChars_padLeft layout.exponentWidth lead.natAbs
    simp only [List.cons_append, List.nil_append, Numeral.exponent, this]
    omega
  · split
    · have := ofDigitChars_padLeft layout.exponentWidth lead.natAbs
      simp only [List.cons_append, List.nil_append, Numeral.exponent, this]
      omega
    · rw [List.cons_append, List.nil_append, Numeral.exponent_digits (digits_padLeft _ _),
        ofDigitChars_padLeft]
      omega

theorem scientific_denotes (legible : layout.Legible) (isDigits : Numeral.Digits digits)
    (nonempty : digits ≠ []) :
    Numeral.magnitude (layout.scientific digits lead) =
      Nat.ofDigitChars 10 digits 0 * 10 ^ (lead + 1 - digits.length) := by
  unfold scientific
  dsimp only
  rw [List.append_assoc, List.append_assoc, ← List.append_assoc, Numeral.magnitude_append
    (fun c member => isDigits c (List.mem_of_mem_take member))
    (fun c member => isDigits c (List.mem_of_mem_drop member)), exponent_written,
    List.take_append_drop, List.length_drop]
  · have := List.length_pos_of_ne_nil nonempty
    congr 2
    omega
  · intro c isFirst
    cases isFirst
    exact legible.mark

/-- What is written for a decimal denotes it. -/
theorem decimal_denotes (legible : layout.Legible) (value : Decimal) :
    Numeral.magnitude (layout.decimal value) = value.value := by
  have isDigits := Numeral.digits_digitChars value.digits
  have nonempty : Decimal.digitChars value.digits ≠ [] := Nat.toDigits_ne_nil
  have isValue : (Nat.ofDigitChars 10 (Decimal.digitChars value.digits) 0 : ℚ) = value.digits := by
    rw [Decimal.digitChars, Nat.ofDigitChars_ten_toDigits]
  unfold decimal
  dsimp only
  split
  · rw [positional_denotes layout isDigits nonempty, isValue, Decimal.value]
    congr 2
    omega
  · rw [scientific_denotes legible isDigits nonempty, isValue, Decimal.value]
    congr 2
    omega

end Layout

end LoxLang
