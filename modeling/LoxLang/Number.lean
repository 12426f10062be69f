/-
Module: LoxLang.Number
Purpose: Numbers of the language: the text they print as, the text they have in listings of
  tokens and trees, and when two of them are the same number.
Main exports: Number.printed, Number.listed, Number.same, Number.text, Number.listing
-/
import LoxLang.Decimal.Layout

namespace LoxLang.Number

/-- How a program prints numbers: magnitudes from a thousandth up to ten million are written out
and lose an empty fraction, all others take an exponent after at least one fraction digit. -/
def printed : Layout where
  positionalFrom := -3
  positionalBelow := 7
  integralFraction := false
  exponentFraction := true
  exponentMark := 'E'
  exponentPlus := false
  exponentWidth := 1
  notANumber := "NaN"
  infinity := "Infinity"

/-- How listings of tokens and trees show numbers: written out between `1e-4` and `1e16`, always
with a fraction, otherwise with a signed exponent of at least two digits. -/
def listed : Layout where
  positionalFrom := -4
  positionalBelow := 16
  integralFraction := true
  exponentFraction := false
  exponentMark := 'e'
  exponentPlus := true
  exponentWidth := 2
  notANumber := "nan"
  infinity := "inf"

/-- The text a program prints for a number. -/
def text (number : Float) : String :=
  printed.write number

/-- The text of a number in a listing. -/
def listing (number : Float) : String :=
  listed.write number

/-- Sameness of bit patterns: all patterns of no number are the same, and otherwise equal patterns
are. -/
def sameBits (left right : UInt64) : Bool :=
  let leftNaN := (Fields.ofBits left).isNaN
  let rightNaN := (Fields.ofBits right).isNaN
  if leftNaN || rightNaN then leftNaN && rightNaN else left == right

/-- Sameness of numbers: what is not a number is the same as itself, and the two zeros are
different. -/
def same (left right : Float) : Bool :=
  sameBits left.toBits right.toBits

/-- The number written by decimal digits, of which the last `places` are a fraction. -/
def ofDigits (digits : List Char) (places : Nat) : Float :=
  let value := digits.foldl (fun total digit => 10 * total + (digit.toNat - '0'.toNat)) 0
  Float.ofScientific value true places

end LoxLang.Number
