/-
Module: LoxLang.Decimal.Layout
Purpose: Writing a binary64 number as text.  The digits are always the shortest ones that read
  back; what differs between two ways of writing numbers is collected in one `Layout` record.
Main exports: Layout, Layout.write
-/
import LoxLang.Decimal.Shortest

namespace LoxLang

/-- The decisions a number format makes about digits it is given. -/
structure Layout where
  /-- The least decimal exponent of the leading digit that is still written positionally. -/
  positionalFrom : Int
  /-- The first decimal exponent of the leading digit that is no longer written positionally. -/
  positionalBelow : Int
  /-- Whether a positional number without fraction ends in `.0`. -/
  integralFraction : Bool
  /-- Whether a single digit before an exponent is followed by `.0`. -/
  exponentFraction : Bool
  /-- The letter in front of the exponent. -/
  exponentMark : Char
  /-- Whether a nonnegative exponent is written with a plus sign. -/
  exponentPlus : Bool
  /-- The least number of exponent digits. -/
  exponentWidth : Nat
  /-- The text of a number that is not a number. -/
  notANumber : String
  /-- The text of positive infinity. -/
  infinity : String
deriving Repr

namespace Layout

/-- Zeros in front, up to the given width. -/
def padLeft (width : Nat) (digits : List Char) : List Char :=
  List.replicate (width - digits.length) '0' ++ digits

/-- A decimal point and what follows it; an empty fraction is written as `.0` or left out. -/
def fraction (keepEmpty : Bool) : List Char → List Char
  | [] => if keepEmpty then ['.', '0'] else []
  | digits => '.' :: digits

/-- Writes the digits with the point after position `lead + 1`, filling with zeros. -/
def positional (layout : Layout) (digits : List Char) (lead : Int) : List Char :=
  if lead < 0 then
    '0' :: '.' :: (List.replicate (-lead - 1).toNat '0' ++ digits)
  else
    let before := lead.toNat + 1
    let whole := digits.take before
    whole ++ List.replicate (before - whole.length) '0'
      ++ fraction layout.integralFraction (digits.drop before)

/-- Writes one digit, the remaining digits as a fraction, and the exponent. -/
def scientific (layout : Layout) (digits : List Char) (lead : Int) : List Char :=
  let sign := if lead < 0 then ['-'] else if layout.exponentPlus then ['+'] else []
  digits.take 1 ++ fraction layout.exponentFraction (digits.drop 1)
    ++ layout.exponentMark :: sign
    ++ padLeft layout.exponentWidth (Decimal.digitChars lead.natAbs)

/-- Writes a positive decimal. -/
def decimal (layout : Layout) (value : Decimal) : List Char :=
  let digits := Decimal.digitChars value.digits
  let lead := value.exponent + digits.length - 1
  if layout.positionalFrom ≤ lead ∧ lead < layout.positionalBelow then
    layout.positional digits lead
  else
    layout.scientific digits lead

/-- Writes the magnitude of a finite number. -/
def magnitude (layout : Layout) (number : Binary) : List Char :=
  if number.mantissa = 0 then
    '0' :: fraction layout.integralFraction []
  else
    layout.decimal (Decimal.shortest number)

/-- Writes the number with the given bit pattern.  Zero keeps its sign; a number that is not a
number has none. -/
def writeBits (layout : Layout) (bits : UInt64) : String :=
  let fields := Fields.ofBits bits
  if fields.isNaN then
    layout.notANumber
  else if fields.isSpecial then
    if fields.negative then "-" ++ layout.infinity else layout.infinity
  else
    let digits := layout.magnitude (.ofFields fields)
    String.ofList (if fields.negative then '-' :: digits else digits)

/-- Writes a number. -/
def write (layout : Layout) (number : Float) : String :=
  layout.writeBits number.toBits

end Layout

end LoxLang
