/-
Module: LoxLang.Text.Loose
Purpose: Text that was written down in 16-bit units.  Characters beyond the first 65536 take a pair
  of units, and nothing keeps a text from holding half of a pair alone.  Such a half is not a
  character, so not every loose text is a string; but every loose text can be quoted.
Main exports: Symbol, Symbol.ofUnit, Symbol.ofPair?, Loose, Loose.toString?, Loose.quoted
-/
import LoxLang.Text.Quoted

namespace LoxLang.Text

/-- A symbol of a loose text. -/
inductive Symbol where
  | char (c : Char)
  /-- Half of a pair whose other half is missing. -/
  | half (unit : Nat)
deriving DecidableEq, Repr, Inhabited

namespace Symbol

/-- The character a symbol is, if it is one. -/
def char? : Symbol → Option Char
  | char c => some c
  | half _ => none

/-- What a unit alone stands for. -/
def ofUnit (unit : Nat) : Symbol :=
  if 0xd800 ≤ unit && unit < 0xe000 then half unit else char (Char.ofNat unit)

/-- What two units stand for together, if they are the two halves of a pair. -/
def ofPair? (high low : Nat) : Option Symbol :=
  if 0xd800 ≤ high && high < 0xdc00 && 0xdc00 ≤ low && low < 0xe000 then
    some (char (Char.ofNat (0x10000 + (high - 0xd800) * 0x400 + (low - 0xdc00))))
  else
    none

/-- How a symbol is written between two quotes of the given kind. -/
def escape (quote : Char) : Symbol → List Char
  | char c => Text.escape quote c
  | half unit => '\\' :: 'u' :: hex 4 unit

end Symbol

/-- A text that may hold halves of pairs. -/
structure Loose where
  symbols : List Symbol
deriving DecidableEq, Repr, Inhabited

namespace Loose

/-- A string as a loose text. -/
def ofString (text : String) : Loose :=
  ⟨text.toList.map .char⟩

/-- The string that a loose text is, unless it holds half of a pair. -/
def toString? (text : Loose) : Option String :=
  (text.symbols.mapM Symbol.char?).map String.ofList

/-- The quoted form of a loose text. -/
def quoted (text : Loose) : String :=
  let quote := quoteFor (text.symbols.filterMap Symbol.char?)
  String.ofList (quote :: text.symbols.flatMap (Symbol.escape quote) ++ [quote])

end Loose

end LoxLang.Text
