/-
Module: LoxLang.Config.Setting
Purpose: Values that a configuration file can hold, and reading them from JSON text.  The reader
  is strict: no trailing commas, no comments, no control characters in strings, nothing after the
  value.  Of entries with one key the last counts.  Beside decimal numbers it knows `NaN`,
  `Infinity` and `-Infinity`.  Strings may hold halves of pairs; integers and nesting are limited.
Main exports: Setting, Setting.text?, JsonFault, Setting.ofJson
-/
import LoxLang.Literal
import LoxLang.Text.Loose

namespace LoxLang

/-- A value in a configuration. -/
inductive Setting where
  | null
  | bool (value : Bool)
  | integer (value : Int)
  | decimal (value : Float)
  | string (value : Text.Loose)
  | list (items : List Setting)
  | record (entries : List (Text.Loose × Setting))
deriving Repr, Inhabited

namespace Setting

/-! ### Text -/

mutual
/-- The text of a setting inside a list or record. -/
def listing : Setting → String
  | null => Literal.nil.listing
  | bool value => (Literal.bool value).listing
  | integer value => toString value
  | decimal value => Number.listing value
  | string value => value.quoted
  | list items => "[" ++ listingItems items ++ "]"
  | record entries => "\x7b" ++ listingEntries entries ++ "\x7d"

/-- The texts of several settings, separated by commas. -/
def listingItems : List Setting → String
  | [] => ""
  | [item] => item.listing
  | item :: rest => item.listing ++ ", " ++ listingItems rest

/-- The texts of several entries, separated by commas. -/
def listingEntries : List (Text.Loose × Setting) → String
  | [] => ""
  | [(key, value)] => key.quoted ++ ": " ++ value.listing
  | (key, value) :: rest => key.quoted ++ ": " ++ value.listing ++ ", " ++ listingEntries rest
end

/-- The text of a setting on its own: a string stands for itself, and has no text if it holds half
of a pair. -/
def text? : Setting → Option String
  | string value => value.toString?
  | other => some other.listing

/-! ### Reading -/

/-- The entries with one more at the end; an older entry with the same key gives way. -/
def insert (entries : List (Text.Loose × Setting)) (key : Text.Loose) (value : Setting) :
    List (Text.Loose × Setting) :=
  if entries.any (·.1 = key) then
    entries.map fun entry => if entry.1 = key then (key, value) else entry
  else
    entries ++ [(key, value)]

/-- The text after leading blanks. -/
def skipBlanks (text : List Char) : List Char :=
  text.dropWhile fun c => c = ' ' || c = '\t' || c = '\n' || c = '\r'

/-- The text after a given word, if it starts with it. -/
def afterWord? (word : String) (text : List Char) : Option (List Char) :=
  if word.toList.isPrefixOf text then some (text.drop word.length) else none

/-- The digits a text starts with, and what follows them. -/
def digits (text : List Char) : List Char × List Char :=
  (text.takeWhile Char.isDigit, text.dropWhile Char.isDigit)

/-- The value of a list of digits. -/
def digitsValue (text : List Char) : Nat :=
  text.foldl (fun total digit => 10 * total + (digit.toNat - '0'.toNat)) 0

/-- The digits of a fraction, if the text starts with a point and at least one digit. -/
def fraction? : List Char → Option (List Char × List Char)
  | '.' :: rest =>
      match digits rest with
      | ([], _) => none
      | found => some found
  | _ => none

/-- The digits after an exponent's mark and sign, with the sign. -/
def exponentDigits? (negative : Bool) (text : List Char) : Option (Int × List Char) :=
  match digits text with
  | ([], _) => none
  | (found, rest) =>
      let value : Int := digitsValue found
      some (if negative then -value else value, rest)

/-- An exponent, if the text starts with one. -/
def exponent? : List Char → Option (Int × List Char)
  | mark :: rest =>
      if mark = 'e' || mark = 'E' then
        match rest with
        | '-' :: rest => exponentDigits? true rest
        | '+' :: rest => exponentDigits? false rest
        | rest => exponentDigits? false rest
      else
        none
  | [] => none

/-- The number `mantissa * 10 ^ exponent`.  Exponents far outside the range of numbers are brought
nearer, which changes nothing about the result. -/
def scaled (mantissa : Nat) (width : Nat) (exponent : Int) : Float :=
  let bound := 1000 + width
  if exponent < 0 then Float.ofScientific mantissa true (min exponent.natAbs bound)
  else Float.ofScientific mantissa false (min exponent.natAbs bound)

/-- The largest number of digits an integer may have. -/
def maxDigits : Nat := 4300

/-- Reads a number without sign.  A number with neither fraction nor exponent is an integer, and
no number has a superfluous leading zero.  Only integers are limited in length. -/
def readNumber? (negative : Bool) (text : List Char) : Option (Setting × List Char) :=
  let (whole, rest) :=
    match text with
    | '0' :: rest => (['0'], rest)
    | text => digits text
  if whole.isEmpty then
    none
  else
    let (places, rest) := (fraction? rest).getD ([], rest)
    match exponent? rest, places with
    | none, [] =>
        if whole.length ≤ maxDigits then
          let value : Int := digitsValue whole
          some (integer (if negative then -value else value), rest)
        else
          none
    | found, places =>
        let (exponent, rest) := found.getD (0, rest)
        let all := whole ++ places
        let value := scaled (digitsValue all) all.length (exponent - places.length)
        some (decimal (if negative then -value else value), rest)

/-- The value of a hexadecimal digit. -/
def hexDigit? (c : Char) : Option Nat :=
  if '0' ≤ c && c ≤ '9' then some (c.toNat - '0'.toNat)
  else if 'a' ≤ c && c ≤ 'f' then some (c.toNat - 'a'.toNat + 10)
  else if 'A' ≤ c && c ≤ 'F' then some (c.toNat - 'A'.toNat + 10)
  else none

/-- The value of four hexadecimal digits. -/
def hexUnit? (a b c d : Char) : Option Nat := do
  let a ← hexDigit? a
  let b ← hexDigit? b
  let c ← hexDigit? c
  let d ← hexDigit? d
  return ((a * 16 + b) * 16 + c) * 16 + d

/-- The character of a single escape. -/
def simpleEscape? : Char → Option Char
  | '"' => some '"'
  | '\\' => some '\\'
  | '/' => some '/'
  | 'b' => some '\x08'
  | 'f' => some '\x0c'
  | 'n' => some '\n'
  | 'r' => some '\r'
  | 't' => some '\t'
  | _ => none

/-- Reads the rest of a string after its opening quote. -/
def readString? (seen : List Text.Symbol) : List Char → Option (Text.Loose × List Char)
  | [] => none
  | '"' :: rest => some (⟨seen.reverse⟩, rest)
  | '\\' :: 'u' :: a :: b :: c :: d :: '\\' :: 'u' :: e :: f :: g :: h :: rest =>
      match hexUnit? a b c d, hexUnit? e f g h with
      | some high, some low =>
          match Text.Symbol.ofPair? high low with
          | some symbol => readString? (symbol :: seen) rest
          | none => readString? (.ofUnit high :: seen) ('\\' :: 'u' :: e :: f :: g :: h :: rest)
      | some unit, none =>
          readString? (.ofUnit unit :: seen) ('\\' :: 'u' :: e :: f :: g :: h :: rest)
      | none, _ => none
  | '\\' :: 'u' :: a :: b :: c :: d :: rest =>
      match hexUnit? a b c d with
      | some unit => readString? (.ofUnit unit :: seen) rest
      | none => none
  | '\\' :: c :: rest =>
      match simpleEscape? c with
      | some character => readString? (.char character :: seen) rest
      | none => none
  | c :: rest =>
      if c.toNat < 0x20 || c = '\\' then none else readString? (.char c :: seen) rest

/-- Reads a value that nothing is nested in and that is not a string. -/
def readAtom? (text : List Char) : Option (Setting × List Char) :=
  match text with
  | '-' :: rest =>
      match afterWord? "Infinity" rest with
      | some rest => some (decimal (-1 / 0), rest)
      | none => readNumber? true rest
  | text =>
      match afterWord? "null" text, afterWord? "true" text, afterWord? "false" text,
        afterWord? "NaN" text, afterWord? "Infinity" text with
      | some rest, _, _, _, _ => some (null, rest)
      | _, some rest, _, _, _ => some (bool true, rest)
      | _, _, some rest, _, _ => some (bool false, rest)
      | _, _, _, some rest, _ => some (decimal (0 / 0), rest)
      | _, _, _, _, some rest => some (decimal (1 / 0), rest)
      | none, none, none, none, none => readNumber? false text

end Setting

/-- Why a text is not a configuration. -/
inductive JsonFault where
  | malformed
  /-- Lists and records stand too deep inside each other. -/
  | tooDeep
deriving DecidableEq, Repr, Inhabited

namespace Setting

/-- What was read, or else the text is malformed. -/
def orMalformed {α : Type} : Option α → Except JsonFault α
  | some value => .ok value
  | none => .error .malformed

/-- How many lists and records may stand inside each other. -/
def maxNesting : Nat := 980

/-- Reads the items of a list up to its closing bracket, given how one item is read.  Every item takes
text, so the length of the text bounds their number. -/
def readItems (readItem : List Char → Except JsonFault (Setting × List Char)) :
    Nat → List Setting → List Char → Except JsonFault (Setting × List Char)
  | 0, _, _ => .error .malformed
  | bound + 1, seen, text =>
      match readItem text with
      | .error fault => .error fault
      | .ok (item, rest) =>
          match skipBlanks rest with
          | ',' :: rest => readItems readItem bound (item :: seen) rest
          | ']' :: rest => .ok (list (item :: seen).reverse, rest)
          | _ => .error .malformed

/-- Reads a key and the colon after it. -/
def readKey? (text : List Char) : Option (Text.Loose × List Char) :=
  match skipBlanks text with
  | '"' :: rest =>
      match readString? [] rest with
      | none => none
      | some (key, rest) =>
          match skipBlanks rest with
          | ':' :: rest => some (key, rest)
          | _ => none
  | _ => none

/-- Reads the entries of a record up to its closing brace, given how one value is read.  Every entry
takes text, so the length of the text bounds their number. -/
def readEntries (readValue : List Char → Except JsonFault (Setting × List Char)) :
    Nat → List (Text.Loose × Setting) → List Char → Except JsonFault (Setting × List Char)
  | 0, _, _ => .error .malformed
  | bound + 1, seen, text =>
      match readKey? text with
      | none => .error .malformed
      | some (key, rest) =>
          match readValue rest with
          | .error fault => .error fault
          | .ok (value, rest) =>
              match skipBlanks rest with
              | ',' :: rest => readEntries readValue bound (insert seen key value) rest
              | '}' :: rest => .ok (record (insert seen key value), rest)
              | _ => .error .malformed

/-- Reads one value after leading blanks, in which so many lists and records may stand inside each
other.  The first one too many is a fault, whatever stands in it. -/
def read (room : Nat) (text : List Char) : Except JsonFault (Setting × List Char) :=
  match skipBlanks text with
  | '"' :: rest =>
      orMalformed ((readString? [] rest).map fun (value, rest) => (string value, rest))
  | '{' :: rest =>
      match room with
      | 0 => .error .tooDeep
      | room + 1 =>
          match skipBlanks rest with
          | '}' :: rest => .ok (record [], rest)
          | rest => readEntries (read room) rest.length [] rest
  | '[' :: rest =>
      match room with
      | 0 => .error .tooDeep
      | room + 1 =>
          match skipBlanks rest with
          | ']' :: rest => .ok (list [], rest)
          | rest => readItems (read room) rest.length [] rest
  | text => orMalformed (readAtom? text)

/-- Reads a JSON text, which holds one value and nothing after it. -/
def ofJson (text : String) : Except JsonFault Setting :=
  match read maxNesting text.toList with
  | .error fault => .error fault
  | .ok (value, rest) => if (skipBlanks rest).isEmpty then .ok value else .error .malformed

end Setting

end LoxLang
