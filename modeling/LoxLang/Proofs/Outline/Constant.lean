/-
Module: LoxLang.Proofs.Outline.Constant
Purpose: What a listing shows for a constant stays on one line and tells which constant it is.  The
  characters of a quoted text can be read back one by one, and what is shown for a number holds no
  quote and no capital letter.
Main exports: Text.unescape_escape, Text.quoted_injective, Number.listing_plain,
  Literal.listing_injective, Literal.listing_oneLine
-/
import LoxLang.Literal
import LoxLang.Proofs.Number.Packing
import LoxLang.Proofs.Number.Writing

namespace LoxLang

/-! ### Quoted texts -/

namespace Text

/-- The number that a hexadecimal digit stands for. -/
def hexDigit (c : Char) : ℕ :=
  if c.isDigit then c.toNat - 48 else c.toNat - 87

/-- The number that hexadecimal digits stand for. -/
def hexValue (digits : List Char) : ℕ :=
  digits.foldl (fun total digit => 16 * total + hexDigit digit) 0

theorem hexDigit_digitChar : ∀ n < 16, hexDigit (Nat.digitChar n) = n := by
  decide

theorem hexValue_append (digits : List Char) (digit : Char) :
    hexValue (digits ++ [digit]) = 16 * hexValue digits + hexDigit digit := by
  rw [hexValue, List.foldl_append]
  rfl

theorem hexValue_toDigits (n : ℕ) : hexValue (Nat.toDigits 16 n) = n := by
  induction n using Nat.strongRecOn with
  | _ n ih =>
      rw [Nat.toDigits_eq_if (by decide)]
      split
      · rename_i small
        exact (Nat.zero_add _).trans (hexDigit_digitChar n small)
      · rename_i large
        rw [hexValue_append, ih (n / 16) (by omega), hexDigit_digitChar _ (by omega)]
        omega

theorem hexValue_hex (width n : ℕ) : hexValue (hex width n) = n := by
  have zeros : ∀ count, (List.replicate count '0').foldl
      (fun total digit => 16 * total + hexDigit digit) 0 = 0 := by
    intro count
    induction count with
    | zero => rfl
    | succ count ih => exact ih
  rw [hex, hexValue, List.foldl_append, zeros]
  exact hexValue_toDigits n

theorem length_hex {width n : ℕ} (positive : 0 < width) (fits : n < 16 ^ width) :
    (hex width n).length = width := by
  have short := (Nat.length_toDigits_le_iff (by decide) positive).2 fits
  rw [hex, List.length_append, List.length_replicate]
  omega

/-- The first character of what was escaped, and what follows it. -/
def unescape : List Char → Option (Char × List Char)
  | [] => none
  | '\\' :: mark :: rest =>
      some (match mark with
        | 'n' => ('\n', rest)
        | 'r' => ('\r', rest)
        | 't' => ('\t', rest)
        | 'x' => (.ofNat (hexValue (rest.take 2)), rest.drop 2)
        | 'u' => (.ofNat (hexValue (rest.take 4)), rest.drop 4)
        | 'U' => (.ofNat (hexValue (rest.take 8)), rest.drop 8)
        | other => (other, rest))
  | c :: rest => some (c, rest)

/-- The two quotes that enclose texts. -/
def IsQuote (quote : Char) : Prop :=
  quote = '\'' ∨ quote = '"'

theorem isQuote_quoteFor (text : List Char) : IsQuote (quoteFor text) := by
  unfold quoteFor
  split
  · exact .inr rfl
  · exact .inl rfl

theorem unescape_hex {width : ℕ} (positive : 0 < width) {c : Char} (fits : c.toNat < 16 ^ width)
    (rest : List Char) :
    (Char.ofNat (hexValue ((hex width c.toNat ++ rest).take width)),
      (hex width c.toNat ++ rest).drop width) = (c, rest) := by
  have length := length_hex positive fits
  rw [List.take_left' length, List.drop_left' length, hexValue_hex, Char.ofNat_toNat]

/-- What was escaped can be read back. -/
theorem unescape_escape {quote : Char} (isQuote : IsQuote quote) (c : Char) (rest : List Char) :
    unescape (escape quote c ++ rest) = some (c, rest) := by
  have inside : c.toNat < 16 ^ 8 := c.val.toNat_lt
  unfold escape
  split
  · rename_i special
    obtain rfl | rfl := special
    · obtain rfl | rfl := isQuote <;> rfl
    · rfl
  rename_i plain
  have noSlash : c ≠ '\\' := fun isSlash => plain (.inr isSlash)
  split
  · rename_i isNewline
    rw [isNewline]
    rfl
  split
  · rename_i isReturn
    rw [isReturn]
    rfl
  split
  · rename_i isTab
    rw [isTab]
    rfl
  split
  · rw [List.singleton_append, unescape]
    exact fun _ _ isSlash => absurd isSlash noSlash
  split
  · rename_i fits
    exact congrArg some (unescape_hex (by decide) fits rest)
  split
  · rename_i fits
    exact congrArg some (unescape_hex (by decide) fits rest)
  · exact congrArg some (unescape_hex (by decide) inside rest)

/-- What was escaped stays on its line. -/
theorem newline_notMem_escape {quote : Char} (isQuote : IsQuote quote) (c : Char) :
    '\n' ∉ escape quote c := by
  have digits : ∀ n, '\n' ∉ Nat.toDigits 16 n := by
    intro n
    induction n using Nat.strongRecOn with
    | _ n ih =>
        rw [Nat.toDigits_eq_if (by decide)]
        split
        · exact List.mem_singleton.not.2 (Nat.digitChar_ne '\n' rfl).symm
        · rename_i large
          rw [List.mem_append, not_or]
          exact ⟨ih (n / 16) (by omega), List.mem_singleton.not.2 (Nat.digitChar_ne '\n' rfl).symm⟩
  have padded : ∀ width n, '\n' ∉ hex width n := by
    intro width n
    rw [hex, List.mem_append, not_or]
    exact ⟨fun member => absurd (List.eq_of_mem_replicate member) (by decide), digits n⟩
  unfold escape
  split
  · rename_i special
    obtain rfl | rfl := special
    · obtain rfl | rfl := isQuote <;> decide
    · decide
  split
  · decide
  rename_i noNewline
  split
  · decide
  split
  · decide
  split
  · exact List.mem_singleton.not.2 (Ne.symm noNewline)
  split
  · simp [padded]
  split
  · simp [padded]
  · simp [padded]

/-- What stands between two quotes. -/
theorem toList_quoted (text : String) :
    (quoted text).toList = quoteFor text.toList ::
      (text.toList.flatMap (escape (quoteFor text.toList)) ++ [quoteFor text.toList]) := by
  rw [quoted, String.toList_ofList]
  rfl

/-- What was escaped up to the closing quote can be read back. -/
theorem eq_of_flatMap_escape {quote : Char} (isQuote : IsQuote quote) {text other : List Char}
    (same : text.flatMap (escape quote) ++ [quote] = other.flatMap (escape quote) ++ [quote]) :
    text = other := by
  have closing : unescape [quote] = some (quote, []) := by
    obtain rfl | rfl := isQuote <;> rfl
  induction text generalizing other with
  | nil =>
      cases other with
      | nil => rfl
      | cons d other =>
          have read := congrArg unescape same
          rw [List.flatMap_cons, List.append_assoc, unescape_escape isQuote, List.flatMap_nil,
            List.nil_append, closing] at read
          simp at read
  | cons c text ih =>
      have read := congrArg unescape same
      rw [List.flatMap_cons, List.append_assoc, unescape_escape isQuote] at read
      cases other with
      | nil =>
          rw [List.flatMap_nil, List.nil_append, closing] at read
          simp at read
      | cons d other =>
          rw [List.flatMap_cons, List.append_assoc, unescape_escape isQuote] at read
          obtain ⟨rfl, rest⟩ := Prod.mk.inj (Option.some.inj read)
          rw [ih rest]

/-- A quoted text tells what the text is. -/
theorem quoted_injective {text other : String} (same : quoted text = quoted other) :
    text = other := by
  have characters := congrArg String.toList same
  rw [toList_quoted, toList_quoted] at characters
  obtain ⟨sameQuote, rest⟩ := List.cons.inj characters
  rw [← sameQuote] at rest
  exact String.toList_injective (eq_of_flatMap_escape (isQuote_quoteFor _) rest)

theorem newline_notMem_quoted (text : String) : '\n' ∉ (quoted text).toList := by
  have isQuote := isQuote_quoteFor text.toList
  have noQuote : '\n' ≠ quoteFor text.toList := by
    obtain isQuote | isQuote := isQuote <;> rw [isQuote] <;> decide
  rw [toList_quoted]
  simp [noQuote, newline_notMem_escape isQuote]

end Text

/-! ### Numbers -/

namespace Layout

variable {layout : Layout} {digits : List Char} {lead : ℤ}

theorem mem_positional (isDigits : Numeral.Digits digits) {c : Char}
    (member : c ∈ layout.positional digits lead) : Numeral.isMantissa c = true := by
  unfold positional at member
  split at member
  · have isFraction := (Numeral.digits_replicate (-lead - 1).toNat).append isDigits
    obtain rfl | rest := List.mem_cons.1 member
    · rfl
    obtain rfl | rest := List.mem_cons.1 rest
    · rfl
    · exact isFraction.isMantissa c rest
  · dsimp only at member
    rw [List.mem_append, List.mem_append] at member
    obtain (inWhole | inZeros) | inFraction := member
    · exact isDigits.isMantissa c (List.mem_of_mem_take inWhole)
    · exact (Numeral.digits_replicate _).isMantissa c inZeros
    · exact Numeral.point_isMantissa
        (fun d isPlace => isDigits d (List.mem_of_mem_drop isPlace)) c inFraction

theorem mem_scientific (isDigits : Numeral.Digits digits) {c : Char}
    (member : c ∈ layout.scientific digits lead) :
    Numeral.isMantissa c = true ∨ c ∈ [layout.exponentMark, '+', '-'] := by
  unfold scientific at member
  dsimp only at member
  rw [List.mem_append, List.mem_append, List.mem_append, List.mem_cons] at member
  obtain ((inFirst | inFraction) | isMark | inSign) | inExponent := member
  · exact .inl (isDigits.isMantissa c (List.mem_of_mem_take inFirst))
  · exact .inl (Numeral.point_isMantissa
      (fun d isPlace => isDigits d (List.mem_of_mem_drop isPlace)) c inFraction)
  · rw [isMark]
    exact .inr List.mem_cons_self
  · right
    split at inSign
    · simp_all
    · split at inSign <;> simp_all
  · exact .inl ((digits_padLeft _ _).isMantissa c inExponent)

/-- What is written for a magnitude is digits, a point, a mark and a sign. -/
theorem mem_magnitude {number : Binary} {c : Char} (member : c ∈ layout.magnitude number) :
    Numeral.isMantissa c = true ∨ c ∈ [layout.exponentMark, '+', '-'] := by
  have isDigits := Numeral.digits_digitChars (Decimal.shortest number).digits
  unfold magnitude at member
  split at member
  · left
    obtain rfl | inFraction := List.mem_cons.1 member
    · rfl
    · exact Numeral.point_isMantissa (List.forall_mem_nil _) c inFraction
  · unfold decimal at member
    dsimp only at member
    split at member
    · exact .inl (mem_positional isDigits member)
    · exact mem_scientific isDigits member

end Layout

/-- The characters that the listing of a number can hold. -/
def Number.inListing (c : Char) : Bool :=
  Numeral.isMantissa c || ['e', '+', '-', 'n', 'a', 'i', 'f'].contains c

theorem Number.listing_plain (number : Float) :
    ∀ c ∈ (listing number).toList, inListing c = true := by
  have inBody : ∀ c ∈ listed.body (.ofBits number.toBits), inListing c = true := by
    intro c member
    unfold Layout.body at member
    split at member
    · exact List.all_eq_true.1 (rfl : listed.notANumber.toList.all inListing = true) c member
    split at member
    · exact List.all_eq_true.1 (rfl : listed.infinity.toList.all inListing = true) c member
    · obtain inMantissa | isMark := Layout.mem_magnitude member
      · rw [inListing, inMantissa]
        rfl
      · exact List.all_eq_true.1
          (rfl : [listed.exponentMark, '+', '-'].all inListing = true) c isMark
  intro c member
  rw [listing, Layout.write, Layout.toList_writeBits] at member
  split at member
  · obtain rfl | inside := List.mem_cons.1 member
    · rfl
    · exact inBody c inside
  · exact inBody c member

/-- The listing of a number tells which number it is. -/
theorem Number.listing_injective {number other : Float} (same : listing number = listing other) :
    number = other :=
  eq_of_sameBits ((Layout.writeBits_eq_iff listed_legible).1 same)

/-! ### Constants -/

namespace Literal

/-- No number is shown like a quoted text. -/
theorem listing_ne_quoted (number : Float) (text : String) :
    Number.listing number ≠ Text.quoted text := by
  intro same
  have isQuote := Text.isQuote_quoteFor text.toList
  have member : Text.quoteFor text.toList ∈ (Number.listing number).toList := by
    rw [same, Text.toList_quoted]
    exact List.mem_cons_self
  have plain := Number.listing_plain number _ member
  obtain isQuote | isQuote := isQuote <;> rw [isQuote] at plain <;> exact absurd plain (by decide)

/-- No number and no quoted text is shown like one of the words for the other constants. -/
theorem listing_ne_word {word : String} (isWord : word ∈ ["None", "True", "False"]) :
    (∀ number, Number.listing number ≠ word) ∧ ∀ text, Text.quoted text ≠ word := by
  obtain ⟨c, rest, begins, capital, noQuote⟩ : ∃ c rest, word.toList = c :: rest ∧
      Number.inListing c = false ∧ ¬Text.IsQuote c := by
    simp only [List.mem_cons, List.not_mem_nil, or_false] at isWord
    obtain rfl | rfl | rfl := isWord
    · exact ⟨'N', "one".toList, rfl, rfl, by simp [Text.IsQuote]⟩
    · exact ⟨'T', "rue".toList, rfl, rfl, by simp [Text.IsQuote]⟩
    · exact ⟨'F', "alse".toList, rfl, rfl, by simp [Text.IsQuote]⟩
  constructor
  · rintro number rfl
    have plain := Number.listing_plain number c (begins ▸ List.mem_cons_self)
    exact Bool.false_ne_true (capital.symm.trans plain)
  · rintro text rfl
    rw [Text.toList_quoted] at begins
    exact noQuote ((List.cons.inj begins).1 ▸ Text.isQuote_quoteFor text.toList)

/-- The words for the constants that are neither numbers nor texts. -/
theorem listing_mem_words : Literal.nil.listing ∈ ["None", "True", "False"] ∧
    ∀ value, (Literal.bool value).listing ∈ ["None", "True", "False"] := by
  refine ⟨List.mem_cons_self, fun value => ?_⟩
  cases value
  · exact .tail _ (.tail _ List.mem_cons_self)
  · exact .tail _ List.mem_cons_self

theorem listing_bool_injective :
    ∀ value other, (Literal.bool value).listing = (Literal.bool other).listing → value = other := by
  decide

/-- What a listing shows for a constant tells which constant it is. -/
theorem listing_injective {value other : Literal} (same : value.listing = other.listing) :
    value = other := by
  have nilApart := listing_ne_word listing_mem_words.1
  have boolApart := fun value => listing_ne_word (listing_mem_words.2 value)
  cases value with
  | nil =>
      cases other with
      | nil => rfl
      | bool value => cases value <;> exact absurd same (by decide)
      | number number => exact absurd same.symm (nilApart.1 number)
      | string text => exact absurd same.symm (nilApart.2 text)
  | bool value =>
      cases other with
      | nil => cases value <;> exact absurd same (by decide)
      | bool other => exact congrArg Literal.bool (listing_bool_injective value other same)
      | number number => exact absurd same.symm ((boolApart value).1 number)
      | string text => exact absurd same.symm ((boolApart value).2 text)
  | number number =>
      cases other with
      | nil => exact absurd same (nilApart.1 number)
      | bool value => exact absurd same ((boolApart value).1 number)
      | number other => exact congrArg Literal.number (Number.listing_injective same)
      | string text => exact absurd same (listing_ne_quoted number text)
  | string text =>
      cases other with
      | nil => exact absurd same (nilApart.2 text)
      | bool value => exact absurd same ((boolApart value).2 text)
      | number number => exact absurd same.symm (listing_ne_quoted number text)
      | string other => exact congrArg Literal.string (Text.quoted_injective same)

/-- What a listing shows for a constant stays on one line. -/
theorem listing_oneLine (value : Literal) : '\n' ∉ value.listing.toList := by
  cases value with
  | nil => decide
  | bool value => cases value <;> decide
  | number number =>
      exact fun member => absurd (Number.listing_plain number _ member) (by decide)
  | string text => exact Text.newline_notMem_quoted text

end Literal

end LoxLang
