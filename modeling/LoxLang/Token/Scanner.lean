/-
Module: LoxLang.Token.Scanner
Purpose: Splitting source text into tokens, longest match first.  A character that starts no token
  and a string that is not closed are recorded and skipped, so one pass finds all of them.
Main exports: LexicalError, Cursor.readToken, Scanner, Scanner.next, Scanner.tokens, scan
-/
import LoxLang.Token.Basic

namespace LoxLang

/-! ### Errors -/

/-- What can be wrong with a piece of source text. -/
inductive LexicalError where
  /-- A character that starts no token. -/
  | unexpectedCharacter (character : Char) (line : Nat)
  /-- A string without closing quote; the line is that of the end of the text. -/
  | unterminatedString (line : Nat)
deriving DecidableEq, Repr, Inhabited

namespace LexicalError

/-- The line an error is reported on. -/
def line : LexicalError → Nat
  | unexpectedCharacter _ line => line
  | unterminatedString line => line

/-- What went wrong. -/
def message : LexicalError → String
  | unexpectedCharacter _ _ => "Unexpected character."
  | unterminatedString _ => "Unterminated string."

/-- The report of an error. -/
def text (error : LexicalError) : String :=
  s!"[line {error.line}] Error: {error.message}"

end LexicalError

/-! ### Character classes -/

/-- The digits of numbers; only the ten ASCII digits count. -/
def isDigit (c : Char) : Bool :=
  '0' ≤ c && c ≤ '9'

/-- The characters that start a word; only ASCII letters and the underscore count. -/
def isLetter (c : Char) : Bool :=
  ('a' ≤ c && c ≤ 'z') || ('A' ≤ c && c ≤ 'Z') || c = '_'

/-- The characters that continue a word. -/
def isWordPart (c : Char) : Bool :=
  isLetter c || isDigit c

/-! ### One token -/

namespace Cursor

/-- Reads a word that starts with `first`, which has been read. -/
def readWord (first : Char) (cursor : Cursor) : Token × Cursor :=
  let (letters, following) := cursor.span isWordPart
  let lexeme := String.ofList (first :: letters)
  ({ kind := .ofWord lexeme, lexeme := lexeme, literal := none, position := cursor.position },
    following)

/-- Reads a point and the digits after it.  A point that no digit follows is not a fraction. -/
def readFraction? (cursor : Cursor) : Option (List Char × Cursor) :=
  match cursor.next? with
  | some ('.', following) =>
      let (digits, rest) := following.span isDigit
      if digits.isEmpty then none else some (digits, rest)
  | _ => none

/-- Reads a number that starts with the digit `first`, which has been read. -/
def readNumber (first : Char) (cursor : Cursor) : Token × Cursor :=
  let (more, following) := cursor.span isDigit
  let whole := first :: more
  match following.readFraction? with
  | none =>
      ({ kind := .number
         lexeme := String.ofList whole
         literal := some (.number (Number.ofDigits whole 0))
         position := cursor.position },
        following)
  | some (digits, rest) =>
      ({ kind := .number
         lexeme := String.ofList (whole ++ '.' :: digits)
         literal := some (.number (Number.ofDigits (whole ++ digits) digits.length))
         position := cursor.position },
        rest)

/-- Reads a string whose opening quote has been read.  A string may span lines and has no
escapes. -/
def readString (cursor : Cursor) : Except LexicalError Token × Cursor :=
  let (characters, following) := cursor.span (· ≠ '"')
  match following.next? with
  | none => (.error (.unterminatedString following.position.line), following)
  | some (_, rest) =>
      let value := String.ofList characters
      (.ok
        { kind := .string
          lexeme := "\"" ++ value ++ "\""
          literal := some (.string value)
          position := cursor.position },
        rest)

/-- Reads an operator or a mark that starts with `first`, which has been read. -/
def readMark (first : Char) (cursor : Cursor) : Except LexicalError Token × Cursor :=
  let token (kind : Kind) (characters : List Char) : Except LexicalError Token :=
    .ok
      { kind := kind
        lexeme := String.ofList characters
        literal := none
        position := cursor.position }
  match Kind.ofMark? first, Kind.ofComparison? first with
  | some kind, _ => (token kind [first], cursor)
  | none, some (alone, withEqual) =>
      match cursor.next? with
      | some ('=', rest) => (token withEqual [first, '='], rest)
      | _ => (token alone [first], cursor)
  | none, none => (.error (.unexpectedCharacter first cursor.position.line), cursor)

/-- Reads the token that starts with `first`, which has been read.  The classes of first
characters are disjoint, so the order of the tests does not matter. -/
def readToken (first : Char) (cursor : Cursor) : Except LexicalError Token × Cursor :=
  if isLetter first then
    let (token, following) := cursor.readWord first
    (.ok token, following)
  else if isDigit first then
    let (token, following) := cursor.readNumber first
    (.ok token, following)
  else if first = '"' then
    cursor.readString
  else
    cursor.readMark first

theorem readFraction?_length {cursor following : Cursor} {digits : List Char}
    (read : cursor.readFraction? = some (digits, following)) :
    following.rest.length ≤ cursor.rest.length := by
  unfold readFraction? at read
  split at read
  · rename_i after point
    split at read
    rename_i digits' rest run
    split at read
    · simp at read
    · simp at read
      obtain ⟨_, rfl⟩ := read
      have shorter := span_length isDigit after
      rw [run] at shorter
      exact Nat.le_trans shorter (Nat.le_of_lt (next?_length point))
  · simp at read

theorem readNumber_length (first : Char) (cursor : Cursor) :
    (cursor.readNumber first).2.rest.length ≤ cursor.rest.length := by
  unfold readNumber
  have shorter := span_length isDigit cursor
  split
  rename_i more following run
  rw [run] at shorter
  split
  · exact shorter
  · rename_i digits rest fraction
    exact Nat.le_trans (readFraction?_length fraction) shorter

theorem readString_length (cursor : Cursor) :
    cursor.readString.2.rest.length ≤ cursor.rest.length := by
  unfold readString
  have shorter := span_length (· ≠ '"') cursor
  split
  rename_i characters following run
  rw [run] at shorter
  split
  · exact shorter
  · rename_i quote rest read
    exact Nat.le_trans (Nat.le_of_lt (next?_length read)) shorter

theorem readMark_length (first : Char) (cursor : Cursor) :
    (cursor.readMark first).2.rest.length ≤ cursor.rest.length := by
  unfold readMark
  split
  · exact Nat.le_refl _
  · split
    · rename_i rest read
      exact Nat.le_of_lt (next?_length read)
    · exact Nat.le_refl _
  · exact Nat.le_refl _

/-- Reading a token leaves no more than there was after its first character. -/
theorem readToken_length (first : Char) (cursor : Cursor) :
    (cursor.readToken first).2.rest.length ≤ cursor.rest.length := by
  unfold readToken
  split
  · exact span_length isWordPart cursor
  · split
    · exact readNumber_length first cursor
    · split
      · exact readString_length cursor
      · exact readMark_length first cursor

end Cursor

/-! ### All tokens -/

/-- A scan under way: the cursor before the next character, the errors found so far, whether a
token has been asked for, and whether the whole text has been handed out. -/
structure Scanner where
  cursor : Cursor
  errors : Array LexicalError
  started : Bool
  finished : Bool
deriving Repr, Inhabited

namespace Scanner

/-- A scan of a text that has not begun. -/
def ofString (text : String) : Scanner :=
  { cursor := .ofString text, errors := #[], started := false, finished := false }

/-- The character that the next token is looked for at; none before the scan has begun. -/
def current? (scanner : Scanner) : Option Char :=
  if scanner.started then scanner.cursor.read.1 else none

/-- Reads up to and including the next token, collecting errors on the way.  At the end of the
text every further token is `eof`. -/
def nextFrom (cursor : Cursor) (errors : Array LexicalError) :
    Token × Cursor × Array LexicalError :=
  match _ : cursor.skipTrivia.next? with
  | none =>
      let stop := cursor.skipTrivia
      (.eof stop.position, stop, errors)
  | some (first, following) =>
      match _ : following.readToken first with
      | (.ok token, rest) => (token, rest, errors)
      | (.error error, rest) => nextFrom rest (errors.push error)
termination_by cursor.rest.length
decreasing_by
  have shorter := Cursor.readToken_length first following
  rw [‹following.readToken first = _›] at shorter
  exact Nat.lt_of_le_of_lt shorter (Nat.lt_of_lt_of_le
    (Cursor.next?_length ‹cursor.skipTrivia.next? = _›) (Cursor.skipTrivia_length cursor))

/-- Reads the next token. -/
def next (scanner : Scanner) : Token × Scanner :=
  let (token, cursor, errors) := nextFrom scanner.cursor scanner.errors
  (token, { scanner with cursor := cursor, errors := errors, started := true })

/-- A token other than `eof` has been read from characters that are now gone. -/
theorem nextFrom_length (cursor : Cursor) (errors : Array LexicalError) :
    (nextFrom cursor errors).1.kind = .eof ∨
      (nextFrom cursor errors).2.1.rest.length < cursor.rest.length := by
  fun_induction nextFrom cursor errors with
  | case1 => exact .inl rfl
  | case2 cursor errors first following read token rest found =>
      have shorter := Cursor.readToken_length first following
      rw [found] at shorter
      exact .inr (Nat.lt_of_le_of_lt shorter
        (Nat.lt_of_lt_of_le (Cursor.next?_length read) (Cursor.skipTrivia_length cursor)))
  | case3 cursor errors first following read error rest found ih =>
      have shorter := Cursor.readToken_length first following
      rw [found] at shorter
      have shorterRest := Nat.lt_of_le_of_lt shorter
        (Nat.lt_of_lt_of_le (Cursor.next?_length read) (Cursor.skipTrivia_length cursor))
      exact ih.imp id fun less => Nat.lt_trans less shorterRest

/-- Reads all tokens that are left, adding them in front of `seen`. -/
def drainOnto (seen : List Token) (cursor : Cursor) (errors : Array LexicalError) :
    List Token × Cursor × Array LexicalError :=
  match _ : nextFrom cursor errors with
  | (token, rest, found) =>
      if _ : token.kind = .eof then (token :: seen, rest, found)
      else drainOnto (token :: seen) rest found
termination_by cursor.rest.length
decreasing_by
  have shorter := nextFrom_length cursor errors
  rw [‹nextFrom cursor errors = _›] at shorter
  exact shorter.resolve_left ‹_›

/-- All tokens not yet read, up to and including `eof`; none once they have been handed out. -/
def tokens (scanner : Scanner) : List Token × Scanner :=
  if scanner.finished then
    ([], scanner)
  else
    let (seen, cursor, errors) := drainOnto [] scanner.cursor scanner.errors
    (seen.reverse, { cursor := cursor, errors := errors, started := true, finished := true })

end Scanner

/-- The tokens of a text and the lexical errors in it. -/
structure Scan where
  tokens : List Token
  errors : Array LexicalError
deriving Repr, Inhabited

/-- Splits a text into tokens, the last of which is `eof`. -/
def scan (text : String) : Scan :=
  let (tokens, scanner) := (Scanner.ofString text).tokens
  { tokens := tokens, errors := scanner.errors }

end LoxLang
