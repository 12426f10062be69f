/-
Module: LoxLang.Source.Cursor
Purpose: Reading source text one character at a time.  Line ends are read as one newline whether
  they are written `\n`, `\r` or `\r\n`, and the cursor knows the line and column of the
  character read last.  Looking ahead does not move the cursor and works on the characters as
  they are written.
Main exports: Position, normalize, Cursor, Cursor.next?, Cursor.read, Cursor.peek?, Cursor.span,
  Cursor.skipTrivia, Cursor.readSignificant
-/

namespace LoxLang

/-- A place in the source.  Lines count from one; the column is the number of characters read on
the line, so it is zero right after a newline. -/
structure Position where
  line : Nat
  column : Nat
deriving DecidableEq, Repr, Inhabited

namespace Position

/-- The place before the first character. -/
def start : Position :=
  { line := 1, column := 0 }

/-- The place reached by reading `c`. -/
def after (position : Position) (c : Char) : Position :=
  if c = '\n' then { line := position.line + 1, column := 0 }
  else { line := position.line, column := position.column + 1 }

end Position

/-! ### Line ends -/

/-- The first character of a text and what follows it, with a line end read as one newline. -/
def uncons? : List Char → Option (Char × List Char)
  | [] => none
  | '\r' :: '\n' :: rest => some ('\n', rest)
  | '\r' :: rest => some ('\n', rest)
  | c :: rest => some (c, rest)

/-- Reading a character leaves fewer of them. -/
theorem uncons?_length {text rest : List Char} {c : Char}
    (read : uncons? text = some (c, rest)) : rest.length < text.length := by
  unfold uncons? at read
  split at read
  · cases read
  · cases read
    exact Nat.lt_succ_of_lt (Nat.lt_succ_self _)
  · cases read
    exact Nat.lt_succ_self _
  · cases read
    exact Nat.lt_succ_self _

/-- The text with every line end written as one newline. -/
def normalize : List Char → List Char
  | [] => []
  | '\r' :: '\n' :: rest => '\n' :: normalize rest
  | '\r' :: rest => '\n' :: normalize rest
  | c :: rest => c :: normalize rest

/-! ### The cursor -/

/-- What is left to read, and the place of the character read last. -/
structure Cursor where
  rest : List Char
  position : Position
deriving DecidableEq, Repr, Inhabited

namespace Cursor

/-- The cursor before the first character of a text. -/
def ofString (text : String) : Cursor :=
  { rest := text.toList, position := .start }

/-- Reads one character, or nothing at the end of the text. -/
def next? (cursor : Cursor) : Option (Char × Cursor) :=
  match uncons? cursor.rest with
  | none => none
  | some (c, rest) => some (c, { rest := rest, position := cursor.position.after c })

/-- Reads one character if there is one; at the end the cursor stays where it is. -/
def read (cursor : Cursor) : Option Char × Cursor :=
  match cursor.next? with
  | none => (none, cursor)
  | some (c, following) => (some c, following)

/-- Each character read shortens what is left, which bounds every loop over a cursor. -/
theorem next?_length {cursor following : Cursor} {c : Char}
    (read : cursor.next? = some (c, following)) :
    following.rest.length < cursor.rest.length := by
  unfold next? at read
  split at read
  · simp at read
  · rename_i d rest first
    simp at read
    obtain ⟨_, rfl⟩ := read
    exact uncons?_length first

/-- The `k`-th character ahead as it is written, counting from one, without reading it.  A
carriage return is shown as a newline, and the two characters of `\r\n` count as two. -/
def peek? (cursor : Cursor) (k : Int) : Option Char :=
  if k < 1 then none
  else cursor.rest[(k - 1).toNat]?.map fun c => if c = '\r' then '\n' else c

/-- Reads characters while they satisfy `accept`, adding them in front of `seen`. -/
def spanOnto (accept : Char → Bool) (seen : List Char) (cursor : Cursor) : List Char × Cursor :=
  match _ : cursor.next? with
  | none => (seen, cursor)
  | some (c, following) =>
      if accept c then spanOnto accept (c :: seen) following else (seen, cursor)
termination_by cursor.rest.length
decreasing_by exact next?_length ‹cursor.next? = _›

/-- Reads the longest run of characters that satisfy `accept`. -/
def span (accept : Char → Bool) (cursor : Cursor) : List Char × Cursor :=
  let (seen, following) := cursor.spanOnto accept []
  (seen.reverse, following)

theorem spanOnto_length (accept : Char → Bool) (seen : List Char) (cursor : Cursor) :
    (cursor.spanOnto accept seen).2.rest.length ≤ cursor.rest.length := by
  fun_induction spanOnto accept seen cursor with
  | case1 => exact Nat.le_refl _
  | case2 seen cursor c following read accepted ih =>
      exact Nat.le_trans ih (Nat.le_of_lt (next?_length read))
  | case3 => exact Nat.le_refl _

/-- A run of characters leaves no more than there was. -/
theorem span_length (accept : Char → Bool) (cursor : Cursor) :
    (cursor.span accept).2.rest.length ≤ cursor.rest.length :=
  spanOnto_length accept [] cursor

/-! ### Blanks and comments -/

/-- Characters that separate tokens and mean nothing else. -/
def isBlank (c : Char) : Bool :=
  c = ' ' || c = '\t' || c = '\n'

/-- Moves past blanks and comments, which run from `//` to the end of the line, and stops before
the first character that can start a token. -/
def skipTrivia (cursor : Cursor) : Cursor :=
  match _ : cursor.next? with
  | none => cursor
  | some (c, following) =>
      if isBlank c then
        skipTrivia following
      else if c = '/' ∧ following.peek? 1 = some '/' then
        skipTrivia (following.span (· ≠ '\n')).2
      else
        cursor
termination_by cursor.rest.length
decreasing_by
  · exact next?_length ‹cursor.next? = _›
  · exact Nat.lt_of_le_of_lt (span_length _ _) (next?_length ‹cursor.next? = _›)

theorem skipTrivia_length (cursor : Cursor) :
    cursor.skipTrivia.rest.length ≤ cursor.rest.length := by
  fun_induction skipTrivia cursor with
  | case1 => exact Nat.le_refl _
  | case2 cursor c following read _ ih =>
      exact Nat.le_trans ih (Nat.le_of_lt (next?_length read))
  | case3 cursor c following read _ _ ih =>
      exact Nat.le_trans ih
        (Nat.le_trans (span_length _ _) (Nat.le_of_lt (next?_length read)))
  | case4 => exact Nat.le_refl _

/-- Skips blanks and comments and reads the character after them, or nothing at the end. -/
def readSignificant (cursor : Cursor) : Option Char × Cursor :=
  cursor.skipTrivia.read

end Cursor

end LoxLang
