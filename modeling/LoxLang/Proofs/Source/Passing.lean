/-
Module: LoxLang.Proofs.Source.Passing
Purpose: What is read, as it is written.  Reading takes characters off the front of a text and never
  stops between the two characters of a line end, so what is read and what is left can be changed
  apart from each other.
Main exports: Cursor.Passes, Cursor.Onwards, Cursor.skipTrivia_onwards, Cursor.readToken_onwards
-/
import LoxLang.Proofs.Source.Lookahead
import LoxLang.Token.Scanner
import Mathlib.Data.List.Basic

namespace LoxLang

namespace Cursor

/-- Whether reading from one cursor to another takes these characters, as they are written, off the
text. -/
structure Passes (cursor : Cursor) (written : List Char) (following : Cursor) : Prop where
  rest : cursor.rest = written ++ following.rest
  apart : written.getLast? = some '\r' → following.rest.head? ≠ some '\n'

/-- Whether reading from one cursor leads to another. -/
def Onwards (cursor following : Cursor) : Prop :=
  ∃ written, cursor.Passes written following

namespace Onwards

variable {cursor middle following : Cursor}

theorem refl (cursor : Cursor) : cursor.Onwards cursor :=
  ⟨[], rfl, nofun⟩

theorem trans (first : cursor.Onwards middle) (second : middle.Onwards following) :
    cursor.Onwards following := by
  obtain ⟨written, isRest, apart⟩ := first
  obtain ⟨more, isMore, apartMore⟩ := second
  refine ⟨written ++ more, by rw [isRest, isMore, List.append_assoc], fun isReturn => ?_⟩
  cases more with
  | nil =>
      rw [List.append_nil] at isReturn
      have same : middle.rest = following.rest := isMore
      exact same ▸ apart isReturn
  | cons c more =>
      rw [List.getLast?_append_of_ne_nil _ (List.cons_ne_nil c more)] at isReturn
      exact apartMore isReturn

end Onwards

/-- What is passed is read as it is on its own, whatever is put behind it. -/
theorem Passes.normalize_append {cursor following : Cursor} {written : List Char}
    (passes : cursor.Passes written following) {other : List Char}
    (same : other.head? = some '\n' → following.rest.head? = some '\n') :
    normalize (written ++ other) = normalize written ++ normalize other :=
  LoxLang.normalize_append fun isReturn isNewline => passes.apart isReturn (same isNewline)

/-- Characters that are passed are those that are read. -/
theorem Passes.normalize_eq {cursor following : Cursor} {written run : List Char}
    (passes : cursor.Passes written following) (reads : cursor.Reads run following) :
    normalize written = run := by
  have isAhead := reads.ahead
  rw [ahead, passes.rest, passes.normalize_append id] at isAhead
  exact List.append_cancel_right isAhead

/-! ### The readers of the scanner -/

theorem next?_onwards {cursor following : Cursor} {c : Char}
    (read : cursor.next? = some (c, following)) : cursor.Onwards following := by
  unfold next? at read
  split at read
  · cases read
  · rename_i rest first
    cases read
    unfold uncons? at first
    split at first
    · cases first
    · rename_i others isRest
      cases first
      exact ⟨['\r', '\n'], isRest, nofun⟩
    · rename_i others noNewline isRest
      cases first
      refine ⟨['\r'], isRest, fun _ isNewline => ?_⟩
      obtain ⟨more, isNext⟩ := List.head?_eq_some_iff.1 isNewline
      exact noNewline more isNext
    · rename_i noBoth noReturn isRest
      cases first
      refine ⟨[c], isRest, fun isReturn => ?_⟩
      exact absurd (Option.some.inj isReturn) noReturn

theorem spanOnto_onwards (accept : Char → Bool) (seen : List Char) (cursor : Cursor) :
    cursor.Onwards (cursor.spanOnto accept seen).2 := by
  fun_induction spanOnto accept seen cursor with
  | case1 seen cursor _ => exact .refl cursor
  | case2 seen cursor c following read _ ih => exact (next?_onwards read).trans ih
  | case3 seen cursor c following _ _ => exact .refl cursor

theorem span_onwards (accept : Char → Bool) (cursor : Cursor) :
    cursor.Onwards (cursor.span accept).2 :=
  spanOnto_onwards accept [] cursor

theorem skipTrivia_onwards (cursor : Cursor) : cursor.Onwards cursor.skipTrivia := by
  fun_induction skipTrivia cursor with
  | case1 cursor _ => exact .refl cursor
  | case2 cursor c following read _ ih => exact (next?_onwards read).trans ih
  | case3 cursor c following read _ _ ih =>
      exact ((next?_onwards read).trans (span_onwards _ following)).trans ih
  | case4 cursor c following _ _ _ => exact .refl cursor

theorem readFraction?_onwards {cursor following : Cursor} {digits : List Char}
    (read : cursor.readFraction? = some (digits, following)) : cursor.Onwards following := by
  unfold readFraction? at read
  split at read
  · rename_i afterPoint point
    simp only at read
    split at read
    · cases read
    · cases read
      exact (next?_onwards point).trans (span_onwards isDigit afterPoint)
  · cases read

theorem readNumber_onwards (first : Char) (cursor : Cursor) :
    cursor.Onwards (cursor.readNumber first).2 := by
  have whole := span_onwards isDigit cursor
  unfold readNumber
  simp only
  split
  · exact whole
  · rename_i digits rest fraction
    exact whole.trans (readFraction?_onwards fraction)

theorem readString_onwards (cursor : Cursor) : cursor.Onwards cursor.readString.2 := by
  have inside := span_onwards (fun c => decide (c ≠ '"')) cursor
  unfold readString
  simp only
  split
  · exact inside
  · rename_i quote rest read
    exact inside.trans (next?_onwards read)

theorem readMark_onwards (first : Char) (cursor : Cursor) :
    cursor.Onwards (cursor.readMark first).2 := by
  unfold readMark
  split
  · exact .refl cursor
  · split
    · rename_i rest read
      exact next?_onwards read
    · exact .refl cursor
  · exact .refl cursor

/-- Reading a token leads on. -/
theorem readToken_onwards (first : Char) (cursor : Cursor) :
    cursor.Onwards (cursor.readToken first).2 := by
  unfold readToken
  split
  · exact span_onwards isWordPart cursor
  · split
    · exact readNumber_onwards first cursor
    · split
      · exact readString_onwards cursor
      · exact readMark_onwards first cursor

end Cursor

end LoxLang
