/-
Module: LoxLang.Proofs.Source.Reading
Purpose: What reading from a cursor means for the text.  A cursor stands before a text whose line
  ends are all newlines, whatever they were written as; reading takes characters off its front and
  moves the place past them.
Main exports: Position.past, Position.Before, Position.past_start, Cursor.ahead, Cursor.Reads,
  Cursor.next?_eq_some, Cursor.span_reads, normalize_append
-/
import LoxLang.Source.Cursor
import Mathlib.Data.List.Induction

namespace LoxLang

/-- The place reached by reading a text. -/
def Position.past (position : Position) (text : List Char) : Position :=
  text.foldl Position.after position

@[simp] theorem Position.past_nil (position : Position) : position.past [] = position := rfl

@[simp] theorem Position.past_cons (position : Position) (c : Char) (text : List Char) :
    position.past (c :: text) = (position.after c).past text := rfl

@[simp] theorem Position.past_append (position : Position) (first second : List Char) :
    position.past (first ++ second) = (position.past first).past second :=
  List.foldl_append

/-- A character that ends no line moves the place by one column. -/
theorem Position.after_of_ne {c : Char} (inLine : c ≠ '\n') (position : Position) :
    position.after c = { line := position.line, column := position.column + 1 } := by
  rw [after, if_neg inLine]

/-! ### Places in order -/

/-- A place stands before another one. -/
def Position.Before (position other : Position) : Prop :=
  position.line < other.line ∨ (position.line = other.line ∧ position.column < other.column)

namespace Position

theorem before_irrefl (position : Position) : ¬position.Before position := by
  rintro (less | ⟨-, less⟩) <;> exact Nat.lt_irrefl _ less

theorem Before.trans {first second third : Position} (before : first.Before second)
    (later : second.Before third) : first.Before third := by
  unfold Before at *
  omega

theorem before_after (position : Position) (c : Char) : position.Before (position.after c) := by
  unfold after
  split
  · exact .inl (Nat.lt_succ_self _)
  · exact .inr ⟨rfl, Nat.lt_succ_self _⟩

/-- Reading some characters leads further. -/
theorem before_past (position : Position) {text : List Char} (nonempty : text ≠ []) :
    position.Before (position.past text) := by
  induction text generalizing position with
  | nil => exact absurd rfl nonempty
  | cons c rest ih =>
      cases rest with
      | nil => exact position.before_after c
      | cons d others => exact (position.before_after c).trans (ih (position.after c) (by simp))

/-- Reading on does not lead back. -/
theorem not_past_before (position : Position) (text : List Char) :
    ¬(position.past text).Before position := by
  intro back
  cases text with
  | nil => exact position.before_irrefl back
  | cons c rest =>
      have onwards := position.before_past (List.cons_ne_nil c rest)
      exact position.before_irrefl (onwards.trans back)

/-- The line that is reached depends on the line ends that are passed. -/
theorem line_past (position : Position) (text : List Char) :
    (position.past text).line = position.line + text.count '\n' := by
  induction text generalizing position with
  | nil => rfl
  | cons c rest ih =>
      rw [past_cons, ih, after]
      by_cases newline : c = '\n'
      · subst newline
        simp only [↓reduceIte, List.count_cons_self]
        omega
      · simp [newline]

/-- The place of the last character of a text.  Lines count the newlines up to it, the column counts
the characters after the last newline. -/
def atEnd (text : List Char) : Position :=
  { line := 1 + text.count '\n'
    column := (text.reverse.takeWhile fun c => decide (c ≠ '\n')).length }

/-- Reading a text leads to the place of its last character. -/
theorem past_start (text : List Char) : start.past text = atEnd text := by
  induction text using List.reverseRecOn with
  | nil => rfl
  | append_singleton text c ih =>
      rw [past_append, ih, past_cons, past_nil, after]
      by_cases newline : c = '\n' <;> simp [atEnd, newline, Nat.add_assoc]

end Position

/-! ### Line ends -/

theorem normalize_of_uncons? {text rest : List Char} {c : Char}
    (read : uncons? text = some (c, rest)) : normalize text = c :: normalize rest := by
  unfold uncons? at read
  split at read
  · cases read
  · cases read
    rw [normalize]
  · rename_i others noNewline
    cases read
    rw [normalize]
    exact noNewline
  · rename_i first others noBoth noReturn
    cases read
    rw [normalize]
    · exact noBoth
    · exact noReturn

theorem return_notMem_normalize (text : List Char) : '\r' ∉ normalize text := by
  fun_induction normalize text with
  | case1 => exact List.not_mem_nil
  | case2 rest ih => simpa using ih
  | case3 rest noNewline ih => simpa using ih
  | case4 c rest noBoth noReturn ih => simpa [eq_comm] using ⟨noReturn, ih⟩

/-- A text whose line ends are all newlines stays as it is. -/
theorem normalize_eq_self {text : List Char} (noReturn : '\r' ∉ text) : normalize text = text := by
  induction text with
  | nil => rfl
  | cons c rest ih =>
      rw [List.mem_cons, not_or] at noReturn
      rw [normalize, ih noReturn.2]
      · exact fun _ isReturn _ => noReturn.1 isReturn.symm
      · exact fun isReturn => noReturn.1 isReturn.symm

/-- The last character of a text is the last one of what follows its first character. -/
theorem getLast?_cons_of_tail {text : List Char} {c last : Char}
    (isLast : text.getLast? = some last) : (c :: text).getLast? = some last := by
  rw [List.getLast?_cons, isLast]
  rfl

/-- Two texts are read one after the other if no line end goes over from the first to the second. -/
theorem normalize_append {text more : List Char}
    (apart : text.getLast? = some '\r' → more.head? ≠ some '\n') :
    normalize (text ++ more) = normalize text ++ normalize more := by
  fun_induction normalize text with
  | case1 => rfl
  | case2 rest ih =>
      have later := ih fun isReturn =>
        apart (getLast?_cons_of_tail (getLast?_cons_of_tail isReturn))
      rw [List.cons_append, List.cons_append, normalize, later, List.cons_append]
  | case3 rest noNewline ih =>
      have later := ih fun isReturn => apart (getLast?_cons_of_tail isReturn)
      rw [List.cons_append, normalize, later, List.cons_append]
      intro others isText
      cases rest with
      | nil => exact apart rfl (by rw [show more = '\n' :: others from isText]; rfl)
      | cons c rest =>
          cases isText
          exact noNewline _ rfl
  | case4 c rest noBoth noReturn ih =>
      have later := ih fun isReturn => apart (getLast?_cons_of_tail isReturn)
      rw [List.cons_append, normalize, later, List.cons_append]
      · exact fun others isReturn => absurd isReturn noReturn
      · exact noReturn

namespace Cursor

/-- The text that a cursor stands before, its line ends written as newlines. -/
def ahead (cursor : Cursor) : List Char :=
  normalize cursor.rest

/-- Whether reading some characters from one cursor leads to another. -/
structure Reads (cursor : Cursor) (run : List Char) (following : Cursor) : Prop where
  ahead : cursor.ahead = run ++ following.ahead
  position : following.position = cursor.position.past run

namespace Reads

variable {cursor middle following : Cursor} {run more : List Char}

theorem refl (cursor : Cursor) : cursor.Reads [] cursor :=
  ⟨rfl, rfl⟩

theorem trans (first : cursor.Reads run middle) (second : middle.Reads more following) :
    cursor.Reads (run ++ more) following where
  ahead := by rw [first.ahead, second.ahead, List.append_assoc]
  position := by rw [second.position, first.position, Position.past_append]

end Reads

theorem next?_eq_none {cursor : Cursor} (read : cursor.next? = none) : cursor.ahead = [] := by
  cases isText : cursor.rest with
  | nil => rw [ahead, isText, normalize]
  | cons c rest =>
      have some : (uncons? (c :: rest)).isSome := by
        unfold uncons?
        split <;> first | rfl | contradiction
      simp only [next?, isText] at read
      split at read
      · rename_i none
        rw [none] at some
        cases some
      · cases read

theorem next?_eq_some {cursor following : Cursor} {c : Char}
    (read : cursor.next? = some (c, following)) : cursor.Reads [c] following := by
  unfold next? at read
  split at read
  · cases read
  · rename_i rest first
    cases read
    exact ⟨normalize_of_uncons? first, rfl⟩

/-- Looking at the next character shows the one that is read next. -/
theorem peek?_one (cursor : Cursor) : cursor.peek? 1 = cursor.ahead.head? := by
  cases read : cursor.next? with
  | none =>
      have nothing := next?_eq_none read
      cases isText : cursor.rest with
      | nil => simp [peek?, isText, nothing]
      | cons c rest =>
          rw [ahead, isText] at nothing
          unfold normalize at nothing
          split at nothing <;> cases nothing
          rename_i impossible
          cases impossible
  | some found =>
      rcases found with ⟨c, following⟩
      rw [(next?_eq_some read).ahead]
      cases isText : cursor.rest with
      | nil => simp [next?, isText, uncons?] at read
      | cons d rest =>
          have shown : cursor.peek? 1 = some (if d = '\r' then '\n' else d) := by
            simp [peek?, isText]
          rw [shown]
          simp only [next?, isText] at read
          split at read
          · cases read
          · rename_i first
            cases read
            unfold uncons? at first
            split at first <;> cases first
            · rename_i isReturn
              cases isReturn
              rfl
            · rename_i isReturn
              cases isReturn
              rfl
            · rename_i noReturn _ isFirst
              cases isFirst
              rw [if_neg noReturn]
              rfl

theorem spanOnto_reads (accept : Char → Bool) (seen : List Char) (cursor : Cursor) :
    ∃ run, (cursor.spanOnto accept seen).1 = run.reverse ++ seen ∧
      cursor.Reads run (cursor.spanOnto accept seen).2 ∧ (∀ c ∈ run, accept c = true) ∧
      ∀ c ∈ (cursor.spanOnto accept seen).2.ahead.head?, accept c = false := by
  fun_induction spanOnto accept seen cursor with
  | case1 seen cursor read =>
      refine ⟨[], rfl, .refl cursor, by simp, ?_⟩
      rw [next?_eq_none read]
      simp
  | case2 seen cursor c following read accepted ih =>
      obtain ⟨run, isSeen, reads, accepts, stops⟩ := ih
      refine ⟨c :: run, by simp [isSeen], (next?_eq_some read).trans reads, ?_, stops⟩
      intro d member
      cases List.mem_cons.1 member with
      | inl same => exact same ▸ accepted
      | inr later => exact accepts d later
  | case3 seen cursor c following read refused =>
      refine ⟨[], rfl, .refl cursor, by simp, ?_⟩
      rw [(next?_eq_some read).ahead]
      intro d member
      cases member
      simpa using refused

/-- A run of characters is read up to the first one that is not accepted. -/
theorem span_reads (accept : Char → Bool) (cursor : Cursor) :
    cursor.Reads (cursor.span accept).1 (cursor.span accept).2 ∧
      (∀ c ∈ (cursor.span accept).1, accept c = true) ∧
      ∀ c ∈ (cursor.span accept).2.ahead.head?, accept c = false := by
  obtain ⟨run, isSeen, reads, accepts, stops⟩ := spanOnto_reads accept [] cursor
  have isRun : (cursor.span accept).1 = run := by
    simp [span, isSeen]
  rw [isRun]
  exact ⟨reads, accepts, stops⟩

end Cursor

end LoxLang
