/-
Module: LoxLang.Proofs.Source.Lookahead
Purpose: A reader that keeps what it has looked at reads as a cursor does.  Looking ahead moves
  characters from the source to those that are pending and changes nothing else, so what is read
  depends on the text and on how many characters have been read, and not on what has been looked at.
Main exports: Reader.cursor, Reader.peek_eq, Reader.get_eq, Reader.skip_eq, Reader.after_reads,
  Reader.peek_shows
-/
import LoxLang.Proofs.Source.Reading
import LoxLang.Source.Reader

namespace LoxLang

/-! ### Line ends as they are written -/

/-- The first character of a text that begins with `c`, and what follows it. -/
theorem uncons?_cons (c : Char) (rest : List Char) :
    uncons? (c :: rest) =
      if c = '\r' then some ('\n', if rest.head? = some '\n' then rest.tail else rest)
      else some (c, rest) := by
  unfold uncons?
  split
  · contradiction
  · rename_i isText
    cases isText
    rfl
  · rename_i others noNewline isText
    cases isText
    have notNext : ¬rest.head? = some '\n' := by
      intro isNext
      obtain ⟨others, rfl⟩ := List.head?_eq_some_iff.1 isNext
      exact noNewline others rfl
    rw [if_pos rfl, if_neg notNext]
  · rename_i noBoth noReturn isText
    cases isText
    rw [if_neg noReturn]

/-- A beginning of a text is read as a beginning of what the text is read as. -/
theorem normalize_take_prefix (count : Nat) (text : List Char) :
    normalize (text.take count) <+: normalize text := by
  fun_induction normalize text generalizing count with
  | case1 => simp [normalize]
  | case2 rest ih =>
      rcases count with - | - | count
      · exact List.nil_prefix
      · exact List.cons_prefix_cons.2 ⟨rfl, List.nil_prefix⟩
      · exact List.cons_prefix_cons.2 ⟨rfl, ih count⟩
  | case3 rest noNewline ih =>
      cases count with
      | zero => exact List.nil_prefix
      | succ count =>
          rw [List.take_succ_cons, normalize]
          · exact List.cons_prefix_cons.2 ⟨rfl, ih count⟩
          · intro others isTaken
            obtain ⟨more, isRest⟩ := isTaken ▸ rest.take_prefix count
            exact noNewline _ isRest.symm
  | case4 c rest noBoth noReturn ih =>
      cases count with
      | zero => exact List.nil_prefix
      | succ count =>
          rw [List.take_succ_cons, normalize]
          · exact List.cons_prefix_cons.2 ⟨rfl, ih count⟩
          · exact fun others isReturn => absurd isReturn noReturn
          · exact noReturn

/-- The last character of a text is read as the last one of what the text is read as. -/
theorem normalize_getLast? (text : List Char) :
    (normalize text).getLast? = text.getLast?.map fun c => if c = '\r' then '\n' else c := by
  fun_induction normalize text with
  | case1 => rfl
  | case2 rest ih =>
      rw [List.getLast?_cons_cons, List.getLast?_cons, List.getLast?_cons, ih]
      cases rest.getLast? <;> rfl
  | case3 rest noNewline ih =>
      rw [List.getLast?_cons, List.getLast?_cons, ih]
      cases rest.getLast? <;> rfl
  | case4 c rest noBoth noReturn ih =>
      rw [List.getLast?_cons, List.getLast?_cons, ih]
      cases rest.getLast? with
      | none => exact congrArg some (if_neg noReturn).symm
      | some last => rfl

/-- A text is not read as more characters than it is written with. -/
theorem normalize_length (text : List Char) : (normalize text).length ≤ text.length := by
  fun_induction normalize text with
  | case1 => exact Nat.le_refl _
  | case2 rest ih => exact Nat.succ_le_succ (Nat.le_succ_of_le ih)
  | case3 rest noNewline ih => exact Nat.succ_le_succ ih
  | case4 c rest noBoth noReturn ih => exact Nat.succ_le_succ ih

/-- A text in which no two characters make one line end is read as so many characters as it is
written with. -/
theorem normalize_length_of_apart {text : List Char} (noPair : ¬['\r', '\n'] <:+: text) :
    (normalize text).length = text.length := by
  fun_induction normalize text with
  | case1 => rfl
  | case2 rest ih => exact absurd ⟨[], rest, rfl⟩ noPair
  | case3 rest noNewline ih =>
      exact congrArg (· + 1) (ih fun pair => noPair (List.infix_cons pair))
  | case4 c rest noBoth noReturn ih =>
      exact congrArg (· + 1) (ih fun pair => noPair (List.infix_cons pair))

namespace Cursor

/-- Reading one character takes it off the text; at the end there is none. -/
theorem read_reads (cursor : Cursor) :
    cursor.read.1 = cursor.ahead.head? ∧ cursor.Reads (cursor.ahead.take 1) cursor.read.2 := by
  unfold read
  split
  · rename_i atEnd
    rw [next?_eq_none atEnd]
    exact ⟨rfl, .refl cursor⟩
  · rename_i c following isNext
    have reads := next?_eq_some isNext
    rw [reads.ahead]
    exact ⟨rfl, reads⟩

section

variable {accept : Char → Bool} {seen : List Char} {cursor following : Cursor} {c : Char}

theorem spanOnto_of_end (atEnd : cursor.next? = none) :
    cursor.spanOnto accept seen = (seen, cursor) := by
  rw [spanOnto]
  split
  · rfl
  · rename_i isNext
    cases atEnd.symm.trans isNext

theorem spanOnto_of_next (isNext : cursor.next? = some (c, following)) :
    cursor.spanOnto accept seen =
      if accept c then following.spanOnto accept (c :: seen) else (seen, cursor) := by
  rw [spanOnto]
  split
  · rename_i atEnd
    cases isNext.symm.trans atEnd
  · rename_i isOther
    cases isNext.symm.trans isOther
    rfl

theorem skipTrivia_of_end (atEnd : cursor.next? = none) : cursor.skipTrivia = cursor := by
  rw [skipTrivia]
  split
  · rfl
  · rename_i isNext
    cases atEnd.symm.trans isNext

theorem skipTrivia_of_next (isNext : cursor.next? = some (c, following)) :
    cursor.skipTrivia =
      if isBlank c then following.skipTrivia
      else if c = '/' ∧ following.peek? 1 = some '/' then
        (following.span (· ≠ '\n')).2.skipTrivia
      else cursor := by
  rw [skipTrivia]
  split
  · rename_i atEnd
    cases isNext.symm.trans atEnd
  · rename_i isOther
    cases isNext.symm.trans isOther
    rfl

end

theorem next?_of_read_none {cursor following : Cursor} (isRead : cursor.read = (none, following)) :
    cursor.next? = none := by
  unfold read at isRead
  split at isRead
  · assumption
  · cases isRead

theorem next?_of_read_some {cursor following : Cursor} {c : Char}
    (isRead : cursor.read = (some c, following)) : cursor.next? = some (c, following) := by
  unfold read at isRead
  split at isRead
  · cases isRead
  · cases isRead
    assumption

/-- After some characters have been read, the others are left. -/
theorem Reads.ahead_drop {cursor following : Cursor} {count : Nat}
    (reads : cursor.Reads (cursor.ahead.take count) following) :
    following.ahead = cursor.ahead.drop count := by
  have all := reads.ahead
  rw [← List.append_cancel_left_eq (cursor.ahead.take count), ← all, List.take_append_drop]

end Cursor

namespace Reader

/-- What is left to read, wherever it is kept, and the place of the character read last. -/
def cursor (reader : Reader) : Cursor :=
  { rest := reader.pending ++ reader.source, position := reader.position }

/-- The cursor before the first character. -/
theorem cursor_ofString (text : String) : (ofString text).cursor = .ofString text := rfl

/-! ### Taking and looking -/

/-- A pull takes the first character of the source, or finds that there is none. -/
theorem pull_cases (reader : Reader) :
    (∃ stopped, reader.pull = (none, stopped) ∧ reader.source = [] ∧ stopped.source = [] ∧
      stopped.pending = reader.pending ∧ stopped.position = reader.position) ∨
    ∃ c following, reader.pull = (some c, following) ∧ reader.source = c :: following.source ∧
      following.pending = reader.pending ∧ following.position = reader.position := by
  unfold pull
  split
  · rename_i exhausted
    exact .inl ⟨_, rfl, reader.ended exhausted, reader.ended exhausted, rfl, rfl⟩
  · split
    · rename_i isEmpty
      exact .inl ⟨_, rfl, isEmpty, isEmpty, rfl, rfl⟩
    · rename_i c rest isSource
      exact .inr ⟨c, _, rfl, isSource, rfl, rfl⟩

/-- The character taken is the first one that is left, wherever it is kept. -/
theorem take_cases (reader : Reader) :
    (∃ stopped, reader.take = (none, stopped) ∧ reader.cursor.rest = [] ∧
      stopped.cursor = reader.cursor) ∨
    ∃ c following, reader.take = (some c, following) ∧
      reader.cursor.rest = c :: following.cursor.rest ∧
      following.position = reader.position := by
  unfold take
  split
  · rename_i nonePending
    obtain ⟨stopped, isPulled, isSource, isEmpty, samePending, samePosition⟩ |
      ⟨c, following, isPulled, isSource, samePending, samePosition⟩ := reader.pull_cases
    · refine .inl ⟨stopped, isPulled, by simp [cursor, nonePending, isSource], ?_⟩
      simp [cursor, isSource, isEmpty, samePending, samePosition]
    · refine .inr ⟨c, following, isPulled, ?_, samePosition⟩
      simp [cursor, nonePending, isSource, samePending]
  · rename_i c rest isPending
    exact .inr ⟨c, _, rfl, by simp [cursor, isPending], rfl⟩

/-- Taking leaves what comes after the first character. -/
theorem take_tail (reader : Reader) : reader.take.2.cursor.rest = reader.cursor.rest.tail := by
  obtain ⟨stopped, isTaken, isEnd, same⟩ | ⟨c, following, isTaken, isRest, -⟩ := reader.take_cases
  · rw [isTaken, same, isEnd]
    rfl
  · rw [isTaken, isRest]
    rfl

theorem fill_of_pull {reader following : Reader} {c : Char} (missing : Nat)
    (isPulled : reader.pull = (some c, following)) :
    reader.fill (missing + 1) =
      fill missing { following with pending := following.pending ++ [c] } := by
  rw [fill, isPulled]

theorem fill_of_end {reader stopped : Reader} (missing : Nat)
    (isPulled : reader.pull = (none, stopped)) : reader.fill (missing + 1) = stopped := by
  rw [fill, isPulled]

/-- Characters that become pending are still to be read. -/
theorem fill_cursor (missing : Nat) (reader : Reader) :
    (reader.fill missing).cursor = reader.cursor := by
  induction missing generalizing reader with
  | zero => rfl
  | succ missing ih =>
      obtain ⟨stopped, isPulled, isSource, isEmpty, samePending, samePosition⟩ |
        ⟨c, following, isPulled, isSource, samePending, samePosition⟩ := reader.pull_cases
      · rw [fill_of_end missing isPulled]
        simp [cursor, isSource, isEmpty, samePending, samePosition]
      · rw [fill_of_pull missing isPulled, ih]
        simp [cursor, isSource, samePending, samePosition]

/-- As many more characters are pending as were asked for, or the source is empty. -/
theorem fill_enough (missing : Nat) (reader : Reader) :
    reader.pending.length + missing ≤ (reader.fill missing).pending.length ∨
      (reader.fill missing).source = [] := by
  induction missing generalizing reader with
  | zero => exact .inl (Nat.le_refl _)
  | succ missing ih =>
      obtain ⟨stopped, isPulled, -, isEmpty, -, -⟩ |
        ⟨c, following, isPulled, -, samePending, -⟩ := reader.pull_cases
      · rw [fill_of_end missing isPulled]
        exact .inr isEmpty
      · rw [fill_of_pull missing isPulled]
        refine (ih _).imp_left fun enough => ?_
        have more : (following.pending ++ [c]).length = reader.pending.length + 1 := by
          simp [samePending]
        change (following.pending ++ [c]).length + missing ≤ _ at enough
        omega

/-- After looking so far, the characters looked at are pending as far as there are any. -/
theorem fill_getElem? {k missing : Nat} {reader : Reader}
    (far : k < reader.pending.length + missing) :
    (reader.fill missing).pending[k]? = reader.cursor.rest[k]? := by
  rw [← fill_cursor missing reader]
  obtain enough | isEmpty := reader.fill_enough missing
  · exact (List.getElem?_append_left (Nat.lt_of_lt_of_le far enough)).symm
  · simp [cursor, isEmpty]

/-- Looking ahead leaves everything to be read. -/
theorem peek_cursor (k : Int) (reader : Reader) : (reader.peek k).2.cursor = reader.cursor := by
  unfold peek
  split
  · rfl
  · exact fill_cursor _ reader

/-- Looking ahead shows what a cursor shows, whatever is pending. -/
theorem peek_eq (k : Int) (reader : Reader) : (reader.peek k).1 = reader.cursor.peek? k := by
  unfold peek Cursor.peek?
  split
  · rfl
  · have far : (k - 1).toNat <
        reader.pending.length + (k.toNat - reader.pending.length) := by
      omega
    exact congrArg (Option.map _) (fill_getElem? far)

/-- After looking at the next character it is the first one that is pending. -/
theorem peek_one_pending (reader : Reader) :
    (reader.peek 1).2.pending.head? = reader.cursor.rest.head? := by
  have far : 0 < reader.pending.length + ((1 : Int).toNat - reader.pending.length) := by
    omega
  rw [List.head?_eq_getElem?, List.head?_eq_getElem?]
  exact fill_getElem? far

/-! ### Reading -/

/-- What is passed is a newline that comes next, and nothing else. -/
theorem passNewline_rest (reader : Reader) :
    reader.passNewline.cursor.rest =
      if reader.cursor.rest.head? = some '\n' then reader.cursor.rest.tail
      else reader.cursor.rest := by
  have same := congrArg Cursor.rest (reader.peek_cursor 1)
  have isNext := reader.peek_one_pending
  have shown : reader.cursor.rest.head? = some '\n' → (reader.peek 1).1.isSome := by
    intro newline
    rw [peek_eq]
    simp [Cursor.peek?, ← List.head?_eq_getElem?, newline]
  simp only [passNewline, isNext, and_iff_right_of_imp shown]
  split
  · rw [take_tail, same]
  · exact same

/-- Reading goes as it does from a cursor, whatever is pending. -/
theorem get_eq (reader : Reader) :
    reader.get.1 = reader.cursor.read.1 ∧ reader.get.2.cursor = reader.cursor.read.2 := by
  obtain ⟨stopped, isTaken, isEnd, same⟩ | ⟨c, following, isTaken, isRest, samePosition⟩ :=
    reader.take_cases
  · simp [get, isTaken, Cursor.read, Cursor.next?, isEnd, uncons?, same]
  · by_cases isReturn : c = '\r'
    · simp only [get, isTaken, Cursor.read, Cursor.next?, isRest, uncons?_cons, isReturn, if_pos,
        ← passNewline_rest, true_and]
      rfl
    · simp only [get, isTaken, Cursor.read, Cursor.next?, isRest, uncons?_cons, isReturn, if_neg,
        not_false_iff, true_and]
      rfl

/-! ### Blanks and comments -/

/-- What is read next is what a cursor reads next. -/
theorem read_eq_get (reader : Reader) :
    reader.cursor.read = (reader.get.1, reader.get.2.cursor) :=
  Prod.ext reader.get_eq.1.symm reader.get_eq.2.symm

/-- Reading to the end of a line goes as it does from a cursor. -/
theorem skipLine_eq {current? : Option Char} {reader : Reader} {cursor : Cursor}
    (seen : List Char) (read : cursor.read = (current?, reader.cursor)) :
    (cursor.spanOnto (fun c => decide (c ≠ '\n')) seen).2.read =
      ((skipLine current? reader).1, (skipLine current? reader).2.cursor) := by
  fun_induction skipLine current? reader generalizing cursor seen with
  | case1 reader =>
      rw [Cursor.spanOnto_of_end (Cursor.next?_of_read_none read)]
      exact read
  | case2 reader =>
      rw [Cursor.spanOnto_of_next (Cursor.next?_of_read_some read), if_neg (by decide)]
      exact read
  | case3 reader c inLine ih =>
      rw [Cursor.spanOnto_of_next (Cursor.next?_of_read_some read),
        if_pos (by simpa using inLine)]
      exact ih (c :: seen) reader.read_eq_get

/-- Blanks and comments are skipped as they are from a cursor, whatever is pending. -/
theorem skip_eq {current? : Option Char} {reader : Reader} {cursor : Cursor}
    (read : cursor.read = (current?, reader.cursor)) :
    cursor.readSignificant = ((skip current? reader).1, (skip current? reader).2.cursor) := by
  rw [Cursor.readSignificant]
  fun_induction skip current? reader generalizing cursor with
  | case1 reader =>
      rw [Cursor.skipTrivia_of_end (Cursor.next?_of_read_none read)]
      exact read
  | case2 reader c blank ih =>
      rw [Cursor.skipTrivia_of_next (Cursor.next?_of_read_some read), if_pos blank]
      exact ih reader.read_eq_get
  | case3 reader looked ending following isLine notBlank isLooked ih =>
      have slashes : reader.cursor.peek? 1 = some '/' := by rw [← peek_eq, isLooked]
      have same : looked.cursor = reader.cursor := by rw [← reader.peek_cursor 1, isLooked]
      -- the rest of the line is skipped from the second slash on
      have line := skipLine_eq [] looked.read_eq_get
      rw [isLine, same] at line
      rw [Cursor.skipTrivia_of_next (Cursor.next?_of_read_some read), if_neg notBlank,
        if_pos ⟨rfl, slashes⟩]
      exact ih line
  | case4 reader next looked isLooked notSlash notBlank =>
      have noSlashes : ¬reader.cursor.peek? 1 = some '/' := by rwa [← peek_eq, isLooked]
      have same : looked.cursor = reader.cursor := by rw [← reader.peek_cursor 1, isLooked]
      rw [Cursor.skipTrivia_of_next (Cursor.next?_of_read_some read), if_neg notBlank,
        if_neg fun both => noSlashes both.2, same]
      exact read
  | case5 reader c notBlank notSlash =>
      rw [Cursor.skipTrivia_of_next (Cursor.next?_of_read_some read), if_neg notBlank,
        if_neg fun both => notSlash both.1]
      exact read

/-! ### Any calls -/

/-- A call reads one character if it is asked to, and none otherwise. -/
theorem answer_reads (call : Call) (reader : Reader) :
    reader.cursor.Reads (reader.cursor.ahead.take ([call].count .get))
      (reader.answer call).2.cursor := by
  cases call with
  | get =>
      rw [answer, reader.get_eq.2]
      exact reader.cursor.read_reads.2
  | peek k =>
      rw [answer, peek_cursor]
      exact .refl _

/-- Calls read as many characters as they ask for, whatever they look at. -/
theorem after_reads (calls : List Call) (reader : Reader) :
    reader.cursor.Reads (reader.cursor.ahead.take (calls.count .get))
      (reader.after calls).cursor := by
  induction calls generalizing reader with
  | nil => exact .refl _
  | cons call calls ih =>
      have first := reader.answer_reads call
      have both := first.trans (ih (reader.answer call).2)
      rw [first.ahead_drop, ← List.take_add, ← List.count_append] at both
      exact both

/-- What is read after some calls depends on how many characters they read. -/
theorem get_after (calls : List Call) (reader : Reader) :
    (reader.after calls).get.1 = reader.cursor.ahead[calls.count .get]? := by
  rw [(get_eq _).1, (Cursor.read_reads _).1, (reader.after_reads calls).ahead_drop,
    List.head?_drop]

/-- What is seen ahead is the character that is written there, a carriage return as a newline. -/
theorem peek_written (reader : Reader) (k : Nat) :
    (reader.peek (k + 1)).1 =
      reader.cursor.rest[k]?.map fun c => if c = '\r' then '\n' else c := by
  have notYet : ¬((k : Int) + 1 < 1) := by omega
  rw [peek_eq, Cursor.peek?, if_neg notYet, Int.add_sub_cancel, Int.toNat_natCast]

/-- Within the text, what is seen ahead is the last of the characters that those looked at are read
as. -/
theorem peek_inside {reader : Reader} {k : Nat} (inside : k < reader.cursor.rest.length) :
    (reader.peek (k + 1)).1 =
      (reader.after (.replicate ((normalize (reader.cursor.rest.take (k + 1))).length - 1)
        .get)).get.1 := by
  have last := normalize_getLast? (reader.cursor.rest.take (k + 1))
  rw [List.getLast?_take, if_neg k.succ_ne_zero, Nat.add_sub_cancel,
    List.getElem?_eq_getElem inside, Option.some_or, Option.map_some] at last
  -- the characters looked at are read as `others` and the one that is shown
  obtain ⟨others, isRead⟩ := List.getLast?_eq_some_iff.1 last
  obtain ⟨more, isAhead⟩ := normalize_take_prefix (k + 1) reader.cursor.rest
  rw [peek_written, List.getElem?_eq_getElem inside, get_after, List.count_replicate_self,
    Cursor.ahead, ← isAhead, isRead]
  simp

/-- What is seen ahead is read when the other characters that those looked at are read as have been
read.  These are fewer than are looked at if two characters among them make one line end. -/
theorem peek_shows (reader : Reader) (k : Nat) :
    (reader.peek (k + 1)).1 =
        (if k < reader.cursor.rest.length then
          (reader.after (.replicate ((normalize (reader.cursor.rest.take (k + 1))).length - 1)
            .get)).get.1
        else none) ∧
      (¬['\r', '\n'] <:+: reader.cursor.rest.take (k + 1) →
        (reader.peek (k + 1)).1 = (reader.after (.replicate k .get)).get.1) := by
  by_cases inside : k < reader.cursor.rest.length
  · rw [if_pos inside]
    refine ⟨peek_inside inside, fun noPair => ?_⟩
    rw [peek_inside inside, normalize_length_of_apart noPair, List.length_take,
      Nat.min_eq_left inside, Nat.succ_sub_one]
  · have beyond : reader.cursor.rest.length ≤ k := Nat.le_of_not_lt inside
    have beyondRead : reader.cursor.ahead.length ≤ k := Nat.le_trans (normalize_length _) beyond
    rw [if_neg inside, peek_written, get_after, List.count_replicate_self,
      List.getElem?_eq_none beyond, List.getElem?_eq_none beyondRead]
    exact ⟨rfl, fun _ => rfl⟩

/-- After a line end, the second character ahead is seen as it is read. -/
theorem peek_shows_afterReturn :
    let reader := (ofString "a\rb\r\nc").after [.peek 3, .get]
    ¬['\r', '\n'] <:+: reader.cursor.rest.take 2 ∧ (reader.peek 2).1 = some 'b' ∧
      (reader.after [.get]).get.1 = some 'b' := by
  have noPair : ¬['\r', '\n'] <:+:
      ((ofString "a\rb\r\nc").after [.peek 3, .get]).cursor.rest.take 2 := by
    decide
  have seen : (((ofString "a\rb\r\nc").after [.peek 3, .get]).peek 2).1 = some 'b' := by
    decide
  refine ⟨noPair, seen, ?_⟩
  have shows := (peek_shows ((ofString "a\rb\r\nc").after [.peek 3, .get]) 1).2 noPair
  exact shows.symm.trans seen

/-- Two characters that make one line end are looked at one by one, but they are read together. -/
theorem peek_counts_written :
    ¬∀ (source : String) (calls : List Call) (k : Nat), 1 ≤ k →
      (((ofString source).after calls).peek k).1 =
        (((ofString source).after calls).after (.replicate (k - 1) .get)).get.1 := by
  intro agrees
  exact absurd (agrees "\r\nb" [] 2 (by decide)) (by decide)

end Reader

end LoxLang
