/-
Module: LoxLang.Source.Reader
Purpose: Reading a source that hands out its characters one at a time.  To look ahead, characters
  have to be taken from the source; they are kept, as they are written, until they are read.
Main exports: Reader, Reader.get, Reader.peek, Reader.skip, Reader.Call, Reader.answer
-/
import LoxLang.Source.Cursor

namespace LoxLang

/-- A reader of a source, and the place of the character read last. -/
structure Reader where
  /-- What has not been taken from the source. -/
  source : List Char
  /-- What has been taken from the source and has not been read. -/
  pending : List Char
  /-- Whether the source has been asked for a character and had none. -/
  exhausted : Bool
  position : Position
  /-- A source that had no character once has none ever after. -/
  ended : exhausted = true → source = []
deriving DecidableEq, Repr

namespace Reader

/-- The reader of a text, before its first character. -/
def ofString (text : String) : Reader :=
  { source := text.toList, pending := [], exhausted := false, position := .start, ended := nofun }

/-- Takes a character from the source. -/
def pull (reader : Reader) : Option Char × Reader :=
  if isExhausted : reader.exhausted = true then
    (none, reader)
  else
    match isSource : reader.source with
    | [] => (none, { reader with exhausted := true, ended := fun _ => isSource })
    | c :: rest =>
        (some c, { reader with source := rest, ended := fun ended => absurd ended isExhausted })

/-- Takes a character that is pending, or else one from the source. -/
def take (reader : Reader) : Option Char × Reader :=
  match reader.pending with
  | [] => reader.pull
  | c :: rest => (some c, { reader with pending := rest })

/-- Takes characters from the source until so many more are pending, or until there are none. -/
def fill : Nat → Reader → Reader
  | 0, reader => reader
  | missing + 1, reader =>
      match reader.pull with
      | (none, stopped) => stopped
      | (some c, following) => fill missing { following with pending := following.pending ++ [c] }

/-- Looks at the `k`-th character ahead as it is written, counting from one.  A carriage return is
shown as a newline. -/
def peek (k : Int) (reader : Reader) : Option Char × Reader :=
  if k < 1 then
    (none, reader)
  else
    let looked := reader.fill (k.toNat - reader.pending.length)
    (looked.pending[(k - 1).toNat]?.map fun c => if c = '\r' then '\n' else c, looked)

/-- Takes a newline if it is the next character as it is written. -/
def passNewline (reader : Reader) : Reader :=
  let (next, looked) := reader.peek 1
  if next.isSome ∧ looked.pending.head? = some '\n' then looked.take.2 else looked

/-- Reads one character, or nothing at the end of the source.  A newline after a carriage return is
read along with it. -/
def get (reader : Reader) : Option Char × Reader :=
  match reader.take with
  | (none, stopped) => (none, stopped)
  | (some c, following) =>
      if c = '\r' then
        (some '\n', { following.passNewline with position := reader.position.after '\n' })
      else
        (some c, { following with position := reader.position.after c })

/-! ### Reading gets on -/

/-- How many characters there are left, as they are written. -/
def remaining (reader : Reader) : Nat :=
  reader.pending.length + reader.source.length

theorem pull_remaining (reader : Reader) :
    reader.pull.1.toList.length + reader.pull.2.remaining = reader.remaining := by
  unfold pull
  split
  · simp
  · split
    · simp [remaining]
    · rename_i c rest isSource
      simp only [Option.toList_some, remaining, isSource, List.length_cons, List.length_nil]
      omega

theorem take_remaining (reader : Reader) :
    reader.take.1.toList.length + reader.take.2.remaining = reader.remaining := by
  unfold take
  split
  · exact reader.pull_remaining
  · rename_i c rest isPending
    simp only [Option.toList_some, remaining, isPending, List.length_cons, List.length_nil]
    omega

theorem fill_remaining (missing : Nat) (reader : Reader) :
    (reader.fill missing).remaining = reader.remaining := by
  induction missing generalizing reader with
  | zero => rfl
  | succ missing ih =>
      have pulled := reader.pull_remaining
      unfold fill
      split
      · rename_i stopped isPulled
        rw [isPulled] at pulled
        simpa using pulled
      · rename_i c following isPulled
        rw [isPulled] at pulled
        rw [ih, ← pulled]
        simp only [Option.toList_some, List.length_singleton, remaining, List.length_append]
        omega

theorem peek_remaining (k : Int) (reader : Reader) :
    (reader.peek k).2.remaining = reader.remaining := by
  unfold peek
  split
  · rfl
  · exact reader.fill_remaining _

theorem passNewline_remaining (reader : Reader) :
    reader.passNewline.remaining ≤ reader.remaining := by
  have looked := reader.peek_remaining 1
  have taken := (reader.peek 1).2.take_remaining
  unfold passNewline
  simp only
  split <;> omega

/-- A character that is read is not there any more. -/
theorem get_remaining (reader : Reader) :
    reader.get.1.toList.length + reader.get.2.remaining ≤ reader.remaining := by
  have taken := reader.take_remaining
  unfold get
  split
  · rename_i stopped isTaken
    rw [isTaken] at taken
    exact Nat.le_of_eq taken
  · rename_i c following isTaken
    rw [isTaken] at taken
    split
    · have passed := following.passNewline_remaining
      change 1 + following.passNewline.remaining ≤ reader.remaining
      simp only [Option.toList_some, List.length_singleton] at taken
      omega
    · exact Nat.le_of_eq taken

/-! ### Blanks and comments -/

/-- Reads on from the character `current?` up to the end of its line. -/
def skipLine (current? : Option Char) (reader : Reader) : Option Char × Reader :=
  match current? with
  | none => (none, reader)
  | some c => if c = '\n' then (some c, reader) else skipLine reader.get.1 reader.get.2
termination_by current?.toList.length + reader.remaining
decreasing_by
  have less := reader.get_remaining
  simp only [Option.toList_some, List.length_singleton]
  omega

theorem skipLine_remaining (current? : Option Char) (reader : Reader) :
    (skipLine current? reader).1.toList.length + (skipLine current? reader).2.remaining ≤
      current?.toList.length + reader.remaining := by
  fun_induction skipLine current? reader with
  | case1 => exact Nat.le_refl _
  | case2 => exact Nat.le_refl _
  | case3 reader c _ ih =>
      have less := reader.get_remaining
      simp only [Option.toList_some, List.length_singleton]
      omega

/-- Reads on from the character `current?` to the first one that is neither blank nor in a
comment. -/
def skip (current? : Option Char) (reader : Reader) : Option Char × Reader :=
  match current? with
  | none => (none, reader)
  | some c =>
      if Cursor.isBlank c then
        skip reader.get.1 reader.get.2
      else if c = '/' then
        match _ : reader.peek 1 with
        | (next, looked) =>
            if next = some '/' then
              match _ : skipLine looked.get.1 looked.get.2 with
              | (ending, following) => skip ending following
            else
              (some c, looked)
      else
        (some c, reader)
termination_by current?.toList.length + reader.remaining
decreasing_by
  · have less := reader.get_remaining
    simp only [Option.toList_some, List.length_singleton]
    omega
  · have same := reader.peek_remaining 1
    have less := looked.get_remaining
    have lessToo := skipLine_remaining looked.get.1 looked.get.2
    rw [‹reader.peek 1 = _›] at same
    rw [‹skipLine _ _ = _›] at lessToo
    simp only [Option.toList_some, List.length_singleton] at *
    omega

/-! ### Calls -/

/-- What a reader can be asked for. -/
inductive Call where
  | get
  | peek (k : Int)
deriving DecidableEq, Repr

/-- The answer to a call, and the reader after it. -/
def answer : Call → Reader → Option Char × Reader
  | .get, reader => reader.get
  | .peek k, reader => reader.peek k

/-- The reader after some calls. -/
def after (reader : Reader) (calls : List Call) : Reader :=
  calls.foldl (fun reader call => (reader.answer call).2) reader

end Reader

end LoxLang
