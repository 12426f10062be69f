/-
Module: LoxLang.Proofs.Token.Partition
Purpose: Texts taken apart.  Every character of a text belongs to one segment: a blank, a comment,
  a token, a character that starts no token, or a string that is not closed.  A token is the longest
  word of any class at its place, so there is only one way to take a text apart.
Main exports: Segment, Segment.Fits, Splits, Faultless, Splits.unique
-/
import LoxLang.Proofs.Source.Reading
import LoxLang.Proofs.Token.Lexeme

namespace LoxLang

/-! ### Segments of a text -/

/-- A segment of a text.  What is reported about a segment is reported on a line. -/
inductive Segment where
  | blank (c : Char)
  /-- A comment, without the two slashes in front of it. -/
  | comment (characters : List Char)
  | token (found : Token)
  | unexpected (c : Char) (line : Nat)
  /-- A string that is not closed, without the quote in front of it. -/
  | unterminated (characters : List Char) (line : Nat)

namespace Segment

/-- The characters of a segment. -/
def text : Segment → List Char
  | blank c => [c]
  | comment characters => '/' :: '/' :: characters
  | token found => found.lexeme.toList
  | unexpected c _ => [c]
  | unterminated characters _ => '"' :: characters

/-- The token that a segment is. -/
def token? : Segment → Option Token
  | token found => some found
  | _ => none

/-- The error that a segment is. -/
def error? : Segment → Option LexicalError
  | unexpected c line => some (.unexpectedCharacter c line)
  | unterminated _ line => some (.unterminatedString line)
  | _ => none

/-- Whether a segment is what it should be at a place, given the text after it. -/
def Fits (position : Position) (after : List Char) : Segment → Prop
  | blank c => Cursor.isBlank c = true
  | comment characters => '\n' ∉ characters ∧ ∀ c ∈ after.head?, c = '\n'
  | token found =>
      Longest found.kind found.lexeme.toList after ∧
        found = .ofWord found.kind found.lexeme.toList
          { line := position.line, column := position.column + 1 } ∧
        ¬['/', '/'] <+: found.lexeme.toList ++ after
  | unexpected c line =>
      Cursor.isBlank c = false ∧ c ≠ '"' ∧
        (∀ kind word, Lexeme kind word → ¬word <+: c :: after) ∧ line = position.line
  | unterminated characters line =>
      '"' ∉ characters ∧ after = [] ∧ line = (position.past ('"' :: characters)).line

end Segment

/-- Whether segments, from a place on, are what they should be, given the text after them. -/
def Splits : Position → List Segment → List Char → Prop
  | _, [], _ => True
  | position, segment :: rest, after =>
      segment.Fits position (rest.flatMap Segment.text ++ after) ∧
        Splits (position.past segment.text) rest after

theorem splits_append {position : Position} {first second : List Segment} {after : List Char} :
    Splits position (first ++ second) after ↔
      Splits position first (second.flatMap Segment.text ++ after) ∧
        Splits (position.past (first.flatMap Segment.text)) second after := by
  induction first generalizing position with
  | nil => simp [Splits]
  | cons segment first ih =>
      simp only [List.cons_append, Splits, ih, List.flatMap_cons, List.flatMap_append,
        List.append_assoc, Position.past_append, and_assoc]

/-- Segments without errors. -/
def Faultless (segments : List Segment) : Prop :=
  ∀ segment ∈ segments, segment.error? = none

theorem faultless_of_errors {segments : List Segment}
    (clean : segments.filterMap Segment.error? = []) : Faultless segments := by
  simpa [Faultless, List.filterMap_eq_nil_iff] using clean

/-! ### One way to take a text apart -/

namespace Segment.Fits

variable {position : Position} {after : List Char} {segment : Segment}

theorem text_ne_nil (fits : segment.Fits position after) : segment.text ≠ [] := by
  cases segment with
  | token found => exact fits.1.1.ne_nil
  | _ => exact List.cons_ne_nil _ _

/-- A blank starts no other segment. -/
theorem of_blank (fits : segment.Fits position after) {c : Char} {rest : List Char}
    (starts : segment.text = c :: rest) (blank : Cursor.isBlank c = true) : segment = .blank c := by
  cases segment with
  | blank d =>
      cases starts
      rfl
  | comment characters =>
      cases starts
      exact absurd blank (by decide)
  | token found =>
      rw [text] at starts
      have notBlank := (starts ▸ fits.1.1).not_blank
      rw [blank] at notBlank
      cases notBlank
  | unexpected d line =>
      cases starts
      rw [fits.1] at blank
      cases blank
  | unterminated characters line =>
      cases starts
      exact absurd blank (by decide)

/-- Two slashes start a comment and nothing else. -/
theorem of_slashes (fits : segment.Fits position after)
    (starts : ['/', '/'] <+: segment.text ++ after) :
    ∃ characters, segment = .comment characters := by
  cases segment with
  | comment characters => exact ⟨characters, rfl⟩
  | blank c =>
      obtain ⟨rfl, -⟩ := List.cons_prefix_cons.1 starts
      cases fits
  | token found => exact absurd starts fits.2.2
  | unexpected c line =>
      obtain ⟨rfl, -⟩ := List.cons_prefix_cons.1 starts
      exact absurd (List.cons_prefix_cons.2 ⟨rfl, List.nil_prefix⟩)
        (fits.2.2.1 .slash ['/'] (.mark rfl))
  | unterminated characters line =>
      obtain ⟨impossible, -⟩ := List.cons_prefix_cons.1 starts
      exact absurd impossible (by decide)

/-- Where a word stands, there is a token or a comment. -/
theorem of_word (fits : segment.Fits position after) {kind : Kind} {word : List Char}
    (lexeme : Lexeme kind word) (starts : word <+: segment.text ++ after) :
    (∃ token, segment = .token token) ∨ ['/', '/'] <+: segment.text ++ after := by
  cases word with
  | nil => exact absurd rfl lexeme.ne_nil
  | cons first rest =>
      cases segment with
      | token found => exact .inl ⟨found, rfl⟩
      | comment characters => exact .inr ⟨characters ++ after, rfl⟩
      | blank c =>
          obtain ⟨rfl, -⟩ := List.cons_prefix_cons.1 starts
          have notBlank := lexeme.not_blank
          rw [show Cursor.isBlank first = true from fits] at notBlank
          cases notBlank
      | unexpected c line => exact absurd starts (fits.2.2.1 kind _ lexeme)
      | unterminated characters line =>
          obtain ⟨rfl, left, same⟩ := List.cons_prefix_cons.1 starts
          obtain ⟨-, others, rfl, -⟩ := lexeme.of_quote
          have closes : '"' ∈ characters.append after := by
            rw [← same]
            simp
          rw [fits.2.1] at closes
          exact absurd (by simpa using closes) fits.1

/-- At a place there is only one segment that fits. -/
theorem unique {other : Segment} {rest : List Char} (fits : segment.Fits position after)
    (again : other.Fits position rest) (same : segment.text ++ after = other.text ++ rest) :
    segment = other := by
  have stops : ∀ {text : List Char}, (∀ c ∈ text.head?, c = '\n') →
      ∀ c ∈ text.head?, (fun c => decide (c ≠ '\n')) c = false := by
    intro text isEnd c member
    simpa using isEnd c member
  cases segment with
  | blank c =>
      obtain ⟨d, tail, isFirst⟩ := List.exists_cons_of_ne_nil again.text_ne_nil
      rw [isFirst] at same
      obtain ⟨rfl, -⟩ := List.cons.inj same
      exact (again.of_blank isFirst fits).symm
  | comment characters =>
      obtain ⟨others, rfl⟩ := again.of_slashes (same ▸ ⟨characters ++ after, rfl⟩)
      have sameTail : characters ++ after = others ++ rest := by simpa [text] using same
      rw [(run_unique (stops_of_not_mem fits.1) (stops_of_not_mem again.1) (stops fits.2)
        (stops again.2) sameTail).1]
  | token found =>
      obtain ⟨other, rfl⟩ | slashes := again.of_word fits.1.1
        (same ▸ List.prefix_append found.lexeme.toList after)
      · obtain ⟨sameWord, sameKind⟩ := fits.1.unique again.1 same
        rw [fits.2.1, again.2.1, sameWord, sameKind]
      · exact absurd (same ▸ slashes) fits.2.2
  | unexpected c line =>
      -- nothing else can start with such a character
      cases other with
      | blank d =>
          obtain ⟨rfl, -⟩ := List.cons.inj same
          cases fits.of_blank rfl again
      | comment characters =>
          obtain ⟨others, impossible⟩ := fits.of_slashes (same ▸ ⟨characters ++ rest, rfl⟩)
          cases impossible
      | token found =>
          have starts : found.lexeme.toList <+: (unexpected c line).text ++ after :=
            same ▸ List.prefix_append found.lexeme.toList rest
          exact absurd starts (fits.2.2.1 _ _ again.1.1)
      | unexpected d other =>
          obtain ⟨rfl, -⟩ := List.cons.inj same
          rw [fits.2.2.2, again.2.2.2]
      | unterminated characters other => exact absurd (List.cons.inj same).1 fits.2.1
  | unterminated characters line =>
      cases other with
      | blank d =>
          obtain ⟨rfl, -⟩ := List.cons.inj same
          cases fits.of_blank rfl again
      | comment others => exact absurd (List.cons.inj same).1 (by decide)
      | token found =>
          obtain ⟨other, impossible⟩ | slashes := fits.of_word again.1.1
            (same ▸ List.prefix_append found.lexeme.toList rest)
          · cases impossible
          · exact absurd (List.cons_prefix_cons.1 slashes).1 (by decide)
      | unexpected d other => exact absurd (List.cons.inj same).1.symm again.2.1
      | unterminated others other =>
          rw [fits.2.1, again.2.1] at same
          have equal : characters = others := by simpa [text] using same
          rw [fits.2.2, again.2.2, equal]

end Segment.Fits

/-- A text can be taken apart in one way only. -/
theorem Splits.unique {position : Position} {segments others : List Segment}
    (splits : Splits position segments []) (again : Splits position others [])
    (same : segments.flatMap Segment.text = others.flatMap Segment.text) : segments = others := by
  induction segments generalizing position others with
  | nil =>
      cases others with
      | nil => rfl
      | cons other others =>
          have empty := List.append_eq_nil_iff.1 same.symm
          exact absurd empty.1 again.1.text_ne_nil
  | cons segment segments ih =>
      cases others with
      | nil =>
          have empty := List.append_eq_nil_iff.1 same
          exact absurd empty.1 splits.1.text_ne_nil
      | cons other others =>
          have equal : segment = other := splits.1.unique again.1 (by simpa using same)
          subst equal
          rw [List.flatMap_cons, List.flatMap_cons, List.append_cancel_left_eq] at same
          rw [ih splits.2 again.2 same]

end LoxLang
