/-
Module: LoxLang.Proofs.Token.Following
Purpose: What may follow a word.  Whether a word is the longest at its place is decided by one or
  two characters after it, and letters are all the same to it.  So a word stays the longest if a
  name somewhere behind it is written in another way.
Main exports: Lexeme.of_identifier, Longest.word_stops, Longest.number_stops, StopsAlike,
  Longest.stopsAlike, FollowsLike, Longest.followsLike
-/
import LoxLang.Proofs.Token.Partition

namespace LoxLang

/-! ### Names -/

/-- A name is a word of letters and digits that is no keyword. -/
theorem Lexeme.of_identifier {word : List Char} (lexeme : Lexeme .identifier word) :
    ∃ first rest, word = first :: rest ∧ isLetter first = true ∧
      (∀ c ∈ rest, isWordPart c = true) ∧ Kind.ofWord (.ofList word) = .identifier := by
  generalize isName : Kind.identifier = kind at lexeme
  cases lexeme with
  | word letter parts => exact ⟨_, _, rfl, letter, parts, rfl⟩
  | mark isMark =>
      subst isName
      unfold Kind.ofMark? at isMark
      split at isMark <;> cases isMark
  | alone isComparison =>
      subst isName
      unfold Kind.ofComparison? at isComparison
      split at isComparison <;> cases isComparison
  | withEqual isComparison =>
      subst isName
      unfold Kind.ofComparison? at isComparison
      split at isComparison <;> cases isComparison
  | _ => cases isName

/-- There is no end of a line in a name. -/
theorem Lexeme.identifier_inLine {word : List Char} (lexeme : Lexeme .identifier word) :
    '\n' ∉ word := by
  intro newline
  obtain ⟨characters, rfl, -⟩ := lexeme.of_newline newline
  cases lexeme.of_quote.1

theorem Lexeme.return_notMem {word : List Char} (lexeme : Lexeme .identifier word) :
    '\r' ∉ word := by
  obtain ⟨first, rest, rfl, letter, parts, -⟩ := lexeme.of_identifier
  intro isReturn
  cases List.mem_cons.1 isReturn with
  | inl same => exact absurd (same ▸ letter) (by decide)
  | inr later => exact absurd (parts _ later) (by decide)

/-! ### Where words stop -/

namespace Longest

variable {kind : Kind} {first : Char} {tail after : List Char}

/-- No word of any class goes on behind a longest word. -/
theorem not_longer {other : Kind} {word more : List Char} (longest : Longest kind word after)
    (lexeme : Lexeme other (word ++ more)) (starts : more <+: after) : more = [] := by
  have short := longest.2 other _ lexeme (List.prefix_append_right_inj word |>.2 starts)
  rw [List.length_append] at short
  exact List.eq_nil_of_length_eq_zero (by omega)

/-- Behind a longest word of letters and digits there is neither. -/
theorem word_stops (longest : Longest kind (first :: tail) after) (letter : isLetter first = true) :
    ∀ c ∈ after.head?, isWordPart c = false := by
  intro c isNext
  cases after with
  | nil => cases isNext
  | cons d rest =>
      cases isNext
      rw [← Bool.not_eq_true]
      intro part
      have parts : ∀ e ∈ tail ++ [c], isWordPart e = true := by
        intro e member
        cases List.mem_append.1 member with
        | inl inTail => exact (longest.1.of_letter letter).2 e inTail
        | inr isLast => exact List.mem_singleton.1 isLast ▸ part
      have longer : Lexeme _ ((first :: tail) ++ [c]) := .word letter parts
      cases longest.not_longer longer ⟨rest, rfl⟩

/-- Behind a longest number there is no digit. -/
theorem number_stops (longest : Longest kind (first :: tail) after)
    (digit : isDigit first = true) : ∀ c ∈ after.head?, isDigit c = false := by
  intro c isNext
  cases after with
  | nil => cases isNext
  | cons d rest =>
      cases isNext
      rw [← Bool.not_eq_true]
      intro isNext
      have onwards : ∀ {digits : List Char}, (∀ e ∈ digits, isDigit e = true) →
          ∀ e ∈ digits ++ [c], isDigit e = true := by
        intro digits all e member
        cases List.mem_append.1 member with
        | inl old => exact all e old
        | inr isLast => exact List.mem_singleton.1 isLast ▸ isNext
      have longer : Lexeme .number ((first :: tail) ++ [c]) := by
        obtain ⟨-, digits | ⟨digits, next, more, rfl, all, nextDigit, moreDigits⟩⟩ :=
          longest.1.of_digit digit
        · exact .whole digit (onwards digits)
        · have fraction := Lexeme.fraction digit all nextDigit (onwards moreDigits)
          simpa using fraction
      cases longest.not_longer longer ⟨rest, rfl⟩

/-- Behind a longest number without a point there is no fraction. -/
theorem whole_stops (longest : Longest kind (first :: tail) after) (digit : isDigit first = true)
    (digits : ∀ c ∈ tail, isDigit c = true) {c : Char} {rest : List Char}
    (point : after = '.' :: c :: rest) : isDigit c = false := by
  rw [← Bool.not_eq_true]
  intro isNext
  have fraction : Lexeme .number (first :: (tail ++ '.' :: c :: [])) :=
    .fraction digit digits isNext (fun _ member => nomatch member)
  have longer : Lexeme .number ((first :: tail) ++ ['.', c]) := fraction
  cases longest.not_longer longer ⟨rest, point.symm⟩

/-- Behind a longest operator that an equals sign makes longer there is no equals sign. -/
theorem alone_stops {alone withEqual : Kind} (longest : Longest kind [first] after)
    (isComparison : Kind.ofComparison? first = some (alone, withEqual)) :
    ∀ c ∈ after.head?, c ≠ '=' := by
  rintro c isNext rfl
  cases after with
  | nil => cases isNext
  | cons d rest =>
      cases isNext
      have longer : Lexeme withEqual ([first] ++ ['=']) := .withEqual isComparison
      cases longest.not_longer longer ⟨rest, rfl⟩

end Longest

/-- What a word does not go on with is refused in one text as it is in another: the parts of words,
digits, a point with a digit after it, and the equals sign. -/
structure StopsAlike (text other : List Char) : Prop where
  part : (∀ c ∈ text.head?, isWordPart c = false) → ∀ c ∈ other.head?, isWordPart c = false
  digit : (∀ c ∈ text.head?, isDigit c = false) → ∀ c ∈ other.head?, isDigit c = false
  fraction : (∀ c more, text = '.' :: c :: more → isDigit c = false) →
    ∀ c more, other = '.' :: c :: more → isDigit c = false
  equal : (∀ c ∈ text.head?, c ≠ '=') → ∀ c ∈ other.head?, c ≠ '='

/-- A longest word stays the longest before a text that refuses what the text after it refuses. -/
theorem Longest.stopsAlike {kind : Kind} {word after other : List Char}
    (longest : Longest kind word after) (alike : StopsAlike after other) :
    Longest kind word other := by
  cases longest.1 with
  | word letter parts => exact .ofWord letter parts (alike.part (longest.word_stops letter))
  | whole digit digits =>
      exact .whole digit digits (alike.digit (longest.number_stops digit))
        (alike.fraction fun c more => longest.whole_stops digit digits)
  | fraction digit digits nextDigit moreDigits =>
      exact .fraction digit digits nextDigit moreDigits (alike.digit (longest.number_stops digit))
  | string inside => exact .string inside other
  | mark isMark => exact .mark isMark other
  | alone isComparison => exact .alone isComparison (alike.equal (longest.alone_stops isComparison))
  | withEqual isComparison => exact .withEqual isComparison other

/-! ### Letters are all the same -/

/-- A text begins like another one, or both begin with a letter. -/
def BeginsLike (text other : List Char) : Prop :=
  ∀ c ∈ other.head?, ∃ d ∈ text.head?, d = c ∨ (isLetter d = true ∧ isLetter c = true)

/-- What matters of a text to the words in front of it: how it begins, and how it goes on after a
point. -/
structure FollowsLike (text other : List Char) : Prop where
  begins : BeginsLike text other
  point : ∀ rest, other = '.' :: rest → ∃ before, text = '.' :: before ∧ BeginsLike before rest

namespace BeginsLike

theorem nil (text : List Char) : BeginsLike text [] :=
  fun _ isNext => nomatch isNext

theorem cons (c : Char) (rest others : List Char) : BeginsLike (c :: rest) (c :: others) := by
  intro d isNext
  exact ⟨c, rfl, .inl (Option.some.inj isNext)⟩

variable {text other : List Char}

/-- A sort of characters that no letter belongs to does not begin, if it did not. -/
theorem refuses (accept : Char → Prop) (begins : BeginsLike text other)
    (noLetter : ∀ c, accept c → isLetter c = false) (stops : ∀ c ∈ text.head?, ¬accept c) :
    ∀ c ∈ other.head?, ¬accept c := by
  intro c isNext accepted
  obtain ⟨d, isFirst, rfl | ⟨-, letter⟩⟩ := begins c isNext
  · exact stops d isFirst accepted
  · rw [noLetter c accepted] at letter
    cases letter

end BeginsLike

/-- Texts that only differ in letters refuse the same. -/
theorem FollowsLike.stopsAlike {after other : List Char} (follows : FollowsLike after other) :
    StopsAlike after other where
  part := by
    intro stops c isNext
    obtain ⟨d, isFirst, same⟩ := follows.begins c isNext
    have stopped := stops d isFirst
    rcases same with rfl | ⟨letter, -⟩
    · exact stopped
    · simp [isWordPart, letter] at stopped
  digit := by
    intro stops c isNext
    have refused := follows.begins.refuses (fun c => isDigit c = true)
      (fun c digit => isLetter_of_isDigit digit) (by simpa using stops) c isNext
    simpa using refused
  fraction := by
    intro stops c more isOther
    obtain ⟨before, isAfter, begins⟩ := follows.point (c :: more) isOther
    obtain ⟨d, isFirst, same⟩ := begins c rfl
    cases before with
    | nil => cases isFirst
    | cons e rest =>
        cases isFirst
        have stopped := stops d rest isAfter
        rcases same with rfl | ⟨-, letter⟩
        · exact stopped
        · rw [← Bool.not_eq_true]
          intro isNext
          rw [isLetter_of_isDigit isNext] at letter
          cases letter
  equal := follows.begins.refuses (fun c => c = '=') (by rintro c rfl; decide)

/-- A longest word stays the longest if what follows it only differs in letters. -/
theorem Longest.followsLike {kind : Kind} {word after other : List Char}
    (longest : Longest kind word after) (follows : FollowsLike after other) :
    Longest kind word other :=
  longest.stopsAlike follows.stopsAlike

end LoxLang
