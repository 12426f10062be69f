/-
Module: LoxLang.Proofs.Token.Lexeme
Purpose: The words that spell tokens, class by class, without regard to how a text is read.  The
  first character of a word tells its class, so a word spells tokens of one kind only, and the
  longest word at a place is the same however it is looked for.
Main exports: Lexeme, Longest, Token.ofWord, Token.content, Lexeme.kind_unique, Longest.unique
-/
import LoxLang.Token.Scanner

namespace LoxLang

/-! ### Words of each class -/

/-- The words that spell a token of a kind. -/
inductive Lexeme : Kind → List Char → Prop where
  | word {first : Char} {rest : List Char} (letter : isLetter first = true)
      (parts : ∀ c ∈ rest, isWordPart c = true) :
      Lexeme (.ofWord (.ofList (first :: rest))) (first :: rest)
  | whole {first : Char} {rest : List Char} (digit : isDigit first = true)
      (digits : ∀ c ∈ rest, isDigit c = true) : Lexeme .number (first :: rest)
  /-- A point belongs to a number only if a digit follows it. -/
  | fraction {first next : Char} {rest more : List Char} (digit : isDigit first = true)
      (digits : ∀ c ∈ rest, isDigit c = true) (nextDigit : isDigit next = true)
      (moreDigits : ∀ c ∈ more, isDigit c = true) :
      Lexeme .number (first :: (rest ++ '.' :: next :: more))
  | string {characters : List Char} (inside : '"' ∉ characters) :
      Lexeme .string ('"' :: (characters ++ ['"']))
  | mark {c : Char} {kind : Kind} (isMark : Kind.ofMark? c = some kind) : Lexeme kind [c]
  | alone {c : Char} {alone withEqual : Kind}
      (isComparison : Kind.ofComparison? c = some (alone, withEqual)) : Lexeme alone [c]
  | withEqual {c : Char} {alone withEqual : Kind}
      (isComparison : Kind.ofComparison? c = some (alone, withEqual)) : Lexeme withEqual [c, '=']

/-- Whether a word spells a token of a kind and no longer word at its place spells any token. -/
def Longest (kind : Kind) (word after : List Char) : Prop :=
  Lexeme kind word ∧
    ∀ other longer, Lexeme other longer → longer <+: word ++ after → longer.length ≤ word.length

/-- The value of a word of digits, perhaps with a point in it. -/
def numeral (word : List Char) : Float :=
  let whole := word.takeWhile isDigit
  let digits := (word.dropWhile isDigit).tail
  Number.ofDigits (whole ++ digits) digits.length

/-- The value that a token spelled by a word carries. -/
def literalOf : Kind → List Char → Option Literal
  | .string, word => some (.string (.ofList word.tail.dropLast))
  | .number, word => some (.number (numeral word))
  | _, _ => none

/-- The token that a word spells. -/
def Token.ofWord (kind : Kind) (word : List Char) (position : Position) : Token :=
  { kind := kind, lexeme := .ofList word, literal := literalOf kind word, position := position }

/-- What a token says, apart from where it stands. -/
def Token.content (token : Token) : Kind × String × Option Literal :=
  (token.kind, token.lexeme, token.literal)

/-! ### First characters -/

theorem isLetter_of_isDigit {c : Char} (digit : isDigit c = true) : isLetter c = false := by
  simp only [isDigit, Bool.and_eq_true, decide_eq_true_eq, Char.le_def] at digit
  simp only [isLetter, Bool.or_eq_false_iff, Bool.and_eq_false_iff, decide_eq_false_iff_not,
    Char.le_def, UInt32.le_iff_toNat_le, ← Char.toNat_inj]
  simp only [UInt32.le_iff_toNat_le] at digit
  change (48 ≤ c.val.toNat ∧ c.val.toNat ≤ 57) at digit
  change ((¬97 ≤ c.val.toNat ∨ ¬c.val.toNat ≤ 122) ∧ (¬65 ≤ c.val.toNat ∨ ¬c.val.toNat ≤ 90)) ∧
    ¬c.val.toNat = 95
  omega

/-- A character that is a token on its own starts no other one. -/
theorem Kind.ofMark?_plain {c : Char} {kind : Kind} (isMark : Kind.ofMark? c = some kind) :
    isLetter c = false ∧ isDigit c = false ∧ c ≠ '"' ∧ Kind.ofComparison? c = none := by
  unfold Kind.ofMark? at isMark
  split at isMark <;> first | decide | cases isMark

theorem Kind.ofComparison?_plain {c : Char} {kinds : Kind × Kind}
    (isComparison : Kind.ofComparison? c = some kinds) :
    isLetter c = false ∧ isDigit c = false ∧ c ≠ '"' ∧ Kind.ofMark? c = none := by
  unfold Kind.ofComparison? at isComparison
  split at isComparison <;> first | decide | cases isComparison

/-- A character that separates tokens belongs to no class of first characters. -/
theorem Cursor.isBlank_plain {c : Char} (blank : isBlank c = true) :
    isLetter c = false ∧ isDigit c = false ∧ c ≠ '"' ∧ Kind.ofMark? c = none ∧
      Kind.ofComparison? c = none := by
  simp only [isBlank, Bool.or_eq_true, decide_eq_true_eq] at blank
  rcases blank with (rfl | rfl) | rfl <;> decide

namespace Lexeme

variable {kind other : Kind} {first : Char} {rest word : List Char}

theorem ne_nil (lexeme : Lexeme kind word) : word ≠ [] := by
  cases lexeme <;> exact List.cons_ne_nil _ _

/-- After a letter only the parts of a word go on. -/
theorem of_letter (lexeme : Lexeme kind (first :: rest)) (letter : isLetter first = true) :
    kind = .ofWord (.ofList (first :: rest)) ∧ ∀ c ∈ rest, isWordPart c = true := by
  cases lexeme with
  | word _ parts => exact ⟨rfl, parts⟩
  | whole digit _ => simp [isLetter_of_isDigit digit] at letter
  | fraction digit _ _ _ => simp [isLetter_of_isDigit digit] at letter
  | string _ => exact absurd letter (by decide)
  | mark isMark => simp [(Kind.ofMark?_plain isMark).1] at letter
  | alone isComparison => simp [(Kind.ofComparison?_plain isComparison).1] at letter
  | withEqual isComparison => simp [(Kind.ofComparison?_plain isComparison).1] at letter

/-- After a digit digits go on, or a point and at least one more digit. -/
theorem of_digit (lexeme : Lexeme kind (first :: rest)) (digit : isDigit first = true) :
    kind = .number ∧
      ((∀ c ∈ rest, isDigit c = true) ∨
        ∃ digits next more, rest = digits ++ '.' :: next :: more ∧
          (∀ c ∈ digits, isDigit c = true) ∧ isDigit next = true ∧
          ∀ c ∈ more, isDigit c = true) := by
  cases lexeme with
  | word letter _ => simp [isLetter_of_isDigit digit] at letter
  | whole _ digits => exact ⟨rfl, .inl digits⟩
  | fraction _ digits nextDigit moreDigits =>
      exact ⟨rfl, .inr ⟨_, _, _, rfl, digits, nextDigit, moreDigits⟩⟩
  | string _ => exact absurd digit (by decide)
  | mark isMark => simp [(Kind.ofMark?_plain isMark).2.1] at digit
  | alone isComparison => simp [(Kind.ofComparison?_plain isComparison).2.1] at digit
  | withEqual isComparison => simp [(Kind.ofComparison?_plain isComparison).2.1] at digit

/-- After a quote a string goes on up to the next quote. -/
theorem of_quote (lexeme : Lexeme kind ('"' :: rest)) :
    kind = .string ∧ ∃ characters, rest = characters ++ ['"'] ∧ '"' ∉ characters := by
  generalize isFirst : '"' :: rest = word at lexeme
  cases lexeme with
  | string inside =>
      cases isFirst
      exact ⟨rfl, _, rfl, inside⟩
  | word letter _ =>
      cases isFirst
      exact absurd letter (by decide)
  | whole digit _ =>
      cases isFirst
      exact absurd digit (by decide)
  | fraction digit _ _ _ =>
      cases isFirst
      exact absurd digit (by decide)
  | mark isMark =>
      cases isFirst
      exact absurd rfl (Kind.ofMark?_plain isMark).2.2.1
  | alone isComparison =>
      cases isFirst
      exact absurd rfl (Kind.ofComparison?_plain isComparison).2.2.1
  | withEqual isComparison =>
      cases isFirst
      exact absurd rfl (Kind.ofComparison?_plain isComparison).2.2.1

theorem of_mark (lexeme : Lexeme kind (first :: rest)) (isMark : Kind.ofMark? first = some other) :
    kind = other ∧ rest = [] := by
  obtain ⟨noLetter, noDigit, noQuote, noComparison⟩ := Kind.ofMark?_plain isMark
  cases lexeme with
  | word letter _ => simp [noLetter] at letter
  | whole digit _ => simp [noDigit] at digit
  | fraction digit _ _ _ => simp [noDigit] at digit
  | string _ => exact absurd rfl noQuote
  | mark isOther => exact ⟨Option.some.inj (isOther.symm.trans isMark), rfl⟩
  | alone isComparison => simp [noComparison] at isComparison
  | withEqual isComparison => simp [noComparison] at isComparison

theorem of_comparison {alone withEqual : Kind} (lexeme : Lexeme kind (first :: rest))
    (isComparison : Kind.ofComparison? first = some (alone, withEqual)) :
    (kind = alone ∧ rest = []) ∨ (kind = withEqual ∧ rest = ['=']) := by
  obtain ⟨noLetter, noDigit, noQuote, noMark⟩ := Kind.ofComparison?_plain isComparison
  cases lexeme with
  | word letter _ => simp [noLetter] at letter
  | whole digit _ => simp [noDigit] at digit
  | fraction digit _ _ _ => simp [noDigit] at digit
  | string _ => exact absurd rfl noQuote
  | mark isMark => simp [noMark] at isMark
  | alone isOther =>
      cases isOther.symm.trans isComparison
      exact .inl ⟨rfl, rfl⟩
  | withEqual isOther =>
      cases isOther.symm.trans isComparison
      exact .inr ⟨rfl, rfl⟩

/-- What the first character of a word can be. -/
theorem starts (lexeme : Lexeme kind (first :: rest)) :
    isLetter first = true ∨ isDigit first = true ∨ first = '"' ∨
      (Kind.ofMark? first).isSome ∨ (Kind.ofComparison? first).isSome := by
  cases lexeme with
  | word letter _ => exact .inl letter
  | whole digit _ => exact .inr (.inl digit)
  | fraction digit _ _ _ => exact .inr (.inl digit)
  | string _ => exact .inr (.inr (.inl rfl))
  | mark isMark => exact .inr (.inr (.inr (.inl (by rw [isMark]; rfl))))
  | alone isComparison => exact .inr (.inr (.inr (.inr (by rw [isComparison]; rfl))))
  | withEqual isComparison => exact .inr (.inr (.inr (.inr (by rw [isComparison]; rfl))))

/-- A word spells tokens of one kind only. -/
theorem kind_unique (lexeme : Lexeme kind word) (again : Lexeme other word) : kind = other := by
  cases lexeme with
  | word letter _ => exact (again.of_letter letter).1.symm
  | whole digit _ => exact (again.of_digit digit).1.symm
  | fraction digit _ _ _ => exact (again.of_digit digit).1.symm
  | string _ => exact again.of_quote.1.symm
  | mark isMark => exact (again.of_mark isMark).1.symm
  | alone isComparison =>
      obtain ⟨same, -⟩ | ⟨-, impossible⟩ := again.of_comparison isComparison
      · exact same.symm
      · cases impossible
  | withEqual isComparison =>
      obtain ⟨-, impossible⟩ | ⟨same, -⟩ := again.of_comparison isComparison
      · cases impossible
      · exact same.symm

/-- No token starts with a character that separates tokens. -/
theorem not_blank (lexeme : Lexeme kind (first :: rest)) : Cursor.isBlank first = false := by
  cases blank : Cursor.isBlank first with
  | false => rfl
  | true =>
      obtain ⟨noLetter, noDigit, noQuote, noMark, noComparison⟩ := Cursor.isBlank_plain blank
      have starts := lexeme.starts
      simp [noLetter, noDigit, noQuote, noMark, noComparison] at starts

/-- A string is the only token that goes over the end of a line. -/
theorem of_newline (lexeme : Lexeme kind word) (newline : '\n' ∈ word) :
    ∃ characters, word = '"' :: (characters ++ ['"']) ∧ '"' ∉ characters := by
  have noPart : ¬isWordPart '\n' = true := by decide
  have noDigit : ¬isDigit '\n' = true := by decide
  cases lexeme with
  | word letter parts =>
      cases List.mem_cons.1 newline with
      | inl same => exact absurd (same ▸ letter) (by decide)
      | inr later => exact absurd (parts _ later) noPart
  | whole digit digits =>
      cases List.mem_cons.1 newline with
      | inl same => exact absurd (same ▸ digit) noDigit
      | inr later => exact absurd (digits _ later) noDigit
  | fraction digit digits nextDigit moreDigits =>
      simp only [List.mem_cons, List.mem_append] at newline
      rcases newline with same | inWhole | point | same | inFraction
      · exact absurd (same ▸ digit) noDigit
      · exact absurd (digits _ inWhole) noDigit
      · exact absurd point (by decide)
      · exact absurd (same ▸ nextDigit) noDigit
      · exact absurd (moreDigits _ inFraction) noDigit
  | string inside => exact ⟨_, rfl, inside⟩
  | mark isMark =>
      cases List.mem_singleton.1 newline
      cases isMark
  | alone isComparison =>
      cases List.mem_singleton.1 newline
      cases isComparison
  | withEqual isComparison =>
      simp only [List.mem_cons, List.not_mem_nil, or_false] at newline
      rcases newline with rfl | impossible
      · cases isComparison
      · exact absurd impossible (by decide)

/-- No word spells the end of a text. -/
theorem kind_ne_eof (lexeme : Lexeme kind word) : kind ≠ .eof := by
  cases lexeme with
  | word _ _ =>
      unfold Kind.ofWord
      split <;> exact nofun
  | whole _ _ => exact nofun
  | fraction _ _ _ _ => exact nofun
  | string _ => exact nofun
  | mark isMark =>
      unfold Kind.ofMark? at isMark
      split at isMark <;> cases isMark <;> exact nofun
  | alone isComparison =>
      unfold Kind.ofComparison? at isComparison
      split at isComparison <;> cases isComparison <;> exact nofun
  | withEqual isComparison =>
      unfold Kind.ofComparison? at isComparison
      split at isComparison <;> cases isComparison <;> exact nofun

end Lexeme

/-! ### The longest word -/

/-- The longest run of characters of one sort, and what comes after it, can be told in one way. -/
theorem run_unique {accept : Char → Bool} {first second afterFirst afterSecond : List Char}
    (inFirst : ∀ c ∈ first, accept c = true) (inSecond : ∀ c ∈ second, accept c = true)
    (stopFirst : ∀ c ∈ afterFirst.head?, accept c = false)
    (stopSecond : ∀ c ∈ afterSecond.head?, accept c = false)
    (same : first ++ afterFirst = second ++ afterSecond) :
    first = second ∧ afterFirst = afterSecond := by
  induction first generalizing second with
  | nil =>
      cases second with
      | nil => exact ⟨rfl, same⟩
      | cons c second =>
          have stops := stopFirst c (by rw [← List.nil_append afterFirst, same]; rfl)
          rw [inSecond c List.mem_cons_self] at stops
          cases stops
  | cons c first ih =>
      cases second with
      | nil =>
          have stops := stopSecond c (by rw [← List.nil_append afterSecond, ← same]; rfl)
          rw [inFirst c List.mem_cons_self] at stops
          cases stops
      | cons d second =>
          obtain ⟨sameHead, sameTail⟩ := List.cons.inj same
          obtain ⟨equal, rest⟩ := ih (fun c member => inFirst c (List.mem_cons_of_mem _ member))
            (fun c member => inSecond c (List.mem_cons_of_mem _ member)) sameTail
          exact ⟨by rw [sameHead, equal], rest⟩

/-- No run of characters of one sort goes on where that sort ends. -/
theorem run_length_le {accept : Char → Bool} {run more after : List Char}
    (starts : more <+: run ++ after) (inMore : ∀ c ∈ more, accept c = true)
    (stops : ∀ c ∈ after.head?, accept c = false) : more.length ≤ run.length := by
  induction run generalizing more with
  | nil =>
      cases more with
      | nil => exact Nat.le_refl _
      | cons c more =>
          obtain ⟨rest, isAfter⟩ := starts
          have stopped := stops c (by rw [← List.nil_append after, ← isAfter]; rfl)
          rw [inMore c List.mem_cons_self] at stopped
          cases stopped
  | cons d run ih =>
      cases more with
      | nil => exact Nat.zero_le _
      | cons c more =>
          have tails : more <+: run ++ after := (List.cons_prefix_cons.1 starts).2
          exact Nat.succ_le_succ (ih tails fun c member => inMore c (List.mem_cons_of_mem _ member))

theorem stops_of_not_mem {stop : Char} {characters : List Char} (inside : stop ∉ characters) :
    ∀ c ∈ characters, (fun c => decide (c ≠ stop)) c = true := by
  intro c member
  simpa using ne_of_mem_of_not_mem member inside

/-- The characters up to the first quote, and those after it, can be told in one way. -/
theorem quoted_unique {first second afterFirst afterSecond : List Char} (inFirst : '"' ∉ first)
    (inSecond : '"' ∉ second) (same : first ++ '"' :: afterFirst = second ++ '"' :: afterSecond) :
    first = second ∧ afterFirst = afterSecond := by
  obtain ⟨equal, rest⟩ := run_unique (stops_of_not_mem inFirst) (stops_of_not_mem inSecond)
    (by simp) (by simp) same
  exact ⟨equal, (List.cons.inj rest).2⟩

namespace Longest

variable {kind other : Kind} {word longer after rest : List Char}

/-- There is only one longest word at a place, and it spells tokens of one kind. -/
theorem unique (longest : Longest kind word after) (again : Longest other longer rest)
    (same : word ++ after = longer ++ rest) : word = longer ∧ kind = other := by
  have le : longer.length ≤ word.length :=
    longest.2 other longer again.1 (same ▸ List.prefix_append longer rest)
  have ge : word.length ≤ longer.length :=
    again.2 kind word longest.1 (same ▸ List.prefix_append word after)
  have equal : word = longer := (List.append_inj same (Nat.le_antisymm ge le)).1
  subst equal
  exact ⟨rfl, longest.1.kind_unique again.1⟩

/-- The end of a line makes no word longer. -/
theorem newline (longest : Longest kind word after) (more : List Char) :
    Longest kind word (after ++ '\n' :: more) := by
  refine ⟨longest.1, fun other longer lexeme starts => ?_⟩
  rw [← List.append_assoc] at starts
  by_cases short : longer.length ≤ (word ++ after).length
  · exact longest.2 other longer lexeme
      (List.prefix_of_prefix_length_le starts (List.prefix_append _ _) short)
  · -- a longer word has the newline in it, so it is a string, and so is the word itself
    obtain ⟨rest, isRest⟩ := starts
    have split : word ++ after <+: longer := by
      refine List.prefix_of_prefix_length_le (List.prefix_append _ ('\n' :: more)) ?_
        (Nat.le_of_lt (Nat.lt_of_not_le short))
      exact ⟨rest, isRest⟩
    obtain ⟨tail, rfl⟩ := split
    have crosses : '\n' ∈ word ++ after ++ tail := by
      cases tail with
      | nil => simp at short
      | cons c tail =>
          rw [List.append_assoc, List.append_cancel_left_eq] at isRest
          cases isRest
          simp
    obtain ⟨characters, isString, inside⟩ := lexeme.of_newline crosses
    cases word with
    | nil => exact absurd rfl longest.1.ne_nil
    | cons first wordRest =>
        have isQuote : first = '"' := (List.cons.inj isString).1
        subst isQuote
        obtain ⟨-, own, rfl, ownInside⟩ := longest.1.of_quote
        have sameTail : own ++ '"' :: (after ++ tail) = characters ++ ['"'] := by
          simpa using isString
        obtain ⟨-, nothing⟩ := quoted_unique ownInside inside sameTail
        simp [List.append_eq_nil_iff.1 nothing]

variable {first next : Char} {tail more : List Char}

/-- Longer words at a place start with the same character. -/
theorem of_tail (lexeme : Lexeme kind (first :: tail))
    (shorter : ∀ other longer, Lexeme other (first :: longer) → longer <+: tail ++ after →
      longer.length ≤ tail.length) : Longest kind (first :: tail) after := by
  refine ⟨lexeme, fun other longer isLexeme starts => ?_⟩
  cases longer with
  | nil => exact Nat.zero_le _
  | cons c longer =>
      rw [List.cons_append] at starts
      obtain ⟨rfl, tails⟩ := List.cons_prefix_cons.1 starts
      exact Nat.succ_le_succ (shorter other longer isLexeme tails)

/-! What has to follow a word of each class for it to be the longest. -/

theorem ofWord (letter : isLetter first = true) (parts : ∀ c ∈ tail, isWordPart c = true)
    (stops : ∀ c ∈ after.head?, isWordPart c = false) :
    Longest (.ofWord (.ofList (first :: tail))) (first :: tail) after := by
  refine of_tail (.word letter parts) fun other longer lexeme starts => ?_
  exact run_length_le starts (lexeme.of_letter letter).2 stops

/-- A point that no digit follows does not belong to the number before it. -/
theorem whole (digit : isDigit first = true) (digits : ∀ c ∈ tail, isDigit c = true)
    (stops : ∀ c ∈ after.head?, isDigit c = false)
    (noFraction : ∀ c more, after = '.' :: c :: more → isDigit c = false) :
    Longest .number (first :: tail) after := by
  refine of_tail (.whole digit digits) fun other longer lexeme starts => ?_
  obtain ⟨-, allDigits | ⟨others, next, more, rfl, otherDigits, nextDigit, -⟩⟩ :=
    lexeme.of_digit digit
  · exact run_length_le starts allDigits stops
  · obtain ⟨left, same⟩ := starts
    rw [List.append_assoc] at same
    obtain ⟨-, isAfter⟩ := run_unique otherDigits digits (by simp; decide) stops same
    have stopped := noFraction next _ isAfter.symm
    rw [nextDigit] at stopped
    cases stopped

theorem fraction (digit : isDigit first = true) (digits : ∀ c ∈ tail, isDigit c = true)
    (nextDigit : isDigit next = true) (moreDigits : ∀ c ∈ more, isDigit c = true)
    (stops : ∀ c ∈ after.head?, isDigit c = false) :
    Longest .number (first :: (tail ++ '.' :: next :: more)) after := by
  refine of_tail (.fraction digit digits nextDigit moreDigits) fun other longer lexeme starts => ?_
  rw [List.append_assoc] at starts
  have point : ∀ c ∈ ('.' :: next :: more ++ after).head?, isDigit c = false := by
    simp
    decide
  obtain ⟨-, allDigits | ⟨others, c, rest, rfl, otherDigits, isNext, restDigits⟩⟩ :=
    lexeme.of_digit digit
  · have short := run_length_le starts allDigits point
    rw [List.length_append]
    exact Nat.le_add_right_of_le short
  · obtain ⟨left, same⟩ := starts
    rw [List.append_assoc] at same
    obtain ⟨rfl, sameFraction⟩ := run_unique otherDigits digits (by simp; decide) point same
    have fractions : c :: rest <+: (next :: more) ++ after := ⟨left, (List.cons.inj sameFraction).2⟩
    have allDigits : ∀ d ∈ c :: rest, isDigit d = true := by
      intro d member
      cases List.mem_cons.1 member with
      | inl isFirst => exact isFirst ▸ isNext
      | inr later => exact restDigits d later
    have short := run_length_le fractions allDigits stops
    simp only [List.length_cons, List.length_append] at short ⊢
    omega

theorem string {characters : List Char} (inside : '"' ∉ characters) (after : List Char) :
    Longest .string ('"' :: (characters ++ ['"'])) after := by
  refine of_tail (.string inside) fun other longer lexeme starts => ?_
  obtain ⟨left, same⟩ := starts
  obtain ⟨-, others, rfl, othersInside⟩ := lexeme.of_quote
  obtain ⟨equal, -⟩ := quoted_unique othersInside inside (by simpa using same)
  exact Nat.le_of_eq (by rw [equal])

theorem mark (isMark : Kind.ofMark? first = some kind) (after : List Char) :
    Longest kind [first] after := by
  refine of_tail (.mark isMark) fun other longer lexeme _ => ?_
  exact Nat.le_of_eq (by rw [(lexeme.of_mark isMark).2])

theorem alone {withEqual : Kind} (isComparison : Kind.ofComparison? first = some (kind, withEqual))
    (stops : ∀ c ∈ after.head?, c ≠ '=') : Longest kind [first] after := by
  refine of_tail (.alone isComparison) fun other longer lexeme starts => ?_
  obtain ⟨-, rfl⟩ | ⟨-, rfl⟩ := lexeme.of_comparison isComparison
  · exact Nat.le_refl _
  · obtain ⟨left, same⟩ := starts
    rw [List.nil_append] at same
    exact absurd rfl (stops '=' (by rw [← same]; rfl))

theorem withEqual {alone : Kind} (isComparison : Kind.ofComparison? first = some (alone, kind))
    (after : List Char) : Longest kind [first, '='] after := by
  refine of_tail (.withEqual isComparison) fun other longer lexeme _ => ?_
  obtain ⟨-, rfl⟩ | ⟨-, rfl⟩ := lexeme.of_comparison isComparison
  · exact Nat.zero_le _
  · exact Nat.le_refl _

end Longest

end LoxLang
