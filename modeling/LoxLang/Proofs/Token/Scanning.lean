/-
Module: LoxLang.Proofs.Token.Scanning
Purpose: Scanning takes a text apart in the one way there is.  What each reader of the scanner takes
  off a cursor is a segment that fits its place, so a scan yields the tokens and the errors of the
  segments of the text, in their order, and then the token for the end.
Main exports: Cursor.Takes, Cursor.skipTrivia_takes, Cursor.readToken_takes, scan_of_splits,
  Splits.token_fits, scan_partitions
-/
import LoxLang.Proofs.Token.Partition
import Mathlib.Data.List.TakeWhile

namespace LoxLang

namespace Cursor

/-- Whether reading from one cursor to another takes these segments off the text. -/
structure Takes (cursor : Cursor) (segments : List Segment) (following : Cursor) : Prop where
  reads : cursor.Reads (segments.flatMap Segment.text) following
  splits : Splits cursor.position segments following.ahead

namespace Takes

variable {cursor middle following : Cursor} {segments more : List Segment}

theorem refl (cursor : Cursor) : cursor.Takes [] cursor :=
  ⟨.refl cursor, trivial⟩

theorem one {segment : Segment} (reads : cursor.Reads segment.text following)
    (fits : segment.Fits cursor.position following.ahead) : cursor.Takes [segment] following where
  reads := by simpa using reads
  splits := ⟨fits, trivial⟩

theorem trans (first : cursor.Takes segments middle) (second : middle.Takes more following) :
    cursor.Takes (segments ++ more) following where
  reads := by
    rw [List.flatMap_append]
    exact first.reads.trans second.reads
  splits := by
    rw [splits_append, ← second.reads.ahead, ← first.reads.position]
    exact ⟨first.splits, second.splits⟩

end Takes

/-! ### Blanks and comments -/

/-- Two slashes and the rest of the line are a comment. -/
theorem takes_comment {cursor following : Cursor} (read : cursor.next? = some ('/', following))
    (slash : following.peek? 1 = some '/') :
    ∃ characters,
      cursor.Takes [.comment characters] (following.span (fun c => decide (c ≠ '\n'))).2 := by
  obtain ⟨reads, inLine, stops⟩ := span_reads (fun c => decide (c ≠ '\n')) following
  rw [peek?_one, reads.ahead] at slash
  generalize (following.span fun c => decide (c ≠ '\n')).1 = run at reads inLine slash
  generalize (following.span fun c => decide (c ≠ '\n')).2 = rest at reads stops slash ⊢
  cases run with
  | nil => exact absurd (stops '/' slash) (by decide)
  | cons c characters =>
      cases slash
      refine ⟨characters, .one ((next?_eq_some read).trans reads) ⟨?_, ?_⟩⟩
      · intro newline
        exact absurd (inLine '\n' (List.mem_cons_of_mem _ newline)) (by decide)
      · intro c isNext
        simpa using stops c isNext

/-- What is skipped between tokens is blanks and comments, up to a character that starts neither. -/
theorem skipTrivia_takes (cursor : Cursor) :
    ∃ segments, cursor.Takes segments cursor.skipTrivia ∧
      (∀ segment ∈ segments, segment.token? = none ∧ segment.error? = none) ∧
      (∀ c ∈ cursor.skipTrivia.ahead.head?, isBlank c = false) ∧
      ¬['/', '/'] <+: cursor.skipTrivia.ahead := by
  fun_induction skipTrivia cursor with
  | case1 cursor read =>
      refine ⟨[], .refl cursor, by simp, ?_, ?_⟩ <;> simp [next?_eq_none read]
  | case2 cursor c following read blank ih =>
      obtain ⟨segments, takes, silent, atToken⟩ := ih
      have isBlank : cursor.Takes [.blank c] following := .one (next?_eq_some read) blank
      refine ⟨.blank c :: segments, isBlank.trans takes, ?_, atToken⟩
      exact List.forall_mem_cons.2 ⟨⟨rfl, rfl⟩, silent⟩
  | case3 cursor c following read notBlank slashes ih =>
      obtain ⟨rfl, slash⟩ := slashes
      obtain ⟨characters, comment⟩ := takes_comment read slash
      obtain ⟨segments, takes, silent, atToken⟩ := ih
      refine ⟨.comment characters :: segments, comment.trans takes, ?_, atToken⟩
      exact List.forall_mem_cons.2 ⟨⟨rfl, rfl⟩, silent⟩
  | case4 cursor c following read notBlank noSlashes =>
      have reads := next?_eq_some read
      refine ⟨[], .refl cursor, by simp, ?_, ?_⟩
      · rw [reads.ahead]
        intro d isFirst
        cases isFirst
        simpa using notBlank
      · intro slashes
        rw [reads.ahead] at slashes
        obtain ⟨isSlash, rest, isNext⟩ := List.cons_prefix_cons.1 slashes
        have isAhead : following.ahead = '/' :: rest := isNext.symm
        exact noSlashes ⟨isSlash.symm, by rw [peek?_one, isAhead]; rfl⟩

/-! ### One token -/

/-- Whether a token is spelled by a character that has been read and the characters read up to
another cursor, and no longer word there spells any token. -/
def Munches (first : Char) (cursor : Cursor) (token : Token) (following : Cursor) : Prop :=
  ∃ kind tail, token = .ofWord kind (first :: tail) cursor.position ∧
    cursor.Reads tail following ∧ Longest kind (first :: tail) following.ahead

/-- A word carries no value. -/
theorem literalOf_ofWord (text : String) (word : List Char) :
    literalOf (.ofWord text) word = none := by
  unfold Kind.ofWord
  split <;> rfl

theorem readWord_munches {first : Char} (letter : isLetter first = true) (cursor : Cursor) :
    Munches first cursor (cursor.readWord first).1 (cursor.readWord first).2 := by
  obtain ⟨reads, parts, stops⟩ := span_reads isWordPart cursor
  refine ⟨_, _, ?_, reads, .ofWord letter parts stops⟩
  simp only [readWord, Token.ofWord, literalOf_ofWord]

/-- The digits of a word of digits are all of it. -/
theorem numeral_whole {word : List Char} (digits : ∀ c ∈ word, isDigit c = true) :
    numeral word = Number.ofDigits word 0 := by
  simp [numeral, List.takeWhile_eq_self_iff.2 digits, List.dropWhile_eq_nil_iff.2 digits]

theorem numeral_fraction {whole digits : List Char} (isWhole : ∀ c ∈ whole, isDigit c = true) :
    numeral (whole ++ '.' :: digits) = Number.ofDigits (whole ++ digits) digits.length := by
  have point : isDigit '.' = false := by decide
  simp [numeral, List.takeWhile_append_of_pos isWhole, List.dropWhile_append_of_pos isWhole, point]

theorem readFraction?_eq_some {cursor following : Cursor} {digits : List Char}
    (read : cursor.readFraction? = some (digits, following)) :
    ∃ next more, digits = next :: more ∧ cursor.Reads ('.' :: digits) following ∧
      isDigit next = true ∧ (∀ c ∈ more, isDigit c = true) ∧
      ∀ c ∈ following.ahead.head?, isDigit c = false := by
  unfold readFraction? at read
  split at read
  · rename_i afterPoint point
    simp only at read
    split at read
    · cases read
    · rename_i some
      cases read
      obtain ⟨reads, allDigits, stops⟩ := span_reads isDigit afterPoint
      generalize (afterPoint.span isDigit).1 = run at reads allDigits some
      cases run with
      | nil => exact absurd rfl some
      | cons next more =>
          refine ⟨next, more, rfl, (next?_eq_some point).trans reads, ?_, ?_, stops⟩
          · exact allDigits next List.mem_cons_self
          · exact fun c member => allDigits c (List.mem_cons_of_mem _ member)
  · cases read

/-- Where no fraction is read, no point that a digit follows is next. -/
theorem readFraction?_eq_none {cursor : Cursor} (read : cursor.readFraction? = none) (c : Char)
    (more : List Char) (isNext : cursor.ahead = '.' :: c :: more) : isDigit c = false := by
  cases next : cursor.next? with
  | none =>
      rw [next?_eq_none next] at isNext
      cases isNext
  | some found =>
      rcases found with ⟨point, afterPoint⟩
      have reads := next?_eq_some next
      rw [reads.ahead] at isNext
      obtain ⟨rfl, isAfter⟩ := List.cons.inj isNext
      simp only [readFraction?, next] at read
      split at read
      · rename_i empty
        obtain ⟨readsNone, -, stops⟩ := span_reads isDigit afterPoint
        rw [List.isEmpty_iff.1 empty] at readsNone
        have isAhead : c :: more = (afterPoint.span isDigit).2.ahead :=
          isAfter.symm.trans readsNone.ahead
        exact stops c (by rw [← isAhead]; rfl)
      · cases read

theorem readNumber_munches {first : Char} (digit : isDigit first = true) (cursor : Cursor) :
    Munches first cursor (cursor.readNumber first).1 (cursor.readNumber first).2 := by
  obtain ⟨reads, digits, stops⟩ := span_reads isDigit cursor
  have wholeDigits : ∀ c ∈ first :: (cursor.span isDigit).1, isDigit c = true :=
    List.forall_mem_cons.2 ⟨digit, digits⟩
  unfold readNumber
  simp only
  split
  · rename_i noFraction
    refine ⟨.number, _, ?_, reads, .whole digit digits stops (readFraction?_eq_none noFraction)⟩
    simp only [Token.ofWord, literalOf, numeral_whole wholeDigits]
  · rename_i fraction rest read
    obtain ⟨next, more, rfl, fractionReads, nextDigit, moreDigits, fractionStops⟩ :=
      readFraction?_eq_some read
    refine ⟨.number, _, ?_, reads.trans fractionReads,
      .fraction digit digits nextDigit moreDigits fractionStops⟩
    simp only [Token.ofWord, literalOf, ← List.cons_append, numeral_fraction wholeDigits]

/-- A string is read up to its closing quote, or to the end of the text if there is none. -/
theorem readString_takes (cursor : Cursor) :
    (∃ token following, cursor.readString = (.ok token, following) ∧
      Munches '"' cursor token following) ∨
    ∃ characters following,
      cursor.readString = (.error (.unterminatedString following.position.line), following) ∧
      cursor.Reads characters following ∧ '"' ∉ characters ∧ following.ahead = [] := by
  obtain ⟨reads, inside, stops⟩ := span_reads (fun c => decide (c ≠ '"')) cursor
  have noQuote : '"' ∉ (cursor.span fun c => decide (c ≠ '"')).1 := by
    intro quote
    exact absurd (inside '"' quote) (by decide)
  unfold readString
  simp only
  split
  · rename_i atEnd
    exact .inr ⟨_, _, rfl, reads, noQuote, next?_eq_none atEnd⟩
  · rename_i quote rest read
    have readsQuote := next?_eq_some read
    have isQuote : quote = '"' := by
      have stopped := stops quote (by rw [readsQuote.ahead]; rfl)
      simpa using stopped
    subst isQuote
    refine .inl ⟨_, _, rfl, .string, _, ?_, reads.trans readsQuote, .string noQuote _⟩
    simp only [Token.ofWord, literalOf, List.tail_cons, List.dropLast_concat, Token.mk.injEq,
      true_and, and_true]
    apply String.toList_injective
    simp

/-- A mark carries no value. -/
theorem literalOf_mark {c : Char} {kind : Kind} (isMark : Kind.ofMark? c = some kind)
    (word : List Char) : literalOf kind word = none := by
  unfold Kind.ofMark? at isMark
  split at isMark <;> cases isMark <;> rfl

theorem literalOf_comparison {c : Char} {alone withEqual : Kind}
    (isComparison : Kind.ofComparison? c = some (alone, withEqual)) (word : List Char) :
    literalOf alone word = none ∧ literalOf withEqual word = none := by
  unfold Kind.ofComparison? at isComparison
  split at isComparison <;> cases isComparison <;> exact ⟨rfl, rfl⟩

/-- A mark is read with the equals sign that makes it longer, if that comes next. -/
theorem readMark_takes (first : Char) (cursor : Cursor) :
    (∃ token following, cursor.readMark first = (.ok token, following) ∧
      Munches first cursor token following) ∨
    (cursor.readMark first = (.error (.unexpectedCharacter first cursor.position.line), cursor) ∧
      Kind.ofMark? first = none ∧ Kind.ofComparison? first = none) := by
  unfold readMark
  split
  · rename_i kind isMark
    refine .inl ⟨_, _, rfl, kind, [], ?_, .refl cursor, .mark isMark _⟩
    simp only [Token.ofWord, literalOf_mark isMark]
  · rename_i alone withEqual noMark isComparison
    have noLiteral := literalOf_comparison isComparison
    split
    · rename_i rest read
      refine .inl ⟨_, _, rfl, withEqual, ['='], ?_, next?_eq_some read, .withEqual isComparison _⟩
      simp only [Token.ofWord, noLiteral]
    · rename_i noEqual
      refine .inl ⟨_, _, rfl, alone, [], ?_, .refl cursor, .alone isComparison ?_⟩
      · simp only [Token.ofWord, noLiteral]
      · intro c isNext isEqual
        cases read : cursor.next? with
        | none => simp [next?_eq_none read] at isNext
        | some found =>
            rw [(next?_eq_some read).ahead] at isNext
            cases isNext
            exact noEqual _ (by rw [read, ← isEqual])
  · rename_i noMark noComparison
    exact .inr ⟨rfl, noMark, noComparison⟩

/-- A token that is spelled from a character on is a segment there. -/
theorem Munches.takes {cursor following rest : Cursor} {first : Char} {token : Token}
    (read : cursor.next? = some (first, following)) (munches : Munches first following token rest)
    (noComment : ¬['/', '/'] <+: cursor.ahead) : cursor.Takes [.token token] rest := by
  obtain ⟨kind, tail, rfl, reads, longest⟩ := munches
  have inLine : first ≠ '\n' := by
    rintro rfl
    exact absurd longest.1.not_blank (by decide)
  have readsAll : cursor.Reads (first :: tail) rest := (next?_eq_some read).trans reads
  have isPosition : following.position = ⟨cursor.position.line, cursor.position.column + 1⟩ := by
    rw [(next?_eq_some read).position]
    exact Position.after_of_ne inLine cursor.position
  refine .one (by simpa [Segment.text, Token.ofWord] using readsAll) ⟨?_, ?_, ?_⟩
  · simpa [Token.ofWord] using longest
  · simp [Token.ofWord, isPosition]
  · rw [readsAll.ahead] at noComment
    simpa [Token.ofWord] using noComment

/-- Where a token can start, a token is read, or a segment that is an error. -/
theorem readToken_takes {cursor following : Cursor} {first : Char}
    (read : cursor.next? = some (first, following)) (notBlank : isBlank first = false)
    (noComment : ¬['/', '/'] <+: cursor.ahead) :
    (∃ token rest, following.readToken first = (.ok token, rest) ∧
      cursor.Takes [.token token] rest) ∨
    ∃ error rest segment, following.readToken first = (.error error, rest) ∧
      cursor.Takes [segment] rest ∧ segment.token? = none ∧ segment.error? = some error := by
  have reads := next?_eq_some read
  unfold readToken
  split
  · rename_i letter
    exact .inl ⟨_, _, rfl, (readWord_munches letter following).takes read noComment⟩
  · rename_i noLetter
    split
    · rename_i digit
      exact .inl ⟨_, _, rfl, (readNumber_munches digit following).takes read noComment⟩
    · rename_i noDigit
      split
      · rename_i quote
        subst quote
        obtain ⟨token, rest, isToken, munches⟩ | ⟨characters, rest, isError, readsRest, inside,
          atEnd⟩ := readString_takes following
        · exact .inl ⟨token, rest, isToken, munches.takes read noComment⟩
        · have readsAll := reads.trans readsRest
          refine .inr ⟨_, _, .unterminated characters rest.position.line, isError,
            .one readsAll ⟨inside, atEnd, ?_⟩, rfl, rfl⟩
          rw [readsAll.position]
          rfl
      · rename_i noQuote
        obtain ⟨token, rest, isToken, munches⟩ | ⟨isError, noMark, noComparison⟩ :=
          readMark_takes first following
        · exact .inl ⟨token, rest, isToken, munches.takes read noComment⟩
        · have inLine : first ≠ '\n' := by
            rintro rfl
            exact absurd notBlank (by decide)
          refine .inr ⟨_, _, .unexpected first following.position.line, isError,
            .one reads ⟨notBlank, noQuote, ?_, ?_⟩, rfl, rfl⟩
          · intro kind word lexeme starts
            cases word with
            | nil => exact lexeme.ne_nil rfl
            | cons c tail =>
                obtain ⟨rfl, -⟩ := List.cons_prefix_cons.1 starts
                have starts := lexeme.starts
                simp [noLetter, noDigit, noQuote, noMark, noComparison] at starts
          · rw [reads.position]
            simp [Position.after_of_ne inLine]

end Cursor

/-! ### All tokens -/

/-- Up to a token there are segments without tokens, and the errors found are theirs. -/
theorem Scanner.nextFrom_takes (cursor : Cursor) (errors : Array LexicalError) :
    ∃ segments,
      (nextFrom cursor errors).2.2.toList = errors.toList ++ segments.filterMap Segment.error? ∧
      segments.filterMap Segment.token? = [] ∧
      ((∃ stop, cursor.Takes segments stop ∧ stop.ahead = [] ∧
        (nextFrom cursor errors).1 = .eof stop.position) ∨
      cursor.Takes (segments ++ [.token (nextFrom cursor errors).1])
        (nextFrom cursor errors).2.1) := by
  fun_induction nextFrom cursor errors with
  | case1 cursor errors read =>
      obtain ⟨segments, takes, silent, -⟩ := cursor.skipTrivia_takes
      refine ⟨segments, ?_, ?_, .inl ⟨_, takes, Cursor.next?_eq_none read, rfl⟩⟩
      · simpa using fun segment member => (silent segment member).2
      · simpa using fun segment member => (silent segment member).1
  | case2 cursor errors first following read token rest found =>
      obtain ⟨segments, takes, silent, notBlank, noComment⟩ := cursor.skipTrivia_takes
      have isFirst := notBlank first (by rw [(Cursor.next?_eq_some read).ahead]; rfl)
      refine ⟨segments, ?_, ?_, .inr ?_⟩
      · simpa using fun segment member => (silent segment member).2
      · simpa using fun segment member => (silent segment member).1
      · obtain ⟨token, rest, isToken, takesToken⟩ | ⟨error, rest, segment, isError, -⟩ :=
          Cursor.readToken_takes read isFirst noComment
        · cases found.symm.trans isToken
          exact takes.trans takesToken
        · cases found.symm.trans isError
  | case3 cursor errors first following read error rest found ih =>
      obtain ⟨segments, takes, silent, notBlank, noComment⟩ := cursor.skipTrivia_takes
      have isFirst := notBlank first (by rw [(Cursor.next?_eq_some read).ahead]; rfl)
      obtain ⟨later, isErrors, noTokens, ends⟩ := ih
      obtain ⟨token, rest, isToken, -⟩ | ⟨error, rest, segment, isError, takesError, noToken,
        isSegment⟩ := Cursor.readToken_takes read isFirst noComment
      · cases found.symm.trans isToken
      · cases found.symm.trans isError
        have takesBoth := takes.trans takesError
        refine ⟨segments ++ [segment] ++ later, ?_, ?_, ?_⟩
        · have noErrors : segments.filterMap Segment.error? = [] := by
            simpa using fun segment member => (silent segment member).2
          simp [isErrors, noErrors, isSegment]
        · have noTokensBefore : segments.filterMap Segment.token? = [] := by
            simpa using fun segment member => (silent segment member).1
          simp [noTokens, noTokensBefore, noToken]
        · obtain ⟨stop, takesLater, atEnd, isEnd⟩ | takesLater := ends
          · exact .inl ⟨stop, takesBoth.trans takesLater, atEnd, isEnd⟩
          · refine .inr ?_
            rw [List.append_assoc]
            exact takesBoth.trans takesLater

/-- All segments of a text that is left are taken, and the tokens and errors found are theirs. -/
theorem Scanner.drainOnto_takes (seen : List Token) (cursor : Cursor)
    (errors : Array LexicalError) :
    ∃ segments stop, cursor.Takes segments stop ∧ stop.ahead = [] ∧
      (drainOnto seen cursor errors).1.reverse =
        seen.reverse ++ segments.filterMap Segment.token? ++ [.eof stop.position] ∧
      (drainOnto seen cursor errors).2.2.toList =
        errors.toList ++ segments.filterMap Segment.error? := by
  fun_induction drainOnto seen cursor errors with
  | case1 seen cursor errors token rest found isNext isEof =>
      obtain ⟨segments, isErrors, noTokens, ends⟩ := nextFrom_takes cursor errors
      simp only [isNext] at isErrors ends
      simp only [isNext, isEof, ↓reduceDIte]
      obtain ⟨stop, takes, atEnd, isEnd⟩ | takes := ends
      · exact ⟨segments, stop, takes, atEnd, by simp [noTokens, isEnd], isErrors⟩
      · obtain ⟨-, fits, -⟩ := splits_append.1 takes.splits
        exact absurd isEof fits.1.1.kind_ne_eof
  | case2 seen cursor errors token rest found isNext notEof ih =>
      obtain ⟨segments, isErrors, noTokens, ends⟩ := nextFrom_takes cursor errors
      simp only [isNext] at isErrors ends
      simp only [isNext, notEof, ↓reduceDIte]
      obtain ⟨later, stop, takesLater, atEnd, isTokens, isLater⟩ := ih
      obtain ⟨stop', takes, -, isEnd⟩ | takes := ends
      · exact absurd (congrArg Token.kind isEnd) notEof
      · refine ⟨_, stop, takes.trans takesLater, atEnd, ?_, ?_⟩
        · simp [isTokens, noTokens, Segment.token?]
        · rw [isLater, isErrors, List.filterMap_append, List.filterMap_append, List.append_assoc,
            List.append_assoc]
          rfl

/-- The segments of a text, which a scan reads off it. -/
theorem scan_segments (source : String) :
    ∃ segments, normalize source.toList = segments.flatMap Segment.text ∧
      Splits .start segments [] ∧
      (scan source).tokens = segments.filterMap Segment.token? ++
        [.eof (Position.start.past (normalize source.toList))] ∧
      (scan source).errors.toList = segments.filterMap Segment.error? := by
  obtain ⟨segments, stop, takes, atEnd, isTokens, isErrors⟩ :=
    Scanner.drainOnto_takes [] (.ofString source) #[]
  have isText : normalize source.toList = segments.flatMap Segment.text := by
    have isAhead := takes.reads.ahead
    rw [atEnd, List.append_nil] at isAhead
    exact isAhead
  have isPosition : stop.position = Position.start.past (normalize source.toList) := by
    rw [takes.reads.position, isText]
    rfl
  refine ⟨segments, isText, atEnd ▸ takes.splits, ?_, ?_⟩
  · rw [← isPosition]
    exact isTokens
  · exact isErrors

/-- A text that can be taken apart into segments that fit is scanned into their tokens and their
errors. -/
theorem scan_of_splits {source : String} {segments : List Segment}
    (isText : normalize source.toList = segments.flatMap Segment.text)
    (splits : Splits .start segments []) :
    (scan source).tokens = segments.filterMap Segment.token? ++
        [.eof (Position.start.past (normalize source.toList))] ∧
      (scan source).errors.toList = segments.filterMap Segment.error? := by
  obtain ⟨found, isFound, splitsFound, isTokens, isErrors⟩ := scan_segments source
  obtain rfl := splitsFound.unique splits (isFound.symm.trans isText)
  exact ⟨isTokens, isErrors⟩

/-- A token of a text is a segment that fits where the segments before it end. -/
theorem Splits.token_fits {position : Position} {segments : List Segment} {after : List Char}
    (splits : Splits position segments after) {token : Token}
    (member : token ∈ segments.filterMap Segment.token?) :
    ∃ earlier later, segments = earlier ++ .token token :: later ∧
      (Segment.token token).Fits (position.past (earlier.flatMap Segment.text))
        (later.flatMap Segment.text ++ after) := by
  obtain ⟨segment, isMember, isToken⟩ := List.mem_filterMap.1 member
  obtain ⟨earlier, later, rfl⟩ := List.append_of_mem isMember
  cases segment <;> cases isToken
  exact ⟨earlier, later, rfl, (splits_append.1 splits).2.1⟩

theorem Splits.lexeme {position : Position} {segments : List Segment} {after : List Char}
    (splits : Splits position segments after) {token : Token}
    (member : token ∈ segments.filterMap Segment.token?) :
    Lexeme token.kind token.lexeme.toList := by
  obtain ⟨earlier, later, -, fits⟩ := splits.token_fits member
  exact fits.1.1

end LoxLang
