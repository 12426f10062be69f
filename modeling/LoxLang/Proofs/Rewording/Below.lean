/-
Module: LoxLang.Proofs.Rewording.Below
Purpose: One text below another.  The end of a line separates what is above it from what is below
  it, whatever it is written as, so two texts without lexical errors are scanned as one: first the
  tokens of the upper text and then those of the lower text, which stand some lines further down.
Main exports: Position.below, Rewording.below, Splits.below, Splits.newline, scan_below
-/
import LoxLang.Proofs.Rewording.Scope
import LoxLang.Proofs.Token.Scanning
import Mathlib.Data.List.Basic

namespace LoxLang

/-! ### Further down -/

/-- A place some lines further down. -/
def Position.below (lines : Nat) (position : Position) : Position :=
  { line := position.line + lines, column := position.column }

namespace Position

theorem after_below (lines : Nat) (position : Position) (c : Char) :
    (position.below lines).after c = (position.after c).below lines := by
  by_cases newline : c = '\n'
  · simp [after, below, newline, Nat.add_right_comm]
  · simp [after, below, newline]

theorem past_below (lines : Nat) (position : Position) (text : List Char) :
    (position.below lines).past text = (position.past text).below lines := by
  induction text generalizing position with
  | nil => rfl
  | cons c text ih => rw [past_cons, past_cons, after_below, ih]

/-- A text that ends with a newline leads to the beginning of a line. -/
theorem past_newline (text : List Char) :
    ∃ lines, start.past (text ++ ['\n']) = start.below lines := by
  have counts : ∀ position : Position, position.line ≤ (position.past text).line := by
    induction text with
    | nil => exact fun position => Nat.le_refl _
    | cons c text ih =>
        intro position
        refine Nat.le_trans ?_ (ih (position.after c))
        unfold after
        split
        · exact Nat.le_succ _
        · exact Nat.le_refl _
  refine ⟨(start.past text).line, ?_⟩
  have enough : 1 ≤ (start.past text).line := counts start
  simp only [past_append, past_cons, past_nil, after, ↓reduceIte, below, start]
  rw [Nat.add_comm]

end Position

/-- Everything stands some lines further down. -/
def Rewording.below (lines : Nat) : Rewording where
  word := Ident.text
  move := Position.below lines

theorem Rewording.keepsWords_below (lines : Nat) : (Rewording.below lines).KeepsWords :=
  fun _ => rfl

theorem Token.reword_below (lines : Nat) (token : Token) :
    token.reword (.below lines) = { token with position := token.position.below lines } := by
  simp [Token.reword, Rewording.below]

/-- A segment some lines further down. -/
def Segment.below (lines : Nat) : Segment → Segment
  | token found => token (found.reword (.below lines))
  | unexpected c line => unexpected c (line + lines)
  | unterminated characters line => unterminated characters (line + lines)
  | segment => segment

@[simp] theorem Segment.text_below (lines : Nat) (segment : Segment) :
    (segment.below lines).text = segment.text := by
  cases segment with
  | token found => simp only [below, Token.reword_below, text]
  | _ => rfl

theorem Segment.token?_below (lines : Nat) (segment : Segment) :
    (segment.below lines).token? = segment.token?.map (Token.reword (.below lines)) := by
  cases segment <;> rfl

theorem Segment.error?_below {segment : Segment} (faultless : segment.error? = none)
    (lines : Nat) : (segment.below lines).error? = none := by
  cases segment with
  | unexpected c line => cases faultless
  | unterminated characters line => cases faultless
  | _ => rfl

theorem Segment.flatMap_text_below (lines : Nat) (segments : List Segment) :
    (segments.map (Segment.below lines)).flatMap Segment.text =
      segments.flatMap Segment.text := by
  simp [List.flatMap_map]

/-- A segment fits further down if it fits where it is. -/
theorem Segment.Fits.below {position : Position} {after : List Char} {segment : Segment}
    (fits : segment.Fits position after) (lines : Nat) :
    (segment.below lines).Fits (position.below lines) after := by
  cases segment with
  | blank c => exact fits
  | comment characters => exact fits
  | token found =>
      obtain ⟨longest, isWord, noComment⟩ := fits
      simp only [Segment.below, Token.reword_below]
      refine ⟨longest, ?_, noComment⟩
      rw [isWord]
      simp [Token.ofWord, Position.below]
  | unexpected c line =>
      obtain ⟨notBlank, noQuote, noWord, isLine⟩ := fits
      exact ⟨notBlank, noQuote, noWord, by rw [isLine, Position.below]⟩
  | unterminated characters line =>
      obtain ⟨inside, atEnd, isLine⟩ := fits
      exact ⟨inside, atEnd, by rw [isLine, Position.past_below, Position.below]⟩

theorem Splits.below {position : Position} {segments : List Segment} {after : List Char}
    (splits : Splits position segments after) (lines : Nat) :
    Splits (position.below lines) (segments.map (Segment.below lines)) after := by
  induction segments generalizing position with
  | nil => trivial
  | cons segment segments ih =>
      refine ⟨?_, ?_⟩
      · rw [Segment.flatMap_text_below]
        exact splits.1.below lines
      · rw [Segment.text_below, Position.past_below]
        exact ih splits.2

/-! ### The end of a line -/

namespace Segment.Fits

variable {position : Position} {after : List Char} {segment : Segment}

/-- The end of a line changes nothing for what stands before it. -/
theorem newline (fits : segment.Fits position after) (faultless : segment.error? = none)
    (more : List Char) : segment.Fits position (after ++ '\n' :: more) := by
  cases segment with
  | blank c => exact fits
  | comment characters =>
      refine ⟨fits.1, ?_⟩
      cases after with
      | nil =>
          intro c isNext
          exact (Option.some.inj isNext).symm
      | cons next rest => exact fits.2
  | token found =>
      obtain ⟨longest, isWord, noComment⟩ := fits
      refine ⟨longest.newline more, isWord, ?_⟩
      rw [← List.append_assoc]
      intro slashes
      -- the second slash would have to be the newline
      have short : ¬2 ≤ (found.lexeme.toList ++ after).length := fun enough =>
        noComment (List.prefix_of_prefix_length_le slashes (List.prefix_append _ _) enough)
      match whole : found.lexeme.toList ++ after with
      | [] => exact longest.1.ne_nil (List.append_eq_nil_iff.1 whole).1
      | [c] =>
          rw [whole] at slashes
          exact absurd (List.cons_prefix_cons.1 (List.cons_prefix_cons.1 slashes).2).1 (by decide)
      | c :: d :: rest =>
          rw [whole] at short
          exact short (by simp)
  | unexpected c line => cases faultless
  | unterminated characters line => cases faultless

/-- What stands before the end of a line fits without it as well. -/
theorem before_newline (fits : segment.Fits position (after ++ ['\n'])) :
    segment.Fits position after := by
  cases segment with
  | blank c => exact fits
  | comment characters =>
      refine ⟨fits.1, ?_⟩
      cases after with
      | nil => exact fun c isNext => nomatch isNext
      | cons next rest => exact fits.2
  | token found =>
      obtain ⟨⟨lexeme, isLongest⟩, isWord, noComment⟩ := fits
      rw [← List.append_assoc] at isLongest noComment
      exact ⟨⟨lexeme, fun other longer isOther starts =>
        isLongest other longer isOther (starts.trans (List.prefix_append _ _))⟩, isWord,
        fun slashes => noComment (slashes.trans (List.prefix_append _ _))⟩
  | unexpected c line =>
      obtain ⟨notBlank, noQuote, noWord, isLine⟩ := fits
      exact ⟨notBlank, noQuote, fun kind word lexeme starts =>
        noWord kind word lexeme (starts.trans (List.prefix_append _ _)), isLine⟩
  | unterminated characters line =>
      exact absurd fits.2.1 (by simp)

/-- The end of a line is a blank, unless it is inside a string. -/
theorem blank_newline (fits : segment.Fits position after) (faultless : segment.error? = none)
    {before : List Char} (ends : segment.text = before ++ ['\n']) : segment = .blank '\n' := by
  have isLast : segment.text.getLast? = some '\n' := by
    rw [ends, List.getLast?_concat]
  cases segment with
  | blank c =>
      cases isLast
      rfl
  | comment characters =>
      have newline : '\n' ∈ '/' :: '/' :: characters := List.mem_of_getLast? isLast
      simp only [List.mem_cons, Char.reduceEq, false_or] at newline
      exact absurd newline fits.1
  | token found =>
      obtain ⟨characters, isString, -⟩ := fits.1.1.of_newline (List.mem_of_getLast? isLast)
      rw [text, isString, ← List.cons_append, List.getLast?_concat] at isLast
      cases isLast
  | unexpected c line => cases faultless
  | unterminated characters line => cases faultless

end Segment.Fits

namespace Splits

variable {position : Position} {segments : List Segment} {after : List Char}

/-- Segments above the end of a line do not depend on what is below it. -/
theorem newline (splits : Splits position segments after) (faultless : Faultless segments)
    (more : List Char) : Splits position segments (after ++ '\n' :: more) := by
  induction segments generalizing position with
  | nil => trivial
  | cons segment segments ih =>
      obtain ⟨here, others⟩ := List.forall_mem_cons.1 faultless
      refine ⟨?_, ih splits.2 others⟩
      rw [← List.append_assoc]
      exact splits.1.newline here more

theorem before_newline (splits : Splits position segments (after ++ ['\n'])) :
    Splits position segments after := by
  induction segments generalizing position with
  | nil => trivial
  | cons segment segments ih =>
      have fits := splits.1
      rw [← List.append_assoc] at fits
      exact ⟨fits.before_newline, ih splits.2⟩

/-- A text without errors that ends with a newline ends with a blank. -/
theorem split_newline (splits : Splits position segments []) (faultless : Faultless segments)
    {text : List Char} (ends : segments.flatMap Segment.text = text ++ ['\n']) :
    ∃ above, segments = above ++ [.blank '\n'] ∧ above.flatMap Segment.text = text := by
  rcases List.eq_nil_or_concat segments with rfl | ⟨above, last, rfl⟩
  · simp at ends
  · rw [List.concat_eq_append] at splits faultless ends ⊢
    obtain ⟨-, fits, -⟩ := splits_append.1 splits
    rw [List.flatMap_append, List.flatMap_singleton] at ends
    have nonempty := fits.text_ne_nil
    obtain ⟨before, c, isText⟩ : ∃ before c, last.text = before ++ [c] := by
      rcases List.eq_nil_or_concat last.text with isNil | ⟨before, c, isText⟩
      · exact absurd isNil nonempty
      · exact ⟨before, c, by rw [isText, List.concat_eq_append]⟩
    rw [isText, ← List.append_assoc] at ends
    obtain ⟨isAbove, isNewline⟩ := List.append_inj' ends rfl
    cases isNewline
    have isBlank := fits.blank_newline (faultless last (by simp)) isText
    subst isBlank
    cases before with
    | nil => exact ⟨above, rfl, by simpa using isAbove⟩
    | cons d before => simp [Segment.text] at isText

end Splits

/-! ### Texts -/

/-- Two texts with the end of a line between them, written in any way. -/
theorem normalize_newline (first second : List Char) :
    normalize (first ++ '\n' :: second) = normalize first ++ '\n' :: normalize second ∨
      ∃ text, normalize first = text ++ ['\n'] ∧
        normalize (first ++ '\n' :: second) = text ++ '\n' :: normalize second := by
  have plain : normalize ('\n' :: second) = '\n' :: normalize second := by
    rw [normalize] <;> simp
  by_cases isReturn : first.getLast? = some '\r'
  · obtain ⟨before, rfl⟩ := List.getLast?_eq_some_iff.1 isReturn
    refine .inr ⟨normalize before, normalize_append (by simp), ?_⟩
    rw [List.append_assoc, normalize_append (by simp), List.singleton_append, normalize]
  · refine .inl ?_
    rw [normalize_append fun isLast => absurd isLast isReturn, plain]

/-- What stands above the end of a line, written in any way, is taken apart as it is alone. -/
theorem segments_above {upper : String} (clean : (scan upper).errors = #[]) (lower : String) :
    ∃ above, normalize (upper ++ "\n" ++ lower).toList =
        above.flatMap Segment.text ++ '\n' :: normalize lower.toList ∧
      Splits .start above ('\n' :: normalize lower.toList) ∧
      (scan upper).tokens = above.filterMap Segment.token? ++
        [.eof (Position.start.past (normalize upper.toList))] ∧
      Faultless above := by
  obtain ⟨segments, isText, splits, isTokens, isErrors⟩ := scan_segments upper
  have faultless : Faultless segments := faultless_of_errors (by rw [← isErrors, clean])
  have joined : (upper ++ "\n" ++ lower).toList = upper.toList ++ '\n' :: lower.toList := by
    simp
  rw [joined]
  obtain plain | ⟨text, ends, isJoined⟩ := normalize_newline upper.toList lower.toList
  · refine ⟨segments, by rw [plain, isText], ?_, isTokens, faultless⟩
    exact splits.newline faultless (normalize lower.toList)
  · obtain ⟨above, rfl, isAbove⟩ := splits.split_newline faultless (isText.symm.trans ends)
    have others : Faultless above := fun segment member =>
      faultless segment (List.mem_append_left _ member)
    refine ⟨above, by rw [isJoined, isAbove], ?_, ?_, others⟩
    · have alone : Splits .start above [] := by
        have before := (splits_append.1 splits).1
        exact before.before_newline
      exact alone.newline others (normalize lower.toList)
    · rw [isTokens, List.filterMap_append]
      simp [Segment.token?]

/-- Two texts without errors are scanned as one text if the second one is put below the first. -/
theorem scan_below {upper lower : String} (clean : (scan upper).errors = #[])
    (cleanLower : (scan lower).errors = #[]) :
    ∃ body last after end_ lines, (scan upper).tokens = body ++ [last] ∧
      (scan lower).tokens = after ++ [end_] ∧
      scan (upper ++ "\n" ++ lower) =
        { tokens := body ++ (after ++ [end_]).map (Token.reword (.below lines)), errors := #[] } := by
  obtain ⟨above, isJoined, splits, isUpper, faultless⟩ := segments_above clean lower
  obtain ⟨segments, isText, splitsLower, isLower, isErrors⟩ := scan_segments lower
  obtain ⟨lines, isPlace⟩ := Position.past_newline (above.flatMap Segment.text)
  have faultlessLower : Faultless segments :=
    faultless_of_errors (by rw [← isErrors, cleanLower])
  -- the segments of the two texts, with the newline between them, are those of the whole text
  have whole : Splits .start (above ++ .blank '\n' :: segments.map (Segment.below lines)) [] := by
    rw [splits_append]
    refine ⟨?_, rfl, ?_⟩
    · rw [List.append_nil, List.flatMap_cons, Segment.flatMap_text_below, ← isText]
      exact splits
    · have isBelow := splitsLower.below lines
      rwa [← isPlace, Position.past_append] at isBelow
  have isWhole : normalize (upper ++ "\n" ++ lower).toList =
      (above ++ .blank '\n' :: segments.map (Segment.below lines)).flatMap Segment.text := by
    rw [isJoined, isText, List.flatMap_append, List.flatMap_cons, Segment.flatMap_text_below]
    rfl
  obtain ⟨isTokens, isFound⟩ := scan_of_splits isWhole whole
  have isEnd : Position.start.past (normalize (upper ++ "\n" ++ lower).toList) =
      (Position.start.past (normalize lower.toList)).below lines := by
    rw [isJoined, ← List.singleton_append, ← List.append_assoc, Position.past_append, isPlace,
      Position.past_below]
  have tokensBelow : (segments.map (Segment.below lines)).filterMap Segment.token? =
      (segments.filterMap Segment.token?).map (Token.reword (.below lines)) := by
    rw [List.filterMap_map, List.map_filterMap]
    exact List.filterMap_congr fun segment _ => segment.token?_below lines
  have noErrors : (above ++ .blank '\n' :: segments.map (Segment.below lines)).filterMap
      Segment.error? = [] := by
    have upperClean : above.filterMap Segment.error? = [] := List.filterMap_eq_nil_iff.2 faultless
    have lowerClean : (segments.map (Segment.below lines)).filterMap Segment.error? = [] := by
      rw [List.filterMap_map, List.filterMap_eq_nil_iff]
      intro segment member
      exact Segment.error?_below (faultlessLower segment member) lines
    rw [List.filterMap_append, upperClean, List.nil_append]
    exact lowerClean
  have tokens : (scan (upper ++ "\n" ++ lower)).tokens =
      above.filterMap Segment.token? ++ (segments.filterMap Segment.token? ++
        [Token.eof (Position.start.past (normalize lower.toList))]).map
          (Token.reword (.below lines)) := by
    rw [isTokens, isEnd, List.filterMap_append, List.map_append, ← tokensBelow,
      List.append_assoc]
    rfl
  refine ⟨_, _, _, _, lines, isUpper, isLower, ?_⟩
  rw [← tokens]
  have errors : (scan (upper ++ "\n" ++ lower)).errors = #[] :=
    Array.toList_eq_nil_iff.1 (isFound.trans noErrors)
  rw [← errors]

end LoxLang
