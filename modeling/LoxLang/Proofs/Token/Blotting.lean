/-
Module: LoxLang.Proofs.Token.Blotting
Purpose: A character that starts no token is passed over as a space would be.  With a space written
  over each character that is reported a text is scanned into the same tokens at the same places,
  nothing of the kind is reported any more, and a string that is not closed is reported as before.
Main exports: Scanner.reported, reportedPlaces, blotted, Segment.blotted, Splits.blotted,
  scan_blotted
-/
import LoxLang.Proofs.Source.Passing
import LoxLang.Proofs.Token.Following
import LoxLang.Proofs.Token.Scanning
import Mathlib.Data.List.Forall2

namespace LoxLang

/-! ### Characters that are reported -/

/-- The character and the line of an error at a character that starts no token. -/
def LexicalError.unexpected? : LexicalError → Option (Char × Nat)
  | unexpectedCharacter c line => some (c, line)
  | unterminatedString _ => none

/-- Where a scan reports characters that start no token: how much of the text is left there, the
character itself among it. -/
def Scanner.reported (cursor : Cursor) : List Nat :=
  match _ : cursor.skipTrivia.next? with
  | none => []
  | some (first, following) =>
      match _ : following.readToken first with
      | (.error (.unexpectedCharacter _ _), rest) => cursor.skipTrivia.rest.length :: reported rest
      | (_, rest) => reported rest
termination_by cursor.rest.length
decreasing_by
  all_goals
    have shorter := Cursor.readToken_length first following
    rw [‹following.readToken first = _›] at shorter
    exact Nat.lt_of_le_of_lt shorter (Nat.lt_of_lt_of_le
      (Cursor.next?_length ‹cursor.skipTrivia.next? = _›) (Cursor.skipTrivia_length cursor))

/-- The places in a text of the characters that are reported, counted from its start. -/
def reportedPlaces (source : String) : List Nat :=
  (Scanner.reported (.ofString source)).map fun left => source.toList.length - left

/-- A text with a space written over each character that is reported. -/
def blotted (source : String) : String :=
  .ofList ((reportedPlaces source).foldl (fun text place => text.set place ' ') source.toList)

/-! ### Spaces for other characters -/

/-- Writes a space over the character at which so much of a text is left. -/
def blot (text : List Char) (left : Nat) : List Char :=
  text.set (text.length - left) ' '

/-- Whether a character is another one or a space that stands for it on its line. -/
def Blots (c d : Char) : Prop :=
  d = c ∨ (d = ' ' ∧ c ≠ '\n')

/-- The segment that is there when a space is written over a character that is reported. -/
def Segment.blotted : Segment → Segment
  | unexpected _ _ => blank ' '
  | other => other

theorem Blots.after {c d : Char} (blots : Blots c d) (position : Position) :
    position.after d = position.after c := by
  obtain rfl | ⟨rfl, inLine⟩ := blots
  · rfl
  · rw [Position.after_of_ne inLine, Position.after_of_ne (by decide)]

/-- Spaces do not move what is behind them. -/
theorem past_blotted {text other : List Char} (blots : List.Forall₂ Blots text other)
    (position : Position) : position.past other = position.past text := by
  induction blots generalizing position with
  | nil => rfl
  | cons first _ ih => rw [Position.past_cons, Position.past_cons, first.after, ih]

/-- A space goes on with no word, so what was refused still is. -/
theorem StopsAlike.of_blots {text other : List Char} (blots : List.Forall₂ Blots text other) :
    StopsAlike text other := by
  have begins : ∀ {accept : Char → Bool} {text other : List Char}, accept ' ' = false →
      List.Forall₂ Blots text other → (∀ c ∈ text.head?, accept c = false) →
        ∀ c ∈ other.head?, accept c = false := by
    rintro accept text other noSpace (- | @⟨c, d, text, other, first, -⟩) stops e isNext
    · cases isNext
    · cases isNext
      obtain rfl | ⟨rfl, -⟩ := first
      · exact stops d rfl
      · exact noSpace
  refine ⟨begins rfl blots, begins rfl blots, fun stops c more isOther => ?_,
    fun stops c isNext => ?_⟩
  · subst isOther
    obtain ⟨point, rest, first, others, rfl⟩ := List.forall₂_cons_right_iff.1 blots
    obtain rfl | ⟨impossible, -⟩ := first
    · refine begins rfl others (fun d isNext => ?_) c rfl
      obtain ⟨after, rfl⟩ := List.head?_eq_some_iff.1 isNext
      exact stops d after rfl
    · exact absurd impossible (by decide)
  · have noEqual : ∀ d ∈ text.head?, decide (d = '=') = false :=
      fun d isFirst => decide_eq_false (stops d isFirst)
    exact of_decide_eq_false (begins rfl blots noEqual c isNext)

/-! ### Segments -/

namespace Segment

variable {position : Position} {segment : Segment} {after other : List Char}

theorem token?_blotted (segment : Segment) : segment.blotted.token? = segment.token? := by
  cases segment <;> rfl

theorem error?_blotted (segment : Segment) :
    segment.blotted.error? = segment.error?.filter fun error => error.unexpected?.isNone := by
  cases segment <;> rfl

theorem Fits.blots (fits : segment.Fits position after) :
    List.Forall₂ Blots segment.text segment.blotted.text := by
  cases segment with
  | unexpected c line =>
      refine .cons (.inr ⟨rfl, ?_⟩) .nil
      rintro rfl
      exact absurd fits.1 (by decide)
  | _ => exact List.forall₂_same.2 fun c _ => .inl rfl

/-- A segment still fits if spaces are written over characters behind it, and so does the space that
is written over it. -/
theorem Fits.blotted (fits : segment.Fits position after)
    (blots : List.Forall₂ Blots after other) : segment.blotted.Fits position other := by
  cases segment with
  | blank c => exact fits
  | comment characters =>
      refine ⟨fits.1, fun c isNext => ?_⟩
      obtain ⟨rest, rfl⟩ := List.head?_eq_some_iff.1 isNext
      obtain ⟨d, others, first, -, rfl⟩ := List.forall₂_cons_right_iff.1 blots
      obtain rfl | ⟨-, inLine⟩ := first
      · exact fits.2 c rfl
      · exact absurd (fits.2 d rfl) inLine
  | token found =>
      obtain ⟨longest, isWord, noComment⟩ := fits
      refine ⟨longest.stopsAlike (.of_blots blots), isWord, fun slashes => noComment ?_⟩
      -- a slash behind the token is no space, so it was there before
      obtain ⟨c, word, isText⟩ := List.exists_cons_of_ne_nil longest.1.ne_nil
      rw [isText] at slashes ⊢
      obtain ⟨rfl, second⟩ := List.cons_prefix_cons.1 slashes
      refine List.cons_prefix_cons.2 ⟨rfl, ?_⟩
      cases word with
      | cons d word => exact ⟨word ++ after, by simpa using (List.cons_prefix_cons.1 second).1⟩
      | nil =>
          obtain ⟨rest, isOther⟩ := second
          change '/' :: rest = other at isOther
          subst isOther
          obtain ⟨d, others, first, -, rfl⟩ := List.forall₂_cons_right_iff.1 blots
          obtain rfl | ⟨impossible, -⟩ := first
          · exact ⟨others, rfl⟩
          · exact absurd impossible (by decide)
  | unexpected c line => exact (rfl : Cursor.isBlank ' ' = true)
  | unterminated characters line =>
      obtain ⟨inside, atEnd, isLine⟩ := fits
      subst atEnd
      cases blots
      exact ⟨inside, rfl, isLine⟩

end Segment

namespace Splits

variable {position : Position} {segments : List Segment} {after : List Char}

theorem blots (splits : Splits position segments after) :
    List.Forall₂ Blots (segments.flatMap Segment.text)
      ((segments.map Segment.blotted).flatMap Segment.text) := by
  induction segments generalizing position with
  | nil => exact .nil
  | cons segment rest ih =>
      exact List.rel_append splits.1.blots (ih splits.2)

/-- A text in which spaces are written over the characters that are reported is taken apart as
before. -/
theorem blotted (splits : Splits position segments []) :
    Splits position (segments.map Segment.blotted) [] := by
  induction segments generalizing position with
  | nil => trivial
  | cons segment rest ih =>
      have behind := splits.2.blots
      refine ⟨splits.1.blotted (by simpa using behind), ?_⟩
      rw [past_blotted splits.1.blots]
      exact ih splits.2

end Splits

/-! ### Places in a text as it is written -/

section

variable {written rest : List Char} {lefts : List Nat}

theorem length_blot (text : List Char) (left : Nat) : (blot text left).length = text.length :=
  List.length_set

/-- Spaces that are written behind a beginning leave it alone. -/
theorem foldl_blot_append (inside : ∀ left ∈ lefts, left ≤ rest.length) :
    lefts.foldl blot (written ++ rest) = written ++ lefts.foldl blot rest := by
  induction lefts generalizing rest with
  | nil => rfl
  | cons left lefts ih =>
      obtain ⟨first, others⟩ := List.forall_mem_cons.1 inside
      have isBehind : blot (written ++ rest) left = written ++ blot rest left := by
        have behind : written.length ≤ (written ++ rest).length - left := by
          rw [List.length_append]
          omega
        rw [blot, List.set_append_right _ _ behind, blot, List.length_append]
        congr 2
        omega
      rw [List.foldl_cons, List.foldl_cons, isBehind, ih]
      simpa only [length_blot] using others

/-- A space is no newline, so a text that begins with one began with it before. -/
theorem head?_of_foldl_blot (isNewline : (lefts.foldl blot rest).head? = some '\n') :
    rest.head? = some '\n' := by
  induction lefts generalizing rest with
  | nil => exact isNewline
  | cons left lefts ih =>
      have isBefore := ih isNewline
      rw [blot] at isBefore
      cases rest with
      | nil => exact isBefore
      | cons c rest =>
          generalize (c :: rest).length - left = place at isBefore
          cases place with
          | zero => exact absurd isBefore (by simp)
          | succ place => exact isBefore

/-- A text that is read as one character is that character, unless it is a line end. -/
theorem eq_of_normalize_eq_singleton {c : Char} (inLine : c ≠ '\n')
    (isRead : normalize written = [c]) : written = [c] := by
  unfold normalize at isRead
  split at isRead
  · cases isRead
  · exact absurd (List.cons.inj isRead).1.symm inLine
  · exact absurd (List.cons.inj isRead).1.symm inLine
  · rename_i d rest noBoth noReturn
    obtain ⟨rfl, nothing⟩ := List.cons.inj isRead
    cases rest with
    | nil => rfl
    | cons e rest =>
        unfold normalize at nothing
        split at nothing <;> cases nothing
        rename_i impossible
        cases impossible

end

/-- The character of a text at which so much of it is left, and its line. -/
def Cursor.reportAt (cursor : Cursor) (left : Nat) : Option Char × Nat :=
  let place := cursor.rest.length - left
  (cursor.rest[place]?, (cursor.position.past (normalize (cursor.rest.take place))).line)

/-- What is left somewhere does not depend on where reading begins. -/
theorem Cursor.reportAt_of_passes {cursor middle : Cursor} {written run : List Char}
    (passes : cursor.Passes written middle) (reads : cursor.Reads run middle) {left : Nat}
    (inside : left ≤ middle.rest.length) : cursor.reportAt left = middle.reportAt left := by
  have isPlace : cursor.rest.length - left = written.length + (middle.rest.length - left) := by
    rw [passes.rest, List.length_append]
    omega
  have sameHead : ∀ count, (middle.rest.take count).head? = some '\n' →
      middle.rest.head? = some '\n' := by
    intro count isNewline
    obtain ⟨rest, isTaken⟩ := List.head?_eq_some_iff.1 isNewline
    obtain ⟨more, isRest⟩ := isTaken ▸ middle.rest.take_prefix count
    rw [← isRest]
    rfl
  simp only [reportAt, isPlace]
  rw [passes.rest, List.getElem?_append_right (Nat.le_add_right _ _), Nat.add_sub_cancel_left,
    List.take_length_add_append, passes.normalize_append (sameHead _), passes.normalize_eq reads,
    Position.past_append, ← reads.position]

/-! ### Reports and segments -/

/-- Whether the reports of a scan from a cursor on are those of segments of the text, at the places
where these segments are, one behind the other. -/
structure Reporting (cursor : Cursor) (lefts : List Nat) (segments : List Segment) : Prop where
  inside : ∀ left ∈ lefts, 0 < left ∧ left ≤ cursor.rest.length
  ordered : lefts.Pairwise (· > ·)
  blotted : normalize (lefts.foldl blot cursor.rest) =
    (segments.map Segment.blotted).flatMap Segment.text
  reports : ((segments.filterMap Segment.error?).filterMap LexicalError.unexpected?).map
    (fun report => (some report.1, report.2)) = lefts.map cursor.reportAt

namespace Reporting

variable {cursor middle : Cursor} {before segments : List Segment} {lefts : List Nat}

/-- Nothing is left to report at the end. -/
theorem done (atEnd : cursor.ahead = []) : Reporting cursor [] [] :=
  ⟨nofun, .nil, atEnd, rfl⟩

/-- Segments that are not reported are passed. -/
theorem after (reporting : Reporting middle lefts segments) (takes : cursor.Takes before middle)
    (onwards : cursor.Onwards middle) (silent : ∀ segment ∈ before, segment.blotted = segment) :
    Reporting cursor lefts (before ++ segments) := by
  obtain ⟨written, passes⟩ := onwards
  have inside : ∀ left ∈ lefts, left ≤ middle.rest.length := fun left member =>
    (reporting.inside left member).2
  have noReports :
      (before.filterMap Segment.error?).filterMap LexicalError.unexpected? = [] := by
    rw [List.filterMap_filterMap, List.filterMap_eq_nil_iff]
    intro segment member
    have same := silent segment member
    cases segment <;> first | rfl | cases same
  refine ⟨fun left member => ⟨(reporting.inside left member).1, ?_⟩, reporting.ordered, ?_, ?_⟩
  · rw [passes.rest, List.length_append]
    exact Nat.le_add_left_of_le (inside left member)
  · rw [passes.rest, foldl_blot_append inside, passes.normalize_append head?_of_foldl_blot,
      passes.normalize_eq takes.reads, reporting.blotted, List.map_append, List.flatMap_append,
      List.map_congr_left silent, List.map_id']
  · rw [List.filterMap_append, List.filterMap_append, noReports, List.nil_append,
      reporting.reports]
    exact List.map_congr_left fun left member =>
      (Cursor.reportAt_of_passes passes takes.reads (inside left member)).symm

/-- A character that starts no token is reported where it is. -/
theorem report (reporting : Reporting middle lefts segments) {c : Char} {line : Nat}
    (takes : cursor.Takes [.unexpected c line] middle) (onwards : cursor.Onwards middle) :
    Reporting cursor (cursor.rest.length :: lefts) (.unexpected c line :: segments) := by
  obtain ⟨written, passes⟩ := onwards
  obtain ⟨notBlank, -, -, isLine⟩ := takes.splits.1
  have inLine : c ≠ '\n' := by
    rintro rfl
    exact absurd notBlank (by decide)
  obtain rfl := eq_of_normalize_eq_singleton inLine (passes.normalize_eq takes.reads)
  have isRest : cursor.rest = c :: middle.rest := passes.rest
  have inside : ∀ left ∈ lefts, left ≤ middle.rest.length := fun left member =>
    (reporting.inside left member).2
  have isBlotted : blot cursor.rest cursor.rest.length = [' '] ++ middle.rest := by
    rw [blot, Nat.sub_self, isRest]
    rfl
  refine ⟨List.forall_mem_cons.2 ⟨⟨by simp [isRest], Nat.le_refl _⟩, fun left member => ?_⟩,
    List.pairwise_cons.2 ⟨fun left member => ?_, reporting.ordered⟩, ?_, ?_⟩
  · rw [isRest]
    exact ⟨(reporting.inside left member).1, Nat.le_succ_of_le (inside left member)⟩
  · rw [isRest]
    exact Nat.lt_succ_of_le (inside left member)
  · rw [List.foldl_cons, isBlotted, foldl_blot_append inside, LoxLang.normalize_append
        (fun isReturn => absurd isReturn (by decide)),
      reporting.blotted]
    rfl
  · have isFirst : cursor.reportAt cursor.rest.length = (some c, line) := by
      simp [Cursor.reportAt, isRest, isLine, normalize]
    have others : lefts.map cursor.reportAt = lefts.map middle.reportAt :=
      List.map_congr_left fun left member =>
        Cursor.reportAt_of_passes passes takes.reads (inside left member)
    rw [List.map_cons, isFirst, others, ← reporting.reports]
    rfl

end Reporting

/-- A scan reports the segments of the text that start no token. -/
theorem Scanner.reported_takes (cursor : Cursor) :
    ∃ segments stop, cursor.Takes segments stop ∧ stop.ahead = [] ∧
      Reporting cursor (reported cursor) segments := by
  have silent : ∀ {segments : List Segment},
      (∀ segment ∈ segments, segment.token? = none ∧ segment.error? = none) →
        ∀ segment ∈ segments, segment.blotted = segment := by
    intro segments quiet segment member
    have noError := (quiet segment member).2
    cases segment <;> first | rfl | cases noError
  fun_induction reported cursor with
  | case1 cursor read =>
      obtain ⟨trivia, takes, quiet, -⟩ := cursor.skipTrivia_takes
      have atEnd := Cursor.next?_eq_none read
      refine ⟨trivia, _, takes, atEnd, ?_⟩
      simpa using (Reporting.done atEnd).after takes cursor.skipTrivia_onwards (silent quiet)
  | case2 cursor first following read c line rest found ih =>
      obtain ⟨trivia, takes, quiet, notBlank, noComment⟩ := cursor.skipTrivia_takes
      obtain ⟨segments, stop, takesLater, atEnd, reporting⟩ := ih
      have isFirst := notBlank first (by rw [(Cursor.next?_eq_some read).ahead]; rfl)
      have onwards := (Cursor.next?_onwards read).trans
        (found ▸ Cursor.readToken_onwards first following)
      obtain ⟨token, other, isToken, -⟩ | ⟨error, other, segment, isError, takesError, -,
        isSegment⟩ := Cursor.readToken_takes read isFirst noComment
      · cases found.symm.trans isToken
      · cases found.symm.trans isError
        cases segment <;> cases isSegment
        refine ⟨_, stop, takes.trans (takesError.trans takesLater), atEnd, ?_⟩
        exact (reporting.report takesError onwards).after takes cursor.skipTrivia_onwards
          (silent quiet)
  | case3 cursor first following read result rest notReported found ih =>
      obtain ⟨trivia, takes, quiet, notBlank, noComment⟩ := cursor.skipTrivia_takes
      obtain ⟨segments, stop, takesLater, atEnd, reporting⟩ := ih
      have isFirst := notBlank first (by rw [(Cursor.next?_eq_some read).ahead]; rfl)
      have onwards := (Cursor.next?_onwards read).trans
        (found ▸ Cursor.readToken_onwards first following)
      obtain ⟨segment, takesOne, isSilent⟩ : ∃ segment,
          cursor.skipTrivia.Takes [segment] rest ∧ segment.blotted = segment := by
        obtain ⟨token, other, isToken, takesToken⟩ | ⟨error, other, segment, isError, takesError, -,
          isSegment⟩ := Cursor.readToken_takes read isFirst noComment
        · cases found.symm.trans isToken
          exact ⟨_, takesToken, rfl⟩
        · cases found.symm.trans isError
          refine ⟨_, takesError, ?_⟩
          cases segment with
          | unexpected c line =>
              cases isSegment
              exact absurd rfl (notReported c line)
          | _ => rfl
      refine ⟨_, stop, takes.trans (takesOne.trans takesLater), atEnd, ?_⟩
      exact (reporting.after takesOne onwards (List.forall_mem_singleton.2 isSilent)).after takes
        cursor.skipTrivia_onwards (silent quiet)

/-! ### Whole texts -/

theorem toList_blotted (source : String) :
    (blotted source).toList = (Scanner.reported (.ofString source)).foldl blot source.toList := by
  -- the length does not change on the way, so places can be counted from either end
  have sameLength : ∀ (lefts : List Nat) (text : List Char), text.length = source.toList.length →
      lefts.foldl (fun text left => text.set (source.toList.length - left) ' ') text =
        lefts.foldl blot text := by
    intro lefts
    induction lefts with
    | nil => exact fun _ _ => rfl
    | cons left lefts ih =>
        intro text isLength
        rw [List.foldl_cons, List.foldl_cons, blot, isLength]
        exact ih _ (List.length_set.trans isLength)
  rw [blotted, String.toList_ofList, reportedPlaces, List.foldl_map]
  exact sameLength _ _ rfl

/-- Reports stand at their places, from the start of a text to its end. -/
theorem Reporting.places {source : String} {lefts : List Nat} {segments : List Segment}
    (reporting : Reporting (.ofString source) lefts segments) :
    (lefts.map fun left => source.toList.length - left).Pairwise (· < ·) := by
  refine List.pairwise_map.2 (reporting.ordered.imp_of_mem ?_)
  intro left other member _ less
  have fits := (reporting.inside left member).2
  change left ≤ source.toList.length at fits
  omega

/-- Skipping characters that start no token is transparent.  Such characters are reported in the
order in which they stand in the text, each with the line it is on.  When a space is written over
every one of them the text has the same tokens at the same places, nothing of the kind is reported,
and a string that is not closed is reported as before. -/
theorem scan_blotted (source : String) :
    (reportedPlaces source).Pairwise (· < ·) ∧
    ((scan source).errors.toList.filterMap LexicalError.unexpected?).map
        (fun report => (some report.1, report.2)) =
      (reportedPlaces source).map (fun place =>
        (source.toList[place]?, 1 + (normalize (source.toList.take place)).count '\n')) ∧
    (scan (blotted source)).tokens = (scan source).tokens ∧
    (scan (blotted source)).errors.toList =
      (scan source).errors.toList.filter fun error => error.unexpected?.isNone := by
  obtain ⟨segments, stop, takes, atEnd, reporting⟩ := Scanner.reported_takes (.ofString source)
  have isText : normalize source.toList = segments.flatMap Segment.text := by
    have isAhead := takes.reads.ahead
    rw [atEnd, List.append_nil] at isAhead
    exact isAhead
  have splits : Splits .start segments [] := atEnd ▸ takes.splits
  have isBlotted : normalize (blotted source).toList =
      (segments.map Segment.blotted).flatMap Segment.text := by
    rw [toList_blotted]
    exact reporting.blotted
  obtain ⟨isTokens, isErrors⟩ := scan_of_splits isText splits
  obtain ⟨areTokens, areErrors⟩ := scan_of_splits isBlotted splits.blotted
  have sameEnd : Position.start.past (normalize (blotted source).toList) =
      Position.start.past (normalize source.toList) := by
    rw [isBlotted, isText]
    exact past_blotted splits.blots .start
  refine ⟨reporting.places, ?_, ?_, ?_⟩
  · rw [isErrors, reporting.reports, reportedPlaces, List.map_map]
    refine List.map_congr_left fun left _ => ?_
    rw [Cursor.reportAt, Position.line_past]
    rfl
  · rw [areTokens, isTokens, sameEnd, List.filterMap_map]
    congr 2
    exact funext Segment.token?_blotted
  · rw [areErrors, isErrors, List.filterMap_map, List.filter_filterMap]
    congr 1
    exact funext Segment.error?_blotted

end LoxLang
