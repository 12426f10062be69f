/-
Module: LoxLang.Proofs.Parser.Resumption
Purpose: Where reading resumes after an error that stops a declaration.  The rule is to go on right
  after a semicolon or right before a keyword that starts a statement, whichever comes first.  It is
  kept unless the error was found at such a keyword, which is passed over.
Main exports: AtBoundary, AtBoundary.unique, Stream.synchronize_resumes, Stream.Reports.recoveries,
  Program.parse_resumes
-/
import LoxLang.Proofs.Parser.Recovery
import Mathlib.Data.List.Forall2

namespace LoxLang

open LoxLang.Stream (isBoundary)

/-! ### The rule -/

/-- Whether the next boundary lies between the tokens `discarded` and those that follow: no token
that is discarded starts a statement, a semicolon is discarded only as the last of them, and there
is a reason to go no further. -/
structure AtBoundary (discarded rest : List Token) : Prop where
  startsNothing : ∀ token ∈ discarded, isBoundary token.kind = false ∧ token.kind ≠ .eof
  unbroken : ∀ token ∈ discarded.dropLast, token.kind ≠ .semicolon
  reason : (∃ token, discarded.getLast? = some token ∧ token.kind = .semicolon) ∨
    ∃ token, rest.head? = some token ∧ (isBoundary token.kind = true ∨ token.kind = .eof)

namespace AtBoundary

variable {discarded rest : List Token} {token : Token}

theorem before (isStart : isBoundary token.kind = true ∨ token.kind = .eof) :
    AtBoundary [] (token :: rest) where
  startsNothing := nofun
  unbroken := nofun
  reason := .inr ⟨token, rfl, isStart⟩

theorem after (isSemicolon : token.kind = .semicolon) : AtBoundary [token] rest where
  startsNothing := by
    intro other member
    cases List.mem_singleton.1 member
    rw [isSemicolon]
    exact ⟨rfl, nofun⟩
  unbroken := nofun
  reason := .inl ⟨token, rfl, isSemicolon⟩

/-- A token that is neither a semicolon nor the start of anything is passed over. -/
theorem cons (boundary : AtBoundary discarded rest) (startsNothing : isBoundary token.kind = false)
    (inside : token.kind ≠ .eof) (noSemicolon : token.kind ≠ .semicolon) :
    AtBoundary (token :: discarded) rest := by
  refine ⟨?_, ?_, ?_⟩
  · intro other member
    rcases List.mem_cons.1 member with rfl | later
    · exact ⟨startsNothing, inside⟩
    · exact boundary.startsNothing other later
  · intro other member
    cases discarded with
    | nil => cases member
    | cons first others =>
        rw [List.dropLast_cons_cons] at member
        rcases List.mem_cons.1 member with rfl | later
        · exact noSemicolon
        · exact boundary.unbroken other later
  · rcases boundary.reason with ⟨last, isLast, isSemicolon⟩ | start
    · refine .inl ⟨last, ?_, isSemicolon⟩
      rw [List.getLast?_cons, isLast]
      rfl
    · exact .inr start

/-- If a boundary lies further on, then there is none before it: what would be discarded up to the
first is discarded up to the second as well, and then something more. -/
theorem not_append {more : List Token} (boundary : AtBoundary discarded (more ++ rest))
    (nonempty : more ≠ []) : ¬AtBoundary (discarded ++ more) rest := by
  intro further
  obtain ⟨first, others, rfl⟩ := List.exists_cons_of_ne_nil nonempty
  rcases boundary.reason with ⟨last, isLast, isSemicolon⟩ | ⟨token, isFirst, isStart⟩
  · obtain ⟨front, rfl⟩ := List.getLast?_eq_some_iff.1 isLast
    have early : last ∈ (front ++ [last] ++ first :: others).dropLast := by
      rw [List.dropLast_append_of_ne_nil (List.cons_ne_nil first others)]
      simp
    exact further.unbroken last early isSemicolon
  · cases isFirst
    have passed := further.startsNothing first (by simp)
    rcases isStart with starts | isEnd
    · rw [passed.1] at starts
      cases starts
    · exact passed.2 isEnd

/-- The next boundary lies at one place only. -/
theorem unique {other more : List Token} (boundary : AtBoundary discarded rest)
    (again : AtBoundary other more) (same : discarded ++ rest = other ++ more) :
    discarded = other ∧ rest = more := by
  rcases List.append_eq_append_iff.1 same with ⟨between, rfl, rfl⟩ | ⟨between, rfl, rfl⟩
  · cases between with
    | nil => exact ⟨(List.append_nil _).symm, rfl⟩
    | cons first others => exact absurd again (boundary.not_append (List.cons_ne_nil _ _))
  · cases between with
    | nil => exact ⟨List.append_nil _, rfl⟩
    | cons first others => exact absurd boundary (again.not_append (List.cons_ne_nil _ _))

end AtBoundary

/-! ### Synchronizing -/

namespace Stream

/-- Skipping goes to the next boundary, unless a semicolon has just been skipped. -/
theorem skipToBoundary_boundary {previous current : Token} {rest : List Token}
    (ends : EndsOnce (current :: rest)) (noSemicolon : previous.kind ≠ .semicolon) :
    ∃ discarded, current :: rest = discarded ++
        (skipToBoundary previous current rest).1 :: (skipToBoundary previous current rest).2 ∧
      AtBoundary discarded
        ((skipToBoundary previous current rest).1 :: (skipToBoundary previous current rest).2) := by
  induction rest generalizing previous current with
  | nil => exact ⟨[], rfl, .before (.inr ends)⟩
  | cons following rest ih =>
      obtain ⟨inside, endsLater⟩ := ends
      unfold skipToBoundary
      split
      next stops =>
        refine ⟨[], rfl, .before ?_⟩
        rcases stops with isEnd | isSemicolon | starts
        · exact .inr isEnd
        · exact absurd isSemicolon noSemicolon
        · exact .inl starts
      next goesOn =>
        have startsNothing : isBoundary current.kind = false := by
          rw [Bool.eq_false_iff]
          exact fun starts => goesOn (.inr (.inr starts))
        by_cases isSemicolon : current.kind = .semicolon
        · -- the next step stops at once
          refine ⟨[current], ?_, .after isSemicolon⟩
          cases rest with
          | nil => rfl
          | cons token others => simp [skipToBoundary, isSemicolon]
        · obtain ⟨discarded, split, boundary⟩ := ih endsLater isSemicolon
          refine ⟨current :: discarded, ?_, boundary.cons startsNothing inside isSemicolon⟩
          rw [List.cons_append, ← split]

/-- Synchronizing goes to the next boundary, where a keyword that starts a statement does not count
if the stream stands at it: that keyword is skipped, and the boundary after it is looked for. -/
theorem synchronize_resumes {stream : Stream} (ends : EndsOnce stream.tokens) :
    ∃ discarded, stream.tokens = discarded ++ stream.synchronize.tokens ∧
      (isBoundary stream.current.kind = false → AtBoundary discarded stream.synchronize.tokens) ∧
      (isBoundary stream.current.kind = true → ∃ skipped, discarded = stream.current :: skipped ∧
        AtBoundary skipped stream.synchronize.tokens) := by
  rcases stream with ⟨current, rest, errors, size⟩
  cases rest with
  | nil =>
      have isEnd : current.kind = .eof := ends
      refine ⟨[], rfl, fun _ => .before (.inr isEnd), fun starts => ?_⟩
      rw [isEnd] at starts
      cases starts
  | cons following rest =>
      obtain ⟨inside, endsLater⟩ := ends
      have synchronized : (synchronize ⟨current, following :: rest, errors, size⟩).tokens =
          (skipToBoundary current following rest).1 :: (skipToBoundary current following rest).2 := by
        simp [synchronize, atEnd, inside, tokens]
      rw [synchronized]
      by_cases isSemicolon : current.kind = .semicolon
      · refine ⟨[current], ?_, fun _ => .after isSemicolon, fun starts => ?_⟩
        · cases rest with
          | nil => rfl
          | cons token others => simp [skipToBoundary, isSemicolon, tokens]
        · rw [isSemicolon] at starts
          cases starts
      · obtain ⟨skipped, split, boundary⟩ := skipToBoundary_boundary endsLater isSemicolon
        refine ⟨current :: skipped, ?_, ?_, fun _ => ⟨skipped, rfl, boundary⟩⟩
        · rw [tokens, List.cons_append, ← split]
        · exact fun startsNothing => boundary.cons startsNothing inside isSemicolon

end Stream

/-- How reading goes on after an error that was found at a token: at the next boundary, unless that
token itself starts a statement.  Then it is passed over, and reading goes on at the boundary after
it. -/
structure Resumes (tokens : List Token) (error : SyntaxError) (rest : List Token) : Prop where
  here : tokens.head? = some error.token
  documented : ∃ discarded onwards, tokens = discarded ++ onwards ∧ AtBoundary discarded onwards ∧
    (rest = onwards ↔ isBoundary error.token.kind = false)
  passedOver : isBoundary error.token.kind = true →
    ∃ skipped, tokens = error.token :: (skipped ++ rest) ∧ AtBoundary skipped rest

theorem Stream.resumes_synchronize {stream : Stream} {error : SyntaxError}
    (ends : EndsOnce stream.tokens) (here : error.token = stream.current) :
    Resumes stream.tokens error stream.synchronize.tokens := by
  obtain ⟨discarded, split, regular, otherwise⟩ := synchronize_resumes ends
  refine ⟨congrArg some here.symm, ?_, ?_⟩
  · rw [here]
    cases starts : isBoundary stream.current.kind with
    | false => exact ⟨discarded, _, split, regular starts, iff_of_true rfl rfl⟩
    | true =>
        obtain ⟨skipped, rfl, -⟩ := otherwise starts
        refine ⟨[], stream.tokens, rfl, .before (.inl starts), iff_of_false ?_ nofun⟩
        intro same
        have lengths := congrArg List.length split
        rw [same, List.length_append, List.length_cons] at lengths
        omega
  · rw [here]
    intro starts
    obtain ⟨skipped, rfl, boundary⟩ := otherwise starts
    exact ⟨skipped, split, boundary⟩

/-! ### Whole token lists -/

/-- An error was found at one place of a token list, and reading went on at another. -/
def RecoversAt (tokens : List Token) (error : SyntaxError) (place : Nat × Nat) : Prop :=
  Resumes (tokens.drop place.1) error (tokens.drop place.2)

theorem RecoversAt.later {tokens : List Token} {error : SyntaxError} {place : Nat × Nat}
    (recovers : RecoversAt tokens error place) (taken : List Token) :
    RecoversAt (taken ++ tokens) error (taken.length + place.1, taken.length + place.2) := by
  simp only [RecoversAt, List.drop_length_add_append]
  exact recovers

/-- All errors that are fatal on the way, with the places they were found at and those at which
reading went on. -/
theorem Stream.Reports.recoveries {tokens rest : List Token} {errors : List SyntaxError}
    (reports : Reports tokens errors rest) (ends : EndsOnce tokens) :
    ∃ places : List (Nat × Nat), List.Forall₂ (RecoversAt tokens) errors places ∧
      places.Pairwise (fun first second => first.2 ≤ second.1) ∧
      ∀ place ∈ places, place.1 ≤ place.2 ∧ place.2 + rest.length ≤ tokens.length := by
  induction reports with
  | pass _ _ => exact ⟨[], .nil, .nil, nofun⟩
  | @recover stream error here =>
      obtain ⟨discarded, split, -⟩ := synchronize_resumes ends
      have dropped : stream.tokens.drop discarded.length = stream.synchronize.tokens := by
        rw [split, List.drop_left]
      have lengths := congrArg List.length split
      rw [List.length_append] at lengths
      refine ⟨[(0, discarded.length)], .cons ?_ .nil, List.pairwise_singleton .., ?_⟩
      · rw [RecoversAt, dropped]
        exact resumes_synchronize ends here
      · intro place member
        cases List.mem_singleton.1 member
        exact ⟨Nat.zero_le _, Nat.le_of_eq lengths.symm⟩
  | @trans tokens middle rest first second before after ihBefore ihAfter =>
      obtain ⟨places, recovers, ordered, within'⟩ := ihBefore ends
      obtain ⟨taken, rfl⟩ := before.suffix
      obtain ⟨morePlaces, recoversLater, orderedLater, withinLater⟩ :=
        ihAfter (ends.drop before.ne_nil)
      obtain ⟨skipped, split⟩ := after.suffix
      have lengths := congrArg List.length split
      rw [List.length_append] at lengths
      refine ⟨places ++ morePlaces.map fun place =>
        (taken.length + place.1, taken.length + place.2), ?_, ?_, ?_⟩
      · refine List.rel_append recovers ?_
        rw [List.forall₂_map_right_iff]
        exact recoversLater.imp fun error place found => found.later taken
      · refine List.pairwise_append.2 ⟨ordered, ?_, ?_⟩
        · exact List.pairwise_map.2 (orderedLater.imp fun follows => Nat.add_le_add_left follows _)
        · intro early member late later
          obtain ⟨place, -, rfl⟩ := List.mem_map.1 later
          have inside := (within' early member).2
          rw [List.length_append] at inside
          show early.2 ≤ taken.length + place.1
          omega
      · intro place member
        rw [List.length_append]
        rcases List.mem_append.1 member with early | later
        · have inside := within' place early
          rw [List.length_append] at inside
          omega
        · obtain ⟨late, isLate, rfl⟩ := List.mem_map.1 later
          have inside := withinLater late isLate
          simp only
          omega

namespace Program

variable {tokens : List Token}

/-- Every error that stops a declaration is found at the token to be looked at next, and reading
resumes at the next boundary from there if and only if that token starts no statement; a keyword
that starts one is passed over.  So it is with all fatal errors of a token list, from left to
right. -/
theorem parse_resumes (ends : EndsOnce tokens) (most : Int) :
    let limit := ArgumentLimit.count most
    (∀ (room : Nat) (stream stopped : Stream) (error : SyntaxError), stream.Proper →
      Parser.declarationOf limit (Parser.expression limit room) (Parser.statement limit room)
        (Parser.declaration limit room) stream = .error (.syntaxError error) stopped →
      ∃ resumed, Parser.declaration limit (room + 1) stream = .ok none resumed ∧
        Resumes stopped.tokens error resumed.tokens) ∧
    ∃ places : List (Nat × Nat),
      List.Forall₂ (RecoversAt tokens) (parse limit tokens).fatal places ∧
      places.Pairwise fun first second => first.2 ≤ second.1 := by
  intro limit
  have comparable : limit ≠ .incomparable := nofun
  constructor
  · intro room stream stopped error proper stops
    obtain ⟨inner, declared⟩ := Parser.statement_and_declaration_advance limit room
    have value : Parser.Stays (Parser.expression limit room) := Parser.expression_advances room
    have forward :=
      (Parser.declarationOf_advances limit value inner declared stream proper).forward
    rw [stops] at forward
    obtain ⟨moves, found⟩ := forward
    obtain ⟨-, here⟩ := found error rfl
    have reported : error.token = (stopped.report error).current := here
    refine ⟨(stopped.report error).synchronize, ?_, ?_⟩
    · simp only [Parser.declaration, Parser.recovering, stops]
    · have endsThere : EndsOnce (stopped.report error).tokens := (moves.proper proper).ends
      exact Stream.resumes_synchronize endsThere reported
  · obtain ⟨-, same⟩ := Stream.ofTokens_proper ends
    obtain ⟨program, following, -, read, moves, -⟩ := parse_moves ends comparable
    obtain ⟨reported, isReported, reports⟩ := moves.reports
    have began : (Stream.ofTokens tokens).errors = #[] := by cases tokens <;> rfl
    have errors : (parse limit tokens).fatal = reported.filter SyntaxError.isFatal := by
      rw [Parse.fatal, read, isReported, began]
      rfl
    rw [same] at reports
    obtain ⟨places, recovers, ordered, -⟩ := reports.recoveries ends
    rw [errors]
    exact ⟨places, recovers, ordered⟩

/-- The tokens of `print 1 var x;`: a semicolon is missing. -/
def sampleUnfinished : List Token :=
  [⟨.keyword .print_, "print", none, ⟨1, 1⟩⟩, ⟨.number, "1", some (.number 1), ⟨1, 7⟩⟩,
    ⟨.keyword .var_, "var", none, ⟨1, 9⟩⟩, ⟨.identifier, "x", none, ⟨1, 13⟩⟩,
    ⟨.semicolon, ";", none, ⟨1, 14⟩⟩, .eof ⟨1, 14⟩]

theorem endsOnce_sampleUnfinished : EndsOnce sampleUnfinished :=
  ⟨nofun, nofun, nofun, nofun, nofun, rfl⟩

/-- The semicolon is missed at `var`, and reading does not go on there. -/
theorem parse_resumes_sampleUnfinished :
    EndsOnce sampleUnfinished ∧ ∃ error place,
      (parse (.count 255) sampleUnfinished).fatal = [error] ∧
      isBoundary error.token.kind = true ∧ RecoversAt sampleUnfinished error place := by
  refine ⟨endsOnce_sampleUnfinished, ?_⟩
  obtain ⟨-, places, recovers, -⟩ := parse_resumes endsOnce_sampleUnfinished 255
  have fatal : ∃ error, (parse (.count 255) sampleUnfinished).fatal = [error] ∧
      isBoundary error.token.kind = true := by
    with_unfolding_all exact ⟨_, rfl, rfl⟩
  obtain ⟨error, isError, starts⟩ := fatal
  rw [isError] at recovers
  cases recovers with
  | cons found _ => exact ⟨error, _, isError, starts, found⟩

/-- Reading does not resume at the next boundary after every error: the declaration after the
missing semicolon begins at a boundary, would be read from there, and is lost. -/
theorem resumption_passes_keyword :
    ¬(∀ (tokens : List Token) (stream stopped resumed : Stream) (error : SyntaxError) (room : Nat),
      EndsOnce tokens → stream.Proper → stream.tokens = tokens →
      Parser.declarationOf (.count 255) (Parser.expression (.count 255) room)
        (Parser.statement (.count 255) room) (Parser.declaration (.count 255) room) stream =
          .error (.syntaxError error) stopped →
      Parser.declaration (.count 255) (room + 1) stream = .ok none resumed →
      ∃ discarded, stopped.tokens = discarded ++ resumed.tokens ∧
        AtBoundary discarded resumed.tokens) ∧
    (∃ name, (parse (.count 255) (sampleUnfinished.drop 2)).program = .ok [.declare name none]) ∧
    (parse (.count 255) sampleUnfinished).program = .ok [] := by
  refine ⟨fun rule => ?_, ?_, ?_⟩
  · obtain ⟨proper, same⟩ := Stream.ofTokens_proper endsOnce_sampleUnfinished
    have stops : ∃ stopped error,
        Parser.declarationOf (.count 255) (Parser.expression (.count 255) 9)
          (Parser.statement (.count 255) 9) (Parser.declaration (.count 255) 9)
          (.ofTokens sampleUnfinished) = .error (.syntaxError error) stopped ∧
        stopped.tokens = sampleUnfinished.drop 2 ∧
        ∃ resumed, Parser.declaration (.count 255) 10 (.ofTokens sampleUnfinished) =
          .ok none resumed ∧ resumed.tokens = sampleUnfinished.drop 5 := by
      with_unfolding_all exact ⟨_, _, rfl, rfl, _, rfl, rfl⟩
    obtain ⟨stopped, error, isStopped, atKeyword, resumed, isResumed, atEnd⟩ := stops
    obtain ⟨discarded, split, boundary⟩ :=
      rule _ _ stopped resumed error 9 endsOnce_sampleUnfinished proper same isStopped isResumed
    rw [atKeyword, atEnd] at split
    have first : (⟨.keyword .var_, "var", none, ⟨1, 9⟩⟩ : Token) ∈ discarded := by
      cases discarded with
      | nil => cases split
      | cons token others =>
          obtain ⟨same, -⟩ := List.cons.inj split
          exact same ▸ List.mem_cons_self
    cases (boundary.startsNothing _ first).1
  · with_unfolding_all exact ⟨_, rfl⟩
  · with_unfolding_all rfl

end Program

end LoxLang
