/-
Module: LoxLang.Proofs.Run.Acceptance
Purpose: Which sources are accepted.  Before a program runs it is read, measured and bound; a
  session accepts a source exactly if none of these steps finds anything wrong, and only then a
  check completes and a run begins.
Main exports: Accepts, analyze_eq_ok, Session.runAnalyzed, Session.accepts_of_check,
  Session.accepts_of_run, Session.check_of_accepts, Session.run_of_accepts
-/
import LoxLang.Session.Basic

namespace LoxLang

/-- A source is accepted if it is read without errors and what is read fits into the room and is
bound without errors. -/
structure Accepts (config : Config) (room : Room) (source : String) (plain : Program.Plain)
    (program : Program Distance) : Prop where
  scanned : (scan source).errors = #[]
  parsed : Program.parseWithin room.nesting config.argumentLimit (scan source).tokens =
    { program := .ok plain, errors := #[] }
  fits : plain.fits room.nesting = true
  bound : Program.bind plain = { program := program, errors := #[] }

theorem settle_eq_ok {events : List Event} {errors : List StaticError}
    {program result : Program Distance} :
    (settle events errors program).program = .ok result ↔ errors = [] ∧ result = program := by
  unfold settle
  cases errors with
  | nil => simp [eq_comm]
  | cons error rest => simp

theorem analyze_eq_ok {config : Config} {room : Room} {source : String}
    {program : Program Distance} :
    (analyze config room source).program = .ok program ↔
      ∃ plain, Accepts config room source plain program := by
  cases parsed : Program.parseWithin room.nesting config.argumentLimit (scan source).tokens with
  | mk outcome errors =>
      cases outcome with
      | error reason =>
          have given : ∃ ending, (readSource config room source).program = .error ending := by
            simp only [readSource, parsed]
            cases reason <;> exact ⟨_, rfl⟩
          obtain ⟨ending, isEnding⟩ := given
          constructor
          · intro accepted
            simp only [analyze, isEnding] at accepted
            cases accepted
          · rintro ⟨plain, accepts⟩
            cases parsed.symm.trans accepts.parsed
      | ok plain =>
          have read : (readSource config room source).program = .ok plain := by
            simp only [readSource, parsed]
          have found : (readSource config room source).errors =
              (scan source).errors.toList.map .lexical ++ errors.toList.map .syntactic := by
            simp only [readSource, parsed]
          constructor
          · intro accepted
            simp only [analyze, read] at accepted
            split at accepted
            next someError =>
              -- with errors nothing is bound
              obtain ⟨noError, -⟩ := settle_eq_ok.1 accepted
              simp [noError] at someError
            next noErrors =>
              split at accepted
              next => cases accepted
              next fitting =>
                obtain ⟨clean, rfl⟩ := settle_eq_ok.1 accepted
                simp only [found, Bool.not_eq_true', Bool.not_eq_false, List.isEmpty_iff,
                  List.append_eq_nil_iff, List.map_eq_nil_iff, Array.toList_eq_nil_iff] at noErrors
                obtain ⟨scanned, rfl⟩ := noErrors
                refine ⟨plain, scanned, parsed, by simpa using fitting, ?_⟩
                rcases bound : Program.bind plain with ⟨program, scoping⟩
                simp only [bound, List.map_eq_nil_iff, Array.toList_eq_nil_iff] at clean
                rw [clean]
          · rintro ⟨other, accepts⟩
            obtain ⟨same, clean⟩ := Parse.mk.inj (parsed.symm.trans accepts.parsed)
            cases same
            have noErrors : (readSource config room source).errors = [] := by
              simp [found, accepts.scanned, clean]
            simp only [analyze, read, noErrors, List.isEmpty_nil, Bool.not_true,
              Bool.false_eq_true, ↓reduceIte, accepts.fits]
            exact settle_eq_ok.2 (by simp [accepts.bound])

/-- What is not accepted is not said to be completed. -/
theorem analyze_ne_completed (config : Config) (room : Room) (source : String) :
    (analyze config room source).program ≠ .error .completed := by
  have settles : ∀ (events : List Event) (errors : List StaticError) (program : Program Distance),
      (settle events errors program).program ≠ .error .completed := by
    intro events errors program
    unfold settle
    split <;> nofun
  have reads : (readSource config room source).program ≠ .error .completed := by
    unfold readSource
    simp only
    split <;> nofun
  unfold analyze
  simp only
  split
  next ending isEnding =>
    intro completed
    cases completed
    exact reads isEnding
  next =>
    split
    · exact settles _ _ _
    · split
      · nofun
      · exact settles _ _ _

/-! ### Sessions -/

namespace Session

variable {session : Session} {room : Room} {source : String}

/-- What is done with a source that has been analyzed. -/
def runAnalyzed (room : Room) (analysis : Analysis) (session : Session) : Session × Outcome :=
  match analysis.program with
  | .ok program => session.runBound room program analysis.events
  | .error ending =>
      (session,
        { output := #[], events := analysis.events ++ notRunning ending, ending := ending })

theorem run_of_room (available : session.room = .ok room) (source : String) :
    session.run source = session.runAnalyzed room (analyze session.config room source) := by
  simp only [run, available]
  rfl

theorem room_ne_completed (session : Session) : session.room ≠ .error .completed := by
  unfold Session.room
  split
  · nofun
  · nofun
  · split
    · nofun
    · split <;> nofun

/-- A source is accepted, or neither a check nor a run of it completes. -/
theorem accepts_or_refuses (session : Session) (source : String) :
    (∃ room plain program, session.room = .ok room ∧
      Accepts session.config room source plain program) ∨
      (session.check source).ending ≠ .completed ∧ (session.run source).2.ending ≠ .completed := by
  cases available : session.room with
  | error ending =>
      have refused : ending ≠ .completed := by
        rintro rfl
        exact session.room_ne_completed available
      exact .inr ⟨by simpa only [check, available, refuse] using refused,
        by simpa only [run, available, refuse] using refused⟩
  | ok room =>
      cases analyzed : (analyze session.config room source).program with
      | error ending =>
          have refused : ending ≠ .completed := by
            rintro rfl
            exact analyze_ne_completed _ _ _ analyzed
          exact .inr ⟨by simpa only [check, available, analyzed] using refused,
            by simpa only [run, available, analyzed] using refused⟩
      | ok program =>
          obtain ⟨plain, accepts⟩ := analyze_eq_ok.1 analyzed
          exact .inl ⟨room, plain, program, rfl, accepts⟩

theorem accepts_of_check (completed : (session.check source).ending = .completed) :
    ∃ room plain program, session.room = .ok room ∧
      Accepts session.config room source plain program :=
  (session.accepts_or_refuses source).resolve_right fun refused => refused.1 completed

theorem accepts_of_run (completed : (session.run source).2.ending = .completed) :
    ∃ room plain program, session.room = .ok room ∧
      Accepts session.config room source plain program :=
  (session.accepts_or_refuses source).resolve_right fun refused => refused.2 completed

variable {plain : Program.Plain} {program : Program Distance}

theorem check_of_accepts (available : session.room = .ok room)
    (accepts : Accepts session.config room source plain program) :
    (session.check source).ending = .completed := by
  simp only [check, available, analyze_eq_ok.2 ⟨plain, accepts⟩]

theorem run_of_accepts (available : session.room = .ok room)
    (accepts : Accepts session.config room source plain program) :
    ∃ events, session.run source = session.runBound room program events := by
  refine ⟨(analyze session.config room source).events, ?_⟩
  simp only [run, available, analyze_eq_ok.2 ⟨plain, accepts⟩]

end Session

end LoxLang
