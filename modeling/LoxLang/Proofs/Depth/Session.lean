/-
Module: LoxLang.Proofs.Depth.Session
Purpose: Raising the depth limit of a session.  A step that does not overflow is the same under any
  higher limit, and one that does has printed a beginning of what is printed under a higher one.
Main exports: Session.limitedTo, analyze_deeper, Session.run_deeper
-/
import LoxLang.Proofs.Depth.Parsing
import LoxLang.Proofs.Depth.Running
import LoxLang.Proofs.Run.Acceptance
import Mathlib.Data.String.Basic

namespace LoxLang

/-! ### Before a run -/

/-- A source that could be read with less room is read in the same way with more. -/
theorem readSource_deeper (config : Config) {room more : Room} (source : String)
    (less : room.nesting ≤ more.nesting)
    (shallow : (readSource config room source).program ≠ .error .overflowed) :
    readSource config more source = readSource config room source := by
  have same := Program.parseWithin_deeper config.argumentLimit (scan source).tokens less (by
    intro tooDeep
    simp only [readSource, tooDeep, ne_eq, not_true_eq_false] at shallow)
  simp only [readSource, same]

/-- An analysis that is not given up with less room comes to the same with more. -/
theorem analyze_deeper (config : Config) {room more : Room} (source : String)
    (less : room.nesting ≤ more.nesting)
    (shallow : (analyze config room source).program ≠ .error .overflowed) :
    analyze config more source = analyze config room source := by
  have same := readSource_deeper config source less (by
    intro tooDeep
    simp only [analyze, tooDeep, ne_eq, not_true_eq_false] at shallow)
  simp only [analyze, same] at shallow ⊢
  cases read : (readSource config room source).program with
  | error ending => rfl
  | ok program =>
      simp only [read] at shallow ⊢
      split
      · rfl
      · next noErrors =>
        have fits : program.fits room.nesting = true := by
          by_contra deep
          rw [if_neg noErrors, if_pos (by simpa using deep)] at shallow
          exact shallow rfl
        rw [fits, program.fits_mono less fits]

theorem RecursionLimit.room_mono {limit deeper : Nat} (less : limit ≤ deeper) :
    (room limit).nesting ≤ (room deeper).nesting ∧
      (room limit).evaluation ≤ (room deeper).evaluation := by
  simp only [room]
  omega

/-! ### Runs -/

namespace Session

/-- A session with another depth limit. -/
def limitedTo (limit : Nat) (session : Session) : Session :=
  { session with config := { session.config with recursionLimit := .depth limit } }

/-- What becomes of the room when the limit is raised: there was too little of it before, or there
is none for a reason that has nothing to do with the limit, or there is no less of it. -/
theorem room_limitedTo (session : Session) {limit deeper : Nat} (less : limit ≤ deeper) :
    (session.limitedTo limit).room = .error .overflowed ∨
      (∃ escape, (session.limitedTo limit).room = .error (.escaped escape) ∧
        (session.limitedTo deeper).room = .error (.escaped escape)) ∨
      (session.limitedTo limit).room = .ok (RecursionLimit.room limit) ∧
        (session.limitedTo deeper).room = .ok (RecursionLimit.room deeper) := by
  simp only [room, limitedTo]
  by_cases least : limit < RecursionLimit.leastDepth
  · cases session.config.stackSize with
    | unusable fault => exact .inr (.inl ⟨_, rfl, rfl⟩)
    | _ => exact .inl (if_pos least)
  · have leastToo : ¬ deeper < RecursionLimit.leastDepth :=
      fun smaller => least (Nat.lt_of_le_of_lt less smaller)
    cases session.config.stackSize with
    | unusable fault => exact .inr (.inl ⟨_, rfl, rfl⟩)
    | unavailable =>
        simp only [if_neg least, if_neg leastToo]
        exact .inr (.inl ⟨_, rfl, rfl⟩)
    | usable =>
        simp only [if_neg least, if_neg leastToo]
        exact .inr (.inr ⟨rfl, rfl⟩)

/-- The limit matters to a run through the room only. -/
theorem run_limitedTo {session : Session} {limit : Nat} {room : Room} (source : String)
    (available : (session.limitedTo limit).room = .ok room) :
    (session.limitedTo limit).run source =
      (((session.runAnalyzed room (analyze session.config room source)).1.limitedTo limit),
        (session.runAnalyzed room (analyze session.config room source)).2) := by
  have sameAnalysis : analyze (session.limitedTo limit).config room source =
      analyze session.config room source := rfl
  rw [run_of_room available, sameAnalysis, runAnalyzed, runAnalyzed]
  cases (analyze session.config room source).program <;> rfl

/-- A program that is bound and run with more room. -/
theorem runBound_deeper (session : Session) {room more : Room}
    (less : room.evaluation ≤ more.evaluation) (program : Program Distance)
    (events : List Event) :
    ((session.runBound room program events).2.ending ≠ .overflowed →
        session.runBound more program events = session.runBound room program events) ∧
      (session.runBound room program events).2.output.toList <+:
        (session.runBound more program events).2.output.toList := by
  have further := execProgram_deeper allowance less program session.machine
  constructor
  · intro completes
    have same := further.eq_of_ne (by
      intro stopped overflowed
      simp only [runBound, overflowed, conclude, ne_eq, not_true_eq_false] at completes)
    simp only [runBound, same]
  · have covers := further.covers
    have printed : ∀ room, (session.runBound room program events).2.output.toList =
        (reached (execProgram (exec allowance room.evaluation) program session.machine)).lines := by
      intro room
      simp only [runBound]
      cases execProgram (exec allowance room.evaluation) program session.machine <;> rfl
    rw [printed, printed]
    exact covers

theorem stdout_prefix {outcome other : Outcome}
    (covers : outcome.output.toList <+: other.output.toList) :
    ∃ rest, other.stdout = outcome.stdout ++ rest := by
  obtain ⟨more, isOutput⟩ := covers
  rw [Outcome.stdout, Outcome.stdout, ← isOutput, List.map_append, String.join_append]
  exact ⟨_, rfl⟩

/-- A run that begins with room enough to read the source and with no less room. -/
theorem runAnalyzed_deeper (session : Session) (analysis : Analysis) {room more : Room}
    (less : room.evaluation ≤ more.evaluation) :
    ((session.runAnalyzed room analysis).2.ending ≠ .overflowed →
        session.runAnalyzed more analysis = session.runAnalyzed room analysis) ∧
      (session.runAnalyzed room analysis).2.output.toList <+:
        (session.runAnalyzed more analysis).2.output.toList := by
  simp only [runAnalyzed]
  cases analysis.program with
  | error ending => exact ⟨fun _ => rfl, List.prefix_refl _⟩
  | ok program => exact session.runBound_deeper less program analysis.events

/-- Raising the depth limit never changes a result.  Whatever the session and the source are, a run
that does not overflow under a limit ends in the same way under any higher one: it prints the same,
reports the same, finds the same errors and leaves the same machine behind.  A run that overflows
has printed the beginning of what is printed under the higher limit. -/
theorem run_deeper (session : Session) (source : String) {limit deeper : Nat}
    (less : limit ≤ deeper) :
    let shallow := (session.limitedTo limit).run source
    let deep := (session.limitedTo deeper).run source
    (shallow.2.ending ≠ .overflowed → deep = (shallow.1.limitedTo deeper, shallow.2)) ∧
      (shallow.2.ending = .overflowed → ∃ rest, deep.2.stdout = shallow.2.stdout ++ rest) := by
  have nothing : ∀ outcome : Outcome, ∃ rest, outcome.stdout = "" ++ rest :=
    fun outcome => ⟨outcome.stdout, String.empty_append.symm⟩
  intro shallow deep
  rcases session.room_limitedTo less with tooLittle | ⟨escape, refused, refusedToo⟩ |
    ⟨available, availableToo⟩
  · have isShallow : shallow = (session.limitedTo limit, refuse .overflowed) := by
      simp only [shallow, run, tooLittle]
    rw [isShallow]
    exact ⟨fun completes => absurd rfl completes, fun _ => nothing deep.2⟩
  · have isShallow : shallow = (session.limitedTo limit, refuse (.escaped escape)) := by
      simp only [shallow, run, refused]
    have isDeep : deep = (session.limitedTo deeper, refuse (.escaped escape)) := by
      simp only [deep, run, refusedToo]
    rw [isShallow, isDeep]
    refine ⟨fun _ => rfl, fun overflowed => ?_⟩
    cases overflowed
  · obtain ⟨lessNesting, lessEvaluation⟩ := RecursionLimit.room_mono less
    have isShallow : shallow = _ := run_limitedTo source available
    have isDeep : deep = _ := run_limitedTo source availableToo
    rw [isShallow, isDeep]
    by_cases tooDeep : (analyze session.config (RecursionLimit.room limit) source).program =
        .error .overflowed
    · obtain ⟨events, printed⟩ : ∃ events, (session.runAnalyzed (RecursionLimit.room limit)
          (analyze session.config (RecursionLimit.room limit) source)).2 =
            { output := #[], events := events, ending := .overflowed } := by
        simp only [runAnalyzed, tooDeep]
        exact ⟨_, rfl⟩
      simp only [printed]
      exact ⟨fun completes => absurd rfl completes, fun _ => nothing _⟩
    · rw [analyze_deeper session.config source lessNesting tooDeep]
      obtain ⟨same, covers⟩ := session.runAnalyzed_deeper
        (analyze session.config (RecursionLimit.room limit) source) lessEvaluation
      refine ⟨fun completes => ?_, fun _ => stdout_prefix covers⟩
      rw [same completes]
      rfl

/-- A call within a call. -/
def sampleCalls : String :=
  "fun f() \x7b print \"f\"; g(); \x7d fun g() \x7b print \"g\"; \x7d f();"

/-- Under a low limit the inner call overflows, and its line is missing. -/
theorem run_deeper_sample :
    let session := start {} fun _ => 0
    let shallow := (session.limitedTo 20).run sampleCalls
    let deep := (session.limitedTo 100).run sampleCalls
    shallow.2.ending = .overflowed ∧ shallow.2.output = #["f"] ∧ deep.2.output = #["f", "g"] ∧
      ∃ rest, deep.2.stdout = shallow.2.stdout ++ rest := by
  intro session shallow deep
  have overflows : shallow.2.ending = .overflowed := by with_unfolding_all rfl
  have printed : shallow.2.output = #["f"] := by decide +kernel
  have printedToo : deep.2.output = #["f", "g"] := by decide +kernel
  exact ⟨overflows, printed, printedToo, (run_deeper session sampleCalls (by decide)).2 overflows⟩

end Session

end LoxLang
