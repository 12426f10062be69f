/-
Module: LoxLang.Proofs.Rewording.Pieces
Purpose: Running in pieces.  A source put below another one is read, bound and run as it is alone,
  only some lines further down, so running two sources one after the other shows the same as running
  them as one.
Main exports: Program.bind_append, Accepts.below, Session.run_pieces
-/
import LoxLang.Proofs.Parser.Boundary
import LoxLang.Proofs.Rewording.Below
import LoxLang.Proofs.Rewording.Binding
import LoxLang.Proofs.Rewording.Parsing
import LoxLang.Proofs.Rewording.Session
import LoxLang.Proofs.Scope.Composition
import LoxLang.Proofs.Scope.Distinct

namespace LoxLang

/-! ### Binding in pieces -/

namespace Program

/-- The names of two programs that follow each other are bound as they are in each of them. -/
theorem bind_append {first second : Program.Plain} {program other : Program Distance}
    (bound : bind first = { program := program, errors := #[] })
    (boundToo : bind second = { program := other, errors := #[] }) :
    bind (first ++ second) = { program := program ++ other, errors := #[] } := by
  rw [bind_concat, bound, boundToo, Array.append_empty]

theorem fits_append {room : Nat} {first second : Program.Plain} (fits : first.fits room = true)
    (fitsToo : second.fits room = true) : Program.fits room (first ++ second) = true := by
  induction first with
  | nil => exact fitsToo
  | cons statement rest ih =>
      have both : (statement.fits room && Program.fits room rest) = true := fits
      obtain ⟨here, others⟩ := Bool.and_eq_true_iff.1 both
      exact Bool.and_eq_true_iff.2 ⟨here, ih others⟩

end Program

/-! ### Reading in pieces -/

/-- A source put below another one is accepted together with it. -/
theorem Accepts.below {config : Config} {room : Room} {upper lower : String}
    {plain other : Program.Plain} {program next : Program Distance}
    (accepts : Accepts config room upper plain program)
    (acceptsToo : Accepts config room lower other next) :
    ∃ lines, Accepts config room (upper ++ "\n" ++ lower)
      (plain ++ other.map (Stmt.reword (.below lines)))
      (program ++ next.map (Stmt.reword (.below lines))) := by
  obtain ⟨body, last, after, end_, lines, isUpper, isLower, joined⟩ :=
    scan_below accepts.scanned acceptsToo.scanned
  have ends := (scan_proper upper).1
  have endsToo := (scan_proper lower).1
  have parsed := accepts.parsed
  have parsedToo := acceptsToo.parsed
  rw [isUpper] at ends parsed
  rw [isLower] at endsToo parsedToo
  refine ⟨lines, by rw [joined], ?_, ?_, ?_⟩
  · rw [joined]
    have moved := Program.parseWithin_reword_clean (.below lines) endsToo parsedToo
    have endsBelow := endsToo.reword (.below lines)
    rw [List.map_append, List.map_singleton] at moved endsBelow ⊢
    rw [← List.append_assoc]
    exact Program.parseWithin_append ends endsBelow parsed moved
  · refine Program.fits_append accepts.fits ?_
    rw [Program.fits, ← Stmt.rewordAll_eq_map, Stmt.fitsAll_reword]
    exact acceptsToo.fits
  · refine Program.bind_append accepts.bound ?_
    have consistent : Stmt.ConsistentAll .fixed (.below lines) [] (Program.bind other).program :=
      Stmt.consistentAll_keep (Rewording.keepsWords_below lines) Still.nil _
    rw [Program.bind_reword (by rw [acceptsToo.bound]) consistent, acceptsToo.bound]

/-! ### Running in pieces -/

namespace Session

/-- A run that completes has executed the whole program. -/
theorem execProgram_of_completed {session : Session} {room : Room} {program : Program Distance}
    {events : List Event}
    (completed : (session.runBound room program events).2.ending = .completed) :
    ∃ after, execProgram (exec allowance room.evaluation) program session.machine =
      .ok () after := by
  simp only [runBound] at completed
  cases result : execProgram (exec allowance room.evaluation) program session.machine with
  | ok done after => exact ⟨after, rfl⟩
  | error stop following =>
      rw [result] at completed
      cases stop <;> cases completed

/-- After a program that ran to its end, a program that follows it in the same source runs as from
there. -/
theorem runBound_append {session : Session} {room : Room} {first second : Program Distance}
    {events : List Event} {after : Machine}
    (completes : execProgram (exec allowance room.evaluation) first session.machine =
      .ok () after) :
    session.runBound room (first ++ second) events =
      ({ session with machine := after } : Session).runBound room second events := by
  simp only [runBound, execProgram_append completes]

/-- Texts printed one after the other. -/
theorem stdout_append (first second : Array String) :
    String.join ((first ++ second).toList.map (· ++ "\n")) =
      String.join (first.toList.map (· ++ "\n")) ++ String.join (second.toList.map (· ++ "\n")) := by
  rw [Array.toList_append, List.map_append, String.join_append]

/-- After a source that ran to its end another one runs as it does some lines further down in the
same source. -/
theorem run_below {config : Config} {clock : Nat → Float} {history : List Command}
    {session : Session} {upper lower : String} {room : Room} {plain other : Program.Plain}
    {program next : Program Distance}
    (isSession : session = (start config clock).performAll history)
    (available : session.room = .ok room)
    (accepts : Accepts session.config room upper plain program)
    (acceptsToo : Accepts session.config room lower other next)
    (completes : (session.run upper).2.ending = .completed) :
    Shows (fun _ _ => True) (session.run upper).2.output ((session.run upper).1.run lower)
      (session.run (upper ++ "\n" ++ lower)) := by
  obtain ⟨events, isFirst⟩ := run_of_accepts available accepts
  obtain ⟨lines, joined⟩ := accepts.below acceptsToo
  obtain ⟨eventsJoint, isJoint⟩ := run_of_accepts available joined
  have isPerformed : (session.run upper).1 =
      (start config clock).performAll (history ++ [.run upper]) := by
    rw [performAll_append, ← isSession]
    rfl
  rw [isFirst] at completes isPerformed ⊢
  obtain ⟨after, done⟩ := execProgram_of_completed completes
  have isRun : session.runBound room program events =
      ({ session with machine := { after with output := #[] } },
        { output := after.output, events := events ++ [], ending := .completed }) := by
    simp only [runBound, done]
    rfl
  rw [isRun] at isPerformed ⊢
  -- the second run is the next command of the history
  have ran : Ran (start config clock) (history ++ [.run upper] ++ [.run lower])
      { session with machine := { after with output := #[] } } lower room next :=
    ⟨⟨_, [], rfl, isPerformed⟩, available, analyze_eq_ok.2 ⟨other, acceptsToo⟩⟩
  obtain ⟨eventsSecond, isSecond⟩ := run_of_accepts ran.available acceptsToo
  have ofRun := ran.ofRun
  have alike : Running (fun _ _ => True) after.output _ [] _ _ :=
    ran.sessionSound.alike (fun _ => trivial) after.output
  rw [Array.append_empty] at alike
  rw [isSecond] at ofRun ⊢
  rw [isJoint, runBound_append done]
  exact runBound_shows (fun _ => trivial)
    (Stmt.consistentAll_keep (Rewording.keepsWords_below lines) Still.nil next) alike ofRun

/-- Running two sources one after the other is like running them as one.  In any session, however
it has got where it is, if the first source runs to its end and no errors are found in the second
one before it runs, then no errors are found in the two with the end of a line between them, and a
run of both prints what the two runs print one after the other, ends as the second run does, lines
aside, and leaves global variables behind that look the same. -/
theorem run_pieces {config : Config} {clock : Nat → Float} {history : List Command}
    {upper lower : String}
    (completes : (((start config clock).performAll history).run upper).2.ending = .completed)
    (accepted : (((start config clock).performAll history).check lower).ending = .completed) :
    let session := (start config clock).performAll history
    let first := session.run upper
    let second := first.1.run lower
    let joint := session.run (upper ++ "\n" ++ lower)
    (session.check (upper ++ "\n" ++ lower)).ending = .completed ∧
      joint.2.stdout = first.2.stdout ++ second.2.stdout ∧
      second.2.ending.Alike (fun _ _ => True) joint.2.ending ∧
      joint.1.shown = second.1.shown := by
  intro session first second joint
  obtain ⟨room, plain, program, available, accepts⟩ := accepts_of_run completes
  obtain ⟨otherRoom, other, next, alsoAvailable, acceptsToo⟩ := accepts_of_check accepted
  cases available.symm.trans alsoAvailable
  obtain ⟨lines, joined⟩ := accepts.below acceptsToo
  have shows := run_below rfl available accepts acceptsToo completes
  refine ⟨check_of_accepts available joined, ?_, shows.ending, shows.globals⟩
  rw [Outcome.stdout, shows.output, stdout_append]
  rfl

/-- A function declared above a comment. -/
def sampleUpper : String :=
  "fun f() { print a; } // f"

/-- The function is called, and then something is read that is not bound. -/
def sampleLower : String :=
  "f(); f = a; b;"

theorem run_pieces_sample :
    let session := (start {} fun _ => 0).performAll [.run "var a = \"x\";"]
    let first := session.run sampleUpper
    let second := first.1.run sampleLower
    let joint := session.run (sampleUpper ++ "\n" ++ sampleLower)
    first.2.ending = .completed ∧ (session.check sampleLower).ending = .completed ∧
      (session.check (sampleUpper ++ "\n" ++ sampleLower)).ending = .completed ∧
      joint.2.stdout = first.2.stdout ++ second.2.stdout ∧
      second.2.ending.Alike (fun _ _ => True) joint.2.ending ∧
      joint.1.shown = second.1.shown := by
  intro session first second joint
  have completes : first.2.ending = .completed := by with_unfolding_all rfl
  have accepted : (session.check sampleLower).ending = .completed := by with_unfolding_all rfl
  exact ⟨completes, accepted, run_pieces completes accepted⟩

end Session

end LoxLang
