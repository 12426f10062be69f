/-
Module: LoxLang.Proofs.Run.History
Purpose: Sessions from their beginning on.  Whatever programs have been run and checked, and
  however they ended, the heap of a session is sound and everything that was done in its runs began
  as it should.
Main exports: Command, Session.perform, Session.performAll, Ran, Visited, Accepted,
  analyze_right, visited_sound, visited_settles
-/
import LoxLang.Proofs.Run.Acceptance
import LoxLang.Proofs.Run.Safety

namespace LoxLang

/-! ### Histories -/

/-- What can be asked of a session. -/
inductive Command where
  | run (source : String)
  | check (source : String)
deriving DecidableEq, Repr, Inhabited

namespace Session

/-- Carries out a command. -/
def perform (session : Session) : Command → Session × Outcome
  | .run source => session.run source
  | .check source => (session, session.check source)

/-- The session after some commands. -/
def performAll (session : Session) (history : List Command) : Session :=
  history.foldl (fun session command => (session.perform command).1) session

@[simp] theorem performAll_append (session : Session) (first second : List Command) :
    session.performAll (first ++ second) = (session.performAll first).performAll second :=
  List.foldl_append ..

end Session

/-- In the course of a history a program was run: its source was accepted by the session as it was
by then. -/
structure Ran (start : Session) (history : List Command) (session : Session) (source : String)
    (room : Room) (program : Program Distance) : Prop where
  moment : ∃ earlier later, history = earlier ++ .run source :: later ∧
    session = start.performAll earlier
  available : session.room = .ok room
  analyzed : (analyze session.config room source).program = .ok program

/-- In the course of a history something was done. -/
def Visited (start : Session) (history : List Command) (task : Task) : Prop :=
  ∃ session source room program, Ran start history session source room program ∧
    Reaches ⟨allowance, room.evaluation, .runProgram program, session.machine⟩ task

/-- A place of a program that was run in the course of a history. -/
def Accepted (start : Session) (history : List Command) (place : Place) : Prop :=
  ∃ session source room program, Ran start history session source room program ∧
    place ∈ program.places

theorem Visited.closed {start : Session} {history : List Command} (task next : Task)
    (visited : Visited start history task) (leads : Leads task next) :
    Visited start history next := by
  rcases visited with ⟨session, source, room, program, ran, reaches⟩
  exact ⟨session, source, room, program, ran, .step reaches leads⟩

/-! ### Accepted programs -/

/-- A program that is accepted is bound rightly. -/
theorem analyze_right {config : Config} {room : Room} {source : String}
    {program : Program Distance} (accepted : (analyze config room source).program = .ok program) :
    Throughout Place.Right program.places := by
  obtain ⟨plain, accepts⟩ := analyze_eq_ok.1 accepted
  have tidy := Program.tidy_of_parse (by rw [accepts.parsed]) (by rw [accepts.parsed])
  have right := Program.bind_right tidy (by rw [accepts.bound])
  rw [accepts.bound] at right
  exact right

theorem Accepted.right {start : Session} {history : List Command} (place : Place)
    (accepted : Accepted start history place) : place.Right := by
  rcases accepted with ⟨session, source, room, program, ran, member⟩
  exact analyze_right ran.analyzed place member

/-! ### Sound sessions -/

section Sessions

variable {start : Session} {history : List Command}

/-- What holds of a session between two commands. -/
structure SessionSound (start : Session) (history : List Command) (session : Session) :
    Prop where
  heap : HeapSound (Visited start history) (Accepted start history) session.machine.frames
    session.machine.objects
  atGlobals : session.machine.frame = Machine.globalFrame

/-- A program that is run begins as it should. -/
theorem Ran.sound {session : Session} {source : String} {room : Room} {program : Program Distance}
    (ran : Ran start history session source room program)
    (sound : SessionSound start history session) :
    Task.Sound (Visited start history) (Accepted start history)
      ⟨allowance, room.evaluation, .runProgram program, session.machine⟩ := by
  refine ⟨sound.heap, ?_, fun place member => ⟨session, source, room, program, ran, member⟩⟩
  rw [sound.atGlobals]
  exact .globals

/-- A program that is run settles. -/
theorem Ran.settles {session : Session} {source : String} {room : Room}
    {program : Program Distance} (ran : Ran start history session source room program)
    (sound : SessionSound start history session) :
    Keeps (Visited start history) (Accepted start history) session.machine (fun _ _ => True)
      (execProgram (exec allowance room.evaluation) program session.machine) :=
  Task.settles Accepted.right Visited.closed _ ⟨session, source, room, program, ran, .refl _⟩
    (ran.sound sound)

/-- A command leaves a session sound. -/
theorem SessionSound.perform {session : Session} {command : Command}
    {earlier later : List Command} (sound : SessionSound start history session)
    (moment : history = earlier ++ command :: later)
    (isSession : session = start.performAll earlier) :
    SessionSound start history (session.perform command).1 := by
  cases command with
  | check source => exact sound
  | run source =>
      simp only [Session.perform, Session.run]
      cases available : session.room with
      | error ending => exact sound
      | ok room =>
          cases analyzed : (analyze session.config room source).program with
          | error ending =>
              simp only [analyzed]
              exact sound
          | ok program =>
              have ran : Ran start history session source room program :=
                ⟨⟨earlier, later, moment, isSession⟩, available, analyzed⟩
              have settles := ran.settles sound
              simp only [analyzed, Session.runBound]
              cases result : execProgram (exec allowance room.evaluation) program
                  session.machine with
              | ok value machine =>
                  rw [result] at settles
                  exact ⟨settles.2.1, settles.1.frame.trans sound.atGlobals⟩
              | error stop machine =>
                  rw [result] at settles
                  exact ⟨settles.2.1, settles.1.frame.trans sound.atGlobals⟩

/-- A session is sound at every moment of its history. -/
theorem SessionSound.performAll {done more rest : List Command}
    (sound : SessionSound start history (start.performAll done))
    (moment : history = done ++ (more ++ rest)) :
    SessionSound start history (start.performAll (done ++ more)) := by
  induction more generalizing done with
  | nil =>
      rw [List.append_nil]
      exact sound
  | cons command more ih =>
      have after := sound.perform moment rfl
      have next : SessionSound start history (start.performAll (done ++ [command])) := by
        rw [Session.performAll_append]
        exact after
      have again := ih next (by rw [moment]; simp)
      rw [List.append_assoc] at again
      exact again

end Sessions

section Start

variable {config : Config} {clock : Nat → Float} {history : List Command}

/-- A session that was started with nothing is sound after every part of its history. -/
theorem sessionSound_start {earlier later : List Command} (moment : history = earlier ++ later) :
    SessionSound (.start config clock) history
      ((Session.start config clock).performAll earlier) := by
  have begun : SessionSound (.start config clock) history
      ((Session.start config clock).performAll []) :=
    ⟨HeapSound.initial clock, rfl⟩
  exact begun.performAll moment

theorem Ran.sessionSound {session : Session} {source : String} {room : Room}
    {program : Program Distance}
    (ran : Ran (.start config clock) history session source room program) :
    SessionSound (.start config clock) history session := by
  obtain ⟨earlier, later, moment, isSession⟩ := ran.moment
  rw [isSession]
  exact sessionSound_start moment

/-- Everything that was done in the course of a history began as it should. -/
theorem visited_sound {task : Task} (visited : Visited (.start config clock) history task) :
    task.Sound (Visited (.start config clock) history)
      (Accepted (.start config clock) history) := by
  rcases visited with ⟨session, source, room, program, ran, reaches⟩
  exact reaches.sound Accepted.right Visited.closed ⟨session, source, room, program, ran, .refl _⟩
    (ran.sound ran.sessionSound)

/-- Everything that was done in the course of a history ended as it should. -/
theorem visited_settles {task : Task} (visited : Visited (.start config clock) history task) :
    task.Settles (Visited (.start config clock) history)
      (Accepted (.start config clock) history) :=
  Task.settles Accepted.right Visited.closed task visited (visited_sound visited)

end Start

end LoxLang
