/-
Module: LoxLang.Proofs.Run.Resolution
Purpose: Names are found where binding says they are.  Whatever a session has been asked to do, a
  program that was accepted ends without a fault, and every variable that was looked for on the way
  was there.
Main exports: Ending.Lawful, Ending.OfRun, Task.Resolved, Session.names_resolve
-/
import LoxLang.Proofs.Run.History

namespace LoxLang

/-! ### Endings -/

/-- Endings that are no fault of binding or reading. -/
def Ending.Lawful : Ending → Prop
  | .escaped (.fault _) | .escaped .incomparableLimit => False
  | _ => True

/-- How an accepted program can end: it completes, an error stops it, it nests too deeply, or it is
still running when its allowance of steps is used up. -/
def Ending.OfRun : Ending → Prop
  | .completed | .failed _ | .overflowed | .escaped .unfinished => True
  | .rejected _ | .escaped _ => False

theorem Ending.OfRun.lawful {ending : Ending} (ofRun : ending.OfRun) : ending.Lawful := by
  cases ending with
  | escaped escape =>
      cases escape with
      | unfinished => trivial
      | _ => exact ofRun.elim
  | _ => trivial

theorem Session.room_lawful {session : Session} {ending : Ending}
    (refused : session.room = .error ending) : ending.Lawful := by
  unfold Session.room at refused
  split at refused
  · cases refused
    trivial
  · cases refused
    trivial
  · split at refused
    · cases refused
      trivial
    · split at refused
      · cases refused
        trivial
      · cases refused

theorem settle_lawful {events : List Event} {errors : List StaticError}
    {program : Program Distance} {ending : Ending}
    (rejected : (settle events errors program).program = .error ending) : ending.Lawful := by
  unfold settle at rejected
  split at rejected
  · cases rejected
  · cases rejected
    trivial

theorem readSource_lawful {config : Config} {room : Room} {source : String} {ending : Ending}
    (comparable : config.argumentLimit ≠ .incomparable)
    (givenUp : (readSource config room source).program = .error ending) : ending.Lawful := by
  have never : (Program.parseWithin room.nesting config.argumentLimit
      (scan source).tokens).program ≠ .error .incomparableLimit :=
    Program.parseWithin_comparable (scan_proper source).1 comparable
  unfold readSource at givenUp
  cases parsed : (Program.parseWithin room.nesting config.argumentLimit
      (scan source).tokens).program with
  | ok program =>
      simp only [parsed] at givenUp
      cases givenUp
  | error reason =>
      cases reason with
      | incomparableLimit => exact absurd parsed never
      | tooDeep =>
          simp only [parsed] at givenUp
          cases givenUp
          trivial

theorem analyze_lawful {config : Config} {room : Room} {source : String} {ending : Ending}
    (comparable : config.argumentLimit ≠ .incomparable)
    (refused : (analyze config room source).program = .error ending) : ending.Lawful := by
  unfold analyze at refused
  cases read : (readSource config room source).program with
  | error reason =>
      simp only [read] at refused
      cases refused
      exact readSource_lawful comparable read
  | ok program =>
      simp only [read] at refused
      split at refused
      · exact settle_lawful refused
      · split at refused
        · cases refused
          trivial
        · exact settle_lawful refused

theorem Session.conclude_ofRun {stop : Option Stop} (lawful : ∀ found ∈ stop, found.Lawful) :
    (Session.conclude stop).1.OfRun := by
  cases stop with
  | none => trivial
  | some found =>
      cases found with
      | fault fault => exact (lawful _ rfl).elim
      | _ => trivial

theorem Session.config_performAll (session : Session) (history : List Command) :
    (session.performAll history).config = session.config := by
  have step : ∀ (other : Session) (command : Command),
      (other.perform command).1.config = other.config := by
    intro other command
    cases command with
    | check source => rfl
    | run source =>
        simp only [Session.perform, Session.run]
        cases other.room with
        | error ending => rfl
        | ok room =>
            cases analyzed : (analyze other.config room source).program with
            | error ending => simp only [analyzed]
            | ok program => simp only [analyzed, Session.runBound]
  induction history generalizing session with
  | nil => rfl
  | cons command rest ih => exact (ih (session.perform command).1).trans (step session command)

/-! ### Lookups -/

/-- All that is looked for in the course of a task is found, and is what it should be. -/
structure Task.Resolved (task : Task) : Prop where
  /-- A variable is bound in the frame at its distance. -/
  read : ∀ name distance, task.activity = .evaluate (.read name (some distance)) →
    ∃ value, task.machine.frames.getAt task.machine.frame distance name.text = .ok value
  /-- There is a frame at the distance of a variable that is assigned to. -/
  write : ∀ name distance value, task.activity = .evaluate (.assign name (some distance) value) →
    ∃ owner, task.machine.frames.frameAt task.machine.frame distance = .ok owner
  receiver : ∀ keyword binding, task.activity = .evaluate (.receiver keyword binding) →
    ∃ distance object, binding = some distance ∧
      task.machine.frames.getAt task.machine.frame distance "this" = .ok object ∧ object.IsObject
  /-- `super` is a class, and `this` is found one scope further in. -/
  superMethod : ∀ keyword binding method,
    task.activity = .evaluate (.superMethod keyword binding method) →
    ∃ distance cls object, binding = some (distance + 1) ∧
      task.machine.frames.getAt task.machine.frame (distance + 1) "super" = .ok (.class_ cls) ∧
      task.machine.frames.getAt task.machine.frame distance "this" = .ok object ∧ object.IsObject
  /-- After its body an initializer finds the object it belongs to. -/
  initializer : ∀ closure arguments completion following,
    task.activity = .call closure arguments → closure.isInitializer = true →
    execAll (exec task.steps task.room) closure.declaration.body
      (task.machine.entering closure arguments) = .ok completion following →
    ∃ object, following.frames.getAt closure.frame 0 "this" = .ok object ∧ object.IsObject
  receivers : ∀ id value, task.machine.frames.local? id "this" = some value → value.IsObject
  superclasses : ∀ id value, task.machine.frames.local? id "super" = some value → value.IsClass
  /-- Every operator has a value for numbers, and refuses other operands with an error. -/
  unary : ∀ op position operand, task.activity = .evaluate (.unary op position operand) →
    (∀ number, ∃ value : Value, op.apply (.number number) = .ok value) ∧
      ∀ (value : Value) (cause : RuntimeCause), op.apply value = .error cause →
        cause = .operandNotNumber
  binary : ∀ left op position right, task.activity = .evaluate (.binary left op position right) →
    (∀ first second, ∃ value : Value, op.apply (.number first) (.number second) = .ok value) ∧
      ∀ (first second : Value) (cause : RuntimeCause), op.apply first second = .error cause →
        cause = .operandsNotAddable ∨ cause = .operandsNotNumbers

theorem UnaryOp.apply_handled (op : UnaryOp) :
    (∀ number, ∃ value : Value, op.apply (.number number) = .ok value) ∧
      ∀ (value : Value) (cause : RuntimeCause), op.apply value = .error cause →
        cause = .operandNotNumber := by
  constructor
  · intro number
    cases op <;> exact ⟨_, rfl⟩
  · intro value cause refused
    unfold UnaryOp.apply at refused
    split at refused <;> cases refused
    rfl

theorem BinaryOp.apply_handled (op : BinaryOp) :
    (∀ first second, ∃ value : Value, op.apply (.number first) (.number second) = .ok value) ∧
      ∀ (first second : Value) (cause : RuntimeCause), op.apply first second = .error cause →
        cause = .operandsNotAddable ∨ cause = .operandsNotNumbers := by
  constructor
  · intro first second
    cases op <;> exact ⟨_, rfl⟩
  · intro first second cause refused
    unfold BinaryOp.apply at refused
    split at refused <;> cases refused
    · exact .inl rfl
    · exact .inr rfl

theorem Visited.resolved {config : Config} {clock : Nat → Float} {history : List Command}
    {task : Task} (visited : Visited (.start config clock) history task) : task.Resolved := by
  have heap := (visited_sound visited).heap
  rcases task with ⟨steps, room, activity, machine⟩
  constructor
  · intro name distance isRead
    subst isRead
    obtain ⟨-, sight, sees, places⟩ := visited_sound visited
    exact sees.read (Accepted.right _ (throughout_cons.1 places).1)
  · intro name distance value isWrite
    subst isWrite
    obtain ⟨-, sight, sees, places⟩ := visited_sound visited
    have right : Reference.Right sight { kind := .write, name := name, binding := some distance } :=
      Accepted.right _ (throughout_cons.1 places).1
    exact sees.chain.target right.1.symm
  · intro keyword binding isReceiver
    subst isReceiver
    obtain ⟨-, sight, sees, places⟩ := visited_sound visited
    exact sees.receiver heap (Accepted.right _ (throughout_cons.1 places).1)
  · intro keyword binding method isSuper
    subst isSuper
    obtain ⟨-, sight, sees, places⟩ := visited_sound visited
    exact sees.superMethod heap (Accepted.right _ (throughout_cons.1 places).1)
  · intro closure arguments completion following isCall isInitializer ran
    subst isCall
    obtain ⟨-, ⟨layers, created, -, -, -, -, holdsObject⟩, -, -⟩ := visited_sound visited
    have body := visited_settles (visited.closed _ _ .callBody)
    simp only [Task.Settles, ran] at body
    have entered := machine.entering_extends closure arguments
    have stillHolds := (entered.trans body.1.frames).keeps _ _ (holdsObject isInitializer)
    obtain ⟨object, isObject⟩ := Option.isSome_iff_exists.1 stillHolds
    exact ⟨object, Forest.getAt_of_frameAt rfl isObject, body.2.1.receivers _ object isObject⟩
  · exact heap.receivers
  · exact heap.superclasses
  · intro op position operand _
    exact op.apply_handled
  · intro left op position right _
    exact op.apply_handled

/-! ### Whole sessions -/

theorem Ran.ofRun {config : Config} {clock : Nat → Float} {history : List Command}
    {session : Session} {source : String} {room : Room} {program : Program Distance}
    (ran : Ran (.start config clock) history session source room program) :
    (session.run source).2.ending.OfRun := by
  have settles := ran.settles ran.sessionSound
  simp only [Session.run, ran.available, ran.analyzed, Session.runBound]
  cases result : execProgram (exec allowance room.evaluation) program session.machine with
  | ok value machine =>
      apply Session.conclude_ofRun
      intro found isStop
      cases isStop
  | error stop machine =>
      rw [result] at settles
      apply Session.conclude_ofRun
      intro found isStop
      cases isStop
      exact settles.2.2

/-- A command that a session is given at any time ends lawfully. -/
theorem Session.perform_lawful {config : Config} {clock : Nat → Float}
    {history earlier later : List Command} {command : Command}
    (comparable : config.argumentLimit ≠ .incomparable)
    (moment : history = earlier ++ command :: later) :
    (((start config clock).performAll earlier).perform command).2.ending.Lawful := by
  have sameConfig := config_performAll (start config clock) earlier
  have stillComparable : ((start config clock).performAll earlier).config.argumentLimit ≠
      .incomparable := by
    rw [sameConfig]
    exact comparable
  cases available : ((start config clock).performAll earlier).room with
  | error ending =>
      have lawful := room_lawful available
      cases command with
      | check source => simpa only [perform, check, available, refuse] using lawful
      | run source => simpa only [perform, run, available, refuse] using lawful
  | ok room =>
      cases command with
      | check source =>
          simp only [perform, check, available]
          split
          · trivial
          next ending refused => exact analyze_lawful stillComparable refused
      | run source =>
          cases analyzed : (analyze ((start config clock).performAll earlier).config room
              source).program with
          | error ending =>
              simp only [perform, run, available, analyzed]
              exact analyze_lawful stillComparable analyzed
          | ok program =>
              have ran : Ran (start config clock) history
                  ((start config clock).performAll earlier) source room program :=
                ⟨⟨earlier, later, moment, rfl⟩, available, analyzed⟩
              exact ran.ofRun.lawful

/-- If the limit on arguments is an integer, no command of any history ends in a fault.  A program
that was accepted completes or is stopped by an error or by its depth, and all that is looked for
while it runs is found. -/
theorem Session.names_resolve {config : Config} {limit : Int}
    (integer : config.argumentLimit = .count limit) (clock : Nat → Float)
    (history : List Command) :
    (∀ earlier command later, history = earlier ++ command :: later →
      (((start config clock).performAll earlier).perform command).2.ending.Lawful) ∧
    (∀ session source room program,
      Ran (start config clock) history session source room program →
      (session.run source).2.ending.OfRun) ∧
    ∀ task, Visited (start config clock) history task → task.Resolved := by
  have comparable : config.argumentLimit ≠ .incomparable := by
    rw [integer]
    nofun
  constructor
  · intro earlier command later moment
    exact perform_lawful comparable moment
  · constructor
    · intro session source room program ran
      exact ran.ofRun
    · intro task visited
      exact visited.resolved

/-! ### A sample history -/

/-- A function that reads a variable of the block around it. -/
def sampleSource : String :=
  "{ var a; fun g() { a; } g(); }"

/-- The same program with its names bound. -/
def sampleProgram : Program Distance :=
  [.block
    [.declare ⟨"a", ⟨1, 7⟩⟩ none,
      .function (.mk ⟨"g", ⟨1, 14⟩⟩ [] [.expression (.read ⟨"a", ⟨1, 20⟩⟩ (some 1))]),
      .expression (.call (.read ⟨"g", ⟨1, 25⟩⟩ (some 0)) [] ⟨1, 27⟩)]]

/-- The function is run between a program that is rejected and one that fails. -/
def sampleHistory : List Command :=
  [.check "var", .run sampleSource, .run "b;"]

def sampleStart : Session :=
  .start {} fun _ => 0

theorem sample_ran :
    Ran sampleStart sampleHistory sampleStart sampleSource ⟨25000, 25000⟩ sampleProgram where
  moment := ⟨[.check "var"], [.run "b;"], rfl, rfl⟩
  available := by with_unfolding_all rfl
  analyzed := by with_unfolding_all rfl

/-- The body of the function is reached. -/
theorem sample_visited :
    ∃ steps room machine, Visited sampleStart sampleHistory
      ⟨steps + 1, room + 1, .evaluate (.read ⟨"a", ⟨1, 20⟩⟩ (some 1)), machine⟩ := by
  have enough : allowance = 4611686018427387899 + 5 := rfl
  have begun : Visited sampleStart sampleHistory
      ⟨4611686018427387899 + 5, 24995 + 5, .runProgram sampleProgram, sampleStart.machine⟩ :=
    ⟨_, _, _, _, sample_ran, enough ▸ .refl _⟩
  have block := Visited.closed _ _ begun .programFirst
  have body := Visited.closed _ _ block .blockBody
  have declared := Visited.closed _ _ body (.executeRest rfl)
  have created := Visited.closed _ _ declared (.executeRest rfl)
  have statement := Visited.closed _ _ created .executeFirst
  have call := Visited.closed _ _ statement .expressionValue
  have called := Visited.closed _ _ call (.callFunction rfl rfl rfl)
  have entered := Visited.closed _ _ called .callBody
  have first := Visited.closed _ _ entered .executeFirst
  exact ⟨_, _, _, Visited.closed _ _ first .expressionValue⟩

theorem Session.names_resolve_sample :
    (sampleStart.run sampleSource).2.ending.OfRun ∧
      ((sampleStart.performAll [.check "var", .run sampleSource]).perform
        (.run "b;")).2.ending.Lawful ∧
      ∃ task value, Visited sampleStart sampleHistory task ∧
        task.machine.frames.getAt task.machine.frame 1 "a" = .ok value := by
  obtain ⟨lawful, ofRun, resolved⟩ :=
    @Session.names_resolve {} 255 rfl (fun _ => 0) sampleHistory
  rcases sample_visited with ⟨steps, room, machine, visited⟩
  obtain ⟨value, found⟩ := (resolved _ visited).read _ _ rfl
  exact ⟨ofRun _ _ _ _ sample_ran, lawful [.check "var", .run sampleSource] _ [] rfl, _, value,
    visited, found⟩

end LoxLang
