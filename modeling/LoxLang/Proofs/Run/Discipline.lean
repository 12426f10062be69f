/-
Module: LoxLang.Proofs.Run.Discipline
Purpose: What a session keeps to.  Whatever is evaluated or executed leaves the machine in the frame
  it began in, on every way out; so between two commands the machine is always at the globals.  A
  command that executes nothing changes nothing.
Main exports: Task.resumes_final, Leads.stays, Session.Executes, Account.performAll, Account.visited,
  Session.state_discipline
-/
import LoxLang.Proofs.Run.Resolution
import LoxLang.Proofs.Run.Upkeep

namespace LoxLang

/-! ### Frames -/

/-- The account that asks for nothing. -/
def Account.blank : Account where
  holds _ := True
  frame _ _ := True
  value _ _ := True
  frame_grows _ _ := trivial
  value_grows _ _ := trivial
  plain _ _ _ := trivial
  function := Iff.rfl
  object _ := trivial
  method _ _ := trivial
  current _ := trivial
  stored _ _ := trivial
  field _ _ := trivial
  move _ _ := trivial
  count _ _ _ _ := trivial
  nest _ _ := ⟨trivial, trivial⟩
  define _ _ _ _ := trivial
  create _ _ := ⟨trivial, trivial⟩
  setField _ _ _ _ := trivial
  declareClass _ _ _ _ := trivial

theorem Account.blank_begins (task : Task) : Account.blank.Begins task := by
  refine ⟨trivial, ?_⟩
  cases task.activity with
  | call closure arguments => exact ⟨trivial, fun _ _ => trivial⟩
  | bindMethod method receiver => exact ⟨trivial, trivial⟩
  | declareClass name superclass methods => exact fun _ _ => trivial
  | _ => trivial

/-- However a task ends, the code that was running goes on. -/
theorem Task.resumes_final (task : Task) : task.machine.Resumes task.final :=
  (Account.blank_begins task).final.1

/-- The parts of a task run in the same frame, unless the task is a block or a call. -/
theorem Leads.stays {task next : Task} (leads : Leads task next)
    (noBlock : ∀ body, task.activity ≠ .execute (.block body))
    (noCall : ∀ closure arguments, task.activity ≠ .call closure arguments) :
    next.machine.frame = task.machine.frame := by
  have begun : Account.blank.holds task.machine := trivial
  cases leads with
  | binaryRight first => exact (Account.evaluated begun first).1.frame
  | logicalRight first _ => exact (Account.evaluated begun first).1.frame
  | callArguments first => exact (Account.evaluated begun first).1.frame
  | callFunction first second _ =>
      obtain ⟨resumes, holds, -⟩ := Account.evaluated begun first
      exact (resumes.trans (Account.evaluatedAll holds second).1).frame
  | constructBind first second _ _ =>
      obtain ⟨resumes, holds, -⟩ := Account.evaluated begun first
      exact (resumes.trans (Account.evaluatedAll holds second).1).frame
  | constructCall first second _ _ =>
      obtain ⟨resumes, holds, -⟩ := Account.evaluated begun first
      exact (resumes.trans (Account.evaluatedAll holds second).1).frame
  | getMethod first _ _ => exact (Account.evaluated begun first).1.frame
  | setValue first => exact (Account.evaluated begun first).1.frame
  | evaluateRest first => exact (Account.evaluated begun first).1.frame
  | branchThen first _ => exact (Account.evaluated begun first).1.frame
  | branchElse first _ => exact (Account.evaluated begun first).1.frame
  | @classMethods _ _ _ superclass _ _ _ _ first =>
      have upholds := Account.evalSuperclass_upholds begun superclass
      rw [first] at upholds
      exact upholds.1.frame
  | executeRest first => exact (Account.executed begun first).1.frame
  | loopBody first _ => exact (Account.evaluated begun first).1.frame
  | loopAgain first _ second =>
      obtain ⟨resumes, holds, -⟩ := Account.evaluated begun first
      exact (resumes.trans (Account.executed holds second).1).frame
  | programRest first => exact (Account.executed begun first).1.frame
  | blockBody => exact absurd rfl (noBlock _)
  | callBody => exact absurd rfl (noCall _ _)
  | _ => rfl

/-! ### Commands that execute nothing -/

namespace Session

/-- Whether a command comes to execute something: it is to run a source that is accepted. -/
def Executes (session : Session) : Command → Prop
  | .run source => ∃ room program, session.room = .ok room ∧
      (analyze session.config room source).program = .ok program
  | .check _ => False

/-- A command that executes nothing changes nothing and prints nothing. -/
theorem perform_of_not_executes {session : Session} {command : Command}
    (idle : ¬session.Executes command) :
    (session.perform command).1 = session ∧ (session.perform command).2.output = #[] := by
  cases available : session.room with
  | error ending =>
      cases command with
      | check source => simp only [perform, check, available, refuse, and_self]
      | run source => simp only [perform, run, available, refuse, and_self]
  | ok room =>
      cases command with
      | check source => simp only [perform, check, available, and_self]
      | run source =>
          cases analyzed : (analyze session.config room source).program with
          | error ending => simp only [perform, run, available, analyzed, and_self]
          | ok program => exact absurd ⟨room, program, available, analyzed⟩ idle

/-- The end of a run is no static error. -/
theorem conclude_ne_rejected (stop : Option Stop) (errors : List StaticError) :
    (conclude stop).1 ≠ .rejected errors := by
  cases stop with
  | none => nofun
  | some found => cases found <;> nofun

/-- A command that ends with static errors executes nothing. -/
theorem not_executes_of_rejected {session : Session} {command : Command}
    {errors : List StaticError} (rejected : (session.perform command).2.ending = .rejected errors) :
    ¬session.Executes command := by
  cases command with
  | check source => exact id
  | run source =>
      rintro ⟨room, program, available, analyzed⟩
      simp only [perform, run, available, analyzed, runBound] at rejected
      exact conclude_ne_rejected _ errors rejected

end Session

/-! ### Accounts of sessions -/

namespace Account

variable {account : Account}

theorem perform {session : Session} (holds : account.holds session.machine) (command : Command) :
    session.machine.Resumes (session.perform command).1.machine ∧
      account.holds (session.perform command).1.machine := by
  by_cases executes : session.Executes command
  · cases command with
    | check source => exact executes.elim
    | run source =>
        obtain ⟨room, program, available, analyzed⟩ := executes
        have upholds := execProgram_upholds ((account.eval_and_exec allowance).2.1 room.evaluation)
          program holds
        have handsOut : ∀ later : Machine, session.machine.Resumes later → account.holds later →
            session.machine.Resumes { later with output := #[] } ∧
              account.holds { later with output := #[] } := fun later resumes holdsThen =>
          ⟨resumes.trans (later.resumes_count #[] later.readings (Nat.le_refl _)),
            account.count #[] later.readings holdsThen (Nat.le_refl _)⟩
        simp only [Session.perform, Session.run, available, analyzed, Session.runBound]
        generalize execProgram (exec allowance room.evaluation) program session.machine = result
          at upholds ⊢
        cases result with
        | ok _ machine =>
            obtain ⟨resumes, holdsThen, -⟩ := upholds
            exact handsOut machine resumes holdsThen
        | error stop machine =>
            obtain ⟨resumes, holdsThen⟩ := upholds
            exact handsOut machine resumes holdsThen
  · rw [(Session.perform_of_not_executes executes).1]
    exact ⟨.refl _, holds⟩

/-- Whatever is asked of a session, the account is kept. -/
theorem performAll {session : Session} (holds : account.holds session.machine)
    (history : List Command) :
    session.machine.Resumes (session.performAll history).machine ∧
      account.holds (session.performAll history).machine := by
  induction history generalizing session with
  | nil => exact ⟨.refl _, holds⟩
  | cons command rest ih =>
      obtain ⟨resumes, holdsThen⟩ := perform holds command
      obtain ⟨resumesOn, holdsLast⟩ := ih holdsThen
      exact ⟨resumes.trans resumesOn, holdsLast⟩

/-- Everything that is done in the course of a history begins with the account kept. -/
theorem visited {start : Session} {history : List Command} {task : Task}
    (holds : account.holds start.machine) (visited : Visited start history task) :
    account.Begins task := by
  obtain ⟨session, source, room, program, ran, reaches⟩ := visited
  obtain ⟨earlier, later, -, isSession⟩ := ran.moment
  subst isSession
  have begins : account.Begins ⟨allowance, room.evaluation, .runProgram program,
      (start.performAll earlier).machine⟩ := ⟨(performAll holds earlier).2, trivial⟩
  exact begins.reaches reaches

end Account

/-! ### Sessions -/

namespace Session

/-- After every history the machine is at the globals.  A check, a run that ends with static errors,
and a run that ends before anything is executed leave the session exactly as it was and print
nothing.  Every evaluation of an expression and every execution of a statement, in whatever machine
and however it ends, leaves the machine in the frame it began in. -/
theorem state_discipline (config : Config) (clock : Nat → Float) (history : List Command) :
    let session := (start config clock).performAll history
    session.machine.frame = Machine.globalFrame ∧
    (∀ source, (session.perform (.check source)).1 = session ∧
      (session.perform (.check source)).2.output = #[]) ∧
    (∀ source errors, (session.run source).2.ending = .rejected errors →
      (session.run source).1 = session ∧ (session.run source).2.output = #[]) ∧
    (∀ source, ¬session.Executes (.run source) →
      (session.run source).1 = session ∧ (session.run source).2.output = #[]) ∧
    ∀ steps room machine,
      (∀ e, (Run.last (eval steps room e machine)).frame = machine.frame) ∧
      ∀ s, (Run.last (exec steps room s machine)).frame = machine.frame := by
  intro session
  have begun : Account.blank.holds (start config clock).machine := trivial
  refine ⟨(Account.performAll begun history).1.frame, ?_, ?_, fun source => perform_of_not_executes, ?_⟩
  · intro source
    have idle : ¬session.Executes (.check source) := id
    exact perform_of_not_executes idle
  · intro source errors rejected
    have ended : (session.perform (.run source)).2.ending = .rejected errors := rejected
    exact perform_of_not_executes (not_executes_of_rejected ended)
  · intro steps room machine
    constructor
    · intro e
      exact (Task.resumes_final ⟨steps, room, .evaluate e, machine⟩).frame
    · intro s
      exact (Task.resumes_final ⟨steps, room, .execute s, machine⟩).frame

/-- A program that fails in a block inside a function. -/
def sampleFailure : String :=
  "fun f() { { -nil; } } f();"

/-- After a program that failed inside a function the machine is at the globals again, and a source
with a syntax error changes nothing. -/
theorem state_discipline_sample :
    ((sampleStart.run sampleFailure).2.ending =
        .failed { cause := .operandNotNumber, line := 1 } ∧
      (sampleStart.performAll [.run sampleFailure]).machine.frame = Machine.globalFrame) ∧
    ∃ errors, (sampleStart.run "var").2.ending = .rejected errors ∧
      (sampleStart.run "var").1 = sampleStart ∧ (sampleStart.run "var").2.output = #[] := by
  refine ⟨⟨?_, (state_discipline {} (fun _ => 0) [.run sampleFailure]).1⟩, ?_⟩
  · with_unfolding_all rfl
  · have rejected : ∃ errors, (sampleStart.run "var").2.ending = .rejected errors := by
      with_unfolding_all exact ⟨_, rfl⟩
    obtain ⟨errors, ended⟩ := rejected
    exact ⟨errors, ended, (state_discipline {} (fun _ => 0) []).2.2.1 "var" errors ended⟩

end Session

end LoxLang
