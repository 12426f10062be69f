/-
Module: LoxLang.Proofs.Looping.Session
Purpose: What a `for` loop stands for means the same.  Sessions in which `for` is a statement of its
  own accept the same programs, and commands show the same in them: the same lines, the same ending,
  the same global variables.
Main exports: analyze_lowered, SessionAlike, SessionAlike.perform, SessionAlike.shown,
  Session.for_is_primitive
-/
import LoxLang.Proofs.Looping.Running
import LoxLang.Proofs.Looping.Sharing
import LoxLang.Proofs.Rewording.Session

namespace LoxLang.Looping

/-! ### Programs that are accepted -/

/-- Two results of looking at a source: both are programs of which the second is what the first
stands for, or neither is, for the same reason. -/
inductive AnalyzedAlike :
    Except Ending (Program Distance) → Except Ending (LoxLang.Program Distance) → Prop where
  | accepted {program : Program Distance} {other : LoxLang.Program Distance}
      (lowered : LoweredAll [] program other) : AnalyzedAlike (.ok program) (.ok other)
  | refused (ending : Ending) : AnalyzedAlike (.error ending) (.error ending)

theorem settle_program (events : List Event) (errors : List StaticError)
    (program : LoxLang.Program Distance) :
    (settle events errors program).program =
      if errors.isEmpty then .ok program else .error (.rejected errors) := by
  rw [settle]
  split <;> rfl

/-- The same programs are accepted, and the others refused for the same reasons. -/
theorem analyze_lowered (config : Config) (room : Room) (source : String) :
    AnalyzedAlike (analyze config room source) (LoxLang.analyze config room source).program := by
  have read := parseWithin_desugar room.nesting config.argumentLimit (scan source).tokens
  simp only [analyze, LoxLang.analyze, readSource, read]
  rcases parsed : parseWithin room.nesting config.argumentLimit (scan source).tokens with
    ⟨outcome, errors⟩
  cases outcome with
  | error reason => cases reason <;> exact .refused _
  | ok program =>
      rw [parsed] at read
      have fits : LoxLang.Program.fits room.nesting (desugarAll program) =
          fitsAll program room.nesting := fitsAll_desugar program room.nesting
      simp only [Functor.map, Except.map, fits] at read ⊢
      generalize found : (scan source).errors.toList.map StaticError.lexical ++
        errors.toList.map StaticError.syntactic = errorsFound
      by_cases clean : errorsFound.isEmpty = true
      · -- only a program that is read without errors is known to be tidy
        have tidy : LoxLang.Stmt.TidyAll (desugarAll program) := by
          simp only [← found, List.isEmpty_iff, List.append_eq_nil_iff, List.map_eq_nil_iff,
            Array.toList_eq_nil_iff] at clean
          exact Program.tidy_of_parse (by rw [read]) (by rw [read]; exact clean.2)
        obtain ⟨sameErrors, lowered⟩ := bind_lowered program tidy
        simp only [clean, Bool.not_true, Bool.false_eq_true, ↓reduceIte, sameErrors]
        by_cases enough : fitsAll program room.nesting = true
        · simp only [enough, Bool.not_true, Bool.false_eq_true, ↓reduceIte, settle_program]
          split
          · exact .accepted lowered
          · exact .refused _
        · simp only [enough, Bool.not_false, ↓reduceIte]
          exact .refused _
      · simp only [clean, Bool.not_false, ↓reduceIte, settle_program, Bool.false_eq_true]
        exact .refused _

/-! ### Sessions that are alike -/

/-- The place of code of a program: the frame of global variables, with no scope around it. -/
def globalSite : Site :=
  ⟨Machine.globalFrame, []⟩

/-- Sessions between two commands, of the same configuration and with machines that look alike. -/
structure SessionAlike (session : Session) (twin : LoxLang.Session) : Prop where
  config : twin.config = session.config
  machine : ∃ world, Running world globalSite session.machine twin.machine

namespace SessionAlike

variable {session : Session} {twin : LoxLang.Session}

/-- Sessions in which nothing has been run. -/
theorem start (config : Config) (clock : Nat → Float) :
    SessionAlike (.start config clock) (.start config clock) := by
  refine ⟨rfl, [globalSite], ?_⟩
  have only : ∀ {id : FrameId} {site : Site}, [globalSite][id]? = some site →
      id = Machine.globalFrame ∧ site = globalSite := by
    intro id site here
    cases id with
    | zero => exact ⟨rfl, (Option.some.inj here).symm⟩
    | succ id => cases here
  constructor
  case frame => rfl
  case here => rfl
  constructor
  case created =>
    intro id site here
    obtain ⟨rfl, rfl⟩ := only here
    exact Nat.zero_lt_one
  case placed =>
    intro id site here
    obtain ⟨rfl, rfl⟩ := only here
    exact ⟨rfl, rfl, rfl, rfl⟩
  case once =>
    intro id other site siteToo here there _ _ _
    rw [(only here).1, (only there).1]
  case bound =>
    intro id site here _
    obtain ⟨rfl, rfl⟩ := only here
    exact LoxLang.Bindings.Alike.empty.set Native.clock.name (.native .clock)
  case fields => exact fun id => .empty
  all_goals rfl

/-- The room does not depend on what has become of the machine. -/
theorem room (alike : SessionAlike session twin) : twin.room = session.room := by
  rw [LoxLang.Session.room, LoxLang.Session.room, alike.config]

/-- What is shown of a command is the same in both sessions. -/
def Shows (report : Report) (outcome : Outcome) : Prop :=
  report = { output := outcome.output, ending := outcome.ending }

theorem check (alike : SessionAlike session twin) (source : String) :
    Shows (session.check source) (twin.check source) := by
  rw [Session.check, LoxLang.Session.check, alike.room, alike.config]
  cases session.room with
  | error ending => rfl
  | ok room =>
      have analyzed := analyze_lowered session.config room source
      dsimp only
      generalize analyze session.config room source = result at analyzed ⊢
      generalize (LoxLang.analyze session.config room source).program = other at analyzed ⊢
      cases analyzed <;> rfl

/-- A program that is run shows the same, and leaves sessions behind that are alike. -/
theorem runBound (alike : SessionAlike session twin) (room : Room) (events : List Event)
    {program : Program Distance} {other : LoxLang.Program Distance}
    (lowered : LoweredAll [] program other) :
    SessionAlike (session.runBound room program).1 (twin.runBound room other events).1 ∧
      Shows (session.runBound room program).2 (twin.runBound room other events).2 := by
  obtain ⟨world, running⟩ := alike.machine
  have agrees := execProgram_agrees
    ((eval_and_exec_alike allowance).2.1 room.evaluation) lowered _ _ _ (List.prefix_refl world)
    running
  rw [Session.runBound, LoxLang.Session.runBound]
  generalize execProgram (exec allowance room.evaluation) program session.machine = result
    at agrees ⊢
  generalize execProgram (LoxLang.exec allowance room.evaluation) other twin.machine =
    resultTwin at agrees ⊢
  have handedOut : ∀ {later : World} {machine : Machine} {machineTwin : LoxLang.Machine},
      Running later globalSite machine machineTwin →
      Running later globalSite { machine with output := #[] }
        { machineTwin with output := #[] } :=
    fun running => { running with output := rfl }
  cases agrees with
  | ok grows running _ =>
      refine ⟨⟨alike.config, _, handedOut running⟩, ?_⟩
      simp only [Shows, running.output, LoxLang.Session.conclude]
  | stopped stop grows running =>
      refine ⟨⟨alike.config, _, handedOut running⟩, ?_⟩
      cases stop <;> simp only [Shows, running.output, Session.conclude, LoxLang.Session.conclude]

theorem run (alike : SessionAlike session twin) (source : String) :
    SessionAlike (session.run source).1 (twin.run source).1 ∧
      Shows (session.run source).2 (twin.run source).2 := by
  rw [Session.run, LoxLang.Session.run, alike.room, alike.config]
  cases session.room with
  | error ending => exact ⟨alike, rfl⟩
  | ok room =>
      have analyzed := analyze_lowered session.config room source
      dsimp only
      generalize analyze session.config room source = result at analyzed ⊢
      generalize (LoxLang.analyze session.config room source).program = other at analyzed ⊢
      cases analyzed with
      | accepted lowered => exact alike.runBound room _ lowered
      | refused ending => exact ⟨alike, rfl⟩

/-- A command shows the same, and leaves sessions behind that are alike. -/
theorem perform (alike : SessionAlike session twin) (command : Command) :
    SessionAlike (session.perform command).1 (twin.perform command).1 ∧
      Shows (session.perform command).2 (twin.perform command).2 := by
  cases command with
  | run source => exact alike.run source
  | check source => exact ⟨alike, alike.check source⟩

/-- After any commands sessions are still alike. -/
theorem performAll (alike : SessionAlike session twin) (history : List Command) :
    SessionAlike (session.performAll history) (twin.performAll history) := by
  induction history generalizing session twin with
  | nil => exact alike
  | cons command rest ih => exact ih (alike.perform command).1

/-- The global variables look the same. -/
theorem shown (alike : SessionAlike session twin) : session.shown = twin.shown := by
  obtain ⟨world, running⟩ := alike.machine
  have globals : Bindings.Alike world session.machine.globals twin.machine.globals :=
    running.bound _ _ running.globals trivial
  exact (LoxLang.Bindings.Alike.shown globals).symm

end SessionAlike

end LoxLang.Looping

namespace LoxLang

/-- A `for` loop means the same whether it is a statement of its own, with one scope for its first
clause, its condition, its body and its increment, or stands for a `while` loop with a block for
each turn.  The same programs are accepted and the others refused for the same reasons.  After any
commands, every command prints the same lines, ends in the same way and leaves the same global
variables.  A function or a method that is declared in a turn of the loop reaches the one frame that
holds the variable of the loop, whatever turn that is and as long as it lives. -/
theorem Session.for_is_primitive :
    (∀ config room source ending, Looping.analyze config room source = .error ending ↔
      (analyze config room source).program = .error ending) ∧
    (∀ (config : Config) (clock : Nat → Float) (history : List Command) (command : Command),
      let kept := ((Looping.Session.start config clock).performAll history).perform command
      let replaced := ((start config clock).performAll history).perform command
      kept.2.output = replaced.2.output ∧ kept.2.ending = replaced.2.ending ∧
        kept.1.shown = replaced.1.shown) ∧
    ∀ steps room name initializer condition turn machine,
      ∀ made ∈ (⟨steps, room, .executeAll [.declare name initializer, .loop condition turn],
        machine⟩ : Task).course,
      (∀ declaration, ∃ distance, ∀ later, made.machine.frames.Extends later →
        later.frameAt (made.machine.newFunction declaration).frame distance =
          .ok machine.frame) ∧
      ∀ superclass, ∃ distance, ∀ later,
        (made.machine.methodSpace superclass).frames.Extends later →
        later.frameAt (made.machine.methodFrame superclass) distance = .ok machine.frame := by
  refine ⟨fun config room source ending => ?_, fun config clock history command => ?_, ?_⟩
  · have analyzed := Looping.analyze_lowered config room source
    generalize Looping.analyze config room source = result at analyzed ⊢
    generalize (analyze config room source).program = other at analyzed ⊢
    cases analyzed with
    | accepted lowered => exact ⟨nofun, nofun⟩
    | refused reason => exact ⟨fun same => by cases same; rfl, fun same => by cases same; rfl⟩
  · have alike := (Looping.SessionAlike.start config clock).performAll history
    obtain ⟨alikeThen, shows⟩ := alike.perform command
    refine ⟨?_, ?_, alikeThen.shown⟩ <;> rw [shows]
  · intro steps room name initializer condition turn machine made member
    have surrounds := (Task.surrounds_course _ made member).2
    refine ⟨fun _ => ?_, fun superclass => ?_⟩
    · obtain ⟨distance, reached⟩ := surrounds
      exact ⟨distance, fun later extends' => extends'.reaches reached⟩
    · obtain ⟨distance, reached⟩ :=
        (surrounds.mono (made.machine.methodSpace_extends superclass)).trans
          (made.machine.surrounds_methodFrame superclass)
      exact ⟨distance, fun later extends' => extends'.reaches reached⟩

/-- A function without a body. -/
def sampleFunction : Function Distance :=
  .mk ⟨"f", ⟨1, 30⟩⟩ [] []

/-- A turn of a loop in which a function is declared. -/
def sampleTurn : Stmt Distance :=
  .block [.block [.function sampleFunction],
    .expression (.assign ⟨"i", ⟨1, 20⟩⟩ (some 1) (.literal .nil))]

/-- A loop that goes on for ever. -/
def sampleLoop : Task :=
  ⟨12, 12, .executeAll [.declare ⟨"i", ⟨1, 9⟩⟩ none, .loop (.literal (.bool true)) sampleTurn],
    sampleStart.machine⟩

/-- The machine inside of the two blocks in which the function is declared. -/
def Machine.sampleInside (machine : Machine) : Machine :=
  let inTurn := (machine.nest machine.frame).inFrame machine.fresh
  (inTurn.nest inTurn.frame).inFrame inTurn.fresh

theorem sampleTurn_course (steps room : Nat) (machine : Machine) :
    ⟨steps, room, .execute (.function sampleFunction), machine.sampleInside⟩ ∈
      (⟨steps + 2, room + 2, .execute sampleTurn, machine⟩ : Task).course := by
  refine Task.mem_course_of_leads .blockBody ?_ nofun
  refine Task.mem_course_of_leads .executeFirst ?_ nofun
  refine Task.mem_course_of_leads .blockBody ?_ nofun
  refine Task.mem_course_of_leads .executeFirst ?_ nofun
  exact Task.self_mem_course _

/-- What is done in the turns of the loop is done in its course. -/
theorem sampleLoop_course {other : Task}
    (inside : other ∈ (⟨11, 11, .repeatLoop (.literal (.bool true)) sampleTurn,
      sampleStart.machine.defining 0 "i" .nil⟩ : Task).course) : other ∈ sampleLoop.course := by
  refine Task.mem_course_of_leads (.executeRest rfl) ?_ nofun
  refine Task.mem_course_of_leads .executeFirst ?_ nofun
  exact Task.mem_course_of_leads .loopStart inside nofun

/-- A loop whose variable is read before it has a value. -/
def sampleRefusedLoop : String :=
  "for (var i = i; i; i = nil) print i;"

theorem sampleRefusedLoop_refused :
    ∃ ending, Looping.analyze {} ⟨25000, 25000⟩ sampleRefusedLoop = .error ending := by
  with_unfolding_all exact ⟨_, rfl⟩

/-- A loop that prints its variable once. -/
def samplePrintedLoop : String :=
  "for (var i = true; i; i = nil) print i;"

theorem samplePrintedLoop_output :
    (((Looping.Session.start {} fun _ => 0).performAll [.check sampleRefusedLoop]).perform
      (.run samplePrintedLoop)).2.output = #["true"] := by
  with_unfolding_all rfl

/-- A loop is refused in both languages for the same reason, another prints the same lines in both,
and of a third one the functions of two turns are not the same, but both reach the frame of the
variable, and so do the methods of a class that is declared there. -/
theorem Session.for_is_primitive_sample :
    (∃ ending, Looping.analyze {} ⟨25000, 25000⟩ sampleRefusedLoop = .error ending ∧
      (analyze {} ⟨25000, 25000⟩ sampleRefusedLoop).program = .error ending) ∧
    (let kept := ((Looping.Session.start {} fun _ => 0).performAll
        [.check sampleRefusedLoop]).perform (.run samplePrintedLoop)
      let replaced := ((start {} fun _ => 0).performAll [.check sampleRefusedLoop]).perform
        (.run samplePrintedLoop)
      kept.2.output = #["true"] ∧ replaced.2.output = #["true"] ∧
        kept.2.ending = replaced.2.ending ∧ kept.1.shown = replaced.1.shown) ∧
    ∃ first second : Task, first ∈ sampleLoop.course ∧ second ∈ sampleLoop.course ∧
      (first.machine.newFunction sampleFunction).frame ≠
        (second.machine.newFunction sampleFunction).frame ∧
      (∃ near far, ∀ later, first.machine.frames.Extends later →
        second.machine.frames.Extends later →
        later.frameAt (first.machine.newFunction sampleFunction).frame near = .ok 0 ∧
          later.frameAt (second.machine.newFunction sampleFunction).frame far = .ok 0) ∧
      ∃ distance, ∀ later,
        (second.machine.methodSpace (some sampleSuperclass)).frames.Extends later →
        later.frameAt (second.machine.methodFrame (some sampleSuperclass)) distance = .ok 0 := by
  refine ⟨?_, ?_, ?_⟩
  · obtain ⟨ending, refused⟩ := sampleRefusedLoop_refused
    exact ⟨ending, refused, (Session.for_is_primitive.1 _ _ _ _).1 refused⟩
  · obtain ⟨sameOutput, sameEnding, sameGlobals⟩ := Session.for_is_primitive.2.1 {} (fun _ => 0)
      [.check sampleRefusedLoop] (.run samplePrintedLoop)
    exact ⟨samplePrintedLoop_output, sameOutput ▸ samplePrintedLoop_output, sameEnding,
      sameGlobals⟩
  let declared := sampleStart.machine.defining 0 "i" .nil
  let again := Run.last (exec 10 11 sampleTurn declared)
  have isFirst : ⟨8, 9, .execute (.function sampleFunction), declared.sampleInside⟩ ∈
      sampleLoop.course := by
    refine sampleLoop_course ?_
    refine Task.mem_course_of_leads (.loopBody rfl rfl) ?_ nofun
    exact sampleTurn_course 8 9 declared
  have isSecond : ⟨7, 9, .execute (.function sampleFunction), again.sampleInside⟩ ∈
      sampleLoop.course := by
    refine sampleLoop_course ?_
    refine Task.mem_course_of_leads (.loopAgain rfl rfl rfl) ?_ nofun
    refine Task.mem_course_of_leads (.loopBody rfl rfl) ?_ nofun
    exact sampleTurn_course 7 9 again
  obtain ⟨near, reachedFirst⟩ :=
    (Session.for_is_primitive.2.2 _ _ _ _ _ _ _ _ isFirst).1 sampleFunction
  obtain ⟨reachesSecond, reachesMethods⟩ :=
    Session.for_is_primitive.2.2 _ _ _ _ _ _ _ _ isSecond
  obtain ⟨far, reachedSecond⟩ := reachesSecond sampleFunction
  have different : (2 : FrameId) ≠ 4 := by decide
  exact ⟨_, _, isFirst, isSecond, different, ⟨near, far, fun later extends' extendsToo =>
    ⟨reachedFirst later extends', reachedSecond later extendsToo⟩⟩,
    reachesMethods (some sampleSuperclass)⟩

end LoxLang
