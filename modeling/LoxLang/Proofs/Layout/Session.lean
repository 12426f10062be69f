/-
Module: LoxLang.Proofs.Layout.Session
Purpose: The layout of a source does not matter.  Sources with the same tokens at other places,
  run in the same session, print the same, end in the same way and leave the same globals.
Main exports: SameButPlaces, Session.runBound_sameButPlaces, Session.run_layout
-/
import LoxLang.Proofs.Layout.Analysis
import LoxLang.Proofs.Layout.Running
import LoxLang.Proofs.Rewording.Session
import LoxLang.Proofs.Run.Acceptance

namespace LoxLang

/-! ### What is left without places -/

/-- A session whose functions have no places. -/
def Session.placeless (session : Session) : Session :=
  { session with machine := session.machine.placeless }

/-- Two steps of a session that differ only in places. -/
structure SameButPlaces (result twin : Session × Outcome) : Prop where
  output : twin.2.output = result.2.output
  ending : twin.2.ending.placeless = result.2.ending.placeless
  session : twin.1.placeless = result.1.placeless

theorem Ending.exitCode_placeless (ending : Ending) :
    ending.placeless.exitCode = ending.exitCode := by
  cases ending <;> rfl

theorem Ending.staticErrors_placeless (ending : Ending) :
    ending.placeless.staticErrors = ending.staticErrors.map StaticError.placeless := by
  cases ending <;> rfl

theorem Ending.runtimeError?_placeless (ending : Ending) :
    ending.placeless.runtimeError? = ending.runtimeError?.map RuntimeError.placeless := by
  cases ending <;> rfl

/-- What can be seen of values does not depend on places. -/
theorem Bindings.shown_placeless (bindings : Bindings Value) :
    (bindings.map Value.placeless).shown = bindings.shown := by
  simp only [shown, names_map, get?_map, Option.map_map]
  refine List.map_congr_left fun name _ => ?_
  cases bindings.get? name <;> simp

theorem Session.shown_placeless (session : Session) : session.placeless.shown = session.shown := by
  rw [shown, placeless, Machine.globals_placeless, Bindings.shown_placeless, ← shown]

/-! ### Running -/

namespace Session

theorem conclude_placeless (stop : Stop) :
    (conclude (some stop.placeless)).1 = (conclude (some stop)).1.placeless := by
  cases stop <;> rfl

/-- Programs that are the same without places. -/
theorem runBound_sameButPlaces (session : Session) (room : Room) {program twin : Program Distance}
    (same : twin.map (Stmt.reword .placeless) = program.map (Stmt.reword .placeless))
    (events eventsTwin : List Event) :
    SameButPlaces (session.runBound room program events)
      (session.runBound room twin eventsTwin) := by
  have forgets := execProgram_forgets allowance room.evaluation program session.machine
  have forgetsToo := execProgram_forgets allowance room.evaluation twin session.machine
  rw [same, forgets] at forgetsToo
  have leaves : ∀ {machine following : Machine}, machine.placeless = following.placeless →
      ({ session with machine := { following with output := #[] } } : Session).placeless =
        ({ session with machine := { machine with output := #[] } } : Session).placeless :=
    fun same => congrArg
      (fun left : Machine => Session.mk session.config { left with output := #[] }) same.symm
  simp only [runBound]
  generalize execProgram (exec allowance room.evaluation) program session.machine = result
    at forgetsToo ⊢
  generalize execProgram (exec allowance room.evaluation) twin session.machine = other
    at forgetsToo ⊢
  cases result with
  | ok value machine =>
      cases other with
      | error stop following => cases forgetsToo
      | ok valueToo following =>
          injection forgetsToo with _ sameMachine
          exact ⟨(congrArg Machine.output sameMachine).symm, rfl, leaves sameMachine⟩
  | error stop machine =>
      cases other with
      | ok value following => cases forgetsToo
      | error stopToo following =>
          injection forgetsToo with sameStop sameMachine
          refine ⟨(congrArg Machine.output sameMachine).symm, ?_, leaves sameMachine⟩
          rw [← conclude_placeless, ← conclude_placeless, sameStop]

/-- Analyses that come to the same without places. -/
theorem runAnalyzed_sameButPlaces (session : Session) (room : Room) {analysis twin : Analysis}
    (same : placelessProgram twin.program = placelessProgram analysis.program) :
    SameButPlaces (session.runAnalyzed room analysis) (session.runAnalyzed room twin) := by
  simp only [runAnalyzed]
  cases result : analysis.program with
  | ok program =>
      cases resultToo : twin.program with
      | error ending =>
          rw [result, resultToo] at same
          cases same
      | ok program =>
          rw [result, resultToo] at same
          injection same with same
          exact session.runBound_sameButPlaces room same _ _
  | error ending =>
      cases resultToo : twin.program with
      | ok program =>
          rw [result, resultToo] at same
          cases same
      | error endingToo =>
          rw [result, resultToo] at same
          injection same with same
          exact ⟨rfl, same, rfl⟩

/-- Tokens that say the same come to the same, but for places. -/
theorem verdict_of_content (config : Config) (room : Room) {tokens others : List Token}
    (same : others.map Token.content = tokens.map Token.content) :
    placelessProgram (verdict config room others) =
      placelessProgram (verdict config room tokens) := by
  cases tokens with
  | nil => rw [List.map_eq_nil_iff.1 same]
  | cons first rest =>
      cases others with
      | nil => cases same
      | cons firstToo restToo =>
          rw [← verdict_placeless, ← verdict_placeless, Token.map_placeless_of_content same]

/-- The layout of a source does not matter.  Two sources without lexical errors whose tokens agree
in kind, lexeme and literal print the same when they are run in the same session, whatever that
session is, and end with the same exit code, the same static errors in the same order and the same
runtime error, but for the places of the errors.  The globals they leave behind look the same, and
nothing else in what they leave differs but the places in the code of functions. -/
theorem run_layout (session : Session) {source other : String}
    (clean : (scan source).errors = #[]) (cleanToo : (scan other).errors = #[])
    (sameTokens : (scan other).tokens.map Token.content =
      (scan source).tokens.map Token.content) :
    let result := session.run source
    let twin := session.run other
    twin.2.stdout = result.2.stdout ∧
      twin.2.ending.exitCode = result.2.ending.exitCode ∧
      twin.2.ending.staticErrors.map StaticError.placeless =
        result.2.ending.staticErrors.map StaticError.placeless ∧
      twin.2.ending.runtimeError?.map RuntimeError.placeless =
        result.2.ending.runtimeError?.map RuntimeError.placeless ∧
      twin.1.shown = result.1.shown ∧ twin.1.placeless = result.1.placeless := by
  intro result twin
  have alike : SameButPlaces result twin := by
    cases available : session.room with
    | error ending =>
        have refused : twin = result := by simp only [twin, result, run, available]
        rw [refused]
        exact ⟨rfl, rfl, rfl⟩
    | ok room =>
        have sameVerdict := verdict_of_content session.config room sameTokens
        rw [← analyze_program _ _ clean, ← analyze_program _ _ cleanToo] at sameVerdict
        rw [show result = _ from run_of_room available source,
          show twin = _ from run_of_room available other]
        exact session.runAnalyzed_sameButPlaces room sameVerdict
  obtain ⟨output, ending, left⟩ := alike
  refine ⟨?_, ?_, ?_, ?_, ?_, left⟩
  · rw [Outcome.stdout, Outcome.stdout, output]
  · rw [← Ending.exitCode_placeless, ending, Ending.exitCode_placeless]
  · rw [← Ending.staticErrors_placeless, ending, Ending.staticErrors_placeless]
  · rw [← Ending.runtimeError?_placeless, ending, Ending.runtimeError?_placeless]
  · rw [← shown_placeless, left, shown_placeless]

/-- A program on one line. -/
def sampleLine : String :=
  "var word = \"here\"; print word; print missing;"

/-- The same program on several lines, with a comment and other line ends. -/
def sampleLines : String :=
  "var word // a name\n= \"here\";\r\n\tprint word;\nprint\nmissing;"

/-- What both of them say. -/
def sampleContent : List (Kind × String × Option Literal) :=
  [(.keyword .var_, "var", none), (.identifier, "word", none), (.equal, "=", none),
    (.string, "\"here\"", some (.string "here")), (.semicolon, ";", none),
    (.keyword .print_, "print", none), (.identifier, "word", none), (.semicolon, ";", none),
    (.keyword .print_, "print", none), (.identifier, "missing", none), (.semicolon, ";", none),
    (.eof, "", none)]

/-- The runtime error is on another line, and everything else is the same. -/
theorem run_layout_sample :
    let session := start {} fun _ => 0
    let result := session.run sampleLine
    let twin := session.run sampleLines
    result.2.ending.runtimeError? = some ⟨.undefinedVariable "missing", 1⟩ ∧
      twin.2.ending.runtimeError? = some ⟨.undefinedVariable "missing", 5⟩ ∧
      result.2.output = #["here"] ∧ twin.2.stdout = result.2.stdout ∧
      twin.1.shown = result.1.shown := by
  intro session result twin
  have failed : result.2.ending.runtimeError? = some ⟨.undefinedVariable "missing", 1⟩ := by
    decide +kernel
  have failedToo : twin.2.ending.runtimeError? = some ⟨.undefinedVariable "missing", 5⟩ := by
    decide +kernel
  have clean : (scan sampleLine).errors = #[] := by decide +kernel
  have cleanToo : (scan sampleLines).errors = #[] := by decide +kernel
  have read : (scan sampleLine).tokens.map Token.content = sampleContent := by
    with_unfolding_all rfl
  have readToo : (scan sampleLines).tokens.map Token.content = sampleContent := by
    with_unfolding_all rfl
  obtain ⟨printed, -, -, -, shown, -⟩ :=
    run_layout session clean cleanToo (readToo.trans read.symm)
  exact ⟨failed, failedToo, by decide +kernel, printed, shown⟩

end Session

end LoxLang
