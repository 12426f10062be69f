/-
Module: LoxLang.Session.Basic
Purpose: Running and checking programs one after the other.  A session keeps its global variables
  and everything reachable from them between programs; a program with an error that can be found
  before it runs is not run at all.
Main exports: Session, Session.check, Session.run, Ending, Outcome
-/
import LoxLang.Config.Basic
import LoxLang.Machine.Eval
import LoxLang.Program.Parser.Statement
import LoxLang.Session.Event

namespace LoxLang

/-! ### How a step ends -/

/-- Why a step of a session could not be carried out at all. -/
inductive Escape where
  | incomparableLimit
  | limit (fault : LimitFault)
  /-- The stack has a size that the machine cannot provide. -/
  | stackUnavailable
  | fault (fault : AccessFault)
  | unfinished
deriving DecidableEq, Repr, Inhabited

/-- How a step of a session ends. -/
inductive Ending where
  | completed
  /-- Errors were found before the program ran. -/
  | rejected (errors : List StaticError)
  /-- An error stopped the program. -/
  | failed (error : RuntimeError)
  /-- The program was nested too deeply, or it recursed too deeply. -/
  | overflowed
  | escaped (escape : Escape)
deriving Repr, Inhabited

/-- The report of an overflow. -/
def overflowText : String :=
  "Fatal error: stack overflow."

namespace ExitCode

/-- Everything went well. -/
def ok : Nat := 0

/-- The command line or the configuration is wrong. -/
def usage : Nat := 64

/-- The program has errors that were found before it ran. -/
def rejected : Nat := 65

/-- The program cannot be read. -/
def noInput : Nat := 66

/-- The program was stopped. -/
def failed : Nat := 70

end ExitCode

namespace Ending

/-- The errors found before the program ran. -/
def staticErrors : Ending → List StaticError
  | rejected errors => errors
  | _ => []

/-- The error that stopped the program. -/
def runtimeError? : Ending → Option RuntimeError
  | failed error => some error
  | _ => none

/-- The report of an ending that is the fault of neither the program nor its user. -/
def fatal? : Ending → Option String
  | overflowed => some overflowText
  | _ => none

/-- The exit code of a step that ended in this way. -/
def exitCode : Ending → Nat
  | completed => ExitCode.ok
  | rejected _ => ExitCode.rejected
  | failed _ | overflowed | escaped _ => ExitCode.failed

end Ending

/-- What a step of a session shows: the lines printed, the events, and how it ended. -/
structure Outcome where
  output : Array String
  events : List Event
  ending : Ending
deriving Inhabited

namespace Outcome

/-- The text printed. -/
def stdout (outcome : Outcome) : String :=
  String.join (outcome.output.toList.map (· ++ "\n"))

/-- The text reported. -/
def stderr (verbose : Bool) (outcome : Outcome) : String :=
  Event.render verbose outcome.events

end Outcome

/-! ### Analysis -/

/-- What is known about a program before it runs: what was traced, and either the program with its
names bound or the reason why it cannot run. -/
structure Analysis where
  events : List Event
  program : Except Ending (Program Distance)
deriving Inhabited

/-- Reading a source: what was traced, the static errors found, and the program unless reading was
given up. -/
structure Reading where
  events : List Event
  errors : List StaticError
  program : Except Ending Program.Plain
deriving Inhabited

/-- The events of an overflow. -/
def overflowEvents : List Event :=
  [.trace .overflow, .report overflowText]

/-- The events of a source that could not be read to its end. -/
def givenUpEvents : Ending → List Event
  | .overflowed => overflowEvents
  | _ => []

/-- Reads a source. -/
def readSource (config : Config) (room : Room) (source : String) : Reading :=
  let scanned := scan source
  let parsed := Program.parseWithin room.nesting config.argumentLimit scanned.tokens
  let lexical := scanned.errors.toList
  let syntactic := parsed.errors.toList
  let traced :=
    lexical.map (fun error => .trace (.lexicalError error))
      ++ .trace (.scanned scanned.tokens.length lexical.length)
      :: syntactic.map (fun error => .trace (.syntaxError error))
  let errors := lexical.map .lexical ++ syntactic.map .syntactic
  match parsed.program with
  | .ok program =>
      { events := traced ++ [.trace (.parsed program.length syntactic.length)]
        errors := errors
        program := .ok program }
  | .error .tooDeep =>
      { events := traced, errors := errors, program := .error .overflowed }
  | .error .incomparableLimit =>
      { events := traced, errors := errors, program := .error (.escaped .incomparableLimit) }

/-- The program if there are no errors, and otherwise reports of all of them. -/
def settle (events : List Event) (errors : List StaticError) (program : Program Distance) :
    Analysis :=
  if errors.isEmpty then
    { events := events, program := .ok program }
  else
    { events := events ++ errors.map fun error => .report error.text
      program := .error (.rejected errors) }

/-- Reads a source and binds its names.  Names are bound only if the source could be read without
errors. -/
def analyze (config : Config) (room : Room) (source : String) : Analysis :=
  let reading := readSource config room source
  match reading.program with
  | .error ending =>
      { events := reading.events ++ givenUpEvents ending, program := .error ending }
  | .ok program =>
      if !reading.errors.isEmpty then
        settle reading.events reading.errors []
      else if !program.fits room.nesting then
        { events := reading.events ++ overflowEvents, program := .error .overflowed }
      else
        let bound := Program.bind program
        let errors := bound.errors.toList
        let references := (Program.localReferences bound.program).length
        let traced :=
          errors.map (fun error => .trace (.scopeError error))
            ++ [.trace (.bound references errors.length)]
        settle (reading.events ++ traced) (errors.map .scoping) bound.program

/-! ### Sessions -/

/-- Executes the statements of a program in order.  How a statement ends does not matter here,
because no statement of a bound program returns. -/
def execProgram {δ σ : Type} (execute : σ → RunOf δ (Completion δ)) : List σ → RunOf δ Unit
  | [], machine => .ok () machine
  | statement :: rest, machine =>
      match execute statement machine with
      | .ok _ following => execProgram execute rest following
      | .error stop following => .error stop following

/-- The steps that a run may take: more than any run can use. -/
def allowance : Nat :=
  twoPow 62

/-- A session: its configuration and what has become of the machine so far. -/
structure Session (δ : Type := Function Distance) where
  config : Config
  machine : Machine δ

namespace Session

/-- A session in which nothing has been run. -/
def start (config : Config) (clock : Nat → Float) : Session :=
  { config := config, machine := .initial clock }

/-- The room that the configuration of a session leaves, or how every step ends without it.  The
size of the stack is looked at before the depth limit, a limit below the least depth is used up
before a step has begun, and the stack itself is asked for last. -/
def room {δ : Type} (session : Session δ) : Except Ending Room :=
  match session.config.stackSize, session.config.recursionLimit with
  | .unusable fault, _ => .error (.escaped (.limit fault))
  | _, .unusable fault => .error (.escaped (.limit fault))
  | size, .depth limit =>
      if limit < RecursionLimit.leastDepth then .error .overflowed
      else if size = .unavailable then .error (.escaped .stackUnavailable)
      else .ok (RecursionLimit.room limit)

/-- A step that ends before it has begun. -/
def refuse (ending : Ending) : Outcome :=
  { output := #[], events := givenUpEvents ending, ending := ending }

/-- Looks for errors in a program without running it. -/
def check (session : Session) (source : String) : Outcome :=
  match session.room with
  | .error ending => refuse ending
  | .ok room =>
      let analysis := analyze session.config room source
      { output := #[]
        events := analysis.events
        ending :=
          match analysis.program with
          | .ok _ => .completed
          | .error ending => ending }

/-- What the end of a run shows. -/
def conclude : Option Stop → Ending × List Event
  | none => (.completed, [])
  | some (.error error) => (.failed error, [.trace (.runtimeError error), .report error.text])
  | some .overflow => (.overflowed, overflowEvents)
  | some (.fault fault) => (.escaped (.fault fault), [])
  | some .unfinished => (.escaped .unfinished, [])

/-- The events of a program that is not run. -/
def notRunning : Ending → List Event
  | .rejected errors => [.trace (.notRunning errors.length)]
  | _ => []

/-- Runs a program whose names are bound. -/
def runBound (room : Room) (program : Program Distance) (events : List Event)
    (session : Session) : Session × Outcome :=
  let execute := exec allowance room.evaluation
  let (stop, machine) : Option Stop × Machine :=
    match execProgram execute program session.machine with
    | .ok _ machine => (none, machine)
    | .error stop machine => (some stop, machine)
  let (ending, concluding) := conclude stop
  ({ session with machine := { machine with output := #[] } },
    { output := machine.output, events := events ++ concluding, ending := ending })

/-- Runs a program, if no errors can be found in it before. -/
def run (session : Session) (source : String) : Session × Outcome :=
  match session.room with
  | .error ending => (session, refuse ending)
  | .ok room =>
      let analysis := analyze session.config room source
      match analysis.program with
      | .ok program => session.runBound room program analysis.events
      | .error ending =>
          (session,
            { output := #[]
              events := analysis.events ++ notRunning ending
              ending := ending })

end Session

end LoxLang
