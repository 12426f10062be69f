/-
Module: LoxLang.Proofs.Looping.Evaluation
Purpose: Running programs in which `for` is a statement of its own, and sessions of such programs.
  Values, the machine, calls and expressions are those of the language, over functions that are
  declared here; only statements are executed in another way.  A `for` loop has one frame, and none
  if it has no first clause: in it the first clause, the condition, the body and the increment run,
  turn after turn.  A `return` in the body leaves the loop at once.  A turn with an increment counts
  as a level, as blocks do; levels are all that a stack limits, so that both languages run out of
  them at the same time.
Main exports: Looping.eval, Looping.exec, Looping.execLoop, Looping.analyze, Looping.Session,
  Looping.Session.run, Looping.Session.check
-/
import LoxLang.Proofs.Looping.Binding
import LoxLang.Proofs.Looping.Parsing
import LoxLang.Proofs.Run.History
import LoxLang.Proofs.Run.Unfolding

namespace LoxLang.Looping

/-! ### The machine over other declarations -/

instance {ρ : Type} : Declaration (Function ρ) (Decl ρ) where
  name := Function.name
  parameters := Function.parameters
  body := Function.body

abbrev Closure := LoxLang.Closure (Function Distance)

abbrev Class := LoxLang.Class (Function Distance)

abbrev Value := LoxLang.Value (Function Distance)

abbrev Machine := LoxLang.Machine (Function Distance)

abbrev Completion := LoxLang.Completion (Function Distance)

/-- A piece of a run. -/
abbrev Run (α : Type) := RunOf (Function Distance) α

/-- A session: its configuration and what has become of the machine so far. -/
abbrev Session := LoxLang.Session (Function Distance)

/-! ### Evaluation -/

mutual
/-- Evaluates an expression, given an allowance of steps and levels. -/
def eval : Nat → Nat → Expr Distance → Run Value
  | 0, _, _ => throw .unfinished
  | _ + 1, 0, _ => throw .overflow
  | steps + 1, room + 1, expression =>
      expression.evaluating (eval steps room) (exec steps room)
termination_by structural steps => steps

/-- Executes a declaration or a statement, given an allowance of steps and levels. -/
def exec : Nat → Nat → Decl Distance → Run Completion
  | 0, _, _ => throw .unfinished
  | _ + 1, 0, _ => throw .overflow
  | steps + 1, room + 1, declaration =>
      match declaration with
      | .statement (.expression value) => do
          let _ ← eval steps room value
          return .normal
      | .statement (.print value) => do
          let result ← eval steps room value
          completing (Run.print result.text)
      | .statement (.block body) => do
          let frame ← Run.currentFrame >>= Run.newFrame
          Run.within frame (execAll (exec steps room) body)
      | .statement (.branch condition thenBranch elseBranch) => do
          let value ← eval steps room condition
          if value.isTrue then exec steps room (.statement thenBranch)
          else
            match elseBranch with
            | none => return .normal
            | some branch => exec steps room (.statement branch)
      | .statement (.loop condition body) => execLoop steps room condition none body
      | .statement (.forLoop none condition increment body) =>
          execLoop steps room (conditionOf condition) increment body
      | .statement (.forLoop (some first) condition increment body) => do
          let frame ← Run.currentFrame >>= Run.newFrame
          Run.within frame (execAll (exec steps room)
            [first.decl, .statement (.forLoop none condition increment body)])
      | .statement (.ret _ value) => do
          let result ← evalOpt (eval steps room) value
          return .returning result
      | .declare name initializer => do
          let value ← evalOpt (eval steps room) initializer
          completing (Run.define name.text value)
      | .function declaration => do
          let closure ← Run.currentFrame >>= fun frame => Run.newClosure declaration frame false
          completing (Run.define declaration.name.text (.function closure))
      | .classDecl name superclass methods => do
          let cls ← evalSuperclass superclass
          completing (Run.newClass name cls methods)
termination_by structural steps => steps

/-- Executes a statement, and an increment after it, as long as a condition holds and the statement
does not return. -/
def execLoop : Nat → Nat → Expr Distance → Option (Expr Distance) → Stmt Distance → Run Completion
  | 0, _, _, _, _ => throw .unfinished
  | steps + 1, room, condition, increment, body => do
      let value ← eval steps room condition
      if value.isTrue then
        let turn :=
          match increment with
          | none => exec steps room (.statement body)
          | some step => execTurn steps room step body
        turn >>= unlessReturning (execLoop steps room condition increment body)
      else
        return .normal
termination_by structural steps => steps

/-- Executes a statement and, unless it returns, an increment. -/
def execTurn : Nat → Nat → Expr Distance → Stmt Distance → Run Completion
  | 0, _, _, _ => throw .unfinished
  | _ + 1, 0, _, _ => throw .overflow
  | steps + 1, room + 1, step, body =>
      execAll (exec steps room) [.statement body, .statement (.expression step)]
termination_by structural steps => steps
end

/-! ### Sessions -/

/-- Reads a source and binds its names: the program, or how every step ends that needs it. -/
def analyze (config : Config) (room : Room) (source : String) : Except Ending (Program Distance) :=
  let scanned := scan source
  let parsed := parseWithin room.nesting config.argumentLimit scanned.tokens
  let errors := scanned.errors.toList.map .lexical ++ parsed.errors.toList.map .syntactic
  match parsed.program with
  | .error .tooDeep => .error .overflowed
  | .error .incomparableLimit => .error (.escaped .incomparableLimit)
  | .ok program =>
      if !errors.isEmpty then .error (.rejected errors)
      else if !fitsAll program room.nesting then .error .overflowed
      else
        let bound := bind program
        let errors := bound.errors.toList.map .scoping
        if errors.isEmpty then .ok bound.program else .error (.rejected errors)

/-- What a step of a session shows: the lines printed, and how it ended. -/
structure Report where
  output : Array String
  ending : Ending

namespace Session

/-- A session in which nothing has been run. -/
def start (config : Config) (clock : Nat → Float) : Session :=
  { config := config, machine := .initial clock }

/-- Looks for errors in a program without running it. -/
def check (session : Session) (source : String) : Report :=
  match session.room with
  | .error ending => { output := #[], ending := ending }
  | .ok room =>
      match analyze session.config room source with
      | .ok _ => { output := #[], ending := .completed }
      | .error ending => { output := #[], ending := ending }

/-- Runs a program whose names are bound. -/
def runBound (room : Room) (program : Program Distance) (session : Session) : Session × Report :=
  let finish (machine : Machine) (ending : Ending) : Session × Report :=
    ({ session with machine := { machine with output := #[] } },
      { output := machine.output, ending := ending })
  match execProgram (exec allowance room.evaluation) program session.machine with
  | .ok _ machine => finish machine .completed
  | .error stop machine => finish machine (LoxLang.Session.conclude (some stop)).1

/-- Runs a program, if no errors can be found in it before. -/
def run (session : Session) (source : String) : Session × Report :=
  match session.room with
  | .error ending => (session, { output := #[], ending := ending })
  | .ok room =>
      match analyze session.config room source with
      | .ok program => session.runBound room program
      | .error ending => (session, { output := #[], ending := ending })

/-- Carries out a command. -/
def perform (session : Session) : Command → Session × Report
  | .run source => session.run source
  | .check source => (session, session.check source)

/-- The session after some commands. -/
def performAll (session : Session) (history : List Command) : Session :=
  history.foldl (fun session command => (session.perform command).1) session

end Session

end LoxLang.Looping
