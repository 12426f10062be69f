/-
Module: LoxLang.Proofs.Return.Throwing
Purpose: The language with `return` as a jump.  A `return` throws its value, nothing on the way out
  looks at it, and the nearest call of a function catches it.  Statements have no other way to end
  than to come to their end.
Main exports: Signal, Throwing, Throwing.catching, Throwing.eval, Throwing.exec,
  Session.runThrowing
-/
import LoxLang.Session.Basic

namespace LoxLang

/-- What ends code before its last statement: the run stops, or a value is on its way to a call. -/
inductive Signal where
  | stop (reason : Stop)
  | thrown (value : Value)

/-- A piece of a run in which values can be thrown. -/
abbrev Throwing (α : Type) := EStateM Signal Machine α

/-- A step in which nothing is thrown. -/
def RunOf.raising {α : Type} (step : Run α) : Throwing α := fun machine =>
  match step machine with
  | .ok value following => .ok value following
  | .error reason following => .error (.stop reason) following

namespace Throwing

/-- Runs code in another frame and comes back to this one, however the code ends. -/
def within {α : Type} (frame : FrameId) (body : Throwing α) : Throwing α := fun machine =>
  let outer := machine.frame
  match body { machine with frame := frame } with
  | .ok value inner => .ok value { inner with frame := outer }
  | .error signal inner => .error signal { inner with frame := outer }

/-- Runs code and catches what is thrown in it; `nil` stands for nothing. -/
def catching (body : Throwing Unit) : Throwing Value := fun machine =>
  match body machine with
  | .ok _ following => .ok .nil following
  | .error (.thrown value) following => .ok value following
  | .error (.stop reason) following => .error (.stop reason) following

/-! ### Lists -/

/-- Evaluates expressions from left to right. -/
def evalAll (evaluate : Expr Distance → Throwing Value) :
    List (Expr Distance) → Throwing (List Value)
  | [] => return []
  | expression :: rest => do
      let value ← evaluate expression
      let values ← evalAll evaluate rest
      return value :: values

/-- Executes statements in order. -/
def execAll (execute : Stmt Distance → Throwing Unit) : List (Stmt Distance) → Throwing Unit
  | [] => return ()
  | statement :: rest => do
      execute statement
      execAll execute rest

/-- Evaluates an expression that may be missing; `nil` stands for a missing one. -/
def evalOpt (evaluate : Expr Distance → Throwing Value) : Option (Expr Distance) → Throwing Value
  | none => return .nil
  | some expression => evaluate expression

/-! ### Calls -/

section Calls

variable (execute : Stmt Distance → Throwing Unit)

/-- Runs the body of a function in a new frame and catches what it throws.  An initializer always
yields the object it belongs to. -/
def invokeWith (closure : Closure) (arguments : List Value) : Throwing Value := do
  let frame ← (Run.newFrame closure.frame).raising
  (Run.defineAll frame closure.declaration.parameters arguments).raising
  let result ← catching (within frame (execAll execute closure.declaration.body))
  if closure.isInitializer then
    (Run.readFrom closure.frame 0 "this").raising
  else
    return result

/-- Creates an object and runs its initializer, if it has one. -/
def construct (cls : Class) (arguments : List Value) : Throwing Value := do
  let object ← (Run.newObject cls).raising
  match cls.initializer? with
  | none => return object
  | some initializer =>
      let bound ← (Run.bindMethod initializer object).raising
      let _ ← invokeWith execute bound arguments
      return object

/-- Calls a value that takes as many arguments as are given. -/
def invoke (callee : Value) (arguments : List Value) (line : Nat) : Throwing Value :=
  match callee.arity? with
  | none => (Run.fail .notCallable line).raising
  | some arity =>
      if arguments.length = arity then
        match callee with
        | .native .clock => Run.readClock.raising
        | .function closure => invokeWith execute closure arguments
        | .class_ cls => construct execute cls arguments
        | _ => (Run.fail .notCallable line).raising
      else
        (Run.fail (.wrongArgumentCount arity arguments.length) line).raising

end Calls

/-! ### Evaluation -/

mutual
/-- Evaluates an expression, given an allowance of steps and levels. -/
def eval : Nat → Nat → Expr Distance → Throwing Value
  | 0, _, _ => throw (.stop .unfinished)
  | _ + 1, 0, _ => throw (.stop .overflow)
  | steps + 1, room + 1, expression =>
      match expression with
      | .literal value => return .ofLiteral value
      | .read name distance => (Run.readName name distance).raising
      | .assign name distance value => do
          let result ← eval steps room value
          (Run.writeName name result distance).raising
          return result
      | .unary op position operand => do
          let value ← eval steps room operand
          (Run.ofExcept position.line (op.apply value)).raising
      | .binary left op position right => do
          let leftValue ← eval steps room left
          let rightValue ← eval steps room right
          (Run.ofExcept position.line (op.apply leftValue rightValue)).raising
      | .logical left op right => do
          let value ← eval steps room left
          if op.decides value then return value else eval steps room right
      | .grouping inner => eval steps room inner
      | .call callee arguments close => do
          let function ← eval steps room callee
          let values ← evalAll (eval steps room) arguments
          invoke (exec steps room) function values close.line
      | .get object name => do
          let value ← eval steps room object
          (Run.getProperty value name.text name.line).raising
      | .set object name value => do
          match ← eval steps room object with
          | .object id cls => do
              let result ← eval steps room value
              (Run.setField (.object id cls) name.text name.line result).raising
              return result
          | _ => (Run.fail .fieldOfNonObject name.line).raising
      | .receiver keyword distance =>
          (Run.readName { text := "this", position := keyword } distance).raising
      | .superMethod _ distance method => (Run.superMethod method distance).raising

/-- Executes a statement, given an allowance of steps and levels.  Only `return` throws. -/
def exec : Nat → Nat → Stmt Distance → Throwing Unit
  | 0, _, _ => throw (.stop .unfinished)
  | _ + 1, 0, _ => throw (.stop .overflow)
  | steps + 1, room + 1, statement =>
      match statement with
      | .expression value => do
          let _ ← eval steps room value
      | .print value => do
          let result ← eval steps room value
          (Run.print result.text).raising
      | .declare name initializer => do
          let value ← evalOpt (eval steps room) initializer
          (Run.define name.text value).raising
      | .block body => do
          let frame ← (Run.currentFrame >>= Run.newFrame).raising
          within frame (execAll (exec steps room) body)
      | .branch condition thenBranch elseBranch => do
          let value ← eval steps room condition
          if value.isTrue then exec steps room thenBranch
          else
            match elseBranch with
            | none => return ()
            | some branch => exec steps room branch
      | .loop condition body => execLoop steps room condition body
      | .ret _ value => do
          let result ← evalOpt (eval steps room) value
          throw (.thrown result)
      | .function declaration => do
          let closure ← (Run.currentFrame >>= fun frame =>
            Run.newClosure declaration frame false).raising
          (Run.define declaration.name.text (.function closure)).raising
      | .classDecl name superclass methods => do
          let cls ← (evalSuperclass superclass).raising
          (Run.newClass name cls methods).raising

/-- Executes a statement as long as a condition holds. -/
def execLoop : Nat → Nat → Expr Distance → Stmt Distance → Throwing Unit
  | 0, _, _, _ => throw (.stop .unfinished)
  | steps + 1, room, condition, body => do
      let value ← eval steps room condition
      if value.isTrue then
        exec steps room body
        execLoop steps room condition body
      else
        return ()
end

end Throwing

/-! ### Sessions -/

namespace Session

/-- Runs a program whose names are bound.  The value itself is the outcome if one is thrown that no
call catches. -/
def runBoundThrowing (room : Room) (program : Program Distance) (events : List Event)
    (session : Session) : Session × Except Value Outcome :=
  let conclusion (stop : Option Stop) (machine : Machine) : Outcome :=
    { output := machine.output
      events := events ++ (conclude stop).2
      ending := (conclude stop).1 }
  let (machine, outcome) : Machine × Except Value Outcome :=
    match Throwing.execAll (Throwing.exec allowance room.evaluation) program session.machine with
    | .ok _ machine => (machine, .ok (conclusion none machine))
    | .error (.stop reason) machine => (machine, .ok (conclusion (some reason) machine))
    | .error (.thrown value) machine => (machine, .error value)
  ({ session with machine := { machine with output := #[] } }, outcome)

/-- Runs a program, if no errors can be found in it before. -/
def runThrowing (session : Session) (source : String) : Session × Except Value Outcome :=
  match session.room with
  | .error ending => (session, .ok (refuse ending))
  | .ok room =>
      let analysis := analyze session.config room source
      match analysis.program with
      | .ok program => session.runBoundThrowing room program analysis.events
      | .error ending =>
          (session,
            .ok { output := #[]
                  events := analysis.events ++ notRunning ending
                  ending := ending })

end Session

end LoxLang
