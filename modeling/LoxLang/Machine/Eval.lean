/-
Module: LoxLang.Machine.Eval
Purpose: Evaluating expressions, executing statements and calling functions.  Programs need not
  end, so every function takes an allowance of steps; it also takes the number of levels that
  evaluation may still nest, which is what a stack would limit.
Main exports: UnaryOp.apply, BinaryOp.apply, Completion, eval, exec, invoke, execAll
-/
import LoxLang.Machine.Basic

namespace LoxLang

variable {δ σ : Type}

/-! ### Operators -/

/-- The value of a prefix operator. -/
def UnaryOp.apply : UnaryOp → Value δ → Except RuntimeCause (Value δ)
  | not, operand => .ok (.bool !operand.isTrue)
  | negate, .number value => .ok (.number (-value))
  | negate, _ => .error .operandNotNumber

namespace BinaryOp

/-- The value of a binary operator on numbers. -/
def applyNumbers (left right : Float) : BinaryOp → Value δ
  | add => .number (left + right)
  | subtract => .number (left - right)
  | multiply => .number (left * right)
  | divide => .number (left / right)
  | equal => .bool (Number.same left right)
  | notEqual => .bool !(Number.same left right)
  | greater => .bool (left > right)
  | greaterEqual => .bool (left ≥ right)
  | less => .bool (left < right)
  | lessEqual => .bool (left ≤ right)

/-- The value of a binary operator.  Any two values can be compared for equality, numbers and
strings can be added, and everything else needs numbers. -/
def apply : BinaryOp → Value δ → Value δ → Except RuntimeCause (Value δ)
  | equal, left, right => .ok (.bool (left.same right))
  | notEqual, left, right => .ok (.bool !(left.same right))
  | op, .number left, .number right => .ok (op.applyNumbers left right)
  | add, .string left, .string right => .ok (.string (left ++ right))
  | add, _, _ => .error .operandsNotAddable
  | _, _, _ => .error .operandsNotNumbers

end BinaryOp

/-- Whether the first operand decides the value of a logical operator. -/
def LogicalOp.decides : LogicalOp → Value δ → Bool
  | or, left => left.isTrue
  | and, left => !left.isTrue

/-! ### Completions -/

/-- How a statement ends: normally, or on the way out of the function it belongs to. -/
inductive Completion (δ : Type := Function Distance) where
  | normal
  | returning (value : Value δ)
deriving Repr, Inhabited

/-- The value of a call whose body ended in this way. -/
def Completion.value : Completion δ → Value δ
  | normal => .nil
  | returning value => value

/-- A step that a statement ends with. -/
def completing (step : RunOf δ Unit) : RunOf δ (Completion δ) := fun machine =>
  match step machine with
  | .ok _ following => .ok .normal following
  | .error stop following => .error stop following

/-! ### Lists -/

/-- Evaluates expressions from left to right. -/
def evalAll (evaluate : Expr Distance → RunOf δ (Value δ)) :
    List (Expr Distance) → RunOf δ (List (Value δ))
  | [] => return []
  | expression :: rest => do
      let value ← evaluate expression
      let values ← evalAll evaluate rest
      return value :: values

/-- Executes statements in order until one of them returns. -/
def execAll (execute : σ → RunOf δ (Completion δ)) : List σ → RunOf δ (Completion δ)
  | [], machine => .ok .normal machine
  | statement :: rest, machine =>
      match execute statement machine with
      | .ok .normal following => execAll execute rest following
      | result => result

/-- Evaluates an expression that may be missing; `nil` stands for a missing one. -/
def evalOpt (evaluate : Expr Distance → RunOf δ (Value δ)) :
    Option (Expr Distance) → RunOf δ (Value δ)
  | none => return .nil
  | some expression => evaluate expression

/-- The class that a class declaration inherits from, if it names one. -/
def evalSuperclass : Option (Ident × Distance) → RunOf δ (Option (Class δ))
  | none => return none
  | some (name, distance) => do
      match ← Run.readName name distance with
      | .class_ cls => return some cls
      | _ => Run.fail .superclassNotClass name.line

/-! ### Calls -/

section Calls

variable [Declaration δ σ] (execute : σ → RunOf δ (Completion δ))

/-- Runs the body of a function with its parameters bound in a new frame.  An initializer always
yields the object it belongs to. -/
def invokeWith (closure : Closure δ) (arguments : List (Value δ)) : RunOf δ (Value δ) := do
  let frame ← Run.newFrame closure.frame
  Run.defineAll frame (Declaration.parameters closure.declaration) arguments
  let completion ← Run.within frame (execAll execute (Declaration.body closure.declaration))
  if closure.isInitializer then
    Run.readFrom closure.frame 0 "this"
  else
    return completion.value

/-- Creates an object and runs its initializer, if it has one. -/
def construct (cls : Class δ) (arguments : List (Value δ)) : RunOf δ (Value δ) := do
  let object ← Run.newObject cls
  match cls.initializer? with
  | none => return object
  | some initializer =>
      let bound ← Run.bindMethod initializer object
      let _ ← invokeWith execute bound arguments
      return object

/-- Calls a value that takes as many arguments as are given. -/
def invoke (callee : Value δ) (arguments : List (Value δ)) (line : Nat) : RunOf δ (Value δ) :=
  fun machine =>
    match callee.arity? with
    | none => Run.fail .notCallable line machine
    | some arity =>
        if arguments.length = arity then
          match callee with
          | .native .clock => Run.readClock machine
          | .function closure => invokeWith execute closure arguments machine
          | .class_ cls => construct execute cls arguments machine
          | _ => Run.fail .notCallable line machine
        else
          Run.fail (.wrongArgumentCount arity arguments.length) line machine

end Calls

/-! ### Evaluation -/

mutual
/-- Evaluates an expression, given an allowance of steps and levels. -/
def eval : Nat → Nat → Expr Distance → Run Value
  | 0, _, _, machine => .error .unfinished machine
  | _ + 1, 0, _, machine => .error .overflow machine
  | steps + 1, room + 1, expression, machine =>
      match expression with
      | .literal value => .ok (.ofLiteral value) machine
      | .read name distance => Run.readName name distance machine
      | .assign name distance value =>
          match eval steps room value machine with
          | .error stop following => .error stop following
          | .ok result following =>
              match Run.writeName name result distance following with
              | .error stop rest => .error stop rest
              | .ok _ rest => .ok result rest
      | .unary op position operand =>
          match eval steps room operand machine with
          | .error stop following => .error stop following
          | .ok value following => Run.ofExcept position.line (op.apply value) following
      | .binary left op position right =>
          match eval steps room left machine with
          | .error stop following => .error stop following
          | .ok leftValue following =>
              match eval steps room right following with
              | .error stop rest => .error stop rest
              | .ok rightValue rest =>
                  Run.ofExcept position.line (op.apply leftValue rightValue) rest
      | .logical left op right =>
          match eval steps room left machine with
          | .error stop following => .error stop following
          | .ok value following =>
              if op.decides value then .ok value following
              else eval steps room right following
      | .grouping inner => eval steps room inner machine
      | .call callee arguments close =>
          match eval steps room callee machine with
          | .error stop following => .error stop following
          | .ok function following =>
              match evalAll (eval steps room) arguments following with
              | .error stop rest => .error stop rest
              | .ok values rest => invoke (exec steps room) function values close.line rest
      | .get object name =>
          match eval steps room object machine with
          | .error stop following => .error stop following
          | .ok value following => Run.getProperty value name.text name.line following
      | .set object name value =>
          match eval steps room object machine with
          | .error stop following => .error stop following
          | .ok (.object id cls) following =>
              match eval steps room value following with
              | .error stop rest => .error stop rest
              | .ok result rest =>
                  match Run.setField (.object id cls) name.text name.line result rest with
                  | .error stop final => .error stop final
                  | .ok _ final => .ok result final
          | .ok _ following => Run.fail .fieldOfNonObject name.line following
      | .receiver keyword distance =>
          Run.readName { text := "this", position := keyword } distance machine
      | .superMethod _ distance method => Run.superMethod method distance machine

/-- Executes a statement, given an allowance of steps and levels. -/
def exec : Nat → Nat → Stmt Distance → Run Completion
  | 0, _, _, machine => .error .unfinished machine
  | _ + 1, 0, _, machine => .error .overflow machine
  | steps + 1, room + 1, statement, machine =>
      match statement with
      | .expression value =>
          match eval steps room value machine with
          | .error stop following => .error stop following
          | .ok _ following => .ok .normal following
      | .print value =>
          match eval steps room value machine with
          | .error stop following => .error stop following
          | .ok result following => completing (Run.print result.text) following
      | .declare name initializer =>
          match evalOpt (eval steps room) initializer machine with
          | .error stop following => .error stop following
          | .ok value following => completing (Run.define name.text value) following
      | .block body =>
          match Run.newFrame machine.frame machine with
          | .error stop following => .error stop following
          | .ok frame following =>
              Run.within frame (execAll (exec steps room) body) following
      | .branch condition thenBranch elseBranch =>
          match eval steps room condition machine with
          | .error stop following => .error stop following
          | .ok value following =>
              if value.isTrue then exec steps room thenBranch following
              else
                match elseBranch with
                | none => .ok .normal following
                | some branch => exec steps room branch following
      | .loop condition body => execLoop steps room condition body machine
      | .ret _ value =>
          match evalOpt (eval steps room) value machine with
          | .error stop following => .error stop following
          | .ok result following => .ok (.returning result) following
      | .function declaration =>
          match Run.newClosure declaration machine.frame false machine with
          | .error stop following => .error stop following
          | .ok closure following =>
              completing (Run.define declaration.name.text (.function closure)) following
      | .classDecl name superclass methods =>
          match evalSuperclass superclass machine with
          | .error stop following => .error stop following
          | .ok cls following => completing (Run.newClass name cls methods) following

/-- Executes a statement as long as a condition holds and the statement does not return. -/
def execLoop : Nat → Nat → Expr Distance → Stmt Distance → Run Completion
  | 0, _, _, _, machine => .error .unfinished machine
  | steps + 1, room, condition, body, machine =>
      match eval steps room condition machine with
      | .error stop following => .error stop following
      | .ok value following =>
          if value.isTrue then
            match exec steps room body following with
            | .ok .normal rest => execLoop steps room condition body rest
            | result => result
          else
            .ok .normal following
end

end LoxLang
