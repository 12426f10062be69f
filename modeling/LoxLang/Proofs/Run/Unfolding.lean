/-
Module: LoxLang.Proofs.Run.Unfolding
Purpose: One level of evaluation as a sequence of steps, given how the parts are evaluated.  What is
  kept by putting steps one after the other is proved of evaluation through these forms.
Main exports: Expr.evaluating, Stmt.executing, Stmt.repeating, eval_succ, exec_succ, execLoop_succ,
  execAll_cons, execProgram_cons
-/
import LoxLang.Session.Basic

namespace LoxLang

/-! ### Steps in the frame that is running -/

namespace Run

variable {δ : Type}

theorem readAt_eq (distance : Nat) (name : String) :
    (readAt distance name : RunOf δ (Value δ)) =
      currentFrame >>= fun frame => readFrom frame distance name :=
  rfl

theorem define_eq (name : String) (value : Value δ) :
    define name value = currentFrame >>= fun frame => defineIn frame name value :=
  rfl

end Run

/-! ### One level -/

section Expressions

variable {δ σ : Type} [Declaration δ σ] (evaluate : Expr Distance → RunOf δ (Value δ))
  (execute : σ → RunOf δ (Completion δ))

/-- What an expression does, given what its parts and the bodies of functions do. -/
def Expr.evaluating : Expr Distance → RunOf δ (Value δ)
  | literal value => return .ofLiteral value
  | read name distance => Run.readName name distance
  | assign name distance value => do
      let result ← evaluate value
      Run.writeName name result distance
      return result
  | unary op position operand => do
      let value ← evaluate operand
      Run.ofExcept position.line (op.apply value)
  | binary left op position right => do
      let leftValue ← evaluate left
      let rightValue ← evaluate right
      Run.ofExcept position.line (op.apply leftValue rightValue)
  | logical left op right => do
      let value ← evaluate left
      if op.decides value then return value else evaluate right
  | grouping inner => evaluate inner
  | call callee arguments close => do
      let function ← evaluate callee
      let values ← evalAll evaluate arguments
      invoke execute function values close.line
  | get object name => do
      let value ← evaluate object
      Run.getProperty value name.text name.line
  | set object name value => do
      match ← evaluate object with
      | .object id cls => do
          let result ← evaluate value
          Run.setField (.object id cls) name.text name.line result
          return result
      | _ => Run.fail .fieldOfNonObject name.line
  | receiver keyword distance => Run.readName { text := "this", position := keyword } distance
  | superMethod _ distance method => Run.superMethod method distance

/-- Goes on unless a statement returns. -/
def unlessReturning (next : RunOf δ (Completion δ)) : Completion δ → RunOf δ (Completion δ)
  | .normal => next
  | .returning value => return .returning value

end Expressions

section Statements

variable (evaluate : Expr Distance → Run Value) (execute : Stmt Distance → Run Completion)

/-- What a statement does, given what its parts and loops do. -/
def Stmt.executing (repeatWhile : Expr Distance → Stmt Distance → Run Completion) :
    Stmt Distance → Run Completion
  | expression value => do
      let _ ← evaluate value
      return .normal
  | print value => do
      let result ← evaluate value
      completing (Run.print result.text)
  | declare name initializer => do
      let value ← evalOpt evaluate initializer
      completing (Run.define name.text value)
  | block body => do
      let frame ← Run.currentFrame >>= Run.newFrame
      Run.within frame (execAll execute body)
  | branch condition thenBranch elseBranch => do
      let value ← evaluate condition
      if value.isTrue then execute thenBranch
      else elseBranch.elim (pure .normal) execute
  | loop condition body => repeatWhile condition body
  | ret _ value => do
      let result ← evalOpt evaluate value
      return .returning result
  | function declaration => do
      let closure ← Run.currentFrame >>= fun frame => Run.newClosure declaration frame false
      completing (Run.define declaration.name.text (.function closure))
  | classDecl name superclass methods => do
      let cls ← evalSuperclass superclass
      completing (Run.newClass name cls methods)

/-- One turn of a loop, given what the next turns do. -/
def Stmt.repeating (again : Run Completion) (body : Stmt Distance) (condition : Expr Distance) :
    Run Completion := do
  let value ← evaluate condition
  if value.isTrue then execute body >>= unlessReturning again else return .normal

end Statements

/-! ### Evaluation in these forms -/

section Equations

variable (steps room : Nat)

theorem eval_succ (e : Expr Distance) :
    eval (steps + 1) (room + 1) e = e.evaluating (eval steps room) (exec steps room) := by
  funext machine
  cases e with
  | literal | read | grouping | receiver | superMethod => rfl
  | unary op position part | get part name =>
      simp only [eval, Expr.evaluating, bind, EStateM.bind]
      cases eval steps room part machine <;> rfl
  | assign name distance value =>
      simp only [eval, Expr.evaluating, bind, EStateM.bind]
      cases eval steps room value machine with
      | error stop following => rfl
      | ok result following =>
          dsimp only
          cases Run.writeName name result distance following <;> rfl
  | binary left op position right =>
      simp only [eval, Expr.evaluating, bind, EStateM.bind]
      cases eval steps room left machine with
      | error stop following => rfl
      | ok value following =>
          dsimp only
          cases eval steps room right following <;> rfl
  | logical left op right =>
      simp only [eval, Expr.evaluating, bind, EStateM.bind]
      cases eval steps room left machine with
      | error stop following => rfl
      | ok value following =>
          dsimp only
          cases op.decides value <;> rfl
  | call callee arguments close =>
      simp only [eval, Expr.evaluating, bind, EStateM.bind]
      cases eval steps room callee machine with
      | error stop following => rfl
      | ok function following =>
          dsimp only
          cases evalAll (eval steps room) arguments following <;> rfl
  | set object name value =>
      simp only [eval, Expr.evaluating, bind, EStateM.bind]
      cases eval steps room object machine with
      | error stop following => rfl
      | ok target following =>
          cases target with
          | object id cls =>
              dsimp only [EStateM.bind]
              cases eval steps room value following <;> rfl
          | _ => rfl

theorem exec_succ (s : Stmt Distance) :
    exec (steps + 1) (room + 1) s =
      s.executing (eval steps room) (exec steps room) (execLoop steps room) := by
  funext machine
  cases s with
  | block | loop | function => rfl
  | expression value | print value =>
      simp only [exec, Stmt.executing, bind, EStateM.bind]
      cases eval steps room value machine <;> rfl
  | declare name value | ret keyword value =>
      simp only [exec, Stmt.executing, bind, EStateM.bind]
      cases evalOpt (eval steps room) value machine <;> rfl
  | branch condition thenBranch elseBranch =>
      simp only [exec, Stmt.executing, bind, EStateM.bind]
      cases eval steps room condition machine with
      | error stop following => rfl
      | ok value following =>
          dsimp only
          cases value.isTrue <;> cases elseBranch <;> rfl
  | classDecl name superclass methods =>
      simp only [exec, Stmt.executing, bind, EStateM.bind]
      cases evalSuperclass superclass machine <;> rfl

theorem execLoop_succ (condition : Expr Distance) (body : Stmt Distance) :
    execLoop (steps + 1) room condition body =
      body.repeating (eval steps room) (exec steps room) (execLoop steps room condition body)
        condition := by
  funext machine
  simp only [execLoop, Stmt.repeating, bind, EStateM.bind]
  cases eval steps room condition machine with
  | error stop following => rfl
  | ok value following =>
      dsimp only
      cases value.isTrue with
      | false => rfl
      | true =>
          simp only [↓reduceIte, EStateM.bind]
          cases exec steps room body following with
          | error stop rest => rfl
          | ok completion rest => cases completion <;> rfl

end Equations

section Lists

variable {δ σ : Type} (execute : σ → RunOf δ (Completion δ))

theorem execAll_cons (s : σ) (rest : List σ) :
    execAll execute (s :: rest) = execute s >>= unlessReturning (execAll execute rest) := by
  funext machine
  simp only [execAll, bind, EStateM.bind]
  cases execute s machine with
  | error stop following => rfl
  | ok completion following => cases completion <;> rfl

theorem execProgram_cons (s : σ) (rest : List σ) :
    execProgram execute (s :: rest) = execute s >>= fun _ => execProgram execute rest := by
  funext machine
  simp only [execProgram, bind, EStateM.bind]
  cases execute s machine <;> rfl

end Lists

end LoxLang
