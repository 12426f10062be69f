/-
Module: LoxLang.Proofs.Return.Agreement
Purpose: Passing completions on is throwing.  Every step of evaluation is carried over to the
  language in which `return` throws, and of an accepted program no statement returns, so a run
  shows the same in both.
Main exports: RunOf.signalling, Throwing.eval_and_exec_agree, Stmt.containsReturn,
  containsReturn_of_returning, analyze_containsReturn, Session.runThrowing_eq
-/
import LoxLang.Proofs.Return.Throwing
import LoxLang.Proofs.Run.Acceptance
import LoxLang.Proofs.Run.Unfolding
import LoxLang.Proofs.Scope.Clean
import LoxLang.Proofs.Scope.Composition

namespace LoxLang

/-! ### Completions as signals -/

namespace RunOf

/-- A step whose completion is made a signal: returning is throwing. -/
def signalling (step : Run Completion) : Throwing Unit := fun machine =>
  match step machine with
  | .ok .normal following => .ok () following
  | .ok (.returning value) following => .error (.thrown value) following
  | .error reason following => .error (.stop reason) following

variable {α β : Type}

@[simp] theorem raising_pure (value : α) : (pure value : Run α).raising = pure value :=
  rfl

@[simp] theorem raising_bind (step : Run α) (next : α → Run β) :
    (step >>= next).raising = step.raising >>= fun value => (next value).raising := by
  funext machine
  simp only [raising, bind, EStateM.bind]
  cases step machine <;> rfl

@[simp] theorem signalling_bind (step : Run α) (next : α → Run Completion) :
    (step >>= next).signalling = step.raising >>= fun value => (next value).signalling := by
  funext machine
  simp only [raising, signalling, bind, EStateM.bind]
  cases step machine <;> rfl

@[simp] theorem signalling_normal :
    (pure Completion.normal : Run Completion).signalling = pure () :=
  rfl

@[simp] theorem signalling_returning (value : Value) :
    (pure (Completion.returning value) : Run Completion).signalling = throw (.thrown value) :=
  rfl

@[simp] theorem signalling_completing (step : Run Unit) :
    (completing step).signalling = step.raising := by
  funext machine
  simp only [completing, signalling, raising]
  cases step machine <;> rfl

/-- What comes after a statement unless it returns comes after it unless it throws. -/
theorem signalling_unlessReturning (step next : Run Completion) :
    (step >>= unlessReturning next).signalling = step.signalling >>= fun _ => next.signalling := by
  funext machine
  simp only [signalling, bind, EStateM.bind]
  cases step machine with
  | error reason following => rfl
  | ok completion following => cases completion <;> rfl

@[simp] theorem signalling_within (frame : FrameId) (body : Run Completion) :
    (Run.within frame body).signalling = Throwing.within frame body.signalling := by
  funext machine
  simp only [Run.within, signalling, Throwing.within]
  cases body { machine with frame := frame } with
  | error reason inner => rfl
  | ok completion inner => cases completion <;> rfl

/-- The value of a completion is what is caught. -/
theorem raising_value (body : Run Completion) (next : Value → Run Value) :
    (body >>= fun completion => next completion.value).raising =
      Throwing.catching body.signalling >>= fun value => (next value).raising := by
  funext machine
  simp only [raising, signalling, Throwing.catching, bind, EStateM.bind]
  cases body machine with
  | error reason following => rfl
  | ok completion following => cases completion <;> rfl

theorem raising_ite {condition : Prop} [Decidable condition] (first second : Run α) :
    (if condition then first else second).raising =
      if condition then first.raising else second.raising := by
  split <;> rfl

end RunOf

/-! ### Evaluation -/

namespace Throwing

section Lists

variable {evaluate : Expr Distance → Run Value} {execute : Stmt Distance → Run Completion}

theorem evalAll_agrees (es : List (Expr Distance)) :
    evalAll (fun e => (evaluate e).raising) es = (LoxLang.evalAll evaluate es).raising := by
  induction es with
  | nil => rfl
  | cons e rest ih => simp only [evalAll, LoxLang.evalAll, ih, RunOf.raising_bind, RunOf.raising_pure]

theorem evalOpt_agrees (e : Option (Expr Distance)) :
    evalOpt (fun e => (evaluate e).raising) e = (LoxLang.evalOpt evaluate e).raising := by
  cases e <;> rfl

theorem execAll_agrees (body : List (Stmt Distance)) :
    execAll (fun s => (execute s).signalling) body = (LoxLang.execAll execute body).signalling := by
  induction body with
  | nil => rfl
  | cons s rest ih => rw [execAll_cons, RunOf.signalling_unlessReturning, execAll, ih]

theorem invokeWith_agrees (closure : Closure) (arguments : List Value) :
    invokeWith (fun s => (execute s).signalling) closure arguments =
      (LoxLang.invokeWith execute closure arguments).raising := by
  rw [invokeWith, LoxLang.invokeWith, RunOf.raising_bind]
  congr 1
  funext frame
  rw [RunOf.raising_bind]
  congr 1
  funext _
  rw [execAll_agrees, ← RunOf.signalling_within]
  let yields (value : Value) : Run Value :=
    if closure.isInitializer then Run.readFrom closure.frame 0 "this" else pure value
  have caught := RunOf.raising_value
    (Run.within frame (LoxLang.execAll execute closure.declaration.body)) yields
  simp only [yields, RunOf.raising_ite, RunOf.raising_pure] at caught
  exact caught.symm

theorem construct_agrees (cls : Class) (arguments : List Value) :
    construct (fun s => (execute s).signalling) cls arguments =
      (LoxLang.construct execute cls arguments).raising := by
  simp only [construct, LoxLang.construct, RunOf.raising_bind]
  congr 1
  funext object
  cases cls.initializer? with
  | none => rfl
  | some initializer => simp only [invokeWith_agrees, RunOf.raising_bind, RunOf.raising_pure]

theorem invoke_agrees (callee : Value) (arguments : List Value) (line : Nat) :
    invoke (fun s => (execute s).signalling) callee arguments line =
      (LoxLang.invoke execute callee arguments line).raising := by
  unfold invoke
  funext machine
  cases callee with
  | function closure =>
      simp only [Value.arity?, LoxLang.invoke, RunOf.raising, invokeWith_agrees]
      split <;> rfl
  | class_ cls =>
      simp only [Value.arity?, LoxLang.invoke, RunOf.raising, construct_agrees]
      split <;> rfl
  | native function =>
      cases function
      simp only [Value.arity?, LoxLang.invoke, RunOf.raising]
      split <;> rfl
  | _ => rfl

end Lists

/-- Every step of evaluation is carried over. -/
theorem eval_and_exec_agree (steps : Nat) :
    (∀ room, eval steps room = fun e => (LoxLang.eval steps room e).raising) ∧
    (∀ room, exec steps room = fun s => (LoxLang.exec steps room s).signalling) ∧
    ∀ room condition body, execLoop steps room condition body =
      (LoxLang.execLoop steps room condition body).signalling := by
  induction steps with
  | zero => exact ⟨fun _ => rfl, fun _ => rfl, fun _ _ _ => rfl⟩
  | succ steps ih =>
      obtain ⟨evaluates, executes, repeats⟩ := ih
      refine ⟨fun room => funext fun e => ?_, fun room => funext fun s => ?_,
        fun room condition body => ?_⟩
      · cases room with
        | zero => rfl
        | succ room =>
            rw [eval_succ]
            cases e with
            | literal | read | receiver | superMethod => rfl
            | grouping inner => simp only [eval, Expr.evaluating, evaluates]
            | assign | unary | binary | get =>
                simp only [eval, Expr.evaluating, evaluates, RunOf.raising_bind, RunOf.raising_pure]
            | logical left op right =>
                simp only [eval, Expr.evaluating, evaluates, RunOf.raising_bind, RunOf.raising_ite,
                  RunOf.raising_pure]
            | call callee arguments close =>
                simp only [eval, Expr.evaluating, evaluates, executes, evalAll_agrees,
                  invoke_agrees, RunOf.raising_bind]
            | set object name value =>
                simp only [eval, Expr.evaluating, evaluates, RunOf.raising_bind]
                congr 1
                funext target
                cases target <;> simp only [RunOf.raising_bind, RunOf.raising_pure]
      · cases room with
        | zero => rfl
        | succ room =>
            rw [exec_succ]
            cases s with
            | expression | print | function | classDecl =>
                simp only [exec, Stmt.executing, evaluates, RunOf.signalling_bind,
                  RunOf.signalling_normal, RunOf.signalling_completing]
            | declare | ret =>
                simp only [exec, Stmt.executing, evaluates, evalOpt_agrees, RunOf.signalling_bind,
                  RunOf.signalling_returning, RunOf.signalling_completing]
            | block body =>
                simp only [exec, Stmt.executing, executes, execAll_agrees, RunOf.signalling_bind,
                  RunOf.signalling_within]
            | branch condition thenBranch elseBranch =>
                simp only [exec, Stmt.executing, evaluates, executes, RunOf.signalling_bind]
                congr 1
                funext value
                cases value.isTrue <;> cases elseBranch <;> rfl
            | loop condition body => simp only [exec, Stmt.executing, repeats]
      · rw [execLoop_succ]
        simp only [execLoop, Stmt.repeating, evaluates, executes, repeats, RunOf.signalling_bind]
        congr 1
        funext value
        cases value.isTrue with
        | false => rfl
        | true => exact (RunOf.signalling_unlessReturning _ _).symm

end Throwing

/-! ### Statements that return -/

namespace Stmt

variable {ρ : Type}

mutual
/-- Whether a statement contains a `return` that does not belong to a function or class in it. -/
def containsReturn : Stmt ρ → Bool
  | ret _ _ => true
  | block body => containsReturnAny body
  | branch _ thenBranch none => thenBranch.containsReturn
  | branch _ thenBranch (some elseBranch) =>
      thenBranch.containsReturn || elseBranch.containsReturn
  | loop _ body => body.containsReturn
  | expression _ | print _ | declare _ _ | function _ | classDecl _ _ _ => false

/-- Whether one of some statements contains such a `return`. -/
def containsReturnAny : List (Stmt ρ) → Bool
  | [] => false
  | statement :: rest => statement.containsReturn || containsReturnAny rest
end

theorem containsReturnAny_eq_false {body : List (Stmt ρ)} (none : containsReturnAny body = false) :
    ∀ s ∈ body, s.containsReturn = false := by
  induction body with
  | nil => exact fun _ member => nomatch member
  | cons first rest ih =>
      simp only [containsReturnAny, Bool.or_eq_false_iff] at none
      exact List.forall_mem_cons.2 ⟨none.1, ih none.2⟩

end Stmt

/-- A result is a return only if something says so. -/
def ReturnsOnlyIf (possible : Bool) (result : EStateM.Result Stop Machine Completion) : Prop :=
  ∀ value following, result = .ok (.returning value) following → possible = true

namespace ReturnsOnlyIf

variable {possible : Bool} {machine : Machine}

theorem error (stop : Stop) (following : Machine) :
    ReturnsOnlyIf possible (.error stop following) := by
  intro value after returns
  cases returns

theorem normal (following : Machine) : ReturnsOnlyIf possible (.ok .normal following) := by
  intro value after returns
  cases returns

theorem completing (step : Run Unit) (machine : Machine) :
    ReturnsOnlyIf possible (LoxLang.completing step machine) := by
  unfold LoxLang.completing
  split
  · exact normal _
  · exact error _ _

theorem mono {weaker : Bool} {result : EStateM.Result Stop Machine Completion}
    (returns : ReturnsOnlyIf possible result) (implies : possible = true → weaker = true) :
    ReturnsOnlyIf weaker result :=
  fun value following isReturn => implies (returns value following isReturn)

/-- What is evaluated before the rest of a statement does not return. -/
theorem after {α : Type} {first : Run α} {next : α → Run Completion}
    (goesOn : ∀ value following, ReturnsOnlyIf possible (next value following)) :
    ReturnsOnlyIf possible ((first >>= next) machine) := by
  simp only [bind, EStateM.bind]
  split
  · exact goesOn _ _
  · exact error _ _

/-- Going back to the frame that was running does not return. -/
theorem within {body : Run Completion} (frame : FrameId)
    (inside : ReturnsOnlyIf possible (body { machine with frame := frame })) :
    ReturnsOnlyIf possible (Run.within frame body machine) := by
  simp only [Run.within]
  match body { machine with frame := frame }, inside with
  | .error stop inner, _ => exact error stop _
  | .ok completion inner, inside =>
      rintro value following ⟨⟩
      exact inside value inner rfl

/-- If one statement or what comes after it returns, one of them says so. -/
theorem unlessReturning {first next : Run Completion}
    (one : ReturnsOnlyIf possible (first machine))
    (others : ∀ following, ReturnsOnlyIf possible (next following)) :
    ReturnsOnlyIf possible ((first >>= LoxLang.unlessReturning next) machine) := by
  simp only [bind, EStateM.bind]
  match first machine, one with
  | .error stop following, _ => exact error stop following
  | .ok .normal following, _ => exact others following
  | .ok (.returning value) following, one =>
      exact fun _ _ _ => one value following rfl

end ReturnsOnlyIf

theorem execAll_returnsOnlyIf {execute : Stmt Distance → Run Completion}
    (executes : ∀ s machine, ReturnsOnlyIf s.containsReturn (execute s machine))
    (body : List (Stmt Distance)) (machine : Machine) :
    ReturnsOnlyIf (Stmt.containsReturnAny body) (execAll execute body machine) := by
  induction body generalizing machine with
  | nil => exact .normal machine
  | cons s rest ih =>
      rw [execAll_cons, Stmt.containsReturnAny]
      refine .unlessReturning ((executes s machine).mono fun first => ?_) fun following =>
        (ih following).mono fun later => ?_
      · rw [first, Bool.true_or]
      · rw [later, Bool.or_true]

/-- Only a statement that contains a `return` returns. -/
theorem exec_returnsOnlyIf (steps : Nat) :
    (∀ room s machine, ReturnsOnlyIf s.containsReturn (exec steps room s machine)) ∧
    ∀ room condition body machine,
      ReturnsOnlyIf body.containsReturn (execLoop steps room condition body machine) := by
  induction steps with
  | zero => exact ⟨fun _ _ machine => .error _ machine, fun _ _ _ machine => .error _ machine⟩
  | succ steps ih =>
      obtain ⟨executes, repeats⟩ := ih
      refine ⟨fun room s machine => ?_, fun room condition body machine => ?_⟩
      · cases room with
        | zero => exact .error _ machine
        | succ room =>
            rw [exec_succ]
            cases s with
            | expression e => exact .after fun _ following => .normal following
            | print e | declare name e | function declaration
            | classDecl name superclass methods =>
                exact .after fun _ following => .completing _ following
            | block body =>
                exact .after fun frame following =>
                  .within frame (execAll_returnsOnlyIf (executes room) body _)
            | branch condition thenBranch elseBranch =>
                refine .after fun value following => ?_
                cases elseBranch with
                | none =>
                    split
                    · exact executes room thenBranch following
                    · exact .normal following
                | some branch =>
                    rw [Stmt.containsReturn]
                    split
                    · exact (executes room thenBranch following).mono fun first => by
                        rw [first, Bool.true_or]
                    · exact (executes room branch following).mono fun second => by
                        rw [second, Bool.or_true]
            | loop condition body => exact repeats room condition body machine
            | ret keyword e => exact fun _ _ _ => rfl
      · rw [execLoop_succ]
        refine .after fun value following => ?_
        split
        · exact .unlessReturning (executes room body following) (repeats room condition body)
        · exact .normal following

/-! ### Accepted programs -/

namespace Stmt

open Binder

/-- What never contains a `return` contains none if it is bound without an error. -/
theorem containsReturn_of_always {step : Binder (Stmt Distance)} {result : Stmt Distance}
    {context : Context} {scopes after : List Scope}
    (clean : step.Clean context scopes result after)
    (always : step.Always fun result => result.containsReturn = false) :
    result.containsReturn = false := by
  have holds := always ⟨context, scopes, #[]⟩
  rwa [show step ⟨context, scopes, #[]⟩ = _ from clean] at holds

mutual
/-- Outside of functions nothing that returns is bound without an error. -/
theorem bind_containsReturn {context : Context} (outside : context.function = .outside) :
    ∀ (s : Stmt Unit) {result : Stmt Distance} {scopes after : List Scope},
      s.bind.Clean context scopes result after → result.containsReturn = false
  | expression _, _, _, _, clean | print _, _, _, _, clean => by
      obtain ⟨_, -, rfl⟩ := clean_map.1 clean
      rfl
  | declare _ _, _, _, _, clean =>
      containsReturn_of_always clean (.after fun _ => .after fun _ => .after fun _ => .pure rfl)
  | function (.mk _ _ _), _, _, _, clean =>
      containsReturn_of_always clean (.after fun _ => .after fun _ => .pure rfl)
  | classDecl _ none _, _, _, _, clean =>
      containsReturn_of_always clean (.inClass _ (.after fun _ => .after fun _ => .pure rfl))
  | classDecl _ (some (_, _)) _, _, _, _, clean =>
      containsReturn_of_always clean (.inClass _ (.after fun _ => .after fun _ => .after fun _ =>
        .after fun _ => .after fun _ => .pure rfl))
  | block body, _, _, _, clean => by
      obtain ⟨_, inside, rfl⟩ := clean_map.1 clean
      obtain ⟨_, bound, -⟩ := within_clean.1 inside
      simp only [containsReturn, bindAll_containsReturn outside body bound]
  | branch condition thenBranch none, _, _, _, clean => by
      obtain ⟨_, _, -, rest⟩ := clean.split fun _ =>
        (bind_steady thenBranch).bind fun _ => .pure _
      obtain ⟨_, bound, rfl⟩ := clean_map.1 rest
      simp only [containsReturn, bind_containsReturn outside thenBranch bound]
  | branch condition thenBranch (some elseBranch), _, _, _, clean => by
      obtain ⟨_, _, -, rest⟩ := clean.split fun _ => (bind_steady thenBranch).bind fun _ =>
        (bind_steady elseBranch).bind fun _ => .pure _
      obtain ⟨_, _, bound, rest⟩ := rest.split fun _ =>
        (bind_steady elseBranch).bind fun _ => .pure _
      obtain ⟨_, boundToo, rfl⟩ := clean_map.1 rest
      simp only [containsReturn, bind_containsReturn outside thenBranch bound,
        bind_containsReturn outside elseBranch boundToo, Bool.or_self]
  | loop condition body, _, _, _, clean => by
      obtain ⟨_, _, -, rest⟩ := clean.split fun _ => (bind_steady body).bind fun _ => .pure _
      obtain ⟨_, bound, rfl⟩ := clean_map.1 rest
      simp only [containsReturn, bind_containsReturn outside body bound]
  | ret keyword value, _, _, _, clean => by
      obtain ⟨_, _, checked, -⟩ := clean.split fun _ =>
        (Expr.bindOpt_steady value).bind fun _ => .pure _
      have allowed := (checkReturn_clean.1 checked).1
      rw [mayReturn, outside] at allowed
      exact allowed.elim

theorem bindAll_containsReturn {context : Context} (outside : context.function = .outside) :
    ∀ (ss : List (Stmt Unit)) {results : List (Stmt Distance)} {scopes after : List Scope},
      (bindAll ss).Clean context scopes results after → containsReturnAny results = false
  | [], _, _, _, clean => by
      obtain ⟨rfl, -⟩ := clean_pure.1 clean
      rfl
  | s :: rest, _, _, _, clean => by
      obtain ⟨_, _, bound, others⟩ := clean.split fun _ =>
        (bindAll_steady rest).bind fun _ => .pure _
      obtain ⟨_, boundRest, rfl⟩ := clean_map.1 others
      simp only [containsReturnAny, bind_containsReturn outside s bound,
        bindAll_containsReturn outside rest boundRest, Bool.or_self]
end

end Stmt

/-- No statement of an accepted program contains a `return` outside of functions and classes. -/
theorem analyze_containsReturn {config : Config} {room : Room} {source : String}
    {program : Program Distance} (accepted : (analyze config room source).program = .ok program) :
    ∀ s ∈ program, s.containsReturn = false := by
  obtain ⟨plain, accepts⟩ := analyze_eq_ok.1 accepted
  obtain ⟨after, clean⟩ := Program.clean_of_bind accepts.bound
  exact Stmt.containsReturnAny_eq_false (Stmt.bindAll_containsReturn rfl plain clean)

/-- A statement of an accepted program that completes does so normally. -/
theorem analyze_completes {config : Config} {room : Room} {source : String}
    {program : Program Distance} (accepted : (analyze config room source).program = .ok program)
    {s : Stmt Distance} (member : s ∈ program) {steps levels : Nat} {machine following : Machine}
    {completion : Completion} (completes : exec steps levels s machine = .ok completion following) :
    completion = .normal := by
  cases completion with
  | normal => rfl
  | returning value =>
      have contains := (exec_returnsOnlyIf steps).1 levels s machine value following completes
      rw [analyze_containsReturn accepted s member] at contains
      cases contains

/-! ### Sessions -/

/-- A program whose statements complete normally throws nothing. -/
theorem Throwing.execProgram_agrees {execute : Stmt Distance → Run Completion}
    {program : Program Distance}
    (normal : ∀ s ∈ program, ∀ machine following completion,
      execute s machine = .ok completion following → completion = .normal) (machine : Machine) :
    Throwing.execAll (fun s => (execute s).signalling) program machine =
      (execProgram execute program).raising machine := by
  induction program generalizing machine with
  | nil => rfl
  | cons s rest ih =>
      have later := ih fun other member => normal other (List.mem_cons_of_mem s member)
      rw [execProgram_cons, RunOf.raising_bind]
      simp only [Throwing.execAll, bind, EStateM.bind, RunOf.signalling, RunOf.raising]
      cases result : execute s machine with
      | error reason following => rfl
      | ok completion following =>
          cases normal s List.mem_cons_self machine following completion result
          exact later following

/-- A run shows the same, and leaves behind the same, if `return` throws. -/
theorem Session.runThrowing_eq (session : Session) (source : String) :
    session.runThrowing source = ((session.run source).1, .ok (session.run source).2) := by
  cases available : session.room with
  | error ending => simp only [runThrowing, run, available]
  | ok room =>
      cases analyzed : (analyze session.config room source).program with
      | error ending => simp only [runThrowing, run, available, analyzed]
      | ok program =>
          have normal : ∀ s ∈ program, ∀ machine following completion,
              exec allowance room.evaluation s machine = .ok completion following →
              completion = .normal :=
            fun s member machine following completion completes =>
              analyze_completes analyzed member completes
          have agrees := Throwing.execProgram_agrees normal session.machine
          simp only [runThrowing, run, available, analyzed, runBoundThrowing, runBound,
            (Throwing.eval_and_exec_agree allowance).2.1, agrees, RunOf.raising]
          cases execProgram (exec allowance room.evaluation) program session.machine <;> rfl

end LoxLang
