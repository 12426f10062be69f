/-
Module: LoxLang.Proofs.Depth.Running
Purpose: Running with more room for nested evaluation.  What does not overflow with the less room
  does the same with more; what overflows has printed a beginning of what is printed with more.
Main exports: Machine.lines, RunsDeeper, eval_and_exec_deeper, execProgram_deeper
-/
import LoxLang.Proofs.Depth.Basic
import LoxLang.Proofs.Run.Unfolding

namespace LoxLang

/-- The lines printed so far, in order. -/
def Machine.lines (machine : Machine) : List String :=
  machine.output.toList

/-- A piece of a run and the same piece with more room for nested evaluation. -/
abbrev RunsDeeper {α : Type} (run deeper : Run α) : Prop :=
  Deepens .overflow Machine.lines run deeper

/-! ### Steps that take no room -/

namespace Run

variable {α : Type}

/-- A step that prints nothing and needs no room. -/
theorem deeper_of_quiet {step : Run α}
    (quiet : ∀ machine, (reached (step machine)).output = machine.output) :
    RunsDeeper step step := by
  intro machine
  refine .same ?_
  rw [Machine.lines, Machine.lines, quiet machine]

theorem print_deeper {line : String} : RunsDeeper (print line) (print line) := by
  intro machine
  refine .same ?_
  simp only [print, reached, Machine.lines, Array.toList_push]
  exact List.prefix_append _ _

theorem fail_deeper {cause : RuntimeCause} {line : Nat} :
    RunsDeeper (fail cause line : Run α) (fail cause line) :=
  deeper_of_quiet fun _ => rfl

theorem ofExcept_deeper {line : Nat} {result : Except RuntimeCause α} :
    RunsDeeper (ofExcept line result) (ofExcept line result) :=
  deeper_of_quiet fun _ => by cases result <;> rfl

theorem readClock_deeper : RunsDeeper readClock readClock :=
  deeper_of_quiet fun _ => rfl

theorem newFrame_deeper {parent : FrameId} : RunsDeeper (newFrame parent) (newFrame parent) :=
  deeper_of_quiet fun _ => rfl

theorem defineIn_deeper {frame : FrameId} {name : String} {value : Value} :
    RunsDeeper (defineIn frame name value) (defineIn frame name value) :=
  deeper_of_quiet fun _ => rfl

theorem defineAll_deeper {frame : FrameId} {names : List Ident} {values : List Value} :
    RunsDeeper (defineAll frame names values) (defineAll frame names values) := by
  induction names generalizing values with
  | nil => exact .pure ()
  | cons name names ih =>
      cases values with
      | nil => exact .pure ()
      | cons value values => exact defineIn_deeper.bind fun _ => ih

theorem readFrom_deeper {frame : FrameId} {distance : Nat} {name : String} :
    RunsDeeper (readFrom frame distance name) (readFrom frame distance name) :=
  deeper_of_quiet fun _ => by
    simp only [readFrom]
    split <;> rfl

theorem readAt_deeper {distance : Nat} {name : String} :
    RunsDeeper (readAt distance name) (readAt distance name) :=
  fun machine => readFrom_deeper machine

theorem readName_deeper {name : Ident} {distance : Distance} :
    RunsDeeper (readName name distance) (readName name distance) := by
  cases distance with
  | some distance => exact readAt_deeper
  | none =>
      refine deeper_of_quiet fun _ => ?_
      simp only [readName, readGlobal]
      split <;> rfl

theorem writeName_deeper {name : Ident} {value : Value} {distance : Distance} :
    RunsDeeper (writeName name value distance) (writeName name value distance) := by
  refine deeper_of_quiet fun _ => ?_
  cases distance with
  | some distance =>
      simp only [writeName, writeAt]
      split <;> rfl
  | none =>
      simp only [writeName, writeGlobal]
      split <;> rfl

theorem newClosure_deeper {declaration : Function Distance} {frame : FrameId}
    {isInitializer : Bool} :
    RunsDeeper (newClosure declaration frame isInitializer)
      (newClosure declaration frame isInitializer) :=
  deeper_of_quiet fun _ => rfl

theorem bindMethod_deeper {method : Closure} {receiver : Value} :
    RunsDeeper (bindMethod method receiver) (bindMethod method receiver) :=
  deeper_of_quiet fun _ => rfl

theorem getProperty_deeper {object : Value} {name : String} {line : Nat} :
    RunsDeeper (getProperty object name line) (getProperty object name line) := by
  refine deeper_of_quiet fun _ => ?_
  simp only [getProperty]
  repeat' split
  all_goals rfl

theorem setField_deeper {object : Value} {name : String} {line : Nat} {value : Value} :
    RunsDeeper (setField object name line value) (setField object name line value) :=
  deeper_of_quiet fun _ => by cases object <;> rfl

theorem newMethods_deeper {frame : FrameId} {seen : Bindings Closure}
    {methods : List (Function Distance)} :
    RunsDeeper (newMethods frame seen methods) (newMethods frame seen methods) := by
  induction methods generalizing seen with
  | nil => exact .pure seen
  | cons method rest ih => exact newClosure_deeper.bind fun _ => ih

theorem newClass_deeper {name : Ident} {superclass : Option Class}
    {methods : List (Function Distance)} :
    RunsDeeper (newClass name superclass methods) (newClass name superclass methods) := by
  have created : ∀ frame methodFrame, RunsDeeper
      (do
        let table ← newMethods methodFrame .empty methods
        let identity ← freshIdentity
        defineIn frame name.text (.class_ (.mk identity name.text superclass table)))
      (do
        let table ← newMethods methodFrame .empty methods
        let identity ← freshIdentity
        defineIn frame name.text (.class_ (.mk identity name.text superclass table))) :=
    fun _ _ => newMethods_deeper.bind fun _ => deeper_of_quiet fun _ => rfl
  refine Deepens.bind (deeper_of_quiet fun _ => rfl) fun frame => ?_
  cases superclass with
  | none => exact created frame frame
  | some cls =>
      exact newFrame_deeper.bind fun inner => defineIn_deeper.bind fun _ => created frame inner

theorem superMethod_deeper {method : Ident} {distance : Distance} :
    RunsDeeper (superMethod method distance) (superMethod method distance) := by
  cases distance with
  | none => exact deeper_of_quiet fun _ => rfl
  | some distance =>
      refine readAt_deeper.bind fun superclass => readAt_deeper.bind fun receiver => ?_
      refine deeper_of_quiet fun _ => ?_
      cases superclass with
      | class_ cls =>
          dsimp only
          cases cls.findMethod? method.text <;> rfl
      | _ => rfl

/-- Code that runs in another frame prints the same there. -/
theorem within_deeper (frame : FrameId) {body deeper : Run α} (runs : RunsDeeper body deeper) :
    RunsDeeper (within frame body) (within frame deeper) := by
  intro machine
  have outcome := runs { machine with frame := frame }
  simp only [within]
  generalize body { machine with frame := frame } = result at outcome ⊢
  generalize deeper { machine with frame := frame } = other at outcome ⊢
  cases outcome with
  | same grows => cases result <;> exact .same grows
  | further grows covers => cases other <;> exact .further grows covers

end Run

/-! ### Calls -/

section Calls

variable {execute deeperExecute : Stmt Distance → Run Completion}

theorem completing_deeper {step : Run Unit} (runs : RunsDeeper step step) :
    RunsDeeper (completing step) (completing step) := by
  intro machine
  have grows := (runs machine).grows
  refine .same ?_
  simp only [completing]
  generalize step machine = result at grows ⊢
  cases result <;> exact grows

theorem execAll_deeper (executes : ∀ s, RunsDeeper (execute s) (deeperExecute s))
    {body : List (Stmt Distance)} :
    RunsDeeper (execAll execute body) (execAll deeperExecute body) := by
  induction body with
  | nil => exact .pure Completion.normal
  | cons s rest ih =>
      rw [execAll_cons, execAll_cons]
      refine (executes s).bind fun completion => ?_
      cases completion with
      | normal => exact ih
      | returning value => exact .pure _

theorem invokeWith_deeper (executes : ∀ s, RunsDeeper (execute s) (deeperExecute s))
    {closure : Closure} {arguments : List Value} :
    RunsDeeper (invokeWith execute closure arguments)
      (invokeWith deeperExecute closure arguments) := by
  refine Run.newFrame_deeper.bind fun frame => Run.defineAll_deeper.bind fun _ => ?_
  refine (Run.within_deeper frame (execAll_deeper executes)).bind fun completion => ?_
  exact .ite Run.readFrom_deeper (.pure _)

theorem construct_deeper (executes : ∀ s, RunsDeeper (execute s) (deeperExecute s))
    {cls : Class} {arguments : List Value} :
    RunsDeeper (construct execute cls arguments) (construct deeperExecute cls arguments) := by
  refine Deepens.bind (Run.deeper_of_quiet fun _ => rfl) fun object => ?_
  cases cls.initializer? with
  | none => exact .pure object
  | some initializer =>
      refine Run.bindMethod_deeper.bind fun bound => ?_
      exact (invokeWith_deeper executes).bind fun _ => .pure object

theorem invoke_deeper (executes : ∀ s, RunsDeeper (execute s) (deeperExecute s))
    {callee : Value} {arguments : List Value} {line : Nat} :
    RunsDeeper (invoke execute callee arguments line)
      (invoke deeperExecute callee arguments line) := by
  intro machine
  simp only [invoke]
  cases callee.arity? with
  | none => exact Run.fail_deeper machine
  | some arity =>
      dsimp only
      split
      · cases callee with
        | native builtIn =>
            cases builtIn
            exact Run.readClock_deeper machine
        | function closure => exact invokeWith_deeper executes machine
        | class_ cls => exact construct_deeper executes machine
        | _ => exact Run.fail_deeper machine
      · exact Run.fail_deeper machine

end Calls

/-! ### Evaluation -/

section Evaluation

variable {evaluate deeperEvaluate : Expr Distance → Run Value}
  {execute deeperExecute : Stmt Distance → Run Completion}

theorem evalAll_deeper (evaluates : ∀ e, RunsDeeper (evaluate e) (deeperEvaluate e))
    {list : List (Expr Distance)} :
    RunsDeeper (evalAll evaluate list) (evalAll deeperEvaluate list) := by
  induction list with
  | nil => exact .pure []
  | cons e rest ih => exact (evaluates e).bind fun value => ih.bind fun values => .pure _

theorem evalOpt_deeper (evaluates : ∀ e, RunsDeeper (evaluate e) (deeperEvaluate e))
    {value : Option (Expr Distance)} :
    RunsDeeper (evalOpt evaluate value) (evalOpt deeperEvaluate value) := by
  cases value with
  | none => exact .pure Value.nil
  | some e => exact evaluates e

theorem evalSuperclass_deeper {superclass : Option (Ident × Distance)} :
    RunsDeeper (evalSuperclass superclass) (evalSuperclass superclass) := by
  cases superclass with
  | none => exact .pure none
  | some parent =>
      refine Run.readName_deeper.bind fun value => ?_
      cases value with
      | class_ cls => exact .pure (some cls)
      | _ => exact Run.fail_deeper

/-- An expression runs deeper if its parts and the bodies of functions do. -/
theorem evaluating_deeper (evaluates : ∀ e, RunsDeeper (evaluate e) (deeperEvaluate e))
    (executes : ∀ s, RunsDeeper (execute s) (deeperExecute s)) (e : Expr Distance) :
    RunsDeeper (e.evaluating evaluate execute) (e.evaluating deeperEvaluate deeperExecute) := by
  cases e with
  | literal value => exact .pure _
  | read name distance => exact Run.readName_deeper
  | assign name distance value =>
      exact (evaluates value).bind fun result => Run.writeName_deeper.bind fun _ => .pure result
  | unary op position operand => exact (evaluates operand).bind fun _ => Run.ofExcept_deeper
  | binary left op position right =>
      exact (evaluates left).bind fun _ => (evaluates right).bind fun _ => Run.ofExcept_deeper
  | logical left op right =>
      exact (evaluates left).bind fun value => .ite (.pure value) (evaluates right)
  | grouping inner => exact evaluates inner
  | call callee arguments close =>
      exact (evaluates callee).bind fun _ => (evalAll_deeper evaluates).bind fun _ =>
        invoke_deeper executes
  | get object name => exact (evaluates object).bind fun _ => Run.getProperty_deeper
  | set object name value =>
      refine (evaluates object).bind fun target => ?_
      cases target with
      | object id cls =>
          exact (evaluates value).bind fun result => Run.setField_deeper.bind fun _ => .pure result
      | _ => exact Run.fail_deeper
  | receiver keyword distance => exact Run.readName_deeper
  | superMethod keyword distance method => exact Run.superMethod_deeper

/-- A statement runs deeper if its parts do. -/
theorem executing_deeper (evaluates : ∀ e, RunsDeeper (evaluate e) (deeperEvaluate e))
    (executes : ∀ s, RunsDeeper (execute s) (deeperExecute s))
    {repeatWhile deeperRepeat : Expr Distance → Stmt Distance → Run Completion}
    (repeats : ∀ e s, RunsDeeper (repeatWhile e s) (deeperRepeat e s)) (s : Stmt Distance) :
    RunsDeeper (s.executing evaluate execute repeatWhile)
      (s.executing deeperEvaluate deeperExecute deeperRepeat) := by
  cases s with
  | expression value => exact (evaluates value).bind fun _ => .pure _
  | print value =>
      exact (evaluates value).bind fun _ => completing_deeper Run.print_deeper
  | declare name initializer =>
      exact (evalOpt_deeper evaluates).bind fun _ =>
        completing_deeper (Run.deeper_of_quiet fun _ => rfl)
  | block body =>
      refine Deepens.bind (Run.deeper_of_quiet fun _ => rfl) fun frame => ?_
      exact Run.within_deeper frame (execAll_deeper executes)
  | branch condition thenBranch elseBranch =>
      refine (evaluates condition).bind fun value => .ite (executes thenBranch) ?_
      cases elseBranch with
      | none => exact .pure _
      | some elseBranch => exact executes elseBranch
  | loop condition body => exact repeats condition body
  | ret keyword value => exact (evalOpt_deeper evaluates).bind fun _ => .pure _
  | function declaration =>
      exact Deepens.bind (Run.deeper_of_quiet fun _ => rfl) fun _ =>
        completing_deeper (Run.deeper_of_quiet fun _ => rfl)
  | classDecl name superclass methods =>
      exact evalSuperclass_deeper.bind fun _ => completing_deeper Run.newClass_deeper

theorem repeating_deeper (evaluates : ∀ e, RunsDeeper (evaluate e) (deeperEvaluate e))
    (executes : ∀ s, RunsDeeper (execute s) (deeperExecute s)) {again deeperAgain : Run Completion}
    (repeats : RunsDeeper again deeperAgain) (condition : Expr Distance) (body : Stmt Distance) :
    RunsDeeper (body.repeating evaluate execute again condition)
      (body.repeating deeperEvaluate deeperExecute deeperAgain condition) := by
  refine (evaluates condition).bind fun value => .ite ?_ (.pure _)
  refine (executes body).bind fun completion => ?_
  cases completion with
  | normal => exact repeats
  | returning value => exact .pure _

end Evaluation

/-- What overflows at once goes on in any way with more room, as long as that prints only more. -/
theorem overflow_deeper {α : Type} {run : Run α} (runs : RunsDeeper run run) :
    RunsDeeper (fun machine => .error .overflow machine) run :=
  fun machine => .further (List.prefix_refl _) (runs machine).grows

/-- With the same allowance of steps, more levels do no harm.  The induction is on the steps; that
a run with more levels only prints more is the case in which both have as many. -/
theorem eval_and_exec_deeper (steps : Nat) {room more : Nat} (less : room ≤ more) :
    (∀ e, RunsDeeper (eval steps room e) (eval steps more e)) ∧
      (∀ s, RunsDeeper (exec steps room s) (exec steps more s)) ∧
      ∀ condition body, RunsDeeper (execLoop steps room condition body)
        (execLoop steps more condition body) := by
  induction steps generalizing room more with
  | zero =>
      refine ⟨fun e machine => ?_, fun s machine => ?_, fun condition body machine => ?_⟩
      · simp only [eval]
        exact .same (List.prefix_refl _)
      · simp only [exec]
        exact .same (List.prefix_refl _)
      · simp only [execLoop]
        exact .same (List.prefix_refl _)
  | succ steps ih =>
      have loops : ∀ condition body, RunsDeeper (execLoop (steps + 1) room condition body)
          (execLoop (steps + 1) more condition body) := by
        intro condition body
        obtain ⟨evaluates, executes, repeats⟩ := ih less
        rw [execLoop_succ, execLoop_succ]
        exact repeating_deeper evaluates executes (repeats condition body) condition body
      cases more with
      | zero =>
          cases Nat.le_zero.1 less
          refine ⟨fun e machine => ?_, fun s machine => ?_, loops⟩
          · simp only [eval]
            exact .same (List.prefix_refl _)
          · simp only [exec]
            exact .same (List.prefix_refl _)
      | succ more =>
          cases room with
          | zero =>
              obtain ⟨evaluates, executes, repeats⟩ := ih (Nat.le_refl more)
              refine ⟨fun e => ?_, fun s => ?_, loops⟩
              · rw [eval_succ]
                exact overflow_deeper (evaluating_deeper evaluates executes e)
              · rw [exec_succ]
                exact overflow_deeper (executing_deeper evaluates executes repeats s)
          | succ room =>
              obtain ⟨evaluates, executes, repeats⟩ := ih (Nat.le_of_succ_le_succ less)
              refine ⟨fun e => ?_, fun s => ?_, loops⟩
              · rw [eval_succ, eval_succ]
                exact evaluating_deeper evaluates executes e
              · rw [exec_succ, exec_succ]
                exact executing_deeper evaluates executes repeats s

theorem execProgram_deeper (steps : Nat) {room more : Nat} (less : room ≤ more)
    (program : Program Distance) :
    RunsDeeper (execProgram (exec steps room) program) (execProgram (exec steps more) program) := by
  induction program with
  | nil => exact .pure ()
  | cons s rest ih =>
      rw [execProgram_cons, execProgram_cons]
      exact ((eval_and_exec_deeper steps less).2.1 s).bind fun _ => ih

end LoxLang
