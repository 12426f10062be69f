/-
Module: LoxLang.Proofs.Layout.Running
Purpose: Running does not look at places.  A program without places, on a machine without places,
  does what the program does, and only the line of a runtime error is lost.
Main exports: Forgets, eval_and_exec_forget, execProgram_forgets
-/
import LoxLang.Proofs.Layout.Placeless
import LoxLang.Proofs.Run.Unfolding

namespace LoxLang

variable {α β : Type}

/-! ### Steps that do not look at places -/

/-- What is left of the result of a step without places. -/
def placelessResult (image : α → α) :
    EStateM.Result Stop Machine α → EStateM.Result Stop Machine α
  | .ok value following => .ok (image value) following.placeless
  | .error stop following => .error stop.placeless following.placeless

/-- A step on machines without places does what another one does, but for the places. -/
def Forgets (image : α → α) (step bare : Run α) : Prop :=
  ∀ machine, bare machine.placeless = placelessResult image (step machine)

namespace Forgets

variable {image : α → α} {step bare : Run α}

theorem pure {value result : α} (same : result = image value) :
    Forgets image (Pure.pure value) (Pure.pure result) := by
  intro machine
  rw [same]
  rfl

theorem bind {after : β → β} {next bareNext : α → Run β} (first : Forgets image step bare)
    (second : ∀ value, Forgets after (next value) (bareNext (image value))) :
    Forgets after (step >>= next) (bare >>= bareNext) := by
  intro machine
  have outcome := first machine
  simp only [Bind.bind, EStateM.bind]
  cases result : step machine with
  | ok value following =>
      rw [result] at outcome
      rw [outcome]
      exact second value following
  | error stop following =>
      rw [result] at outcome
      rw [outcome]
      rfl

theorem ite {condition : Prop} [Decidable condition] {other bareOther : Run α}
    (whenTrue : Forgets image step bare) (whenFalse : Forgets image other bareOther) :
    Forgets image (if condition then step else other) (if condition then bare else bareOther) := by
  split
  · exact whenTrue
  · exact whenFalse

end Forgets

namespace Run

theorem fail_forgets {image : α → α} {cause : RuntimeCause} {line : Nat} :
    Forgets image (fail cause line) (fail cause Position.start.line) :=
  fun _ => rfl

theorem ofExcept_forgets {image : α → α} {line : Nat} (result : Except RuntimeCause α) :
    Forgets image (ofExcept line result) (ofExcept Position.start.line (result.map image)) := by
  intro machine
  cases result <;> rfl

theorem print_forgets (line : String) : Forgets id (print line) (print line) :=
  fun _ => rfl

theorem readClock_forgets : Forgets Value.placeless readClock readClock :=
  fun _ => rfl

/-! ### Frames and variables -/

theorem newFrame_forgets (parent : FrameId) : Forgets id (newFrame parent) (newFrame parent) := by
  intro machine
  simp only [newFrame, Machine.placeless, Forest.alloc_map]
  rfl

theorem currentFrame_forgets : Forgets id currentFrame currentFrame :=
  fun _ => rfl

theorem defineIn_forgets (frame : FrameId) (name : String) (value : Value) :
    Forgets id (defineIn frame name value) (defineIn frame name value.placeless) := by
  intro machine
  simp only [defineIn, Machine.placeless, Forest.define_map]
  rfl

theorem define_forgets (name : String) (value : Value) :
    Forgets id (define name value) (define name value.placeless) :=
  fun machine => defineIn_forgets machine.frame name value machine

theorem defineAll_forgets (frame : FrameId) (names : List Ident) (values : List Value) :
    Forgets id (defineAll frame names values)
      (defineAll frame (names.map (Ident.reword .placeless)) (values.map Value.placeless)) := by
  induction names generalizing values with
  | nil => exact .pure rfl
  | cons name names ih =>
      cases values with
      | nil => exact .pure rfl
      | cons value values => exact (defineIn_forgets frame name.text value).bind fun _ => ih values

/-- Code that runs in another frame comes back to the same one. -/
theorem within_forgets {image : α → α} (frame : FrameId) {body bare : Run α}
    (runs : Forgets image body bare) : Forgets image (within frame body) (within frame bare) := by
  intro machine
  have outcome := runs { machine with frame := frame }
  have sameStart : { machine.placeless with frame := frame } =
      ({ machine with frame := frame } : Machine).placeless := rfl
  simp only [within, sameStart, outcome]
  cases body { machine with frame := frame } <;> rfl

theorem readFrom_forgets (frame : FrameId) (distance : Nat) (name : String) :
    Forgets Value.placeless (readFrom frame distance name) (readFrom frame distance name) := by
  intro machine
  simp only [readFrom, Machine.placeless, Forest.getAt_map]
  cases machine.frames.getAt frame distance name <;> rfl

theorem readAt_forgets (distance : Nat) (name : String) :
    Forgets Value.placeless (readAt distance name) (readAt distance name) :=
  fun machine => readFrom_forgets machine.frame distance name machine

theorem readName_forgets (name : Ident) (distance : Distance) :
    Forgets Value.placeless (readName name distance)
      (readName (name.reword .placeless) distance) := by
  cases distance with
  | some distance => exact readAt_forgets distance name.text
  | none =>
      intro machine
      have sameText : (name.reword .placeless).text = name.text := rfl
      simp only [readName, readGlobal, sameText, Machine.placeless, Forest.get?_map]
      cases machine.frames.get? Machine.globalFrame name.text <;> rfl

theorem writeName_forgets (name : Ident) (value : Value) (distance : Distance) :
    Forgets id (writeName name value distance)
      (writeName (name.reword .placeless) value.placeless distance) := by
  intro machine
  have sameText : (name.reword .placeless).text = name.text := rfl
  cases distance with
  | some distance =>
      simp only [writeName, writeAt, sameText, Machine.placeless, Forest.frameAt_map]
      cases machine.frames.frameAt machine.frame distance with
      | error fault => rfl
      | ok frame => exact defineIn_forgets frame name.text value machine
  | none =>
      simp only [writeName, writeGlobal, sameText, Machine.placeless, Forest.find?_map]
      cases machine.frames.find? name.text Machine.globalFrame with
      | none => rfl
      | some frame => exact defineIn_forgets frame name.text value machine

/-! ### Functions, classes and objects -/

theorem freshIdentity_forgets : Forgets id freshIdentity freshIdentity :=
  fun _ => rfl

theorem newClosure_forgets (declaration : Function Distance) (frame : FrameId)
    (isInitializer : Bool) :
    Forgets Closure.placeless (newClosure declaration frame isInitializer)
      (newClosure (Stmt.rewordFunction .placeless declaration) frame isInitializer) :=
  fun _ => rfl

theorem newObject_forgets (cls : Class) :
    Forgets Value.placeless (newObject cls) (newObject cls.placeless) := by
  intro machine
  simp only [newObject, Machine.placeless, placelessResult, Array.size_map, Array.map_push]
  rfl

theorem bindMethod_forgets (method : Closure) (receiver : Value) :
    Forgets Closure.placeless (bindMethod method receiver)
      (bindMethod method.placeless receiver.placeless) :=
  (newFrame_forgets method.frame).bind fun frame =>
    (defineIn_forgets frame "this" receiver).bind fun _ =>
      newClosure_forgets method.declaration frame method.isInitializer

theorem boundMethod_forgets (method : Closure) (receiver : Value) :
    Forgets Value.placeless (Value.function <$> bindMethod method receiver)
      (Value.function <$> bindMethod method.placeless receiver.placeless) := by
  rw [map_eq_pure_bind, map_eq_pure_bind]
  exact (bindMethod_forgets method receiver).bind fun _ => .pure rfl

theorem getProperty_forgets (object : Value) (name : String) (line : Nat) :
    Forgets Value.placeless (getProperty object name line)
      (getProperty object.placeless name Position.start.line) := by
  intro machine
  cases object with
  | object id cls =>
      simp only [getProperty, Value.placeless, Machine.fields_placeless, Bindings.get?_map,
        Class.findMethod?_placeless]
      cases (machine.fields id).get? name with
      | some value => rfl
      | none =>
          cases cls.findMethod? name with
          | none => rfl
          | some method => exact boundMethod_forgets method (.object id cls) machine
  | _ => rfl

theorem setField_forgets (object : Value) (name : String) (line : Nat) (value : Value) :
    Forgets id (setField object name line value)
      (setField object.placeless name Position.start.line value.placeless) := by
  intro machine
  cases object with
  | object id cls =>
      have stored : (machine.objects.map (Bindings.map Value.placeless)).modify id
          (fun fields => fields.set name value.placeless) =
            (machine.objects.modify id fun fields => fields.set name value).map
              (Bindings.map Value.placeless) :=
        modify_map _ (fun fields => Bindings.set_map _ fields name value) machine.objects id
      exact congrArg (fun objects => EStateM.Result.ok () { machine.placeless with objects }) stored
  | _ => rfl

theorem newMethods_forgets (frame : FrameId) (seen : Bindings Closure)
    (methods : List (Function Distance)) :
    Forgets (Bindings.map Closure.placeless) (newMethods frame seen methods)
      (newMethods frame (seen.map Closure.placeless) (Stmt.rewordMethods .placeless methods)) := by
  induction methods generalizing seen with
  | nil => exact .pure rfl
  | cons method rest ih =>
      have sameName : (Stmt.rewordFunction .placeless method).name.text = method.name.text := by
        cases method
        rfl
      rw [Stmt.rewordMethods, newMethods, newMethods, Declaration.name_function,
        Declaration.name_function, sameName]
      refine (newClosure_forgets method frame _).bind fun closure => ?_
      rw [Bindings.set_map]
      exact ih _

theorem newClass_forgets (name : Ident) (superclass : Option Class)
    (methods : List (Function Distance)) :
    Forgets id (newClass name superclass methods)
      (newClass (name.reword .placeless) (superclass.map Class.placeless)
        (Stmt.rewordMethods .placeless methods)) := by
  have created : ∀ frame methodFrame, Forgets id
      (do
        let table ← newMethods methodFrame .empty methods
        let identity ← freshIdentity
        defineIn frame name.text (.class_ (.mk identity name.text superclass table)))
      (do
        let table ← newMethods methodFrame .empty (Stmt.rewordMethods .placeless methods)
        let identity ← freshIdentity
        defineIn frame name.text
          (.class_ (.mk identity name.text (superclass.map Class.placeless) table))) := by
    intro frame methodFrame
    refine (newMethods_forgets methodFrame .empty methods).bind fun table => ?_
    refine freshIdentity_forgets.bind fun identity => ?_
    rw [id, ← Class.mk_placeless]
    exact defineIn_forgets frame name.text (.class_ (.mk identity name.text superclass table))
  refine currentFrame_forgets.bind fun frame => ?_
  cases superclass with
  | none => exact created frame frame
  | some cls =>
      exact (newFrame_forgets frame).bind fun inner =>
        (defineIn_forgets inner "super" (.class_ cls)).bind fun _ => created frame inner

theorem superMethod_forgets (method : Ident) (distance : Distance) :
    Forgets Value.placeless (superMethod method distance)
      (superMethod (method.reword .placeless) distance) := by
  cases distance with
  | none => exact fun _ => rfl
  | some distance =>
      refine (readAt_forgets distance "super").bind fun superclass => ?_
      refine (readAt_forgets (distance - 1) "this").bind fun receiver => ?_
      cases superclass with
      | class_ cls =>
          have sameText : (method.reword .placeless).text = method.text := rfl
          simp only [Value.placeless, sameText, Class.findMethod?_placeless]
          cases cls.findMethod? method.text with
          | none => exact fail_forgets
          | some found => exact boundMethod_forgets found receiver
      | _ => exact fun _ => rfl

end Run

/-! ### Calls -/

theorem completing_forgets {step bare : Run Unit} (runs : Forgets id step bare) :
    Forgets Completion.placeless (completing step) (completing bare) := by
  intro machine
  simp only [completing, runs machine]
  cases step machine <;> rfl

theorem unlessReturning_forgets {next bare : Run Completion}
    (runs : Forgets Completion.placeless next bare) (completion : Completion) :
    Forgets Completion.placeless (unlessReturning next completion)
      (unlessReturning bare completion.placeless) := by
  cases completion with
  | normal => exact runs
  | returning value => exact .pure rfl

section Calls

variable {execute : Stmt Distance → Run Completion}
  (executes : ∀ s, Forgets Completion.placeless (execute s) (execute (s.reword .placeless)))
include executes

theorem execAll_forgets (body : List (Stmt Distance)) :
    Forgets Completion.placeless (execAll execute body)
      (execAll execute (Stmt.rewordAll .placeless body)) := by
  induction body with
  | nil => exact fun _ => rfl
  | cons s rest ih =>
      rw [Stmt.rewordAll, execAll_cons, execAll_cons]
      exact (executes s).bind (unlessReturning_forgets ih)

theorem invokeWith_forgets (closure : Closure) (arguments : List Value) :
    Forgets Value.placeless (invokeWith execute closure arguments)
      (invokeWith execute closure.placeless (arguments.map Value.placeless)) := by
  rcases closure with ⟨identity, ⟨name, parameters, body⟩, frame, isInitializer⟩
  refine (Run.newFrame_forgets frame).bind fun inner => ?_
  refine (Run.defineAll_forgets inner parameters arguments).bind fun _ => ?_
  refine (Run.within_forgets inner (execAll_forgets executes body)).bind fun completion => ?_
  exact .ite (Run.readFrom_forgets frame 0 "this") (.pure completion.value_placeless)

theorem construct_forgets (cls : Class) (arguments : List Value) :
    Forgets Value.placeless (construct execute cls arguments)
      (construct execute cls.placeless (arguments.map Value.placeless)) := by
  refine (Run.newObject_forgets cls).bind fun object => ?_
  simp only [Class.initializer?, Class.findMethod?_placeless]
  cases cls.findMethod? "init" with
  | none => exact .pure rfl
  | some initializer =>
      refine (Run.bindMethod_forgets initializer object).bind fun bound => ?_
      exact (invokeWith_forgets executes bound arguments).bind fun _ => .pure rfl

theorem invoke_forgets (callee : Value) (arguments : List Value) (line : Nat) :
    Forgets Value.placeless (invoke execute callee arguments line)
      (invoke execute callee.placeless (arguments.map Value.placeless) Position.start.line) := by
  intro machine
  simp only [invoke, Value.arity?_placeless, List.length_map]
  cases callee.arity? with
  | none => exact Run.fail_forgets machine
  | some arity =>
      dsimp only
      split
      · cases callee with
        | native builtIn =>
            cases builtIn
            exact Run.readClock_forgets machine
        | function closure => exact invokeWith_forgets executes closure arguments machine
        | class_ cls => exact construct_forgets executes cls arguments machine
        | _ => exact Run.fail_forgets machine
      · exact Run.fail_forgets machine

end Calls

/-! ### Evaluation -/

theorem evalSuperclass_forgets (superclass : Option (Ident × Distance)) :
    Forgets (Option.map Class.placeless) (evalSuperclass superclass)
      (evalSuperclass (superclass.map fun parent => (parent.1.reword .placeless, parent.2))) := by
  cases superclass with
  | none => exact .pure rfl
  | some parent =>
      refine (Run.readName_forgets parent.1 parent.2).bind fun value => ?_
      cases value with
      | class_ cls => exact .pure rfl
      | _ => exact Run.fail_forgets

section Evaluation

variable {evaluate : Expr Distance → Run Value} {execute : Stmt Distance → Run Completion}
  (evaluates : ∀ e, Forgets Value.placeless (evaluate e) (evaluate (e.reword .placeless)))
include evaluates

theorem evalAll_forgets (list : List (Expr Distance)) :
    Forgets (List.map Value.placeless) (evalAll evaluate list)
      (evalAll evaluate (Expr.rewordAll .placeless list)) := by
  induction list with
  | nil => exact .pure rfl
  | cons e rest ih => exact (evaluates e).bind fun _ => ih.bind fun _ => .pure rfl

theorem evalOpt_forgets (value : Option (Expr Distance)) :
    Forgets Value.placeless (evalOpt evaluate value)
      (evalOpt evaluate (value.map (Expr.reword .placeless))) := by
  cases value with
  | none => exact .pure rfl
  | some e => exact evaluates e

variable (executes : ∀ s, Forgets Completion.placeless (execute s) (execute (s.reword .placeless)))
include executes

/-- An expression does not look at places if its parts and the bodies of functions do not. -/
theorem evaluating_forgets (e : Expr Distance) :
    Forgets Value.placeless (e.evaluating evaluate execute)
      ((e.reword .placeless).evaluating evaluate execute) := by
  cases e with
  | literal value => exact .pure (Value.ofLiteral_placeless value).symm
  | read name distance => exact Run.readName_forgets name distance
  | assign name distance value =>
      exact (evaluates value).bind fun result =>
        (Run.writeName_forgets name result distance).bind fun _ => .pure rfl
  | unary op position operand =>
      refine (evaluates operand).bind fun value => ?_
      rw [UnaryOp.apply_placeless]
      exact Run.ofExcept_forgets (op.apply value)
  | binary left op position right =>
      refine (evaluates left).bind fun leftValue => (evaluates right).bind fun rightValue => ?_
      rw [BinaryOp.apply_placeless]
      exact Run.ofExcept_forgets (op.apply leftValue rightValue)
  | logical left op right =>
      refine (evaluates left).bind fun value => ?_
      rw [LogicalOp.decides_placeless]
      exact .ite (.pure rfl) (evaluates right)
  | grouping inner => exact evaluates inner
  | call callee arguments close =>
      exact (evaluates callee).bind fun function =>
        (evalAll_forgets evaluates arguments).bind fun values =>
          invoke_forgets executes function values close.line
  | get object name =>
      exact (evaluates object).bind fun value => Run.getProperty_forgets value name.text name.line
  | set object name value =>
      refine (evaluates object).bind fun target => ?_
      cases target with
      | object id cls =>
          exact (evaluates value).bind fun result =>
            (Run.setField_forgets (.object id cls) name.text name.line result).bind fun _ =>
              .pure rfl
      | _ => exact Run.fail_forgets
  | receiver keyword distance => exact Run.readName_forgets ⟨"this", keyword⟩ distance
  | superMethod keyword distance method => exact Run.superMethod_forgets method distance

/-- A statement does not look at places if its parts do not. -/
theorem executing_forgets {repeatWhile : Expr Distance → Stmt Distance → Run Completion}
    (repeats : ∀ e s, Forgets Completion.placeless (repeatWhile e s)
      (repeatWhile (e.reword .placeless) (s.reword .placeless))) (s : Stmt Distance) :
    Forgets Completion.placeless (s.executing evaluate execute repeatWhile)
      ((s.reword .placeless).executing evaluate execute repeatWhile) := by
  cases s with
  | expression value => exact (evaluates value).bind fun _ => .pure rfl
  | print value =>
      refine (evaluates value).bind fun result => ?_
      rw [Value.text_placeless]
      exact completing_forgets (Run.print_forgets result.text)
  | declare name initializer =>
      exact (evalOpt_forgets evaluates initializer).bind fun value =>
        completing_forgets (Run.define_forgets name.text value)
  | block body =>
      refine (Run.currentFrame_forgets.bind Run.newFrame_forgets).bind fun frame => ?_
      exact Run.within_forgets frame (execAll_forgets executes body)
  | branch condition thenBranch elseBranch =>
      cases elseBranch with
      | none =>
          refine (evaluates condition).bind fun value => ?_
          rw [Value.isTrue_placeless]
          exact .ite (executes thenBranch) (.pure rfl)
      | some elseBranch =>
          refine (evaluates condition).bind fun value => ?_
          rw [Value.isTrue_placeless]
          exact .ite (executes thenBranch) (executes elseBranch)
  | loop condition body => exact repeats condition body
  | ret keyword value => exact (evalOpt_forgets evaluates value).bind fun _ => .pure rfl
  | function declaration =>
      rcases declaration with ⟨name, parameters, body⟩
      refine Forgets.bind (Run.currentFrame_forgets.bind fun frame =>
        Run.newClosure_forgets (.mk name parameters body) frame false) fun closure => ?_
      exact completing_forgets (Run.define_forgets name.text (.function closure))
  | classDecl name superclass methods =>
      exact (evalSuperclass_forgets superclass).bind fun cls =>
        completing_forgets (Run.newClass_forgets name cls methods)

theorem repeating_forgets {again bareAgain : Run Completion}
    (repeats : Forgets Completion.placeless again bareAgain) (condition : Expr Distance)
    (body : Stmt Distance) :
    Forgets Completion.placeless (body.repeating evaluate execute again condition)
      ((body.reword .placeless).repeating evaluate execute bareAgain
        (condition.reword .placeless)) := by
  refine (evaluates condition).bind fun value => ?_
  rw [Value.isTrue_placeless]
  exact .ite ((executes body).bind (unlessReturning_forgets repeats)) (.pure rfl)

end Evaluation

/-- Evaluation does not look at places, by induction on the allowance of steps. -/
theorem eval_and_exec_forget (steps : Nat) :
    (∀ room e, Forgets Value.placeless (eval steps room e)
        (eval steps room (e.reword .placeless))) ∧
      (∀ room s, Forgets Completion.placeless (exec steps room s)
        (exec steps room (s.reword .placeless))) ∧
      ∀ room condition body, Forgets Completion.placeless (execLoop steps room condition body)
        (execLoop steps room (condition.reword .placeless) (body.reword .placeless)) := by
  induction steps with
  | zero =>
      refine ⟨fun room e machine => ?_, fun room s machine => ?_,
        fun room condition body machine => ?_⟩
      · simp only [eval]
        rfl
      · simp only [exec]
        rfl
      · simp only [execLoop]
        rfl
  | succ steps ih =>
      obtain ⟨evaluates, executes, repeats⟩ := ih
      refine ⟨fun room e => ?_, fun room s => ?_, fun room condition body => ?_⟩
      · cases room with
        | zero =>
            intro machine
            simp only [eval]
            rfl
        | succ room =>
            rw [eval_succ, eval_succ]
            exact evaluating_forgets (evaluates room) (executes room) e
      · cases room with
        | zero =>
            intro machine
            simp only [exec]
            rfl
        | succ room =>
            rw [exec_succ, exec_succ]
            exact executing_forgets (evaluates room) (executes room) (repeats room) s
      · rw [execLoop_succ, execLoop_succ]
        exact repeating_forgets (evaluates room) (executes room) (repeats room condition body)
          condition body

theorem execProgram_forgets (steps room : Nat) (program : Program Distance) :
    Forgets id (execProgram (exec steps room) program)
      (execProgram (exec steps room) (program.map (Stmt.reword .placeless))) := by
  induction program with
  | nil => exact fun _ => rfl
  | cons s rest ih =>
      rw [List.map_cons, execProgram_cons, execProgram_cons]
      exact ((eval_and_exec_forget steps).2.1 room s).bind fun _ => ih

end LoxLang
