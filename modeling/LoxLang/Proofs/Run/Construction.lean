/-
Module: LoxLang.Proofs.Run.Construction
Purpose: Objects and their initializers.  A class that is called creates an object that was not
  there before, and yields it once the nearest initializer has been run on it.  An initializer yields
  the object it was bound to, however it was come by and whatever its body does.
Main exports: Class.nearestInitializer, Existed, Visited.initializer_yields,
  Visited.initializer_bound, Constructs, Session.construction
-/
import LoxLang.Proofs.Run.Lasting
import LoxLang.Proofs.Run.Receiver

namespace LoxLang

/-! ### Initializers -/

namespace Class

/-- The initializer of the nearest class that has one, among a class and those it inherits from. -/
def nearestInitializer (cls : Class) : Option Closure :=
  cls.lineage.findSome? fun member => member.methods.get? "init"

/-- How many arguments a class takes: as many as its initializer has parameters. -/
def required (cls : Class) : Nat :=
  match cls.nearestInitializer with
  | none => 0
  | some initializer => initializer.declaration.parameters.length

theorem initializer?_eq (cls : Class) : cls.initializer? = cls.nearestInitializer :=
  cls.findMethod?_eq "init"

theorem arity_eq (cls : Class) : cls.arity = cls.required := by
  rw [arity, initializer?_eq, required]
  cases cls.nearestInitializer <;> rfl

/-- A method that is found in a class belongs to a class that was declared. -/
theorem Valid.owner {visited : Task → Prop} {accepted : Place → Prop} {forest : Forest Value}
    {cls : Class} (valid : cls.Valid visited accepted forest) {name : String} {method : Closure}
    (found : cls.findMethod? name = some method) :
    ∃ owner : Class, owner.Created visited ∧ owner.methods.get? name = some method := by
  rw [findMethod?_eq] at found
  obtain ⟨owner, inLineage, own⟩ := List.exists_of_findSome?_eq_some found
  exact ⟨owner, (valid owner inLineage).1, own⟩

end Class

section History

variable {config : Config} {clock : Nat → Float} {history : List Command}

section Calls

variable {steps room : Nat} {machine : Machine}

/-- A value that an expression of the history evaluated to is in order. -/
theorem Visited.evaluated {e : Expr Distance} {value : Value} {following : Machine}
    (visited : Visited (.start config clock) history ⟨steps, room, .evaluate e, machine⟩)
    (result : eval steps room e machine = .ok value following) :
    value.Valid (Visited (.start config clock) history) (Accepted (.start config clock) history)
      following.frames := by
  have settles := visited_settles visited
  simp only [Task.Settles, result] at settles
  exact settles.2.2

/-- A method that is bound to an object belongs to a class that was declared. -/
theorem Visited.method_owned {method : Closure} {object : Value}
    (bound : Visited (.start config clock) history
      ⟨steps, room, .bindMethod method object, machine⟩) :
    ∃ (cls : Class) (word : String), cls.Created (Visited (.start config clock) history) ∧
      cls.methods.get? word = some method := by
  rcases bound with ⟨session, source, levels, program, ran, reaches⟩
  cases reaches with
  | step first leads =>
      have visited := ran.visited.reached first
      cases leads with
      | getMethod object _ found =>
          have valid := (visited.closed _ _ .getObject).evaluated object
          exact ⟨_, _, Class.Valid.owner valid found |>.choose_spec⟩
      | superBind superclass _ found =>
          obtain ⟨owner, -, isBound⟩ := Forest.getAt_eq_ok superclass
          have valid := (visited_sound visited).heap.stored _ _ _ isBound
          exact ⟨_, _, Class.Valid.owner valid found |>.choose_spec⟩
      | constructBind callee _ _ found =>
          have valid := (visited.closed _ _ .callCallee).evaluated callee
          exact ⟨_, _, Class.Valid.owner valid found |>.choose_spec⟩

/-- A call of an initializer that completes yields the object that the initializer was bound to:
whatever the body does, the frame that holds the object goes on holding it. -/
theorem Visited.initializer_yields {left levels : Nat} {cls : Class} {method : Closure}
    {object value : Value} {arguments : List Value} {current last : Machine}
    (created : cls.Created (Visited (.start config clock) history))
    (own : cls.methods.get? "init" = some method)
    (bound : Visited (.start config clock) history
      ⟨steps, room, .bindMethod method object, machine⟩)
    (call : Visited (.start config clock) history
      ⟨left, levels, .call (machine.boundMethod method) arguments, current⟩)
    (completes : invokeWith (exec left levels) (machine.boundMethod method) arguments current =
      .ok value last) : value = object := by
  obtain ⟨-, -, -, -, -, ⟨⟨-, isInitializer⟩, -⟩, -⟩ := created.declares own
  have initializes : (machine.boundMethod method).isInitializer = true := isInitializer
  have body := call.closed _ _ .callBody
  have entered : machine.fresh <
      (current.entering (machine.boundMethod method) arguments).frames.frames.size :=
    Nat.lt_of_lt_of_le call.captured
      (current.entering_extends (machine.boundMethod method) arguments).grows
  obtain ⟨holds, -⟩ := bound.holds_receiver body trivial entered
  have kept := (Visited.becomes _ body).preserves.reserved machine.fresh entered "this" (.inl rfl)
  rw [invokeWith_eq] at completes
  simp only [Task.final] at kept
  generalize execAll (exec left levels) (machine.boundMethod method).declaration.body
    (current.entering (machine.boundMethod method) arguments) = result at completes kept
  cases result with
  | error stop inner => cases completes
  | ok completion inner =>
      have found : (inner.inFrame current.frame).frames.getAt machine.fresh 0 "this" = .ok object :=
        Forest.getAt_of_frameAt (Forest.frameAt_zero ..) (kept.trans holds)
      simp only [Run.cameBack, initializes, ↓reduceIte, Run.readFrom] at completes
      have captured : (machine.boundMethod method).frame = machine.fresh := rfl
      rw [captured, found] at completes
      cases completes
      rfl

/-- An initializer that is called has been bound to an object, and it is the initializer of a class
that was declared. -/
theorem Visited.initializer_bound {closure : Closure} {arguments : List Value}
    (call : Visited (.start config clock) history ⟨steps, room, .call closure arguments, machine⟩)
    (isInitializer : closure.isInitializer = true) :
    ∃ (cls : Class) (method : Closure) (object : Value) (before : Machine) (left levels : Nat),
      cls.Created (Visited (.start config clock) history) ∧
      cls.methods.get? "init" = some method ∧
      Visited (.start config clock) history ⟨left, levels, .bindMethod method object, before⟩ ∧
      closure = before.boundMethod method := by
  obtain ⟨-, ⟨layers, created, made, -⟩, -⟩ := visited_sound call
  cases made with
  | declared task => cases isInitializer
  | bound task =>
      obtain ⟨cls, word, isCreated, own⟩ := task.method_owned
      obtain ⟨-, -, -, -, -, ⟨⟨-, named⟩, -⟩, -⟩ := isCreated.declares own
      have isInit : word = "init" := of_decide_eq_true (named.symm.trans isInitializer)
      subst isInit
      exact ⟨cls, _, _, _, _, _, isCreated, own, task, rfl⟩

end Calls

/-! ### Objects -/

/-- The values that there are when the history has come to a machine: those in its variables and
fields, and those that expressions have evaluated to before. -/
inductive Existed (start : Session) (history : List Command) (machine : Machine) : Value → Prop where
  | inVariable {id : FrameId} {name : String} {value : Value}
      (isBound : machine.frames.local? id name = some value) : Existed start history machine value
  | inField {id : Nat} {name : String} {value : Value}
      (isField : (machine.fields id).get? name = some value) : Existed start history machine value
  | evaluated {steps room : Nat} {e : Expr Distance} {before after : Machine} {value : Value}
      (visited : Visited start history ⟨steps, room, .evaluate e, before⟩)
      (result : eval steps room e before = .ok value after) (later : after.Becomes machine) :
      Existed start history machine value

theorem Existed.listed {machine : Machine} {value : Value} (formed : machine.WellFormed)
    (existed : Existed (.start config clock) history machine value) : value.Listed machine := by
  cases existed with
  | inVariable isBound => exact formed.bound _ _ _ isBound
  | inField isField => exact formed.fields _ _ _ isField
  | evaluated visited result later =>
      have listed := (Account.evaluated visited.inventory.1 result).2.2
      exact Value.Listed.grows listed later.retains.grows

/-- An object that is created next is none of those that there are. -/
theorem Existed.not_same {machine : Machine} {other : Value} (formed : machine.WellFormed)
    (existed : Existed (.start config clock) history machine other) (cls : Class) :
    other.same (.object machine.objects.size cls) = false := by
  have listed := existed.listed formed
  cases other with
  | object id owner =>
      rw [Value.same, beq_eq_false_iff_ne]
      exact Nat.ne_of_lt listed.1
  | _ => rfl

/-- What comes of a class that is called with some arguments in a machine: a new object, on which
the nearest initializer has been run. -/
structure Constructs (start : Session) (history : List Command) (steps room : Nat) (cls : Class)
    (arguments : List Value) (machine : Machine) (value : Value) (last : Machine) : Prop where
  counted : arguments.length = cls.required
  isObject : value = .object machine.objects.size cls
  isNew : ∀ other, Existed start history machine other → other.same value = false
  untouched : cls.nearestInitializer = none → last = machine.withObject
  initialized : ∀ initializer, cls.nearestInitializer = some initializer →
    Visited start history ⟨steps, room, .bindMethod initializer value, machine.withObject⟩ ∧
    Visited start history
      ⟨steps, room, .call (machine.withObject.boundMethod initializer) arguments,
        machine.withObject.withReceiver initializer value⟩ ∧
    invokeWith (exec steps room) (machine.withObject.boundMethod initializer) arguments
      (machine.withObject.withReceiver initializer value) = .ok value last

section Construct

variable {steps room : Nat} {callee : Expr Distance} {arguments : List (Expr Distance)}
  {close : Position} {machine following rest last : Machine} {cls : Class} {values : List Value}
  {value : Value}

/-- A class that is called yields a new object, set up by its initializer. -/
theorem Visited.constructs
    (visited : Visited (.start config clock) history
      ⟨steps + 1, room + 1, .evaluate (.call callee arguments close), machine⟩)
    (isClass : eval steps room callee machine = .ok (.class_ cls) following)
    (areValues : evalAll (eval steps room) arguments following = .ok values rest)
    (completes : eval (steps + 1) (room + 1) (.call callee arguments close) machine =
      .ok value last) :
    Constructs (.start config clock) history steps room cls values rest value last := by
  have begun := (Account.evaluated visited.inventory.1 isClass).2.1
  have formed : rest.WellFormed := (Account.evaluatedAll begun areValues).2.1
  simp only [eval, isClass, areValues, invoke, Value.arity?] at completes
  split at completes
  next fits =>
    rw [construct_eq] at completes
    cases found : cls.initializer? with
    | none =>
        rw [found] at completes
        cases completes
        rw [Class.initializer?_eq] at found
        exact ⟨cls.arity_eq ▸ fits, rfl, fun other existed => existed.not_same formed cls,
          fun _ => rfl,
          fun initializer isFound => (Option.some_ne_none _ (isFound.symm.trans found)).elim⟩
    | some initializer =>
        rw [found] at completes
        have bound := visited.closed _ _ (.constructBind isClass areValues fits found)
        have call := visited.closed _ _ (.constructCall isClass areValues fits found)
        have valid := (visited.closed _ _ .callCallee).evaluated isClass
        obtain ⟨owner, created, own⟩ := Class.Valid.owner valid found
        simp only at completes
        split at completes
        · cases completes
        next result after isResult =>
          cases completes
          have yields := Visited.initializer_yields created own bound call isResult
          rw [Class.initializer?_eq] at found
          refine ⟨cls.arity_eq ▸ fits, rfl, fun other existed => existed.not_same formed cls,
            (fun isNone => (Option.some_ne_none _ (found.symm.trans isNone)).elim), ?_⟩
          intro other isOther
          cases found.symm.trans isOther
          exact ⟨bound, call, yields ▸ isResult⟩
  next => cases completes

/-- A class takes exactly as many arguments as its initializer has parameters. -/
theorem construct_wrongCount (isClass : eval steps room callee machine = .ok (.class_ cls) following)
    (areValues : evalAll (eval steps room) arguments following = .ok values rest)
    (differs : values.length ≠ cls.required) :
    eval (steps + 1) (room + 1) (.call callee arguments close) machine =
      .error (.error { cause := .wrongArgumentCount cls.required values.length
                       line := close.line }) rest := by
  rw [← cls.arity_eq] at differs ⊢
  simp only [eval, isClass, areValues, invoke, Value.arity?, differs, ↓reduceIte, Run.fail]

end Construct

/-- In every history: a class that is called takes as many arguments as the nearest initializer has
parameters, and a call that completes yields a new object of that class after running that
initializer on it; and an initializer that is called has been bound to an object, which every call
that completes yields. -/
theorem Session.construction (config : Config) (clock : Nat → Float) (history : List Command) :
    (∀ steps room callee arguments close machine following rest cls values,
      Visited (start config clock) history
        ⟨steps + 1, room + 1, .evaluate (.call callee arguments close), machine⟩ →
      eval steps room callee machine = .ok (.class_ cls) following →
      evalAll (eval steps room) arguments following = .ok values rest →
      (values.length ≠ cls.required →
        eval (steps + 1) (room + 1) (.call callee arguments close) machine =
          .error (.error { cause := .wrongArgumentCount cls.required values.length
                           line := close.line }) rest) ∧
      ∀ value last,
        eval (steps + 1) (room + 1) (.call callee arguments close) machine = .ok value last →
        Constructs (start config clock) history steps room cls values rest value last) ∧
    (∀ (cls : Class) steps room method object machine,
      cls.Created (Visited (start config clock) history) →
      cls.methods.get? "init" = some method →
      Visited (start config clock) history ⟨steps, room, .bindMethod method object, machine⟩ →
      ∀ left levels arguments current value last,
        Visited (start config clock) history
          ⟨left, levels, .call (machine.boundMethod method) arguments, current⟩ →
        invokeWith (exec left levels) (machine.boundMethod method) arguments current =
          .ok value last →
        value = object) ∧
    ∀ steps room closure arguments machine,
      Visited (start config clock) history ⟨steps, room, .call closure arguments, machine⟩ →
      closure.isInitializer = true →
      ∃ (cls : Class) (method : Closure) (object : Value) (before : Machine) (left levels : Nat),
        cls.Created (Visited (start config clock) history) ∧
        cls.methods.get? "init" = some method ∧
        Visited (start config clock) history ⟨left, levels, .bindMethod method object, before⟩ ∧
        closure = before.boundMethod method := by
  refine ⟨?_, ?_, ?_⟩
  · intro steps room callee arguments close machine following rest cls values visited isClass areValues
    refine ⟨construct_wrongCount isClass areValues, fun value last completes => ?_⟩
    exact visited.constructs isClass areValues completes
  · intro cls steps room method object machine created own bound left levels arguments current value
      last call completes
    exact Visited.initializer_yields created own bound call completes
  · intro steps room closure arguments machine call isInitializer
    exact call.initializer_bound isInitializer

end History

/-- The initializer has run, and `super.m` has been bound in its course. -/
def sampleConstructed : Machine :=
  sampleMachine
    (sampleEntered.frames.frames.push ⟨⟨[("this", .object 0 sampleSubclass)]⟩, some 1⟩)
    1 #[.empty] 6

/-- A class without an initializer that is given an argument. -/
def sampleMismatchSource : String :=
  "class A { } A(nil);"

/-- The class of that program. -/
def sampleEmptyClass : Class :=
  .mk 0 "A" none .empty

/-- The call that is given too many arguments. -/
def sampleMismatch : Expr Distance :=
  .call (.read ⟨"A", ⟨1, 13⟩⟩ none) [.literal .nil] ⟨1, 18⟩

/-- The class has been declared. -/
def sampleEmptyDeclared : Machine :=
  sampleMachine #[⟨⟨[("clock", .native .clock), ("A", .class_ sampleEmptyClass)]⟩, none⟩] 0 #[] 1

theorem sampleMismatch_ran :
    Ran sampleStart [.run sampleMismatchSource] sampleStart sampleMismatchSource ⟨25000, 25000⟩
      [.classDecl ⟨"A", ⟨1, 7⟩⟩ none [], .expression sampleMismatch] where
  moment := ⟨[], [], rfl, rfl⟩
  available := by with_unfolding_all rfl
  analyzed := by with_unfolding_all rfl

theorem sampleMismatch_visited :
    ∃ steps room, Visited sampleStart [.run sampleMismatchSource]
      ⟨steps + 2, room + 2, .evaluate sampleMismatch, sampleEmptyDeclared⟩ := by
  have enough : allowance = 4611686018427387900 + 4 := rfl
  have begun : Visited sampleStart [.run sampleMismatchSource]
      ⟨4611686018427387900 + 4, 24996 + 4,
        .runProgram [.classDecl ⟨"A", ⟨1, 7⟩⟩ none [], .expression sampleMismatch],
        sampleStart.machine⟩ :=
    ⟨_, _, _, _, sampleMismatch_ran, enough ▸ .refl _⟩
  have declared : Visited sampleStart [.run sampleMismatchSource]
      ⟨4611686018427387900 + 4, 24996 + 4, .runProgram [.expression sampleMismatch],
        sampleEmptyDeclared⟩ :=
    Visited.closed _ _ begun (.programRest rfl)
  have statement := Visited.closed _ _ declared .programFirst
  exact ⟨4611686018427387901, 24997, Visited.closed _ _ statement .expressionValue⟩

/-- A call is refused for its argument, another creates an object, and the initializer that it runs
yields that object. -/
theorem Session.construction_sample :
    (∃ steps room,
      Visited sampleStart [.run sampleMismatchSource]
        ⟨steps + 2, room + 2, .evaluate sampleMismatch, sampleEmptyDeclared⟩ ∧
      eval (steps + 2) (room + 2) sampleMismatch sampleEmptyDeclared =
        .error (.error ⟨.wrongArgumentCount 0 1, 1⟩) sampleEmptyDeclared) ∧
    (∃ steps room,
      Visited sampleStart [.run sampleClassSource]
        ⟨steps + 1, room + 1, .evaluate sampleCall, sampleDeclared⟩ ∧
      eval (steps + 1) (room + 1) sampleCall sampleDeclared =
        .ok (.object 0 sampleSubclass) sampleConstructed ∧
      Constructs sampleStart [.run sampleClassSource] steps room sampleSubclass [] sampleDeclared
        (.object 0 sampleSubclass) sampleConstructed) ∧
    ∃ steps room initializer current value last,
      Visited sampleStart [.run sampleClassSource] ⟨steps, room, .call initializer [], current⟩ ∧
      initializer.isInitializer = true ∧
      invokeWith (exec steps room) initializer [] current = .ok value last ∧
      value = .object 0 sampleSubclass ∧
      ∃ (cls : Class) (method : Closure) (object : Value) (before : Machine) (left levels : Nat),
        cls.Created (Visited sampleStart [.run sampleClassSource]) ∧
        cls.methods.get? "init" = some method ∧
        Visited sampleStart [.run sampleClassSource]
          ⟨left, levels, .bindMethod method object, before⟩ ∧
        initializer = before.boundMethod method := by
  refine ⟨?_, ?_, ?_⟩
  · obtain ⟨steps, room, visited⟩ := sampleMismatch_visited
    have differs : [(.nil : Value)].length ≠ sampleEmptyClass.required := by decide
    have isClass : eval (steps + 1) (room + 1) (.read ⟨"A", ⟨1, 13⟩⟩ none) sampleEmptyDeclared =
        .ok (.class_ sampleEmptyClass) sampleEmptyDeclared := by with_unfolding_all rfl
    exact ⟨steps, room, visited,
      ((Session.construction _ _ _).1 _ _ _ _ _ _ _ _ _ _ visited isClass rfl).1 differs⟩
  · obtain ⟨-, call⟩ := sampleClass_called
    have completes : eval (4611686018427387899 + 3) (24995 + 3) sampleCall sampleDeclared =
        .ok (.object 0 sampleSubclass) sampleConstructed := rfl
    exact ⟨_, _, call, completes,
      ((Session.construction _ _ _).1 _ _ _ _ _ _ _ _ _ _ call rfl rfl).2 _ _ completes⟩
  · obtain ⟨steps, room, bound, call⟩ := sampleInitializer_called
    have yields := (Session.construction _ _ _).2.1 sampleSubclass _ _ _ _ _ sampleClass_called.1
      rfl bound _ _ _ _ _ _ call rfl
    exact ⟨_, _, _, _, _, _, call, rfl, rfl, yields,
      (Session.construction _ _ _).2.2 _ _ _ _ _ call rfl⟩

end LoxLang
