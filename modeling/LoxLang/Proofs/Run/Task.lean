/-
Module: LoxLang.Proofs.Run.Task
Purpose: A run seen from inside.  A task is something the machine does at one moment of a run; it
  leads to the tasks that are done as a part of it, each in the machine as it is by then.
Main exports: Machine.entering, Machine.boundMethod, Activity, Task, Leads, Reaches,
  Leads.wellFounded
-/
import LoxLang.Proofs.Run.Forest
import LoxLang.Session.Basic

namespace LoxLang

/-! ### Machines on the way -/

section Steps

variable {α δ σ : Type}

namespace Machine

/-- The number of the frame that is created next. -/
def fresh (machine : Machine δ) : FrameId :=
  machine.frames.frames.size

/-- The machine with one more frame. -/
def nest (machine : Machine δ) (parent : FrameId) : Machine δ :=
  { machine with frames := (machine.frames.alloc (some parent)).2 }

/-- The machine with a name bound in a frame. -/
def defining (machine : Machine δ) (frame : FrameId) (name : String) (value : Value δ) :
    Machine δ :=
  { machine with frames := machine.frames.define frame name value }

/-- The machine with names bound in a frame, in order, until either runs out. -/
def definingAll (machine : Machine δ) (frame : FrameId) : List Ident → List (Value δ) → Machine δ
  | name :: names, value :: values =>
      (machine.defining frame name.text value).definingAll frame names values
  | _, _ => machine

/-- The machine running code of a given frame. -/
def inFrame (machine : Machine δ) (frame : FrameId) : Machine δ :=
  { machine with frame := frame }

/-- The machine in which the body of a function runs. -/
def entering [Declaration δ σ] (machine : Machine δ) (closure : Closure δ)
    (arguments : List (Value δ)) : Machine δ :=
  ((machine.nest closure.frame).definingAll machine.fresh
    (Declaration.parameters closure.declaration) arguments).inFrame machine.fresh

/-- The machine with one more object. -/
def withObject (machine : Machine δ) : Machine δ :=
  { machine with objects := machine.objects.push .empty }

/-- The machine with a frame in which `this` is an object. -/
def withReceiver (machine : Machine δ) (method : Closure δ) (receiver : Value δ) : Machine δ :=
  { (machine.nest method.frame).defining machine.fresh "this" receiver with
    identities := machine.identities + 1 }

/-- The copy of a method that sees the object in that frame. -/
def boundMethod (machine : Machine δ) (method : Closure δ) : Closure δ :=
  { identity := machine.identities
    declaration := method.declaration
    frame := machine.fresh
    isInitializer := method.isInitializer }

/-- The function that a declaration creates. -/
def newFunction (machine : Machine δ) (declaration : δ) : Closure δ :=
  { identity := machine.identities
    declaration := declaration
    frame := machine.frame
    isInitializer := false }

/-- The frame in which the methods of a class are created. -/
def methodFrame (machine : Machine δ) : Option (Class δ) → FrameId
  | none => machine.frame
  | some _ => machine.fresh

/-- The machine in which the methods of a class are created. -/
def methodSpace (machine : Machine δ) : Option (Class δ) → Machine δ
  | none => machine
  | some cls => (machine.nest machine.frame).defining machine.fresh "super" (.class_ cls)

end Machine

namespace Run

theorem newFrame_eq (parent : FrameId) (machine : Machine δ) :
    newFrame parent machine = .ok machine.fresh (machine.nest parent) :=
  rfl

theorem defineAll_eq (frame : FrameId) (names : List Ident) (values : List (Value δ))
    (machine : Machine δ) :
    defineAll frame names values machine = .ok () (machine.definingAll frame names values) := by
  induction names generalizing values machine with
  | nil => rfl
  | cons name names ih =>
      cases values with
      | nil => rfl
      | cons value values => exact ih values (machine.defining frame name.text value)

theorem bindMethod_eq (method : Closure δ) (receiver : Value δ) (machine : Machine δ) :
    bindMethod method receiver machine =
      .ok (machine.boundMethod method) (machine.withReceiver method receiver) :=
  rfl

end Run

/-- Defining names does not change which code is running. -/
@[simp] theorem Machine.frame_definingAll (machine : Machine δ) (frame : FrameId)
    (names : List Ident) (values : List (Value δ)) :
    (machine.definingAll frame names values).frame = machine.frame := by
  induction names generalizing values machine with
  | nil => rfl
  | cons name names ih =>
      cases values with
      | nil => rfl
      | cons value values => exact ih (machine.defining frame name.text value) values

/-- An object that has just been created has no fields. -/
@[simp] theorem Machine.fields_withObject (machine : Machine δ) (id : Nat) :
    machine.withObject.fields id = machine.fields id :=
  fields_push machine.objects id

/-- The result of code that ran in another frame, back in the frame it came from. -/
def Run.cameBack (frame : FrameId) :
    EStateM.Result Stop (Machine δ) α → EStateM.Result Stop (Machine δ) α
  | .error stop inner => .error stop (inner.inFrame frame)
  | .ok value inner => .ok value (inner.inFrame frame)

theorem Run.within_eq (frame : FrameId) (body : RunOf δ α) (machine : Machine δ) :
    within frame body machine = cameBack machine.frame (body (machine.inFrame frame)) := by
  have entered : ({ machine with frame := frame } : Machine δ) = machine.inFrame frame := rfl
  simp only [within, entered]
  cases body (machine.inFrame frame) <;> rfl

/-- Code of a new frame inside of the one that is running. -/
theorem Run.within_newFrame_eq (body : RunOf δ α) (machine : Machine δ) :
    ((currentFrame >>= newFrame) >>= fun frame => within frame body) machine =
      cameBack machine.frame (body ((machine.nest machine.frame).inFrame machine.fresh)) :=
  within_eq machine.fresh body (machine.nest machine.frame)

/-- A call runs the body in a frame of its own and comes back. -/
theorem invokeWith_eq [Declaration δ σ] (execute : σ → RunOf δ (Completion δ))
    (closure : Closure δ) (arguments : List (Value δ)) (machine : Machine δ) :
    invokeWith execute closure arguments machine =
      match Run.cameBack machine.frame
          (execAll execute (Declaration.body closure.declaration)
            (machine.entering closure arguments)) with
      | .error stop following => .error stop following
      | .ok completion following =>
          if closure.isInitializer then Run.readFrom closure.frame 0 "this" following
          else .ok completion.value following := by
  simp only [invokeWith, bind, EStateM.bind, Run.newFrame_eq, Run.defineAll_eq, Run.within_eq,
    Machine.frame_definingAll]
  rw [Machine.entering]
  have nested : (machine.nest closure.frame).frame = machine.frame := rfl
  rw [nested]
  cases execAll execute (Declaration.body closure.declaration) _ with
  | error stop inner => rfl
  | ok completion inner => cases closure.isInitializer <;> rfl

/-- A class that is called creates an object and runs its initializer on it. -/
theorem construct_eq [Declaration δ σ] (execute : σ → RunOf δ (Completion δ)) (cls : Class δ)
    (arguments : List (Value δ)) (machine : Machine δ) :
    construct execute cls arguments machine =
      match cls.initializer? with
      | none => .ok (.object machine.objects.size cls) machine.withObject
      | some initializer =>
          match invokeWith execute (machine.withObject.boundMethod initializer) arguments
              (machine.withObject.withReceiver initializer
                (.object machine.objects.size cls)) with
          | .error stop following => .error stop following
          | .ok _ following => .ok (.object machine.objects.size cls) following := by
  have created : Run.newObject cls machine =
      .ok (.object machine.objects.size cls) machine.withObject := rfl
  simp only [construct, bind, EStateM.bind, created]
  cases cls.initializer? with
  | none => rfl
  | some initializer =>
      simp only [EStateM.bind, Run.bindMethod_eq]
      cases invokeWith execute (machine.withObject.boundMethod initializer) arguments _ <;> rfl

/-- What follows in a program is executed where the first part has ended. -/
theorem execProgram_append {execute : σ → RunOf δ (Completion δ)}
    {first second : List σ} {machine after : Machine δ}
    (completes : execProgram execute first machine = .ok () after) :
    execProgram execute (first ++ second) machine = execProgram execute second after := by
  induction first generalizing machine with
  | nil =>
      cases completes
      rfl
  | cons statement rest ih =>
      simp only [List.cons_append, execProgram] at completes ⊢
      cases result : execute statement machine with
      | error stop following =>
          rw [result] at completes
          cases completes
      | ok completion following =>
          rw [result] at completes
          exact ih completes

end Steps

/-! ### Methods -/

/-- A method of this name: it is an initializer if and only if the name says so. -/
def Closure.Named (method : Closure) (name : String) : Prop :=
  method.name = name ∧ method.isInitializer = decide (name = "init")

namespace Run

/-- The methods of a class are among its declarations, are found by their names and all see one
frame. -/
theorem newMethods_spec (frame : FrameId) (methods : List (Function Distance))
    (seen : Bindings Closure) (machine : Machine) :
    ∃ table identities, machine.identities ≤ identities ∧
      newMethods frame seen methods machine =
        .ok table { machine with identities := identities } ∧
      ∀ name closure, table.get? name = some closure →
        seen.get? name = some closure ∨
          (closure.declaration ∈ methods ∧ closure.Named name) ∧ closure.frame = frame := by
  induction methods generalizing seen machine with
  | nil =>
      exact ⟨seen, machine.identities, Nat.le_refl _, rfl, fun name closure found => .inl found⟩
  | cons method rest ih =>
      let closure : Closure :=
        { identity := machine.identities
          declaration := method
          frame := frame
          isInitializer := method.name.text = "init" }
      obtain ⟨table, identities, more, made, origin⟩ := ih (seen.set method.name.text closure)
        { machine with identities := machine.identities + 1 }
      refine ⟨table, identities, Nat.le_trans (Nat.le_succ _) more, made, ?_⟩
      intro name other found
      cases origin name other found with
      | inr later => exact .inr ⟨⟨List.mem_cons_of_mem method later.1.1, later.1.2⟩, later.2⟩
      | inl earlier =>
          rw [Bindings.get?_set] at earlier
          by_cases same : method.name.text = name
          · rw [if_pos same] at earlier
            cases earlier
            exact .inr ⟨⟨List.mem_cons_self, same, by rw [← same]⟩, rfl⟩
          · rw [if_neg same] at earlier
            exact .inl earlier

/-- Declaring a class binds its name to a class with a new identity, whose own methods are those
declared. -/
theorem newClass_spec (name : Ident) (superclass : Option Class)
    (methods : List (Function Distance)) (machine : Machine) :
    ∃ table identity identities, (machine.identities ≤ identity ∧ identity < identities) ∧
      newClass name superclass methods machine =
        .ok () { (machine.methodSpace superclass).defining machine.frame name.text
            (.class_ (.mk identity name.text superclass table)) with
          identities := identities } ∧
      ∀ word closure, table.get? word = some closure →
        (closure.declaration ∈ methods ∧ closure.Named word) ∧
          closure.frame = machine.methodFrame superclass := by
  obtain ⟨table, identities, more, made, origin⟩ := newMethods_spec
    (machine.methodFrame superclass) methods .empty (machine.methodSpace superclass)
  have counted : (machine.methodSpace superclass).identities = machine.identities := by
    cases superclass <;> rfl
  refine ⟨table, identities, identities + 1, ⟨counted ▸ more, Nat.lt_succ_self _⟩, ?_, ?_⟩
  · cases superclass with
    | none =>
        simp only [Machine.methodFrame, Machine.methodSpace] at made
        simp only [newClass, bind, EStateM.bind, currentFrame, pure, EStateM.pure, made]
        rfl
    | some cls =>
        simp only [Machine.methodFrame, Machine.methodSpace] at made
        simp only [newClass, bind, EStateM.bind, currentFrame, pure, EStateM.pure, newFrame_eq,
          defineIn]
        have same : newMethods machine.fresh .empty methods
            { machine.nest machine.frame with
              frames := (machine.nest machine.frame).frames.define machine.fresh "super"
                (.class_ cls) } = _ := made
        rw [same]
        rfl
  · intro word closure found
    cases origin word closure found with
    | inl none => cases none
    | inr declared => exact declared

end Run

/-! ### Tasks -/

/-- What the machine can be doing. -/
inductive Activity where
  | evaluate (e : Expr Distance)
  | evaluateAll (es : List (Expr Distance))
  | execute (s : Stmt Distance)
  | executeAll (body : List (Stmt Distance))
  | repeatLoop (condition : Expr Distance) (body : Stmt Distance)
  | call (closure : Closure) (arguments : List Value)
  | bindMethod (method : Closure) (receiver : Value)
  | declareClass (name : Ident) (superclass : Option Class) (methods : List (Function Distance))
  | runProgram (program : Program Distance)

/-- Something that the machine does, with the steps and levels it may still take. -/
structure Task where
  steps : Nat
  room : Nat
  activity : Activity
  machine : Machine

/-- One task leads to another if the second is done as a part of the first.  What has to come out
of the parts before it is a premise. -/
inductive Leads : Task → Task → Prop where
  | assignValue {steps room : Nat} {name : Ident} {binding : Distance} {value : Expr Distance}
      {machine : Machine} :
      Leads ⟨steps + 1, room + 1, .evaluate (.assign name binding value), machine⟩
        ⟨steps, room, .evaluate value, machine⟩
  | unaryOperand {steps room : Nat} {op : UnaryOp} {position : Position} {operand : Expr Distance}
      {machine : Machine} :
      Leads ⟨steps + 1, room + 1, .evaluate (.unary op position operand), machine⟩
        ⟨steps, room, .evaluate operand, machine⟩
  | binaryLeft {steps room : Nat} {left right : Expr Distance} {op : BinaryOp}
      {position : Position} {machine : Machine} :
      Leads ⟨steps + 1, room + 1, .evaluate (.binary left op position right), machine⟩
        ⟨steps, room, .evaluate left, machine⟩
  | binaryRight {steps room : Nat} {left right : Expr Distance} {op : BinaryOp}
      {position : Position} {machine following : Machine} {leftValue : Value}
      (first : eval steps room left machine = .ok leftValue following) :
      Leads ⟨steps + 1, room + 1, .evaluate (.binary left op position right), machine⟩
        ⟨steps, room, .evaluate right, following⟩
  | logicalLeft {steps room : Nat} {left right : Expr Distance} {op : LogicalOp}
      {machine : Machine} :
      Leads ⟨steps + 1, room + 1, .evaluate (.logical left op right), machine⟩
        ⟨steps, room, .evaluate left, machine⟩
  | logicalRight {steps room : Nat} {left right : Expr Distance} {op : LogicalOp}
      {machine following : Machine} {leftValue : Value}
      (first : eval steps room left machine = .ok leftValue following)
      (undecided : op.decides leftValue = false) :
      Leads ⟨steps + 1, room + 1, .evaluate (.logical left op right), machine⟩
        ⟨steps, room, .evaluate right, following⟩
  | groupingInner {steps room : Nat} {inner : Expr Distance} {machine : Machine} :
      Leads ⟨steps + 1, room + 1, .evaluate (.grouping inner), machine⟩
        ⟨steps, room, .evaluate inner, machine⟩
  | callCallee {steps room : Nat} {callee : Expr Distance} {arguments : List (Expr Distance)}
      {close : Position} {machine : Machine} :
      Leads ⟨steps + 1, room + 1, .evaluate (.call callee arguments close), machine⟩
        ⟨steps, room, .evaluate callee, machine⟩
  | callArguments {steps room : Nat} {callee : Expr Distance} {arguments : List (Expr Distance)}
      {close : Position} {machine following : Machine} {function : Value}
      (first : eval steps room callee machine = .ok function following) :
      Leads ⟨steps + 1, room + 1, .evaluate (.call callee arguments close), machine⟩
        ⟨steps, room, .evaluateAll arguments, following⟩
  | callFunction {steps room : Nat} {callee : Expr Distance} {arguments : List (Expr Distance)}
      {close : Position} {machine following rest : Machine} {closure : Closure}
      {values : List Value}
      (first : eval steps room callee machine = .ok (.function closure) following)
      (second : evalAll (eval steps room) arguments following = .ok values rest)
      (fits : values.length = closure.arity) :
      Leads ⟨steps + 1, room + 1, .evaluate (.call callee arguments close), machine⟩
        ⟨steps, room, .call closure values, rest⟩
  | constructBind {steps room : Nat} {callee : Expr Distance} {arguments : List (Expr Distance)}
      {close : Position} {machine following rest : Machine} {cls : Class} {initializer : Closure}
      {values : List Value}
      (first : eval steps room callee machine = .ok (.class_ cls) following)
      (second : evalAll (eval steps room) arguments following = .ok values rest)
      (fits : values.length = cls.arity) (found : cls.initializer? = some initializer) :
      Leads ⟨steps + 1, room + 1, .evaluate (.call callee arguments close), machine⟩
        ⟨steps, room, .bindMethod initializer (.object rest.objects.size cls), rest.withObject⟩
  | constructCall {steps room : Nat} {callee : Expr Distance} {arguments : List (Expr Distance)}
      {close : Position} {machine following rest : Machine} {cls : Class} {initializer : Closure}
      {values : List Value}
      (first : eval steps room callee machine = .ok (.class_ cls) following)
      (second : evalAll (eval steps room) arguments following = .ok values rest)
      (fits : values.length = cls.arity) (found : cls.initializer? = some initializer) :
      Leads ⟨steps + 1, room + 1, .evaluate (.call callee arguments close), machine⟩
        ⟨steps, room, .call (rest.withObject.boundMethod initializer) values,
          rest.withObject.withReceiver initializer (.object rest.objects.size cls)⟩
  | getObject {steps room : Nat} {object : Expr Distance} {name : Ident} {machine : Machine} :
      Leads ⟨steps + 1, room + 1, .evaluate (.get object name), machine⟩
        ⟨steps, room, .evaluate object, machine⟩
  | getMethod {steps room : Nat} {object : Expr Distance} {name : Ident}
      {machine following : Machine} {id : Nat} {cls : Class} {method : Closure}
      (first : eval steps room object machine = .ok (.object id cls) following)
      (noField : (following.fields id).get? name.text = none)
      (found : cls.findMethod? name.text = some method) :
      Leads ⟨steps + 1, room + 1, .evaluate (.get object name), machine⟩
        ⟨steps, room, .bindMethod method (.object id cls), following⟩
  | setObject {steps room : Nat} {object value : Expr Distance} {name : Ident}
      {machine : Machine} :
      Leads ⟨steps + 1, room + 1, .evaluate (.set object name value), machine⟩
        ⟨steps, room, .evaluate object, machine⟩
  | setValue {steps room : Nat} {object value : Expr Distance} {name : Ident}
      {machine following : Machine} {id : Nat} {cls : Class}
      (first : eval steps room object machine = .ok (.object id cls) following) :
      Leads ⟨steps + 1, room + 1, .evaluate (.set object name value), machine⟩
        ⟨steps, room, .evaluate value, following⟩
  | superBind {steps room distance : Nat} {keyword : Position} {method : Ident}
      {machine : Machine} {cls : Class} {receiver : Value} {found : Closure}
      (superclass : machine.frames.getAt machine.frame distance "super" = .ok (.class_ cls))
      (object : machine.frames.getAt machine.frame (distance - 1) "this" = .ok receiver)
      (isFound : cls.findMethod? method.text = some found) :
      Leads
        ⟨steps + 1, room + 1, .evaluate (.superMethod keyword (some distance) method), machine⟩
        ⟨steps, room, .bindMethod found receiver, machine⟩
  | evaluateFirst {steps room : Nat} {e : Expr Distance} {es : List (Expr Distance)}
      {machine : Machine} :
      Leads ⟨steps, room, .evaluateAll (e :: es), machine⟩ ⟨steps, room, .evaluate e, machine⟩
  | evaluateRest {steps room : Nat} {e : Expr Distance} {es : List (Expr Distance)}
      {machine following : Machine} {value : Value}
      (first : eval steps room e machine = .ok value following) :
      Leads ⟨steps, room, .evaluateAll (e :: es), machine⟩
        ⟨steps, room, .evaluateAll es, following⟩
  | expressionValue {steps room : Nat} {value : Expr Distance} {machine : Machine} :
      Leads ⟨steps + 1, room + 1, .execute (.expression value), machine⟩
        ⟨steps, room, .evaluate value, machine⟩
  | printValue {steps room : Nat} {value : Expr Distance} {machine : Machine} :
      Leads ⟨steps + 1, room + 1, .execute (.print value), machine⟩
        ⟨steps, room, .evaluate value, machine⟩
  | declareValue {steps room : Nat} {name : Ident} {value : Expr Distance} {machine : Machine} :
      Leads ⟨steps + 1, room + 1, .execute (.declare name (some value)), machine⟩
        ⟨steps, room, .evaluate value, machine⟩
  | blockBody {steps room : Nat} {body : List (Stmt Distance)} {machine : Machine} :
      Leads ⟨steps + 1, room + 1, .execute (.block body), machine⟩
        ⟨steps, room, .executeAll body, (machine.nest machine.frame).inFrame machine.fresh⟩
  | branchCondition {steps room : Nat} {condition : Expr Distance} {thenBranch : Stmt Distance}
      {elseBranch : Option (Stmt Distance)} {machine : Machine} :
      Leads ⟨steps + 1, room + 1, .execute (.branch condition thenBranch elseBranch), machine⟩
        ⟨steps, room, .evaluate condition, machine⟩
  | branchThen {steps room : Nat} {condition : Expr Distance} {thenBranch : Stmt Distance}
      {elseBranch : Option (Stmt Distance)} {machine following : Machine} {value : Value}
      (first : eval steps room condition machine = .ok value following)
      (holds : value.isTrue = true) :
      Leads ⟨steps + 1, room + 1, .execute (.branch condition thenBranch elseBranch), machine⟩
        ⟨steps, room, .execute thenBranch, following⟩
  | branchElse {steps room : Nat} {condition : Expr Distance}
      {thenBranch elseBranch : Stmt Distance} {machine following : Machine} {value : Value}
      (first : eval steps room condition machine = .ok value following)
      (fails : value.isTrue = false) :
      Leads
        ⟨steps + 1, room + 1, .execute (.branch condition thenBranch (some elseBranch)), machine⟩
        ⟨steps, room, .execute elseBranch, following⟩
  | loopStart {steps room : Nat} {condition : Expr Distance} {body : Stmt Distance}
      {machine : Machine} :
      Leads ⟨steps + 1, room + 1, .execute (.loop condition body), machine⟩
        ⟨steps, room, .repeatLoop condition body, machine⟩
  | returnValue {steps room : Nat} {keyword : Position} {value : Expr Distance}
      {machine : Machine} :
      Leads ⟨steps + 1, room + 1, .execute (.ret keyword (some value)), machine⟩
        ⟨steps, room, .evaluate value, machine⟩
  /-- Reading the name of the superclass takes no step of its own. -/
  | classSuperclass {steps room : Nat} {name superclass : Ident} {binding : Distance}
      {methods : List (Function Distance)} {machine : Machine} :
      Leads
        ⟨steps + 1, room + 1, .execute (.classDecl name (some (superclass, binding)) methods),
          machine⟩
        ⟨steps + 1, room + 1, .evaluate (.read superclass binding), machine⟩
  | classMethods {steps room : Nat} {name : Ident} {superclass : Option (Ident × Distance)}
      {methods : List (Function Distance)} {machine following : Machine} {cls : Option Class}
      (first : evalSuperclass superclass machine = .ok cls following) :
      Leads ⟨steps + 1, room + 1, .execute (.classDecl name superclass methods), machine⟩
        ⟨steps, room, .declareClass name cls methods, following⟩
  | executeFirst {steps room : Nat} {s : Stmt Distance} {body : List (Stmt Distance)}
      {machine : Machine} :
      Leads ⟨steps, room, .executeAll (s :: body), machine⟩ ⟨steps, room, .execute s, machine⟩
  | executeRest {steps room : Nat} {s : Stmt Distance} {body : List (Stmt Distance)}
      {machine following : Machine} (first : exec steps room s machine = .ok .normal following) :
      Leads ⟨steps, room, .executeAll (s :: body), machine⟩
        ⟨steps, room, .executeAll body, following⟩
  | loopCondition {steps room : Nat} {condition : Expr Distance} {body : Stmt Distance}
      {machine : Machine} :
      Leads ⟨steps + 1, room, .repeatLoop condition body, machine⟩
        ⟨steps, room, .evaluate condition, machine⟩
  | loopBody {steps room : Nat} {condition : Expr Distance} {body : Stmt Distance}
      {machine following : Machine} {value : Value}
      (first : eval steps room condition machine = .ok value following)
      (holds : value.isTrue = true) :
      Leads ⟨steps + 1, room, .repeatLoop condition body, machine⟩
        ⟨steps, room, .execute body, following⟩
  | loopAgain {steps room : Nat} {condition : Expr Distance} {body : Stmt Distance}
      {machine following rest : Machine} {value : Value}
      (first : eval steps room condition machine = .ok value following)
      (holds : value.isTrue = true) (second : exec steps room body following = .ok .normal rest) :
      Leads ⟨steps + 1, room, .repeatLoop condition body, machine⟩
        ⟨steps, room, .repeatLoop condition body, rest⟩
  | callBody {steps room : Nat} {closure : Closure} {arguments : List Value} {machine : Machine} :
      Leads ⟨steps, room, .call closure arguments, machine⟩
        ⟨steps, room, .executeAll closure.declaration.body, machine.entering closure arguments⟩
  | programFirst {steps room : Nat} {s : Stmt Distance} {rest : Program Distance}
      {machine : Machine} :
      Leads ⟨steps, room, .runProgram (s :: rest), machine⟩ ⟨steps, room, .execute s, machine⟩
  | programRest {steps room : Nat} {s : Stmt Distance} {rest : Program Distance}
      {machine following : Machine} {completion : Completion}
      (first : exec steps room s machine = .ok completion following) :
      Leads ⟨steps, room, .runProgram (s :: rest), machine⟩
        ⟨steps, room, .runProgram rest, following⟩

/-- A task is reached from another if tasks lead from one to the other. -/
inductive Reaches : Task → Task → Prop where
  | refl (task : Task) : Reaches task task
  | step {task middle last : Task} (first : Reaches task middle) (next : Leads middle last) :
      Reaches task last

/-- How much there is to do in one allowance of steps. -/
def Activity.weight : Activity → Nat
  | evaluateAll es => es.length + 1
  | executeAll body => body.length + 1
  | call closure _ => closure.declaration.body.length + 2
  | runProgram program => program.length + 1
  | execute _ => 1
  | evaluate _ | repeatLoop _ _ | bindMethod _ _ | declareClass _ _ _ => 0

/-- What a task leads to has fewer steps left, or less to do with as many. -/
theorem Leads.smaller {task next : Task} (leads : Leads task next) :
    next.steps < task.steps ∨
      (next.steps = task.steps ∧ next.activity.weight < task.activity.weight) := by
  cases leads <;> simp [Activity.weight]

/-- Tasks do not lead to one another forever: first the steps that are left decrease, then what
there is to do with as many. -/
theorem Leads.wellFounded : WellFounded fun part task => Leads task part := by
  have ordered := InvImage.wf (fun task : Task => (task.steps, task.activity.weight))
    (Prod.lex Nat.lt_wfRel Nat.lt_wfRel).wf
  refine Subrelation.wf (fun {part task} leads => ?_) ordered
  simp only [InvImage]
  rcases leads.smaller with fewer | ⟨same, lighter⟩
  · exact .left _ _ fewer
  · rw [same]
    exact .right _ lighter

end LoxLang
