/-
Module: LoxLang.Proofs.Run.Upkeep
Purpose: Accounts of the machine.  An account says what holds of the machine, of the frames that
  code may run in, and of the values at hand.  If every single step keeps the account, then so does
  everything that a program does, however it ends, and the code that was running goes on running.
Main exports: Machine.Grows, Machine.Resumes, Account, Account.Upholds, Account.eval_and_exec,
  Account.execProgram, Leads.accounted
-/
import LoxLang.Proofs.Run.Division
import LoxLang.Proofs.Run.Unfolding

namespace LoxLang

/-! ### Machines that go on -/

namespace Machine

/-- Nothing that has been created is lost. -/
structure Grows (machine later : Machine) : Prop where
  frames : machine.fresh ≤ later.fresh
  objects : machine.objects.size ≤ later.objects.size
  identities : machine.identities ≤ later.identities

/-- Nothing is lost, and code of the same frame is running. -/
structure Resumes (machine later : Machine) : Prop where
  grows : machine.Grows later
  frame : later.frame = machine.frame

theorem Grows.refl (machine : Machine) : machine.Grows machine :=
  ⟨Nat.le_refl _, Nat.le_refl _, Nat.le_refl _⟩

theorem Grows.trans {machine middle later : Machine} (first : machine.Grows middle)
    (second : middle.Grows later) : machine.Grows later where
  frames := Nat.le_trans first.frames second.frames
  objects := Nat.le_trans first.objects second.objects
  identities := Nat.le_trans first.identities second.identities

theorem Resumes.refl (machine : Machine) : machine.Resumes machine :=
  ⟨.refl machine, rfl⟩

theorem Resumes.trans {machine middle later : Machine} (first : machine.Resumes middle)
    (second : middle.Resumes later) : machine.Resumes later :=
  ⟨first.grows.trans second.grows, second.frame.trans first.frame⟩

theorem resumes_nest (machine : Machine) (parent : FrameId) :
    machine.Resumes (machine.nest parent) where
  grows := ⟨by simp [fresh, nest], Nat.le_refl _, Nat.le_refl _⟩
  frame := rfl

theorem resumes_defining (machine : Machine) (frame : FrameId) (name : String) (value : Value) :
    machine.Resumes (machine.defining frame name value) where
  grows := ⟨by simp [fresh, defining], Nat.le_refl _, Nat.le_refl _⟩
  frame := rfl

theorem resumes_withObject (machine : Machine) : machine.Resumes machine.withObject where
  grows := ⟨Nat.le_refl _, by simp [withObject], Nat.le_refl _⟩
  frame := rfl

theorem resumes_setField (machine : Machine) (id : Nat) (name : String) (value : Value) :
    machine.Resumes
      { machine with
        objects := machine.objects.modify id fun fields => fields.set name value } where
  grows := ⟨Nat.le_refl _, by simp, Nat.le_refl _⟩
  frame := rfl

theorem grows_inFrame (machine : Machine) (frame : FrameId) :
    machine.Grows (machine.inFrame frame) :=
  ⟨Nat.le_refl _, Nat.le_refl _, Nat.le_refl _⟩

/-- Printing, reading the clock and counting identities. -/
theorem resumes_count (machine : Machine) {identities : Nat} (output : Array String)
    (readings : Nat) (more : machine.identities ≤ identities) :
    machine.Resumes
      { machine with identities := identities, output := output, readings := readings } where
  grows := ⟨Nat.le_refl _, Nat.le_refl _, more⟩
  frame := rfl

theorem resumes_withReceiver (machine : Machine) (method : Closure) (receiver : Value) :
    machine.Resumes (machine.withReceiver method receiver) :=
  ((machine.resumes_nest method.frame).trans (resumes_defining _ machine.fresh "this" receiver)).trans
    (resumes_count _ machine.output machine.readings (Nat.le_succ machine.identities))

theorem resumes_definingAll (machine : Machine) (frame : FrameId) (names : List Ident)
    (values : List Value) : machine.Resumes (machine.definingAll frame names values) := by
  induction names generalizing values machine with
  | nil => exact .refl machine
  | cons name names ih =>
      cases values with
      | nil => exact .refl machine
      | cons value values => exact (resumes_defining machine frame name.text value).trans (ih _ values)

theorem resumes_methodSpace (machine : Machine) (superclass : Option Class) :
    machine.Resumes (machine.methodSpace superclass) := by
  cases superclass with
  | none => exact .refl machine
  | some cls =>
      exact (machine.resumes_nest machine.frame).trans (resumes_defining _ machine.fresh _ _)

@[simp] theorem identities_methodSpace (machine : Machine) (superclass : Option Class) :
    (machine.methodSpace superclass).identities = machine.identities := by
  cases superclass <;> rfl

theorem resumes_newClass (machine : Machine) (name : Ident) (superclass : Option Class)
    (methods : List (Function Distance)) :
    machine.Resumes (Run.last (Run.newClass name superclass methods machine)) := by
  obtain ⟨table, identity, identities, ⟨above, below⟩, made, -⟩ :=
    Run.newClass_spec name superclass methods machine
  have more : (machine.methodSpace superclass).identities ≤ identities := by
    rw [identities_methodSpace]
    exact Nat.le_of_lt (Nat.lt_of_le_of_lt above below)
  rw [made]
  exact ((machine.resumes_methodSpace superclass).trans
    (resumes_defining _ machine.frame _ _)).trans (resumes_count _ _ _ more)

/-- Code that ran in a frame of its own has come back. -/
theorem Resumes.comeBack {machine inner middle : Machine} (enters : machine.Grows inner)
    (resumes : inner.Resumes middle) : machine.Resumes (middle.inFrame machine.frame) :=
  ⟨(enters.trans resumes.grows).trans (middle.grows_inFrame machine.frame), rfl⟩

end Machine

/-! ### Accounts -/

/-- Whether a value is no function, class or object. -/
def Value.IsPlain : Value → Prop
  | nil | bool _ | number _ | string _ | native _ => True
  | function _ | class_ _ | object _ _ => False

/-- What is to be kept up while a program runs, and why each single step keeps it up. -/
structure Account where
  /-- What holds of the machine. -/
  holds : Machine → Prop
  /-- What holds of a frame that code runs in or that a function has captured. -/
  frame : Machine → FrameId → Prop
  /-- What holds of a value at hand. -/
  value : Machine → Value → Prop
  frame_grows {machine later : Machine} {id : FrameId} :
    machine.Grows later → frame machine id → frame later id
  value_grows {machine later : Machine} {v : Value} :
    machine.Grows later → value machine v → value later v
  plain (machine : Machine) {v : Value} : v.IsPlain → value machine v
  function {machine : Machine} {closure : Closure} :
    value machine (.function closure) ↔ frame machine closure.frame
  object {machine : Machine} {id : Nat} {cls : Class} :
    value machine (.object id cls) → value machine (.class_ cls)
  method {machine : Machine} {cls : Class} {name : String} {method : Closure} :
    value machine (.class_ cls) → cls.findMethod? name = some method → frame machine method.frame
  current {machine : Machine} : holds machine → frame machine machine.frame
  stored {machine : Machine} {id : FrameId} {name : String} {v : Value} :
    holds machine → machine.frames.local? id name = some v → value machine v
  field {machine : Machine} {id : Nat} {name : String} {v : Value} :
    holds machine → (machine.fields id).get? name = some v → value machine v
  move {machine : Machine} {id : FrameId} :
    holds machine → frame machine id → holds (machine.inFrame id)
  count {machine : Machine} {identities : Nat} (output : Array String) (readings : Nat) :
    holds machine → machine.identities ≤ identities →
    holds { machine with identities := identities, output := output, readings := readings }
  nest {machine : Machine} {parent : FrameId} :
    holds machine → frame machine parent →
    holds (machine.nest parent) ∧ frame (machine.nest parent) machine.fresh
  define {machine : Machine} {v : Value} (id : FrameId) (name : String) :
    holds machine → value machine v → holds (machine.defining id name v)
  create {machine : Machine} {cls : Class} :
    holds machine → value machine (.class_ cls) →
    holds machine.withObject ∧ value machine.withObject (.object machine.objects.size cls)
  setField {machine : Machine} {v : Value} (id : Nat) (name : String) :
    holds machine → value machine v →
    holds { machine with objects := machine.objects.modify id fun fields => fields.set name v }
  declareClass {machine : Machine} {superclass : Option Class} (name : Ident)
    (methods : List (Function Distance)) :
    holds machine → (∀ cls ∈ superclass, value machine (.class_ cls)) →
    holds (Run.last (Run.newClass name superclass methods machine))

namespace Account

variable (account : Account)

/-- However a step ends, the account is kept and the code that was running goes on; if the step
yields something, `good` holds of it. -/
def Upholds {α : Type} (machine : Machine) (good : Machine → α → Prop) :
    EStateM.Result Stop Machine α → Prop
  | .ok value following =>
      machine.Resumes following ∧ account.holds following ∧ good following value
  | .error _ following => machine.Resumes following ∧ account.holds following

/-- Whether the value that a statement returns is accounted for. -/
def completion (machine : Machine) (completion : Completion) : Prop :=
  account.value machine completion.value

variable {account}

theorem Upholds.after {α : Type} {machine middle : Machine} {good : Machine → α → Prop}
    {result : EStateM.Result Stop Machine α} (resumes : machine.Resumes middle)
    (upholds : account.Upholds middle good result) : account.Upholds machine good result := by
  cases result with
  | ok value following => exact ⟨resumes.trans upholds.1, upholds.2⟩
  | error stop following => exact ⟨resumes.trans upholds.1, upholds.2⟩

theorem completion_grows {machine later : Machine} {completion : Completion}
    (grows : machine.Grows later) (isValue : account.completion machine completion) :
    account.completion later completion :=
  account.value_grows grows isValue

/-- A step that ends where it began. -/
theorem Upholds.stopped {α : Type} {machine : Machine} {good : Machine → α → Prop}
    (holds : account.holds machine) (stop : Stop) :
    account.Upholds machine good (.error stop machine) :=
  ⟨.refl machine, holds⟩

theorem Upholds.yields {α : Type} {machine : Machine} {good : Machine → α → Prop}
    (holds : account.holds machine) {value : α} (isGood : good machine value) :
    account.Upholds machine good (.ok value machine) :=
  ⟨.refl machine, holds, isGood⟩

/-- Steps one after the other. -/
theorem Upholds.bind {α β : Type} {machine : Machine} {good : Machine → α → Prop}
    {goal : Machine → β → Prop} {first : Run α} {next : α → Run β}
    (upholds : account.Upholds machine good (first machine))
    (goesOn : ∀ {value following}, machine.Resumes following → account.holds following →
      good following value → account.Upholds following goal (next value following)) :
    account.Upholds machine goal ((first >>= next) machine) := by
  simp only [Bind.bind, EStateM.bind]
  match first machine, upholds with
  | .error stop following, stopped => exact stopped
  | .ok value following, ⟨resumes, holdsThen, isGood⟩ =>
      exact (goesOn resumes holdsThen isGood).after resumes

/-! ### Steps that evaluate nothing -/

section Steps

variable {machine : Machine} (holds : account.holds machine)

include holds

theorem readFrom (frame : FrameId) (distance : Nat) (name : String) :
    account.Upholds machine account.value (Run.readFrom frame distance name machine) := by
  simp only [Run.readFrom]
  cases found : machine.frames.getAt frame distance name with
  | error fault => exact .stopped holds _
  | ok value =>
      obtain ⟨owner, -, bound⟩ := Forest.getAt_eq_ok found
      exact .yields holds (account.stored holds bound)

theorem readName (name : Ident) (binding : Distance) :
    account.Upholds machine account.value (Run.readName name binding machine) := by
  cases binding with
  | some distance => exact readFrom holds machine.frame distance name.text
  | none =>
      simp only [Run.readName, Run.readGlobal]
      cases found : machine.frames.get? Machine.globalFrame name.text with
      | none => exact .stopped holds _
      | some value =>
          simp only [Forest.get?] at found
          split at found
          · cases found
          next owner isOwner => exact .yields holds (account.stored holds found)

theorem writeName (name : Ident) {value : Value} (binding : Distance)
    (isValue : account.value machine value) :
    account.Upholds machine (fun _ _ => True) (Run.writeName name value binding machine) := by
  have written : ∀ owner, account.Upholds machine (fun _ _ => True)
      (Run.defineIn owner name.text value machine) := fun owner =>
    ⟨machine.resumes_defining owner name.text value, account.define owner name.text holds isValue,
      trivial⟩
  cases binding with
  | some distance =>
      simp only [Run.writeName, Run.writeAt]
      split
      next owner _ => exact written owner
      next => exact .stopped holds _
  | none =>
      simp only [Run.writeName, Run.writeGlobal]
      split
      next owner _ => exact written owner
      next => exact .stopped holds _

theorem define_upholds (name : String) {value : Value} (isValue : account.value machine value) :
    account.Upholds machine (fun _ _ => True) (Run.define name value machine) :=
  ⟨machine.resumes_defining machine.frame name value, account.define machine.frame name holds isValue,
    trivial⟩

theorem ofExcept (line : Nat) {result : Except RuntimeCause Value}
    (isValue : ∀ value, result = .ok value → account.value machine value) :
    account.Upholds machine account.value (Run.ofExcept line result machine) := by
  cases result with
  | error cause => exact .stopped holds _
  | ok value => exact .yields holds (isValue value rfl)

theorem withReceiver {method : Closure} {receiver : Value}
    (isMethod : account.frame machine method.frame) (isReceiver : account.value machine receiver) :
    account.holds (machine.withReceiver method receiver) ∧
      account.frame (machine.withReceiver method receiver) machine.fresh := by
  obtain ⟨nested, isFrame⟩ := account.nest holds isMethod
  have nestedOn := machine.resumes_nest method.frame
  have defined := account.define machine.fresh "this" nested
    (account.value_grows nestedOn.grows isReceiver)
  have definedOn := nestedOn.trans
    (Machine.resumes_defining (machine.nest method.frame) machine.fresh "this" receiver)
  refine ⟨account.count _ _ defined (Nat.le_succ machine.identities), ?_⟩
  exact account.frame_grows
    ⟨(Machine.resumes_defining (machine.nest method.frame) machine.fresh "this"
      receiver).grows.frames, Nat.le_refl _, Nat.le_succ _⟩ isFrame

theorem bindMethod {method : Closure} {receiver : Value}
    (isMethod : account.frame machine method.frame) (isReceiver : account.value machine receiver) :
    account.Upholds machine account.value
      ((Value.function <$> Run.bindMethod method receiver) machine) := by
  obtain ⟨received, isFrame⟩ := withReceiver holds isMethod isReceiver
  exact ⟨machine.resumes_withReceiver method receiver, received, account.function.2 isFrame⟩

theorem getProperty {object : Value} (name : String) (line : Nat)
    (isObject : account.value machine object) :
    account.Upholds machine account.value (Run.getProperty object name line machine) := by
  cases object with
  | object id cls =>
      simp only [Run.getProperty]
      cases isField : (machine.fields id).get? name with
      | some value => exact .yields holds (account.field holds isField)
      | none =>
          cases found : cls.findMethod? name with
          | none => exact .stopped holds _
          | some method =>
              exact bindMethod holds (account.method (account.object isObject) found) isObject
  | _ => exact .stopped holds _

theorem superMethod (method : Ident) (binding : Distance) :
    account.Upholds machine account.value (Run.superMethod method binding machine) := by
  cases binding with
  | none => exact .stopped holds _
  | some distance =>
      refine Upholds.bind (readFrom holds machine.frame distance "super")
        fun {superclass following} _ holds isClass => ?_
      refine Upholds.bind (readFrom holds following.frame (distance - 1) "this")
        fun resumes holds isReceiver => ?_
      have isClassThen := account.value_grows resumes.grows isClass
      cases superclass with
      | class_ cls =>
          cases found : cls.findMethod? method.text with
          | none =>
              simp only [found]
              exact .stopped holds _
          | some closure =>
              simp only [found]
              exact bindMethod holds (account.method isClassThen found) isReceiver
      | _ => exact .stopped holds _

theorem evalSuperclass_upholds (superclass : Option (Ident × Distance)) :
    account.Upholds machine
      (fun later found => ∀ cls ∈ found, account.value later (.class_ cls))
      (evalSuperclass superclass machine) := by
  cases superclass with
  | none => exact .yields holds (fun _ member => nomatch member)
  | some parent =>
      refine Upholds.bind (readName holds parent.1 parent.2) fun {value _} _ holds isValue => ?_
      cases value with
      | class_ cls =>
          refine .yields holds ?_
          rintro _ ⟨⟩
          exact isValue
      | _ => exact .stopped holds _

theorem newClass_upholds {superclass : Option Class} (name : Ident)
    (methods : List (Function Distance))
    (areClasses : ∀ cls ∈ superclass, account.value machine (.class_ cls)) :
    account.Upholds machine (fun _ _ => True) (Run.newClass name superclass methods machine) := by
  match Run.newClass name superclass methods machine,
      machine.resumes_newClass name superclass methods,
      account.declareClass name methods holds areClasses with
  | .error stop following, goesOn, kept => exact ⟨goesOn, kept⟩
  | .ok _ following, goesOn, kept => exact ⟨goesOn, kept, trivial⟩

theorem definingAll (frame : FrameId) (names : List Ident) {values : List Value}
    (areValues : ∀ value ∈ values, account.value machine value) :
    account.holds (machine.definingAll frame names values) := by
  induction names generalizing values machine with
  | nil => exact holds
  | cons name names ih =>
      cases values with
      | nil => exact holds
      | cons value values =>
          obtain ⟨first, rest⟩ := List.forall_mem_cons.1 areValues
          refine ih (account.define frame name.text holds first) fun other member => ?_
          exact account.value_grows (machine.resumes_defining frame name.text value).grows
            (rest other member)

/-- The body of a function begins with the account kept. -/
theorem entering {closure : Closure} {arguments : List Value}
    (isFrame : account.frame machine closure.frame)
    (areValues : ∀ value ∈ arguments, account.value machine value) :
    account.holds (machine.entering closure arguments) ∧
      machine.Grows (machine.entering closure arguments) := by
  obtain ⟨nested, isFresh⟩ := account.nest holds isFrame
  have nestedOn := machine.resumes_nest closure.frame
  have bound := definingAll nested machine.fresh closure.declaration.parameters
    fun value member => account.value_grows nestedOn.grows (areValues value member)
  have boundOn := (machine.nest closure.frame).resumes_definingAll machine.fresh
    closure.declaration.parameters arguments
  exact ⟨account.move bound (account.frame_grows boundOn.grows isFresh),
    (nestedOn.grows.trans boundOn.grows).trans (Machine.grows_inFrame _ machine.fresh)⟩

/-- Code that ran in a frame of its own comes back with the account kept. -/
theorem comeBack {α : Type} {inner : Machine} {good : Machine → α → Prop}
    {result : EStateM.Result Stop Machine α} (enters : machine.Grows inner)
    (upholds : account.Upholds inner good result)
    (unmoved : ∀ later value, good later value → good (later.inFrame machine.frame) value) :
    account.Upholds machine good (Run.cameBack machine.frame result) := by
  have returns : ∀ later, inner.Resumes later → account.holds later →
      account.holds (later.inFrame machine.frame) := fun later resumes holdsThen =>
    account.move holdsThen
      (account.frame_grows (enters.trans resumes.grows) (account.current holds))
  cases result with
  | ok value following =>
      exact ⟨.comeBack enters upholds.1, returns _ upholds.1 upholds.2.1,
        unmoved _ _ upholds.2.2⟩
  | error stop following => exact ⟨.comeBack enters upholds.1, returns _ upholds.1 upholds.2⟩

end Steps

/-! ### Operators -/

theorem unary (machine : Machine) {op : UnaryOp} {operand value : Value}
    (applied : op.apply operand = .ok value) : account.value machine value := by
  apply account.plain
  unfold UnaryOp.apply at applied
  split at applied <;> cases applied <;> trivial

theorem binary (machine : Machine) {op : BinaryOp} {left right value : Value}
    (applied : op.apply left right = .ok value) : account.value machine value := by
  have numbers : ∀ first second, (op.applyNumbers first second).IsPlain := by
    intro first second
    cases op <;> trivial
  apply account.plain
  unfold BinaryOp.apply at applied
  split at applied <;> cases applied <;> first | trivial | exact numbers _ _

/-! ### Lists and calls -/

/-- Evaluating expressions keeps the account. -/
def Evaluates (account : Account) (evaluate : Expr Distance → Run Value) : Prop :=
  ∀ e machine, account.holds machine → account.Upholds machine account.value (evaluate e machine)

/-- Executing statements keeps the account. -/
def Executes (account : Account) (execute : Stmt Distance → Run Completion) : Prop :=
  ∀ s machine, account.holds machine →
    account.Upholds machine account.completion (execute s machine)

theorem evalAll_upholds {evaluate : Expr Distance → Run Value}
    (evaluates : account.Evaluates evaluate) (es : List (Expr Distance)) {machine : Machine}
    (holds : account.holds machine) :
    account.Upholds machine (fun later values => ∀ value ∈ values, account.value later value)
      (evalAll evaluate es machine) := by
  induction es generalizing machine with
  | nil => exact .yields holds (fun _ member => nomatch member)
  | cons e es ih =>
      refine Upholds.bind (evaluates e machine holds) fun _ holds isValue => ?_
      refine Upholds.bind (ih holds) fun resumes holds areValues => ?_
      have isValueThen := account.value_grows resumes.grows isValue
      exact .yields holds (List.forall_mem_cons.2 ⟨isValueThen, areValues⟩)

theorem evalOpt_upholds {evaluate : Expr Distance → Run Value}
    (evaluates : account.Evaluates evaluate) (value : Option (Expr Distance)) {machine : Machine}
    (holds : account.holds machine) :
    account.Upholds machine account.value (evalOpt evaluate value machine) := by
  cases value with
  | none => exact .yields holds (account.plain machine trivial)
  | some e => exact evaluates e machine holds

theorem completing_upholds {step : Run Unit} {machine : Machine}
    (upholds : account.Upholds machine (fun _ _ => True) (step machine)) :
    account.Upholds machine account.completion (completing step machine) := by
  unfold completing
  match step machine, upholds with
  | .error stop following, stopped => exact stopped
  | .ok _ following, ⟨resumes, holds, _⟩ =>
      exact ⟨resumes, holds, account.plain following trivial⟩

theorem unlessReturning_upholds {next : Run Completion} {completion : Completion}
    {machine : Machine} (holds : account.holds machine)
    (isValue : account.completion machine completion)
    (goesOn : account.Upholds machine account.completion (next machine)) :
    account.Upholds machine account.completion (unlessReturning next completion machine) := by
  cases completion with
  | normal => exact goesOn
  | returning value => exact .yields holds isValue

theorem execAll_upholds {execute : Stmt Distance → Run Completion}
    (executes : account.Executes execute) (body : List (Stmt Distance)) {machine : Machine}
    (holds : account.holds machine) :
    account.Upholds machine account.completion (execAll execute body machine) := by
  induction body generalizing machine with
  | nil => exact .yields holds (account.plain machine trivial)
  | cons s body ih =>
      rw [execAll_cons]
      refine Upholds.bind (executes s machine holds) fun _ holds isValue => ?_
      exact unlessReturning_upholds holds isValue (ih holds)

theorem execProgram_upholds {execute : Stmt Distance → Run Completion}
    (executes : account.Executes execute) (program : Program Distance) {machine : Machine}
    (holds : account.holds machine) :
    account.Upholds machine (fun _ _ => True) (execProgram execute program machine) := by
  induction program generalizing machine with
  | nil => exact .yields holds trivial
  | cons s rest ih =>
      rw [execProgram_cons]
      exact Upholds.bind (executes s machine holds) fun _ holds _ => ih holds

section Calls

variable {execute : Stmt Distance → Run Completion} (executes : account.Executes execute)
  {machine : Machine} (holds : account.holds machine)

include executes holds

theorem invokeWith_upholds {closure : Closure} {arguments : List Value}
    (isFrame : account.frame machine closure.frame)
    (areValues : ∀ value ∈ arguments, account.value machine value) :
    account.Upholds machine account.value (invokeWith execute closure arguments machine) := by
  obtain ⟨entered, enters⟩ := entering holds isFrame areValues
  have body := comeBack holds enters
    (execAll_upholds executes closure.declaration.body entered) fun later _ =>
      completion_grows (later.grows_inFrame machine.frame)
  rw [invokeWith_eq]
  match Run.cameBack machine.frame (execAll execute closure.declaration.body
    (machine.entering closure arguments)), body with
  | .error stop following, stopped => exact stopped
  | .ok completion following, ⟨resumes, holdsThen, isValue⟩ =>
      refine .after resumes ?_
      simp only
      split
      · exact readFrom holdsThen closure.frame 0 "this"
      · exact .yields holdsThen isValue

theorem construct_upholds {cls : Class} {arguments : List Value}
    (isClass : account.value machine (.class_ cls))
    (areValues : ∀ value ∈ arguments, account.value machine value) :
    account.Upholds machine account.value (construct execute cls arguments machine) := by
  obtain ⟨created, isObject⟩ := account.create holds isClass
  have createdOn := machine.resumes_withObject
  rw [construct_eq]
  cases found : cls.initializer? with
  | none => exact ⟨createdOn, created, isObject⟩
  | some initializer =>
      have isMethod := account.frame_grows createdOn.grows (account.method isClass found)
      obtain ⟨received, isFrame⟩ := withReceiver created isMethod isObject
      have receivedOn := machine.withObject.resumes_withReceiver initializer
        (.object machine.objects.size cls)
      have begun := createdOn.trans receivedOn
      have called : account.Upholds _ account.value
          (invokeWith execute (machine.withObject.boundMethod initializer) arguments _) :=
        invokeWith_upholds executes received isFrame fun value member =>
          account.value_grows begun.grows (areValues value member)
      simp only
      match invokeWith execute (machine.withObject.boundMethod initializer) arguments
        (machine.withObject.withReceiver initializer (.object machine.objects.size cls)),
        called with
      | .error stop following, stopped => exact .after begun stopped
      | .ok value following, ⟨resumes, holdsThen, _⟩ =>
          exact ⟨begun.trans resumes, holdsThen,
            account.value_grows (receivedOn.trans resumes).grows isObject⟩

theorem invoke_upholds {callee : Value} {arguments : List Value} (line : Nat)
    (isCallee : account.value machine callee)
    (areValues : ∀ value ∈ arguments, account.value machine value) :
    account.Upholds machine account.value (invoke execute callee arguments line machine) := by
  cases callee with
  | native builtIn =>
      cases builtIn
      simp only [invoke, Value.arity?]
      split
      · exact ⟨machine.resumes_count machine.output _ (Nat.le_refl _),
          account.count machine.output _ holds (Nat.le_refl _), account.plain _ trivial⟩
      · exact .stopped holds _
  | function closure =>
      simp only [invoke, Value.arity?]
      split
      · exact invokeWith_upholds executes holds (account.function.1 isCallee) areValues
      · exact .stopped holds _
  | class_ cls =>
      simp only [invoke, Value.arity?]
      split
      · exact construct_upholds executes holds isCallee areValues
      · exact .stopped holds _
  | _ => exact .stopped holds _

end Calls

/-! ### Expressions and statements -/

section Steps

variable {steps room : Nat} (evaluates : account.Evaluates (eval steps room))
  (executes : account.Executes (exec steps room))

include evaluates executes

theorem eval_succ_upholds : account.Evaluates (eval (steps + 1) (room + 1)) := by
  intro e machine holds
  rw [eval_succ]
  cases e with
  | literal value =>
      refine .yields holds (account.plain machine ?_)
      cases value <;> trivial
  | read name binding => exact readName holds name binding
  | assign name binding value =>
      refine Upholds.bind (evaluates value machine holds) fun _ holds isValue => ?_
      refine Upholds.bind (writeName holds name binding isValue) fun resumes holds _ => ?_
      exact .yields holds (account.value_grows resumes.grows isValue)
  | unary op position operand =>
      refine Upholds.bind (evaluates operand machine holds) fun {_ following} _ holds _ => ?_
      exact ofExcept holds position.line fun _ applied => unary following applied
  | binary left op position right =>
      refine Upholds.bind (evaluates left machine holds) fun _ holds _ => ?_
      refine Upholds.bind (evaluates right _ holds) fun {_ following} _ holds _ => ?_
      exact ofExcept holds position.line fun _ applied => binary following applied
  | logical left op right =>
      refine Upholds.bind (evaluates left machine holds) fun _ holds isValue => ?_
      split
      · exact .yields holds isValue
      · exact evaluates right _ holds
  | grouping inner => exact evaluates inner machine holds
  | call callee arguments close =>
      refine Upholds.bind (evaluates callee machine holds) fun _ holds isCallee => ?_
      refine Upholds.bind (evalAll_upholds evaluates arguments holds)
        fun resumes holds areValues => ?_
      exact invoke_upholds executes holds close.line (account.value_grows resumes.grows isCallee)
        areValues
  | get object name =>
      refine Upholds.bind (evaluates object machine holds) fun _ holds isObject => ?_
      exact getProperty holds name.text name.line isObject
  | set object name value =>
      refine Upholds.bind (evaluates object machine holds) fun {target _} _ holds _ => ?_
      cases target with
      | object id cls =>
          refine Upholds.bind (evaluates value _ holds) fun {result rest} _ holds isValue => ?_
          have setOn := rest.resumes_setField id name.text result
          exact ⟨setOn, account.setField id name.text holds isValue,
            account.value_grows setOn.grows isValue⟩
      | _ => exact .stopped holds _
  | receiver keyword binding => exact readName holds _ binding
  | superMethod keyword binding method => exact superMethod holds method binding

theorem exec_succ_upholds
    (repeats : ∀ condition body machine, account.holds machine →
      account.Upholds machine account.completion (execLoop steps room condition body machine)) :
    account.Executes (exec (steps + 1) (room + 1)) := by
  intro s machine holds
  have normal : ∀ later, account.completion later .normal := fun later =>
    account.plain later trivial
  rw [exec_succ]
  cases s with
  | expression value =>
      refine Upholds.bind (evaluates value machine holds) fun {_ following} _ holds _ => ?_
      exact .yields holds (normal following)
  | print value =>
      refine Upholds.bind (evaluates value machine holds) fun {_ following} _ holds _ => ?_
      exact ⟨following.resumes_count _ following.readings (Nat.le_refl _),
        account.count _ following.readings holds (Nat.le_refl _), normal _⟩
  | declare name initializer =>
      refine Upholds.bind (evalOpt_upholds evaluates initializer holds) fun _ holds isValue => ?_
      exact completing_upholds (define_upholds holds name.text isValue)
  | block body =>
      obtain ⟨nested, isFresh⟩ := account.nest holds (account.current holds)
      have entered := account.move nested isFresh
      have enters : machine.Grows ((machine.nest machine.frame).inFrame machine.fresh) :=
        (machine.resumes_nest machine.frame).grows.trans (Machine.grows_inFrame _ machine.fresh)
      rw [Stmt.executing, Run.within_newFrame_eq]
      exact comeBack holds enters (execAll_upholds executes body entered) fun later _ =>
        completion_grows (later.grows_inFrame machine.frame)
  | branch condition thenBranch elseBranch =>
      refine Upholds.bind (evaluates condition machine holds) fun {_ following} _ holds _ => ?_
      split
      · exact executes thenBranch following holds
      · cases elseBranch with
        | none => exact .yields holds (normal following)
        | some branch => exact executes branch following holds
  | loop condition body => exact repeats condition body machine holds
  | ret keyword value =>
      refine Upholds.bind (evalOpt_upholds evaluates value holds) fun _ holds isValue => ?_
      exact .yields holds isValue
  | function declaration =>
      have counted := account.count machine.output machine.readings holds
        (Nat.le_succ machine.identities)
      have countedOn := machine.resumes_count machine.output machine.readings
        (Nat.le_succ machine.identities)
      have isFunction : account.value _ (.function (machine.newFunction declaration)) :=
        account.function.2 (account.frame_grows countedOn.grows (account.current holds))
      exact .after countedOn
        (completing_upholds (define_upholds counted declaration.name.text isFunction))
  | classDecl name superclass methods =>
      refine Upholds.bind (evalSuperclass_upholds holds superclass)
        fun {cls _} _ holds areClasses => ?_
      exact completing_upholds (newClass_upholds holds name methods areClasses)

theorem execLoop_succ_upholds
    (repeats : ∀ condition body machine, account.holds machine →
      account.Upholds machine account.completion (execLoop steps room condition body machine))
    (condition : Expr Distance) (body : Stmt Distance) {machine : Machine}
    (holds : account.holds machine) :
    account.Upholds machine account.completion
      (execLoop (steps + 1) room condition body machine) := by
  rw [execLoop_succ]
  refine Upholds.bind (evaluates condition machine holds) fun {_ following} _ holds _ => ?_
  split
  · refine Upholds.bind (executes body following holds) fun {_ rest} _ holds isValue => ?_
    exact unlessReturning_upholds holds isValue (repeats condition body rest holds)
  · exact .yields holds (account.plain following trivial)

end Steps

/-- Whatever a program does, it keeps the account: by induction on the steps that are left. -/
theorem eval_and_exec (account : Account) (steps : Nat) :
    (∀ room, account.Evaluates (eval steps room)) ∧
    (∀ room, account.Executes (exec steps room)) ∧
    ∀ room condition body machine, account.holds machine →
      account.Upholds machine account.completion (execLoop steps room condition body machine) := by
  induction steps with
  | zero =>
      refine ⟨fun room e machine holds => ?_, fun room s machine holds => ?_,
        fun room condition body machine holds => ?_⟩
      · simp only [eval]
        exact .stopped holds _
      · simp only [exec]
        exact .stopped holds _
      · simp only [execLoop]
        exact .stopped holds _
  | succ steps ih =>
      obtain ⟨evaluates, executes, repeats⟩ := ih
      refine ⟨fun room => ?_, fun room => ?_, fun room condition body machine holds => ?_⟩
      · cases room with
        | zero =>
            intro e machine holds
            simp only [eval]
            exact .stopped holds _
        | succ room => exact eval_succ_upholds (evaluates room) (executes room)
      · cases room with
        | zero =>
            intro s machine holds
            simp only [exec]
            exact .stopped holds _
        | succ room => exact exec_succ_upholds (evaluates room) (executes room) (repeats room)
      · exact execLoop_succ_upholds (evaluates room) (executes room) (repeats room) condition body
          holds

section Results

variable {steps room : Nat} {machine following : Machine} (holds : account.holds machine)

include holds

theorem evaluated {e : Expr Distance} {value : Value}
    (result : eval steps room e machine = .ok value following) :
    machine.Resumes following ∧ account.holds following ∧ account.value following value := by
  have upholds := (account.eval_and_exec steps).1 room e machine holds
  rw [result] at upholds
  exact upholds

theorem evaluatedAll {es : List (Expr Distance)} {values : List Value}
    (result : evalAll (eval steps room) es machine = .ok values following) :
    machine.Resumes following ∧ account.holds following ∧
      ∀ value ∈ values, account.value following value := by
  have upholds := evalAll_upholds ((account.eval_and_exec steps).1 room) es holds
  rw [result] at upholds
  exact upholds

theorem executed {s : Stmt Distance} {completion : Completion}
    (result : exec steps room s machine = .ok completion following) :
    machine.Resumes following ∧ account.holds following := by
  have upholds := (account.eval_and_exec steps).2.1 room s machine holds
  rw [result] at upholds
  exact ⟨upholds.1, upholds.2.1⟩

end Results

/-! ### Tasks -/

/-- Whether the values that an activity works on are accounted for. -/
def activity (account : Account) (machine : Machine) : Activity → Prop
  | .call closure arguments =>
      account.frame machine closure.frame ∧ ∀ value ∈ arguments, account.value machine value
  | .bindMethod method receiver =>
      account.frame machine method.frame ∧ account.value machine receiver
  | .declareClass _ superclass _ => ∀ cls ∈ superclass, account.value machine (.class_ cls)
  | .evaluate _ | .evaluateAll _ | .execute _ | .executeAll _ | .repeatLoop _ _ | .runProgram _ =>
      True

/-- Whether a task begins with the account kept. -/
def Begins (account : Account) (task : Task) : Prop :=
  account.holds task.machine ∧ account.activity task.machine task.activity

theorem Begins.leads {task next : Task} (begins : account.Begins task) (leads : Leads task next) :
    account.Begins next := by
  obtain ⟨holds, isActivity⟩ := begins
  cases leads with
  | binaryRight first => exact ⟨(evaluated holds first).2.1, trivial⟩
  | logicalRight first _ => exact ⟨(evaluated holds first).2.1, trivial⟩
  | callArguments first => exact ⟨(evaluated holds first).2.1, trivial⟩
  | callFunction first second _ =>
      obtain ⟨-, holdsThen, isFunction⟩ := evaluated holds first
      obtain ⟨resumes, holdsLast, areValues⟩ := evaluatedAll holdsThen second
      exact ⟨holdsLast, account.frame_grows resumes.grows (account.function.1 isFunction),
        areValues⟩
  | constructBind first second _ found =>
      obtain ⟨-, holdsThen, isClass⟩ := evaluated holds first
      obtain ⟨resumes, holdsLast, -⟩ := evaluatedAll holdsThen second
      have isClassThen := account.value_grows resumes.grows isClass
      obtain ⟨created, isObject⟩ := account.create holdsLast isClassThen
      exact ⟨created, account.frame_grows (Machine.resumes_withObject _).grows
        (account.method isClassThen found), isObject⟩
  | @constructCall _ _ _ _ _ _ _ rest cls initializer _ first second _ found =>
      obtain ⟨-, holdsThen, isClass⟩ := evaluated holds first
      obtain ⟨resumes, holdsLast, areValues⟩ := evaluatedAll holdsThen second
      have isClassThen := account.value_grows resumes.grows isClass
      obtain ⟨created, isObject⟩ := account.create holdsLast isClassThen
      have createdOn := rest.resumes_withObject
      have isMethod := account.frame_grows createdOn.grows (account.method isClassThen found)
      obtain ⟨received, isFrame⟩ := withReceiver created isMethod isObject
      have begun := createdOn.trans (rest.withObject.resumes_withReceiver initializer
        (.object rest.objects.size cls))
      exact ⟨received, isFrame, fun value member =>
        account.value_grows begun.grows (areValues value member)⟩
  | getMethod first _ found =>
      obtain ⟨-, holdsThen, isObject⟩ := evaluated holds first
      exact ⟨holdsThen, account.method (account.object isObject) found, isObject⟩
  | setValue first => exact ⟨(evaluated holds first).2.1, trivial⟩
  | superBind superclass object isFound =>
      obtain ⟨owner, -, boundClass⟩ := Forest.getAt_eq_ok superclass
      obtain ⟨other, -, boundObject⟩ := Forest.getAt_eq_ok object
      exact ⟨holds, account.method (account.stored holds boundClass) isFound,
        account.stored holds boundObject⟩
  | evaluateRest first => exact ⟨(evaluated holds first).2.1, trivial⟩
  | blockBody =>
      obtain ⟨nested, isFresh⟩ := account.nest holds (account.current holds)
      exact ⟨account.move nested isFresh, trivial⟩
  | branchThen first _ => exact ⟨(evaluated holds first).2.1, trivial⟩
  | branchElse first _ => exact ⟨(evaluated holds first).2.1, trivial⟩
  | @classMethods _ _ _ superclass _ _ _ _ first =>
      have upholds := evalSuperclass_upholds holds superclass
      rw [first] at upholds
      exact ⟨upholds.2.1, upholds.2.2⟩
  | executeRest first => exact ⟨(executed holds first).2, trivial⟩
  | loopBody first _ => exact ⟨(evaluated holds first).2.1, trivial⟩
  | loopAgain first _ second =>
      exact ⟨(executed (evaluated holds first).2.1 second).2, trivial⟩
  | callBody =>
      obtain ⟨isFrame, areValues⟩ := isActivity
      exact ⟨(entering holds isFrame areValues).1, trivial⟩
  | programRest first => exact ⟨(executed holds first).2, trivial⟩
  | _ => exact ⟨holds, trivial⟩

theorem Begins.reaches {task last : Task} (begins : account.Begins task)
    (reaches : Reaches task last) : account.Begins last := by
  induction reaches with
  | refl => exact begins
  | step _ leads ih => exact ih.leads leads

theorem Upholds.last {α : Type} {machine : Machine} {good : Machine → α → Prop}
    {result : EStateM.Result Stop Machine α} (upholds : account.Upholds machine good result) :
    machine.Resumes (Run.last result) ∧ account.holds (Run.last result) := by
  cases result with
  | ok value following => exact ⟨upholds.1, upholds.2.1⟩
  | error stop following => exact upholds

/-- However a task ends, the account is kept and the code that was running goes on. -/
theorem Begins.final {task : Task} (begins : account.Begins task) :
    task.machine.Resumes task.final ∧ account.holds task.final := by
  rcases task with ⟨steps, room, activity, machine⟩
  obtain ⟨holds, isActivity⟩ := begins
  obtain ⟨evaluates, executes, repeats⟩ := account.eval_and_exec steps
  cases activity with
  | evaluate e => exact (evaluates room e machine holds).last
  | evaluateAll es => exact (evalAll_upholds (evaluates room) es holds).last
  | execute s => exact (executes room s machine holds).last
  | executeAll body => exact (execAll_upholds (executes room) body holds).last
  | repeatLoop condition body => exact (repeats room condition body machine holds).last
  | call closure arguments =>
      exact (invokeWith_upholds (executes room) holds isActivity.1 isActivity.2).last
  | bindMethod method receiver =>
      exact ⟨machine.resumes_withReceiver method receiver,
        (withReceiver holds isActivity.1 isActivity.2).1⟩
  | declareClass name superclass methods =>
      exact ⟨machine.resumes_newClass name superclass methods,
        account.declareClass name methods holds isActivity⟩
  | runProgram program => exact (execProgram_upholds (executes room) program holds).last

end Account

end LoxLang
