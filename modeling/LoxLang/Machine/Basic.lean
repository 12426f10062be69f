/-
Module: LoxLang.Machine.Basic
Purpose: The state of a running program and the steps that do not evaluate anything: looking up
  and changing variables and fields, creating frames, functions and objects, printing.  Like
  values, the machine can run functions of any kind of declarations.
Main exports: RuntimeError, Machine, Stop, RunOf, Run, Run.within, Run.readName, Run.writeName,
  Run.getProperty, Run.setField
-/
import LoxLang.Heap.Value

namespace LoxLang

/-! ### Errors -/

/-- What can go wrong while a program runs. -/
inductive RuntimeCause where
  | undefinedVariable (name : String)
  | undefinedProperty (name : String)
  | operandNotNumber
  | operandsNotNumbers
  | operandsNotAddable
  | notCallable
  | wrongArgumentCount (expected actual : Nat)
  | propertyOfNonObject
  | fieldOfNonObject
  | superclassNotClass
deriving DecidableEq, Repr, Inhabited

/-- The sentence for a cause. -/
def RuntimeCause.message : RuntimeCause → String
  | undefinedVariable name => s!"Undefined variable '{name}'."
  | undefinedProperty name => s!"Undefined property '{name}'."
  | operandNotNumber => "Operand must be a number."
  | operandsNotNumbers => "Operands must be numbers."
  | operandsNotAddable => "Operands must be two numbers or two strings."
  | notCallable => "Can only call functions and classes."
  | wrongArgumentCount expected actual => s!"Expected {expected} arguments but got {actual}."
  | propertyOfNonObject => "Only instances have properties."
  | fieldOfNonObject => "Only instances have fields."
  | superclassNotClass => "Superclass must be a class."

/-- A cause and the line it arose on. -/
structure RuntimeError where
  cause : RuntimeCause
  line : Nat
deriving DecidableEq, Repr, Inhabited

/-- The report of an error. -/
def RuntimeError.text (error : RuntimeError) : String :=
  s!"{error.cause.message}\n[line {error.line}]"

/-! ### The machine -/

variable {α δ σ : Type}

/-- The state of a running program. -/
structure Machine (δ : Type := Function Distance) where
  /-- All frames created so far. -/
  frames : Forest (Value δ)
  /-- The frame of the code that is running. -/
  frame : FrameId
  /-- The fields of all objects created so far. -/
  objects : Array (Bindings (Value δ))
  /-- How many functions and classes have been created. -/
  identities : Nat
  /-- The lines printed so far. -/
  output : Array String
  /-- What the clock shows when it is read for the first time, the second time, and so on. -/
  clock : Nat → Float
  /-- How often the clock has been read. -/
  readings : Nat

namespace Machine

/-- The frame of global variables. -/
def globalFrame : FrameId := 0

/-- A machine that has run nothing: its only global is the clock. -/
def initial (clock : Nat → Float) : Machine δ :=
  let (globals, frames) := (Forest.empty : Forest (Value δ)).alloc none
  { frames := frames.define globals Native.clock.name (.native .clock)
    frame := globals
    objects := #[]
    identities := 0
    output := #[]
    clock := clock
    readings := 0 }

/-- The global variables. -/
def globals (machine : Machine δ) : Bindings (Value δ) :=
  machine.frames.bindings globalFrame

/-- Whether the code that is running sees only global variables. -/
def atGlobals (machine : Machine δ) : Bool :=
  machine.frame = globalFrame

/-- The fields of an object. -/
def fields (machine : Machine δ) (id : Nat) : Bindings (Value δ) :=
  machine.objects[id]?.getD .empty

end Machine

/-- Why a run ends before its last statement. -/
inductive Stop where
  /-- The program did something it must not do. -/
  | error (error : RuntimeError)
  /-- Evaluation is nested too deeply. -/
  | overflow
  /-- A bound variable was not where binding said it would be. -/
  | fault (fault : AccessFault)
  /-- The allowance of steps is used up. -/
  | unfinished
deriving DecidableEq, Repr, Inhabited

/-- A piece of a run: it changes the machine, and yields a value or stops. -/
abbrev RunOf (δ α : Type) := EStateM Stop (Machine δ) α

/-- A piece of a run of the language itself. -/
abbrev Run (α : Type) := RunOf (Function Distance) α

namespace Run

/-- Stops with an error. -/
def fail (cause : RuntimeCause) (line : Nat) : RunOf δ α := fun machine =>
  .error (.error { cause := cause, line := line }) machine

/-- The result of a step that does not depend on the machine. -/
def ofExcept (line : Nat) (result : Except RuntimeCause α) : RunOf δ α := fun machine =>
  match result with
  | .ok value => .ok value machine
  | .error cause => .error (.error { cause := cause, line := line }) machine

/-- Prints a line. -/
def print (line : String) : RunOf δ Unit := fun machine =>
  .ok () { machine with output := machine.output.push line }

/-- Reads the clock. -/
def readClock : RunOf δ (Value δ) := fun machine =>
  .ok (.number (machine.clock machine.readings))
    { machine with readings := machine.readings + 1 }

/-! ### Frames -/

/-- Creates a frame nested in a given one. -/
def newFrame (parent : FrameId) : RunOf δ FrameId := fun machine =>
  match machine with
  | { frames, frame, objects, identities, output, clock, readings } =>
      let (id, frames) := frames.alloc (some parent)
      .ok id { frames, frame, objects, identities, output, clock, readings }

/-- Binds a name in a given frame. -/
def defineIn (frame : FrameId) (name : String) (value : Value δ) : RunOf δ Unit := fun machine =>
  .ok () { machine with frames := machine.frames.define frame name value }

/-- Binds a name in the frame of the code that is running. -/
def define (name : String) (value : Value δ) : RunOf δ Unit := fun machine =>
  defineIn machine.frame name value machine

/-- Binds names to values in order, until either runs out. -/
def defineAll (frame : FrameId) : List Ident → List (Value δ) → RunOf δ Unit
  | name :: names, value :: values => do
      defineIn frame name.text value
      defineAll frame names values
  | _, _ => pure ()

/-- Runs code in another frame and comes back to this one, however the code ends. -/
def within (frame : FrameId) (body : RunOf δ α) : RunOf δ α := fun machine =>
  let outer := machine.frame
  match body { machine with frame := frame } with
  | .ok value inner => .ok value { inner with frame := outer }
  | .error stop inner => .error stop { inner with frame := outer }

/-- The frame of the code that is running. -/
def currentFrame : RunOf δ FrameId := fun machine =>
  .ok machine.frame machine

/-! ### Variables -/

/-- The value of a name at a given distance from a frame. -/
def readFrom (frame : FrameId) (distance : Nat) (name : String) : RunOf δ (Value δ) :=
  fun machine =>
    match machine.frames.getAt frame distance name with
    | .ok value => .ok value machine
    | .error fault => .error (.fault fault) machine

/-- The value of a name at a given distance from the code that is running. -/
def readAt (distance : Nat) (name : String) : RunOf δ (Value δ) := fun machine =>
  readFrom machine.frame distance name machine

/-- The value of a global name. -/
def readGlobal (name : Ident) : RunOf δ (Value δ) := fun machine =>
  match machine.frames.get? Machine.globalFrame name.text with
  | some value => .ok value machine
  | none => fail (.undefinedVariable name.text) name.line machine

/-- The value of a name that has been bound. -/
def readName (name : Ident) : Distance → RunOf δ (Value δ)
  | some distance => readAt distance name.text
  | none => readGlobal name

/-- Gives a new value to a name at a given distance. -/
def writeAt (distance : Nat) (name : String) (value : Value δ) : RunOf δ Unit := fun machine =>
  match machine.frames.frameAt machine.frame distance with
  | .ok frame => defineIn frame name value machine
  | .error fault => .error (.fault fault) machine

/-- Gives a new value to a global name, which must be bound. -/
def writeGlobal (name : Ident) (value : Value δ) : RunOf δ Unit := fun machine =>
  match machine.frames.find? name.text Machine.globalFrame with
  | some frame => defineIn frame name.text value machine
  | none => fail (.undefinedVariable name.text) name.line machine

/-- Gives a new value to a name that has been bound. -/
def writeName (name : Ident) (value : Value δ) : Distance → RunOf δ Unit
  | some distance => writeAt distance name.text value
  | none => writeGlobal name value

/-! ### Functions, classes and objects -/

/-- A number that no function and no class has had before. -/
def freshIdentity : RunOf δ Nat := fun machine =>
  .ok machine.identities { machine with identities := machine.identities + 1 }

/-- Creates a function whose variables are nested in a given frame. -/
def newClosure (declaration : δ) (frame : FrameId) (isInitializer : Bool) :
    RunOf δ (Closure δ) := do
  let identity ← freshIdentity
  return { identity, declaration, frame, isInitializer }

/-- Creates an object without fields. -/
def newObject (cls : Class δ) : RunOf δ (Value δ) := fun machine =>
  .ok (.object machine.objects.size cls)
    { machine with objects := machine.objects.push .empty }

/-- A copy of a method in whose body `this` is the given object. -/
def bindMethod (method : Closure δ) (receiver : Value δ) : RunOf δ (Closure δ) := do
  let frame ← newFrame method.frame
  defineIn frame "this" receiver
  newClosure method.declaration frame method.isInitializer

/-- The field of an object, or else its method bound to it. -/
def getProperty (object : Value δ) (name : String) (line : Nat) : RunOf δ (Value δ) :=
  fun machine =>
    match object with
    | .object id cls =>
        match (machine.fields id).get? name with
        | some value => .ok value machine
        | none =>
            match cls.findMethod? name with
            | some method => (.function <$> bindMethod method object) machine
            | none => fail (.undefinedProperty name) line machine
    | _ => fail .propertyOfNonObject line machine

/-- Gives a value to a field of an object. -/
def setField (object : Value δ) (name : String) (line : Nat) (value : Value δ) : RunOf δ Unit :=
  fun machine =>
    match object with
    | .object id _ =>
        .ok () { machine with
          objects := machine.objects.modify id fun fields => fields.set name value }
    | _ => fail .fieldOfNonObject line machine

/-- Creates the methods of a class in a given frame; of two with one name the later counts. -/
def newMethods [Declaration δ σ] (frame : FrameId) (seen : Bindings (Closure δ)) :
    List δ → RunOf δ (Bindings (Closure δ))
  | [] => return seen
  | method :: rest => do
      let name := (Declaration.name method).text
      let closure ← newClosure method frame (name = "init")
      newMethods frame (seen.set name closure) rest

/-- Creates a class in the frame of the code that is running and binds its name.  The methods of a
class with a superclass see it as `super`. -/
def newClass [Declaration δ σ] (name : Ident) (superclass : Option (Class δ)) (methods : List δ) :
    RunOf δ Unit := do
  let frame ← currentFrame
  let methodFrame ←
    match superclass with
    | none => pure frame
    | some cls => do
        let inner ← newFrame frame
        defineIn inner "super" (.class_ cls)
        pure inner
  let methods ← newMethods methodFrame .empty methods
  let identity ← freshIdentity
  defineIn frame name.text (.class_ (.mk identity name.text superclass methods))

/-- A method of the superclass bound to the object that the running method belongs to, which is
kept one scope further in than `super`. -/
def superMethodAt (distance : Nat) (method : Ident) : RunOf δ (Value δ) := do
  let superclass ← readAt distance "super"
  let receiver ← readAt (distance - 1) "this"
  match superclass with
  | .class_ cls =>
      match cls.findMethod? method.text with
      | some found => .function <$> bindMethod found receiver
      | none => fail (.undefinedProperty method.text) method.line
  | _ => throw (.fault (.unbound "super"))

/-- A method of the superclass; outside of a class there is none. -/
def superMethod (method : Ident) : Distance → RunOf δ (Value δ)
  | some distance => superMethodAt distance method
  | none => throw (.fault (.unbound "super"))

end Run

end LoxLang
