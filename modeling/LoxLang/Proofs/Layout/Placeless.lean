/-
Module: LoxLang.Proofs.Layout.Placeless
Purpose: Values and machines without places.  The only trace of the source in a machine is the code
  of its functions; forgetting where that code stands changes nothing that a program can find out
  about values, frames and fields.
Main exports: Rewording.placeless, Bindings.map, Forest.map, Value.placeless, Machine.placeless,
  Stop.placeless
-/
import LoxLang.Machine.Eval
import LoxLang.Proofs.Rewording.Tree

namespace LoxLang

/-- Every name keeps its word, and everything is moved to the start of the source. -/
def Rewording.placeless : Rewording where
  word := Ident.text
  move := fun _ => .start

/-! ### Other values under the same names -/

variable {α β : Type} (image : α → β)

namespace Bindings

/-- The same names with other values. -/
def map (bindings : Bindings α) : Bindings β where
  entries := bindings.entries.map fun entry => (entry.1, image entry.2)

@[simp] theorem names_map (bindings : Bindings α) :
    (bindings.map image).names = bindings.names := by
  simp [names, map]

theorem find?_map (name : String) (entries : List (String × α)) :
    find? name (entries.map fun entry => (entry.1, image entry.2)) =
      (find? name entries).map image := by
  induction entries with
  | nil => rfl
  | cons entry rest ih =>
      simp only [List.map_cons, find?, ih]
      split <;> rfl

@[simp] theorem get?_map (bindings : Bindings α) (name : String) :
    (bindings.map image).get? name = (bindings.get? name).map image :=
  find?_map image name bindings.entries

theorem put_map (name : String) (value : α) (entries : List (String × α)) :
    put name (image value) (entries.map fun entry => (entry.1, image entry.2)) =
      (put name value entries).map fun entry => (entry.1, image entry.2) := by
  induction entries with
  | nil => rfl
  | cons entry rest ih =>
      simp only [List.map_cons, put, ih]
      split <;> rfl

theorem set_map (bindings : Bindings α) (name : String) (value : α) :
    (bindings.map image).set name (image value) = (bindings.set name value).map image := by
  simp only [set, map, put_map]

end Bindings

/-- Changing one element before or after all of them are mapped. -/
theorem modify_map {change : α → α} {changed : β → β}
    (commutes : ∀ element, changed (image element) = image (change element)) (array : Array α)
    (index : Nat) :
    (array.map image).modify index changed = (array.modify index change).map image := by
  refine Array.ext_getElem? fun place => ?_
  simp only [Array.getElem?_map, Array.getElem?_modify]
  cases array[place]? with
  | none => split <;> rfl
  | some element =>
      split
      · exact congrArg some (commutes element)
      · rfl

/-- A frame with other values. -/
def Frame.map (frame : Frame α) : Frame β where
  bindings := frame.bindings.map image
  parent := frame.parent

namespace Forest

/-- The same frames with other values. -/
def map (forest : Forest α) : Forest β where
  frames := forest.frames.map (Frame.map image)

variable (forest : Forest α)

theorem alloc_map (parent : Option FrameId) :
    (forest.map image).alloc parent =
      ((forest.alloc parent).1, (forest.alloc parent).2.map image) := by
  simp only [alloc, map, Array.size_map, Array.map_push]
  rfl

@[simp] theorem parent?_map (id : FrameId) : (forest.map image).parent? id = forest.parent? id := by
  simp only [parent?, map, Array.getElem?_map]
  cases forest.frames[id]? <;> rfl

@[simp] theorem local?_map (id : FrameId) (name : String) :
    (forest.map image).local? id name = (forest.local? id name).map image := by
  simp only [local?, map, Array.getElem?_map]
  cases forest.frames[id]? with
  | none => rfl
  | some frame => exact Bindings.get?_map image frame.bindings name

theorem bindings_map (id : FrameId) :
    (forest.map image).bindings id = (forest.bindings id).map image := by
  simp only [bindings, map, Array.getElem?_map]
  cases forest.frames[id]? <;> rfl

theorem define_map (id : FrameId) (name : String) (value : α) :
    (forest.map image).define id name (image value) = (forest.define id name value).map image := by
  simp only [define, map, Forest.mk.injEq]
  refine modify_map (Frame.map image) (fun frame => ?_) forest.frames id
  simp only [Frame.map, Bindings.set_map]

/-- A name is bound in the same frame, whatever its value is. -/
@[simp] theorem find?_map (name : String) (id : FrameId) :
    (forest.map image).find? name id = forest.find? name id := by
  induction id using Nat.strongRecOn with
  | _ id ih =>
      rw [find?, find?, local?_map, Option.isSome_map, parent?_map]
      cases forest.parent? id with
      | none => rfl
      | some outer =>
          by_cases further : outer < id
          · simp only [if_pos further, ih outer further]
          · simp only [if_neg further]

theorem get?_map (id : FrameId) (name : String) :
    (forest.map image).get? id name = (forest.get? id name).map image := by
  rw [get?, get?, find?_map]
  cases forest.find? name id with
  | none => rfl
  | some owner => exact local?_map image forest owner name

theorem climb_map (distance : Nat) (place : Option FrameId) :
    (forest.map image).climb distance place = forest.climb distance place := by
  induction distance generalizing place with
  | zero => rfl
  | succ distance ih =>
      cases place with
      | none => rfl
      | some id => rw [climb, climb, parent?_map, ih]

@[simp] theorem frameAt_map (id : FrameId) (distance : Nat) :
    (forest.map image).frameAt id distance = forest.frameAt id distance := by
  rw [frameAt, frameAt, ancestor, ancestor, climb_map]

theorem getAt_map (id : FrameId) (distance : Nat) (name : String) :
    (forest.map image).getAt id distance name = (forest.getAt id distance name).map image := by
  rw [getAt, getAt, frameAt_map]
  cases forest.frameAt id distance with
  | error fault => rfl
  | ok found =>
      simp only [local?_map]
      cases forest.local? found name <;> rfl

end Forest

/-! ### Values -/

/-- A function whose code has no places. -/
def Closure.placeless (closure : Closure) : Closure :=
  { closure with declaration := Stmt.rewordFunction .placeless closure.declaration }

/-- A class whose methods, also the inherited ones, have no places. -/
def Class.placeless : Class → Class
  | mk identity name none methods => mk identity name none (methods.map Closure.placeless)
  | mk identity name (some superclass) methods =>
      mk identity name (some superclass.placeless) (methods.map Closure.placeless)

/-- A value whose code has no places. -/
def Value.placeless : Value → Value
  | function closure => function closure.placeless
  | class_ cls => class_ cls.placeless
  | object id cls => object id cls.placeless
  | other => other

@[simp] theorem Closure.name_placeless (closure : Closure) :
    closure.placeless.name = closure.name := by
  rcases closure with ⟨identity, ⟨name, parameters, body⟩, frame, isInitializer⟩
  rfl

@[simp] theorem Closure.arity_placeless (closure : Closure) :
    closure.placeless.arity = closure.arity := by
  rcases closure with ⟨identity, ⟨name, parameters, body⟩, frame, isInitializer⟩
  simp only [arity, placeless, Stmt.rewordFunction, Declaration.parameters_function,
    Function.parameters, List.length_map]

namespace Class

theorem mk_placeless (identity : Nat) (name : String) (superclass : Option Class)
    (methods : Bindings Closure) :
    (mk identity name superclass methods).placeless =
      mk identity name (superclass.map placeless) (methods.map Closure.placeless) := by
  cases superclass <;> rfl

@[simp] theorem identity_placeless (cls : Class) : cls.placeless.identity = cls.identity := by
  rcases cls with ⟨identity, name, superclass, methods⟩
  rw [mk_placeless, Class.identity, Class.identity]

@[simp] theorem name_placeless (cls : Class) : cls.placeless.name = cls.name := by
  rcases cls with ⟨identity, name, superclass, methods⟩
  rw [mk_placeless, Class.name, Class.name]

theorem findMethod?_placeless (method : String) : ∀ cls : Class,
    cls.placeless.findMethod? method = (cls.findMethod? method).map Closure.placeless
  | mk _ _ none methods => Bindings.get?_map Closure.placeless methods method
  | mk _ _ (some superclass) methods => by
      simp only [placeless, findMethod?, Bindings.get?_map, findMethod?_placeless method superclass]
      cases methods.get? method <;> rfl

theorem arity_placeless (cls : Class) : cls.placeless.arity = cls.arity := by
  rw [arity, arity, initializer?, initializer?, findMethod?_placeless]
  cases cls.findMethod? "init" with
  | none => rfl
  | some initializer => exact initializer.arity_placeless

end Class

namespace Value

variable (value : Value)

@[simp] theorem isTrue_placeless : value.placeless.isTrue = value.isTrue := by
  cases value <;> rfl

@[simp] theorem same_placeless (other : Value) :
    value.placeless.same other.placeless = value.same other := by
  cases value <;> cases other <;> simp [placeless, same, Closure.placeless]

@[simp] theorem text_placeless : value.placeless.text = value.text := by
  cases value <;> simp [placeless, text]

@[simp] theorem typeName_placeless : value.placeless.typeName = value.typeName := by
  cases value <;> simp [placeless, typeName]

@[simp] theorem inspect_placeless : value.placeless.inspect = value.inspect := by
  cases value with
  | function closure =>
      exact congrArg (fun word => s!"FunctionValue({word})") closure.name_placeless
  | class_ cls => exact congrArg (fun word => s!"ClassValue({word})") cls.name_placeless
  | object id cls => exact congrArg (fun word => s!"InstanceValue({word})") cls.name_placeless
  | _ => rfl

@[simp] theorem arity?_placeless : value.placeless.arity? = value.arity? := by
  cases value <;> simp [placeless, arity?, Class.arity_placeless]

theorem ofLiteral_placeless (literal : Literal) :
    (ofLiteral literal).placeless = ofLiteral literal := by
  cases literal <;> rfl

end Value

/-! ### Operators -/

theorem UnaryOp.apply_placeless (op : UnaryOp) (value : Value) :
    op.apply value.placeless = (op.apply value).map Value.placeless := by
  cases op <;> cases value <;> rfl

theorem BinaryOp.apply_placeless (op : BinaryOp) (left right : Value) :
    op.apply left.placeless right.placeless = (op.apply left right).map Value.placeless := by
  have equality : ∀ truth : Bool → Bool,
      Except.ok (.bool (truth (left.placeless.same right.placeless))) =
        (Except.ok (.bool (truth (left.same right))) : Except RuntimeCause Value).map
          Value.placeless := by
    intro truth
    rw [Value.same_placeless]
    rfl
  cases op with
  | equal => exact equality id
  | notEqual => exact equality not
  | _ => cases left <;> cases right <;> rfl

theorem LogicalOp.decides_placeless (op : LogicalOp) (value : Value) :
    op.decides value.placeless = op.decides value := by
  cases op <;> simp only [decides, Value.isTrue_placeless]

/-! ### Machines -/

/-- A machine whose functions have no places. -/
def Machine.placeless (machine : Machine) : Machine where
  frames := machine.frames.map Value.placeless
  frame := machine.frame
  objects := machine.objects.map (Bindings.map Value.placeless)
  identities := machine.identities
  output := machine.output
  clock := machine.clock
  readings := machine.readings

theorem Machine.globals_placeless (machine : Machine) :
    machine.placeless.globals = machine.globals.map Value.placeless :=
  Forest.bindings_map Value.placeless machine.frames globalFrame

theorem Machine.fields_placeless (machine : Machine) (id : Nat) :
    machine.placeless.fields id = (machine.fields id).map Value.placeless := by
  simp only [fields, placeless, Array.getElem?_map]
  cases machine.objects[id]? <;> rfl

/-- An error on no line in particular. -/
def RuntimeError.placeless (error : RuntimeError) : RuntimeError :=
  { error with line := Position.start.line }

/-- The reason why a run ends, on no line in particular. -/
def Stop.placeless : Stop → Stop
  | error failure => error failure.placeless
  | other => other

/-- How a statement ends, with a value without places. -/
def Completion.placeless : Completion → Completion
  | normal => normal
  | returning value => returning value.placeless

theorem Completion.value_placeless (completion : Completion) :
    completion.placeless.value = completion.value.placeless := by
  cases completion <;> rfl

end LoxLang
