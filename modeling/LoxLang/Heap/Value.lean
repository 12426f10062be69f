/-
Module: LoxLang.Heap.Value
Purpose: Values of the language.  Functions carry the frame they were declared in and classes
  their methods and superclass; only the fields of objects live elsewhere, because only they
  change.  How functions are declared makes no difference to values, so they are values over any
  kind of declarations; those of the language itself are meant where nothing else is said.
Main exports: Declaration, Closure, Class, Value, Class.findMethod?, Value.isTrue, Value.same,
  Value.text, Value.typeName, Value.inspect, Value.arity?
-/
import LoxLang.Heap.Forest
import LoxLang.Program.Binding

namespace LoxLang

/-- Declarations of functions: each has a name and parameters, and a body that consists of
statements of some kind. -/
class Declaration (δ : Type) (σ : outParam Type) where
  name : δ → Ident
  parameters : δ → List Ident
  body : δ → List σ

instance {ρ : Type} : Declaration (Function ρ) (Stmt ρ) where
  name := Function.name
  parameters := Function.parameters
  body := Function.body

namespace Declaration

variable {ρ : Type} (declaration : Function ρ)

@[simp] theorem name_function : name declaration = declaration.name :=
  rfl

@[simp] theorem parameters_function : parameters declaration = declaration.parameters :=
  rfl

@[simp] theorem body_function : body declaration = declaration.body :=
  rfl

end Declaration

variable {δ σ : Type}

/-- A function together with the frame it was declared in.  Two functions are the same only if
they have one identity. -/
structure Closure (δ : Type := Function Distance) where
  identity : Nat
  declaration : δ
  frame : FrameId
  isInitializer : Bool
deriving Repr

namespace Closure

variable [Declaration δ σ]

/-- The name a function was declared with. -/
def name (closure : Closure δ) : String :=
  (Declaration.name closure.declaration).text

/-- How many arguments a function takes. -/
def arity (closure : Closure δ) : Nat :=
  (Declaration.parameters closure.declaration).length

end Closure

/-- A class: an identity, a name, perhaps a superclass, and its own methods.  Nothing about it
changes after it has been declared, and its superclass was there before it. -/
inductive Class (δ : Type := Function Distance) where
  | mk (identity : Nat) (name : String) (superclass : Option (Class δ))
      (methods : Bindings (Closure δ))
deriving Repr

namespace Class

/-- What makes a class the same as another. -/
def identity : Class δ → Nat
  | mk identity _ _ _ => identity

/-- The name a class was declared with. -/
def name : Class δ → String
  | mk _ name _ _ => name

/-- The class a class inherits from. -/
def superclass : Class δ → Option (Class δ)
  | mk _ _ superclass _ => superclass

/-- The methods declared in a class itself. -/
def methods : Class δ → Bindings (Closure δ)
  | mk _ _ _ methods => methods

/-- The method of a class or of the nearest class it inherits from. -/
def findMethod? (method : String) : Class δ → Option (Closure δ)
  | mk _ _ none methods => methods.get? method
  | mk _ _ (some superclass) methods =>
      match methods.get? method with
      | some found => some found
      | none => superclass.findMethod? method

/-- The method that sets up new objects. -/
def initializer? (cls : Class δ) : Option (Closure δ) :=
  cls.findMethod? "init"

/-- How many arguments a class takes when it is called. -/
def arity [Declaration δ σ] (cls : Class δ) : Nat :=
  match cls.initializer? with
  | none => 0
  | some initializer => initializer.arity

end Class

/-- Functions that are not written in the language. -/
inductive Native where
  /-- The time in seconds. -/
  | clock
deriving DecidableEq, Repr, Inhabited

namespace Native

/-- The global name of a native function. -/
def name : Native → String
  | clock => "clock"

/-- How many arguments a native function takes. -/
def arity : Native → Nat
  | clock => 0

end Native

/-- A value. -/
inductive Value (δ : Type := Function Distance) where
  | nil
  | bool (value : Bool)
  | number (value : Float)
  | string (value : String)
  | native (builtIn : Native)
  | function (closure : Closure δ)
  | class_ (cls : Class δ)
  /-- An object: the place of its fields, and its class. -/
  | object (id : Nat) (cls : Class δ)
deriving Repr, Inhabited

namespace Value

/-- The value of a constant. -/
def ofLiteral : Literal → Value δ
  | .nil => nil
  | .bool value => bool value
  | .number value => number value
  | .string value => string value

/-- Whether a value counts as true in a condition: all do but `nil` and `false`. -/
def isTrue : Value δ → Bool
  | nil => false
  | bool value => value
  | _ => true

/-- Equality of the language.  Values of different kinds are never equal; functions, classes and
objects are equal only to themselves. -/
def same : Value δ → Value δ → Bool
  | nil, nil => true
  | bool left, bool right => left == right
  | number left, number right => Number.same left right
  | string left, string right => left == right
  | native left, native right => left = right
  | function left, function right => left.identity == right.identity
  | class_ left, class_ right => left.identity == right.identity
  | object left _, object right _ => left == right
  | _, _ => false

/-- The text a program prints for a value. -/
def text [Declaration δ σ] : Value δ → String
  | nil => "nil"
  | bool true => "true"
  | bool false => "false"
  | number value => Number.text value
  | string value => value
  | native _ => "<native fn>"
  | function closure => s!"<fn {closure.name}>"
  | class_ cls => cls.name
  | object _ cls => cls.name ++ " instance"

/-- The name of a value's type; an object has its class for a type. -/
def typeName : Value δ → String
  | nil => "nil"
  | bool _ => "bool"
  | number _ => "number"
  | string _ => "string"
  | native _ => "builtin_function"
  | function _ => "function"
  | class_ _ => "class"
  | object _ cls => cls.name

/-- The text that tells a value's kind as well, for looking at values from outside. -/
def inspect [Declaration δ σ] : Value δ → String
  | nil => "NilValue()"
  | bool value => s!"BoolValue({(Literal.bool value).listing})"
  | number value => s!"NumberValue({Number.listing value})"
  | string value => s!"StringValue('{value}')"
  | native builtIn => s!"<BuiltInFunction {builtIn.name}>"
  | function closure => s!"FunctionValue({closure.name})"
  | class_ cls => s!"ClassValue({cls.name})"
  | object _ cls => s!"InstanceValue({cls.name})"

/-- How many arguments a value takes when it is called; nothing if it cannot be called. -/
def arity? [Declaration δ σ] : Value δ → Option Nat
  | native builtIn => some builtIn.arity
  | function closure => some closure.arity
  | class_ cls => some cls.arity
  | _ => none

end Value

end LoxLang
