/-
Module: LoxLang.Program.Binding
Purpose: Binding names to scopes before a program runs.  Every reference to a name declared in an
  enclosing block, function or class gets the number of scopes to walk outwards; all other names
  are global.  Uses of names and keywords that can be seen to be wrong are reported on the way.
Main exports: Distance, ScopeError, Binder, Expr.bind, Stmt.bind, Binding, Program.bind
-/
import LoxLang.Program.SyntaxError
import LoxLang.Program.Tree

namespace LoxLang

/-- How many scopes to walk outwards to the one that binds a name; none for a global name. -/
abbrev Distance := Option Nat

/-! ### Errors -/

/-- What can be seen to be wrong before a program runs. -/
inductive ScopeCause where
  | returnAtTopLevel
  | returnValueFromInitializer
  | receiverOutsideClass
  | superOutsideClass
  | superWithoutSuperclass
  | inheritsFromItself
  | declaredTwice
  | readInOwnInitializer
deriving DecidableEq, Repr, Inhabited

/-- The sentence for a cause. -/
def ScopeCause.message : ScopeCause → String
  | returnAtTopLevel => "Can't return from top-level code."
  | returnValueFromInitializer => "Can't return a value from an initializer."
  | receiverOutsideClass => "Can't use 'this' outside of a class."
  | superOutsideClass => "Can't use 'super' outside of a class."
  | superWithoutSuperclass => "Can't use 'super' in a class with no superclass."
  | inheritsFromItself => "A class can't inherit from itself."
  | declaredTwice => "Already a variable with this name in this scope."
  | readInOwnInitializer => "Can't read local variable in its own initializer."

/-- A cause and the name or keyword it was found at. -/
structure ScopeError where
  cause : ScopeCause
  name : Ident
deriving DecidableEq, Repr, Inhabited

namespace ScopeError

/-- The line an error is reported on. -/
def line (error : ScopeError) : Nat :=
  error.name.line

/-- The report of an error. -/
def text (error : ScopeError) : String :=
  locate error.line (placeOf error.name.text) error.cause.message

end ScopeError

/-! ### Scopes -/

/-- The names declared in one scope, each with whether it is ready to be read: a variable is not
while its initializer is being looked at. -/
structure Scope where
  names : List (String × Bool)
deriving DecidableEq, Repr, Inhabited

namespace Scope

/-- A scope that declares nothing. -/
def empty : Scope :=
  { names := [] }

/-- A scope that holds one name, ready to be read. -/
def holding (name : String) : Scope :=
  { names := [(name, true)] }

/-- Whether a name is ready to be read, if it is declared here. -/
def ready? (scope : Scope) (name : String) : Option Bool :=
  scope.names.lookup name

/-- Whether a name is declared here. -/
def declares (scope : Scope) (name : String) : Bool :=
  (scope.ready? name).isSome

/-- Records a name as ready or not. -/
def mark (scope : Scope) (name : String) (ready : Bool) : Scope :=
  { names := (name, ready) :: scope.names.filter (·.1 ≠ name) }

end Scope

/-- What kind of function the code being looked at belongs to. -/
inductive FunctionContext where
  | outside
  | function
  | method
  | initializer
deriving DecidableEq, Repr, Inhabited

/-- What kind of class the code being looked at belongs to. -/
inductive ClassContext where
  | outside
  | class_
  | subclass
deriving DecidableEq, Repr, Inhabited

/-- The function and class that surround the code being looked at. -/
structure Context where
  function : FunctionContext
  inClass : ClassContext
deriving DecidableEq, Repr, Inhabited

/-- The context of a program. -/
def Context.topLevel : Context :=
  { function := .outside, inClass := .outside }

/-- What kind of function a method is. -/
def FunctionContext.ofMethod (name : Ident) : FunctionContext :=
  if name.text = "init" then .initializer else .method

/-- What surrounds the code being looked at, its local scopes innermost first, and the errors
found. -/
structure BinderState where
  context : Context
  scopes : List Scope
  errors : Array ScopeError
deriving Repr, Inhabited

/-- A step of binding. -/
abbrev Binder (α : Type) := StateM BinderState α

namespace Binder

/-- Reports an error and goes on. -/
def report (cause : ScopeCause) (name : Ident) : Binder Unit
  | { context, scopes, errors } =>
      ((), { context, scopes, errors := errors.push { cause := cause, name := name } })

/-- Changes the innermost scope; at the top level there is none to change. -/
def markInnermost (name : String) (ready : Bool) : Binder Unit
  | { context, scopes := [], errors } => ((), { context, scopes := [], errors })
  | { context, scopes := innermost :: outer, errors } =>
      ((), { context, scopes := innermost.mark name ready :: outer, errors })

/-- Declares a name in the innermost scope without making it ready.  A second declaration in one
scope is an error; global names may be declared again. -/
def declare (name : Ident) : Binder Unit := fun state =>
  match state.scopes with
  | [] => ((), state)
  | innermost :: _ =>
      if innermost.declares name.text then
        (do report .declaredTwice name; markInnermost name.text false : Binder Unit) state
      else
        markInnermost name.text false state

/-- Makes a declared name ready to be read. -/
def define (name : Ident) : Binder Unit :=
  markInnermost name.text true

/-- Declares a name that is ready right away. -/
def introduce (name : Ident) : Binder Unit := do
  declare name
  define name

/-- Introduces names in order. -/
def introduceAll : List Ident → Binder Unit
  | [] => pure ()
  | name :: rest => do
      introduce name
      introduceAll rest

/-- How far out a name is bound. -/
def distance (name : String) : Binder Distance := fun state =>
  (state.scopes.findIdx? fun scope => scope.declares name, state)

/-- Looks at code inside a new innermost scope. -/
def within {α : Type} (scope : Scope) (body : Binder α) : Binder α
  | { context, scopes, errors } =>
      match body { context, scopes := scope :: scopes, errors } with
      | (value, { context, scopes, errors }) => (value, { context, scopes := scopes.tail, errors })

/-- What surrounds the code being looked at. -/
def surroundings : Binder Context := fun state =>
  (state.context, state)

/-- Looks at a function of some kind, and comes back to the function around it. -/
def inFunction {α : Type} (kind : FunctionContext) (body : Binder α) : Binder α
  | { context, scopes, errors } =>
      let enclosing := context.function
      match body { context := { context with function := kind }, scopes, errors } with
      | (value, { context, scopes, errors }) =>
          (value, { context := { context with function := enclosing }, scopes, errors })

/-- Looks at a class of some kind, and comes back to the class around it. -/
def inClass {α : Type} (kind : ClassContext) (body : Binder α) : Binder α
  | { context, scopes, errors } =>
      let enclosing := context.inClass
      match body { context := { context with inClass := kind }, scopes, errors } with
      | (value, { context, scopes, errors }) =>
          (value, { context := { context with inClass := enclosing }, scopes, errors })

/-- The class being looked at turns out to be of another kind. -/
def setClass (kind : ClassContext) : Binder Unit
  | { context, scopes, errors } =>
      ((), { context := { context with inClass := kind }, scopes, errors })

/-- Binds a use of a name.  A variable must not be read in its own initializer. -/
def use (name : Ident) : Binder Distance := do
  let state ← get
  match state.scopes with
  | innermost :: _ =>
      if innermost.ready? name.text = some false then
        report .readInOwnInitializer name
  | [] => pure ()
  distance name.text

/-- Binds a use of `this`, which has no meaning outside of a class. -/
def useReceiver (keyword : Position) : Binder Distance := do
  let context ← surroundings
  match context.inClass with
  | .outside =>
      report .receiverOutsideClass { text := "this", position := keyword }
      return none
  | _ => distance "this"

/-- Binds a use of `super`, which has no meaning where there is no superclass. -/
def useSuper (keyword : Position) : Binder Distance := do
  let context ← surroundings
  match context.inClass with
  | .outside => report .superOutsideClass { text := "super", position := keyword }
  | .class_ => report .superWithoutSuperclass { text := "super", position := keyword }
  | .subclass => pure ()
  distance "super"

/-- Checks that a `return` stands inside a function, and that no value is returned from an
initializer. -/
def checkReturn (keyword : Position) (hasValue : Bool) : Binder Unit := do
  let context ← surroundings
  match context.function with
  | .outside => report .returnAtTopLevel { text := "return", position := keyword }
  | .initializer =>
      if hasValue then
        report .returnValueFromInitializer { text := "return", position := keyword }
  | _ => pure ()

/-- Checks that a class does not name itself as its superclass. -/
def checkSuperclass (name superclass : Ident) : Binder Unit := do
  if superclass.text = name.text then
    report .inheritsFromItself superclass

end Binder

/-! ### Binding trees -/

namespace Expr

mutual
/-- Binds the names in an expression.  A value is looked at before the place it is assigned to. -/
def bind : Expr Unit → Binder (Expr Distance)
  | literal value => return literal value
  | read name _ => return read name (← Binder.use name)
  | assign name _ value => do
      let value ← value.bind
      return assign name (← Binder.distance name.text) value
  | unary op position operand => return unary op position (← operand.bind)
  | binary left op position right => do
      let left ← left.bind
      let right ← right.bind
      return binary left op position right
  | logical left op right => do
      let left ← left.bind
      let right ← right.bind
      return logical left op right
  | grouping inner => return grouping (← inner.bind)
  | call callee arguments close => do
      let callee ← callee.bind
      let arguments ← bindAll arguments
      return call callee arguments close
  | get object name => return get (← object.bind) name
  | set object name value => do
      let value ← value.bind
      let object ← object.bind
      return set object name value
  | receiver keyword _ => return receiver keyword (← Binder.useReceiver keyword)
  | superMethod keyword _ method =>
      return superMethod keyword (← Binder.useSuper keyword) method

/-- Binds the names in a list of expressions. -/
def bindAll : List (Expr Unit) → Binder (List (Expr Distance))
  | [] => return []
  | expression :: rest => do
      let expression ← expression.bind
      let rest ← bindAll rest
      return expression :: rest
end

/-- Binds the names in an expression that may be missing. -/
def bindOpt : Option (Expr Unit) → Binder (Option (Expr Distance))
  | none => return none
  | some expression => return some (← expression.bind)

end Expr

namespace Stmt

mutual
/-- Binds the names in a statement. -/
def bind : Stmt Unit → Binder (Stmt Distance)
  | expression value => return expression (← value.bind)
  | print value => return print (← value.bind)
  | declare name initializer => do
      Binder.declare name
      let initializer ← Expr.bindOpt initializer
      Binder.define name
      return declare name initializer
  | block body => return block (← Binder.within .empty (bindAll body))
  | branch condition thenBranch none => do
      let condition ← condition.bind
      let thenBranch ← thenBranch.bind
      return branch condition thenBranch none
  | branch condition thenBranch (some elseBranch) => do
      let condition ← condition.bind
      let thenBranch ← thenBranch.bind
      let elseBranch ← elseBranch.bind
      return branch condition thenBranch (some elseBranch)
  | loop condition body => do
      let condition ← condition.bind
      let body ← body.bind
      return loop condition body
  | ret keyword value => do
      Binder.checkReturn keyword value.isSome
      return ret keyword (← Expr.bindOpt value)
  | function (.mk name parameters body) => do
      Binder.introduce name
      let body ← Binder.inFunction .function <| Binder.within .empty do
        Binder.introduceAll parameters
        bindAll body
      return function (.mk name parameters body)
  | classDecl name none methods => Binder.inClass .class_ do
      Binder.introduce name
      let methods ← Binder.within (.holding "this") (bindMethods methods)
      return classDecl name none methods
  | classDecl name (some (superclass, _)) methods => Binder.inClass .class_ do
      Binder.introduce name
      Binder.checkSuperclass name superclass
      Binder.setClass .subclass
      let distance ← Binder.use superclass
      let methods ← Binder.within (.holding "super")
        (Binder.within (.holding "this") (bindMethods methods))
      return classDecl name (some (superclass, distance)) methods

/-- Binds the names in the methods of a class. -/
def bindMethods : List (Function Unit) → Binder (List (Function Distance))
  | [] => return []
  | .mk name parameters body :: rest => do
      let body ← Binder.inFunction (.ofMethod name) <| Binder.within .empty do
        Binder.introduceAll parameters
        bindAll body
      let rest ← bindMethods rest
      return .mk name parameters body :: rest

/-- Binds the names in a list of statements. -/
def bindAll : List (Stmt Unit) → Binder (List (Stmt Distance))
  | [] => return []
  | statement :: rest => do
      let statement ← statement.bind
      let rest ← bindAll rest
      return statement :: rest
end

end Stmt

/-- A program whose names are bound, and the errors found in it, in order. -/
structure Binding where
  program : Program Distance
  errors : Array ScopeError
deriving Inhabited

namespace Program

/-- Binds the names of a program. -/
def bind (program : Program.Plain) : Binding :=
  match Stmt.bindAll program { context := .topLevel, scopes := [], errors := #[] } with
  | (bound, state) => { program := bound, errors := state.errors }

/-- The references of a program that are bound in a local scope, with their distances. -/
def localReferences (program : Program Distance) : List (Reference Nat) :=
  program.references.filterMap fun reference =>
    reference.binding.map fun distance =>
      { kind := reference.kind, name := reference.name, binding := distance }

end Program

end LoxLang
