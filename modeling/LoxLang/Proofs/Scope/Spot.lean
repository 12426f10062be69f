/-
Module: LoxLang.Proofs.Scope.Spot
Purpose: The places of a program at which something can be illegal, with everything around them, and
  for each cause the condition under which it applies to a place.  Nothing here keeps track of
  scopes: a condition looks at what is around the place and at nothing else.
Main exports: Enclosure, Occurrence, Spot, ScopeCause.applies, Spot.errors, Program.spots
-/
import LoxLang.Proofs.Scope.Mention

namespace LoxLang

/-! ### Places and what is around them -/

/-- Something that a place of a program is inside of.  What holds declarations comes with the names
that have been declared in it before the place. -/
inductive Enclosure where
  | block (earlier : List String)
  /-- The body of a function; its parameters are declared in it first. -/
  | function (earlier : List String)
  | method (name : String) (earlier : List String)
  | class_ (hasSuperclass : Bool)
  /-- The initializer of a variable. -/
  | initializer (name : String)
deriving DecidableEq, Repr

namespace Enclosure

/-- Whether declarations can stand right inside of it. -/
def isScope : Enclosure → Bool
  | block _ | function _ | method _ _ => true
  | class_ _ | initializer _ => false

/-- Whether it is a function or a method. -/
def isFunction : Enclosure → Bool
  | function _ | method _ _ => true
  | block _ | class_ _ | initializer _ => false

/-- Whether it is a method that sets up new objects. -/
def isInitializer : Enclosure → Bool
  | method name _ => name = "init"
  | _ => false

/-- Whether it is a class. -/
def isClass : Enclosure → Bool
  | class_ _ => true
  | _ => false

/-- Whether it is a class that inherits from another. -/
def isSubclass : Enclosure → Bool
  | class_ hasSuperclass => hasSuperclass
  | _ => false

/-- The names declared in it before the place. -/
def earlier : Enclosure → List String
  | block names | function names | method _ names => names
  | class_ _ | initializer _ => []

/-- The same with more names declared. -/
def declare (names : List String) : Enclosure → Enclosure
  | block others => block (others ++ names)
  | function others => function (others ++ names)
  | method name others => method name (others ++ names)
  | class_ hasSuperclass => class_ hasSuperclass
  | initializer name => initializer name

end Enclosure

/-- What can be wrong about a place. -/
inductive Occurrence where
  /-- A variable, function, class or parameter is declared. -/
  | declaration (name : Ident)
  /-- A variable is read. -/
  | read (name : Ident)
  /-- A class names the one it inherits from. -/
  | superclass (cls name : Ident)
  | ret (keyword : Position) (hasValue : Bool)
  | receiver (keyword : Position)
  | superMethod (keyword : Position)
deriving DecidableEq, Repr

/-- The name or keyword that an error at a place is reported at. -/
def Occurrence.name : Occurrence → Ident
  | declaration name => name
  | read name => name
  | superclass _ name => name
  | ret keyword _ => { text := "return", position := keyword }
  | receiver keyword => { text := "this", position := keyword }
  | superMethod keyword => { text := "super", position := keyword }

/-- A place with everything around it, from the inside out. -/
structure Spot where
  around : List Enclosure
  what : Occurrence
deriving DecidableEq, Repr

namespace Spot

/-- The nearest function or method around a place. -/
def function? (spot : Spot) : Option Enclosure :=
  spot.around.find? Enclosure.isFunction

/-- The nearest class around a place. -/
def class? (spot : Spot) : Option Enclosure :=
  spot.around.find? Enclosure.isClass

/-- The innermost block, function or method around a place. -/
def scope? (spot : Spot) : Option Enclosure :=
  spot.around.find? Enclosure.isScope

end Spot

/-- Whether a place is illegal for a cause. -/
def ScopeCause.applies (spot : Spot) : ScopeCause → Bool
  | returnAtTopLevel =>
      match spot.what with
      | .ret _ _ => spot.function?.isNone
      | _ => false
  | returnValueFromInitializer =>
      match spot.what with
      | .ret _ hasValue => hasValue && spot.function?.any Enclosure.isInitializer
      | _ => false
  | receiverOutsideClass =>
      match spot.what with
      | .receiver _ => spot.class?.isNone
      | _ => false
  | superOutsideClass =>
      match spot.what with
      | .superMethod _ => spot.class?.isNone
      | _ => false
  | superWithoutSuperclass =>
      match spot.what with
      | .superMethod _ => spot.class?.any fun cls => !cls.isSubclass
      | _ => false
  | inheritsFromItself =>
      match spot.what with
      | .superclass cls name => name.text = cls.text
      | _ => false
  | declaredTwice =>
      match spot.what with
      | .declaration name => spot.scope?.any fun scope => name.text ∈ scope.earlier
      | _ => false
  | readInOwnInitializer =>
      match spot.what with
      | .read name => .initializer name.text ∈ spot.around && spot.scope?.isSome
      | _ => false

/-- All causes. -/
def ScopeCause.all : List ScopeCause :=
  [returnAtTopLevel, returnValueFromInitializer, receiverOutsideClass, superOutsideClass,
    superWithoutSuperclass, inheritsFromItself, declaredTwice, readInOwnInitializer]

/-- What there is to report at a place. -/
def Spot.errors (spot : Spot) : List ScopeError :=
  (ScopeCause.all.filter fun cause => cause.applies spot).map fun cause =>
    { cause := cause, name := spot.what.name }

/-! ### The places of a program -/

/-- What is around a place after names have been declared in the innermost scope. -/
def declaring (names : List String) : List Enclosure → List Enclosure
  | [] => []
  | innermost :: outer => innermost.declare names :: outer

namespace Expr

mutual
/-- The places of an expression, in the order in which they are looked at. -/
def spots (around : List Enclosure) : Expr Unit → List Spot
  | literal _ => []
  | read name _ => [⟨around, .read name⟩]
  | assign _ _ value => value.spots around
  | unary _ _ operand => operand.spots around
  | binary left _ _ right => left.spots around ++ right.spots around
  | logical left _ right => left.spots around ++ right.spots around
  | grouping inner => inner.spots around
  | call callee arguments _ => callee.spots around ++ spotsAll around arguments
  | get object _ => object.spots around
  | set object _ value => value.spots around ++ object.spots around
  | receiver keyword _ => [⟨around, .receiver keyword⟩]
  | superMethod keyword _ _ => [⟨around, .superMethod keyword⟩]

/-- The places of a list of expressions. -/
def spotsAll (around : List Enclosure) : List (Expr Unit) → List Spot
  | [] => []
  | e :: rest => e.spots around ++ spotsAll around rest
end

/-- The places of an expression that may be missing. -/
def spotsOpt (around : List Enclosure) : Option (Expr Unit) → List Spot
  | none => []
  | some e => e.spots around

end Expr

/-- The places of parameters; each is declared after the ones before it. -/
def parameterSpots (around : List Enclosure) : List Ident → List Spot
  | [] => []
  | name :: rest =>
      ⟨around, .declaration name⟩ :: parameterSpots (declaring [name.text] around) rest

namespace Stmt

/-- The names that a statement declares in the scope it stands in. -/
def declaredNames (s : Stmt Unit) : List String :=
  s.introduced.map Introduced.text

mutual
/-- The places of a statement, in the order in which they are looked at. -/
def spots (around : List Enclosure) : Stmt Unit → List Spot
  | expression value => value.spots around
  | print value => value.spots around
  | declare name initializer =>
      ⟨around, .declaration name⟩ :: Expr.spotsOpt (.initializer name.text :: around) initializer
  | block body => spotsAll (.block [] :: around) body
  | branch condition thenBranch none => condition.spots around ++ thenBranch.spots around
  | branch condition thenBranch (some elseBranch) =>
      condition.spots around ++ thenBranch.spots around ++
        elseBranch.spots (declaring thenBranch.declaredNames around)
  | loop condition body => condition.spots around ++ body.spots around
  | ret keyword value => ⟨around, .ret keyword value.isSome⟩ :: Expr.spotsOpt around value
  | function (.mk name parameters body) =>
      let inside := .function [] :: declaring [name.text] around
      ⟨around, .declaration name⟩ :: (parameterSpots inside parameters ++
        spotsAll (declaring (parameters.map Ident.text) inside) body)
  | classDecl name none methods =>
      ⟨around, .declaration name⟩ ::
        spotsMethods (.class_ false :: declaring [name.text] around) methods
  | classDecl name (some (superclass, _)) methods =>
      ⟨around, .declaration name⟩ :: ⟨declaring [name.text] around, .superclass name superclass⟩ ::
        spotsMethods (.class_ true :: declaring [name.text] around) methods

/-- The places of the methods of a class. -/
def spotsMethods (around : List Enclosure) : List (Function Unit) → List Spot
  | [] => []
  | .mk name parameters body :: rest =>
      let inside := .method name.text [] :: around
      parameterSpots inside parameters ++
        spotsAll (declaring (parameters.map Ident.text) inside) body ++ spotsMethods around rest

/-- The places of a list of statements; each stands after what the ones before it declare. -/
def spotsAll (around : List Enclosure) : List (Stmt Unit) → List Spot
  | [] => []
  | s :: rest => s.spots around ++ spotsAll (declaring s.declaredNames around) rest
end

end Stmt

/-- The places of a program. -/
def Program.spots (program : Program.Plain) : List Spot :=
  Stmt.spotsAll [] program

end LoxLang
