/-
Module: LoxLang.Proofs.Scope.Place
Purpose: What can be seen from each place of a program.  The scopes around a place are listed from
  the inside out, each with the piece of the program it belongs to and the names declared in it
  before that place; whether a reference is bound as the scopes around it say is then a property
  of its place alone.
Main exports: Site, Layer, Sight, Node, Place, Place.Right, Throughout, Expr.places,
  Stmt.places, Program.places, Program.places_references
-/
import LoxLang.Program.Binding

namespace LoxLang

/-! ### Scopes around a place -/

/-- The pieces of a program that have a scope of their own. -/
inductive Site where
  /-- The statements between two braces. -/
  | block (body : List (Stmt Distance))
  /-- The parameters and the body of a function or method. -/
  | function (declaration : Function Distance)
  /-- The scope in which the methods of a class see `this`. -/
  | receiver (name : Ident) (methods : List (Function Distance))
  /-- The scope in which the methods of a class see `super`. -/
  | superclass (name : Ident) (methods : List (Function Distance))
deriving Inhabited

/-- One scope around a place and the names declared in it before that place. -/
structure Layer where
  site : Site
  names : List String
deriving Inhabited

namespace Layer

/-- Whether a name is declared in a scope. -/
def declares (layer : Layer) (name : String) : Bool :=
  name ∈ layer.names

/-- A scope in which one more name has been declared. -/
def declare (name : String) (layer : Layer) : Layer :=
  { layer with names := name :: layer.names }

/-- The scope of a block that has declared nothing yet. -/
def ofBlock (body : List (Stmt Distance)) : Layer :=
  { site := .block body, names := [] }

/-- The scope of a function whose parameters are declared. -/
def ofFunction (declaration : Function Distance) : Layer :=
  { site := .function declaration, names := declaration.parameters.map (·.text) }

/-- The scope that holds `this`. -/
def ofReceiver (name : Ident) (methods : List (Function Distance)) : Layer :=
  { site := .receiver name methods, names := ["this"] }

/-- The scope that holds `super`. -/
def ofSuperclass (name : Ident) (methods : List (Function Distance)) : Layer :=
  { site := .superclass name methods, names := ["super"] }

@[simp] theorem declares_declare (layer : Layer) (name other : String) :
    (layer.declare name).declares other = (decide (other = name) || layer.declares other) := by
  simp [declares, declare]

end Layer

/-- Declares a name in the innermost scope; at the top level there is none. -/
def declareInnermost (name : String) : List Layer → List Layer
  | [] => []
  | innermost :: outer => innermost.declare name :: outer

/-- How many scopes out the innermost one that declares a name is. -/
def distanceIn (layers : List Layer) (name : String) : Distance :=
  layers.findIdx? fun layer => layer.declares name

/-- The scopes around a place, innermost first, and the variable whose initializer the place
stands in.  That variable is declared in the innermost scope, but it has no value yet. -/
structure Sight where
  layers : List Layer
  pending : Option String
deriving Inhabited

namespace Sight

/-- The scopes around a place with all names that are declared there. -/
def scopes (sight : Sight) : List Layer :=
  match sight.pending with
  | none => sight.layers
  | some name => declareInnermost name sight.layers

/-- How many scopes out the innermost one that declares a name is. -/
def distance? (sight : Sight) (name : String) : Distance :=
  distanceIn sight.scopes name

end Sight

/-! ### Places -/

/-- What can stand at a place: a use of a name or keyword, or a declaration of a name. -/
inductive Node where
  | use (reference : Reference Distance)
  | declaration (name : Ident)

/-- A node of a program and what can be seen from it. -/
structure Place where
  sight : Sight
  node : Node

/-- The reference that stands at a place. -/
def Place.reference? (place : Place) : Option (Reference Distance) :=
  match place.node with
  | .use reference => some reference
  | .declaration _ => none

/-- The names that only keywords have. -/
def Ident.Unreserved (name : Ident) : Prop :=
  name.text ≠ "this" ∧ name.text ≠ "super"

/-- Whether a reference is bound as the scopes around it say.  A variable is not read in its own
initializer, `this` and `super` are never global, and `this` is kept one scope further in than
`super`. -/
def Reference.Right (sight : Sight) (reference : Reference Distance) : Prop :=
  match reference.kind with
  | .read =>
      reference.binding = sight.distance? reference.name.text ∧
        (reference.binding ≠ none → sight.pending ≠ some reference.name.text)
  | .write =>
      reference.binding = sight.distance? reference.name.text ∧ reference.name.Unreserved
  | .receiver =>
      ∃ distance, reference.binding = some distance ∧ sight.distance? "this" = some distance
  | .superMethod =>
      ∃ distance, reference.binding = some (distance + 1) ∧
        sight.distance? "super" = some (distance + 1) ∧ sight.distance? "this" = some distance

/-- Whether what stands at a place is as it should be. -/
def Place.Right (place : Place) : Prop :=
  match place.node with
  | .use reference => reference.Right place.sight
  | .declaration name => name.Unreserved

/-- Whether a property holds of all places of a list. -/
def Throughout (property : Place → Prop) (places : List Place) : Prop :=
  ∀ place ∈ places, property place

section Throughout

variable {property : Place → Prop}

@[simp] theorem throughout_nil : Throughout property [] := by
  intro place member
  cases member

@[simp] theorem throughout_cons {place : Place} {places : List Place} :
    Throughout property (place :: places) ↔ property place ∧ Throughout property places := by
  simp [Throughout]

@[simp] theorem throughout_append {first second : List Place} :
    Throughout property (first ++ second) ↔
      Throughout property first ∧ Throughout property second := by
  constructor
  · intro holds
    constructor
    · intro place member
      exact holds place (List.mem_append_left second member)
    · intro place member
      exact holds place (List.mem_append_right first member)
  · intro holds place member
    cases List.mem_append.1 member with
    | inl left => exact holds.1 place left
    | inr right => exact holds.2 place right

end Throughout

/-! ### The places of a program -/

namespace Expr

/-- The place of a reference. -/
def placeOf (sight : Sight) (kind : ReferenceKind) (name : Ident) (binding : Distance) : Place :=
  { sight := sight, node := .use { kind := kind, name := name, binding := binding } }

mutual
/-- The places in an expression, from left to right. -/
def places (sight : Sight) : Expr Distance → List Place
  | literal _ => []
  | read name binding => [placeOf sight .read name binding]
  | assign name binding value => placeOf sight .write name binding :: value.places sight
  | unary _ _ operand => operand.places sight
  | binary left _ _ right => left.places sight ++ right.places sight
  | logical left _ right => left.places sight ++ right.places sight
  | grouping inner => inner.places sight
  | call callee arguments _ => callee.places sight ++ placesAll sight arguments
  | get object _ => object.places sight
  | set object _ value => object.places sight ++ value.places sight
  | receiver keyword binding =>
      [placeOf sight .receiver { text := "this", position := keyword } binding]
  | superMethod keyword binding _ =>
      [placeOf sight .superMethod { text := "super", position := keyword } binding]

/-- The places in a list of expressions. -/
def placesAll (sight : Sight) : List (Expr Distance) → List Place
  | [] => []
  | expression :: rest => expression.places sight ++ placesAll sight rest
end

/-- The places in an expression that may be missing. -/
def placesOpt (sight : Sight) : Option (Expr Distance) → List Place
  | none => []
  | some expression => expression.places sight

end Expr

namespace Stmt

variable {ρ : Type}

/-- The name that a statement declares in the scope it stands in. -/
def declared? : Stmt ρ → Option Ident
  | declare name _ => some name
  | function declaration => some declaration.name
  | classDecl name _ _ => some name
  | _ => none

/-- The scopes around what follows a statement. -/
def extend (layers : List Layer) (statement : Stmt ρ) : List Layer :=
  match statement.declared? with
  | none => layers
  | some name => declareInnermost name.text layers

/-- The place of a declaration. -/
def placeOf (layers : List Layer) (name : Ident) : Place :=
  { sight := { layers := layers, pending := some name.text }, node := .declaration name }

/-- The scopes around the methods of a class, the class itself declared. -/
def layersOfMethods (layers : List Layer) (name : Ident) (hasSuperclass : Bool)
    (methods : List (Function Distance)) : List Layer :=
  let outer := declareInnermost name.text layers
  if hasSuperclass then .ofReceiver name methods :: .ofSuperclass name methods :: outer
  else .ofReceiver name methods :: outer

mutual
/-- The places in a statement, in the order of the source. -/
def places (layers : List Layer) : Stmt Distance → List Place
  | expression value => value.places { layers := layers, pending := none }
  | print value => value.places { layers := layers, pending := none }
  | declare name initializer =>
      placeOf layers name
        :: Expr.placesOpt { layers := layers, pending := some name.text } initializer
  | block body => placesAll (.ofBlock body :: layers) body
  | branch condition thenBranch none =>
      condition.places { layers := layers, pending := none } ++ thenBranch.places layers
  | branch condition thenBranch (some elseBranch) =>
      condition.places { layers := layers, pending := none } ++ thenBranch.places layers
        ++ elseBranch.places layers
  | loop condition body =>
      condition.places { layers := layers, pending := none } ++ body.places layers
  | ret _ value => Expr.placesOpt { layers := layers, pending := none } value
  | function declaration =>
      placeOf layers declaration.name
        :: placesFunction (declareInnermost declaration.name.text layers) declaration
  | classDecl name none methods =>
      placeOf layers name :: placesMethods (layersOfMethods layers name false methods) methods
  | classDecl name (some (superclass, binding)) methods =>
      placeOf layers name
        :: Expr.placeOf { layers := layers, pending := some name.text } .read superclass binding
        :: placesMethods (layersOfMethods layers name true methods) methods

/-- The places in a function: its parameters and its body. -/
def placesFunction (layers : List Layer) : Function Distance → List Place
  | .mk name parameters body =>
      parameters.map (placeOf layers)
        ++ placesAll (.ofFunction (.mk name parameters body) :: layers) body

/-- The places in the methods of a class. -/
def placesMethods (layers : List Layer) : List (Function Distance) → List Place
  | [] => []
  | method :: rest => placesFunction layers method ++ placesMethods layers rest

/-- The places in a list of statements, each of which sees what those before it declare. -/
def placesAll (layers : List Layer) : List (Stmt Distance) → List Place
  | [] => []
  | statement :: rest => statement.places layers ++ placesAll (statement.extend layers) rest
end

end Stmt

/-- The places of a program. -/
def Program.places (program : Program Distance) : List Place :=
  Stmt.placesAll [] program

/-! ### Every reference has its place -/

theorem Place.reference?_placeOf (sight : Sight) (kind : ReferenceKind) (name : Ident)
    (binding : Distance) :
    (Expr.placeOf sight kind name binding).reference? =
      some { kind := kind, name := name, binding := binding } :=
  rfl

namespace Expr

mutual
theorem places_references (sight : Sight) :
    ∀ e : Expr Distance, (e.places sight).filterMap Place.reference? = e.references
  | literal _ => rfl
  | read _ _ => rfl
  | assign _ _ value => by
      simp [places, references, Place.reference?_placeOf, value.places_references sight]
  | unary _ _ operand => operand.places_references sight
  | binary left _ _ right => by
      simp [places, references, left.places_references sight, right.places_references sight]
  | logical left _ right => by
      simp [places, references, left.places_references sight, right.places_references sight]
  | grouping inner => inner.places_references sight
  | call callee arguments _ => by
      simp [places, references, callee.places_references sight,
        placesAll_references sight arguments]
  | get object _ => object.places_references sight
  | set object _ value => by
      simp [places, references, object.places_references sight, value.places_references sight]
  | receiver _ _ => rfl
  | superMethod _ _ _ => rfl

theorem placesAll_references (sight : Sight) :
    ∀ es : List (Expr Distance), (placesAll sight es).filterMap Place.reference? = referencesAll es
  | [] => rfl
  | e :: rest => by
      simp [placesAll, referencesAll, e.places_references sight,
        placesAll_references sight rest]
end

theorem placesOpt_references (sight : Sight) (value : Option (Expr Distance)) :
    (placesOpt sight value).filterMap Place.reference? = referencesOpt value := by
  cases value with
  | none => rfl
  | some e => exact e.places_references sight

end Expr

namespace Stmt

theorem reference?_placeOf (layers : List Layer) (name : Ident) :
    (placeOf layers name).reference? = none :=
  rfl

mutual
theorem places_references (layers : List Layer) :
    ∀ s : Stmt Distance, (s.places layers).filterMap Place.reference? = s.references
  | expression value => value.places_references _
  | print value => value.places_references _
  | declare name initializer => by
      simp [places, references, List.filterMap_cons, reference?_placeOf, Expr.placesOpt_references]
  | block body => placesAll_references _ body
  | branch condition thenBranch none => by
      simp [places, references, Expr.places_references, thenBranch.places_references layers]
  | branch condition thenBranch (some elseBranch) => by
      simp [places, references, Expr.places_references, thenBranch.places_references layers,
        elseBranch.places_references layers]
  | loop condition body => by
      simp [places, references, Expr.places_references, body.places_references layers]
  | ret _ value => Expr.placesOpt_references _ value
  | function declaration => by
      simp [places, references, List.filterMap_cons, reference?_placeOf,
        placesFunction_references _ declaration]
  | classDecl name none methods => by
      simp [places, references, List.filterMap_cons, reference?_placeOf,
        placesMethods_references _ methods]
  | classDecl name (some (superclass, binding)) methods => by
      simp [places, references, List.filterMap_cons, reference?_placeOf, Place.reference?_placeOf,
        placesMethods_references _ methods]

theorem placesFunction_references (layers : List Layer) :
    ∀ declaration : Function Distance,
      (placesFunction layers declaration).filterMap Place.reference? =
        referencesFunction declaration
  | .mk name parameters body => by
      have none : (parameters.map (placeOf layers)).filterMap Place.reference? = [] := by
        simp [reference?_placeOf]
      simp [placesFunction, referencesFunction, none, placesAll_references _ body]

theorem placesMethods_references (layers : List Layer) :
    ∀ methods : List (Function Distance),
      (placesMethods layers methods).filterMap Place.reference? = referencesMethods methods
  | [] => rfl
  | method :: rest => by
      simp [placesMethods, referencesMethods, placesFunction_references layers method,
        placesMethods_references layers rest]

theorem placesAll_references (layers : List Layer) :
    ∀ body : List (Stmt Distance),
      (placesAll layers body).filterMap Place.reference? = referencesAll body
  | [] => rfl
  | s :: rest => by
      simp [placesAll, referencesAll, s.places_references layers, placesAll_references _ rest]
end

end Stmt

/-- The references of a program stand at its places, each at one of its own. -/
theorem Program.places_references (program : Program Distance) :
    program.places.filterMap Place.reference? = program.references :=
  Stmt.placesAll_references [] program

end LoxLang
