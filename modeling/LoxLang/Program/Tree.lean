/-
Module: LoxLang.Program.Tree
Purpose: Programs as trees.  A tree is indexed by what is known at each place that refers to a
  name: nothing in a tree that has just been read, and the number of scopes to walk outwards in
  a tree whose names have been bound.
Main exports: Ident, UnaryOp, BinaryOp, LogicalOp, Expr, Stmt, Function, Reference,
  Program.references, Program.fits
-/
import LoxLang.Literal
import LoxLang.Source.Cursor

namespace LoxLang

/-! ### Names and operators -/

/-- A name as it occurs in the source. -/
structure Ident where
  text : String
  position : Position
deriving DecidableEq, Repr, Inhabited

/-- The line a name stands on. -/
def Ident.line (name : Ident) : Nat :=
  name.position.line

/-- Operators in front of an operand. -/
inductive UnaryOp where
  | not
  | negate
deriving DecidableEq, Repr, Inhabited

/-- How a unary operator is written. -/
def UnaryOp.spelling : UnaryOp → String
  | not => "!"
  | negate => "-"

/-- Operators between two operands that are both evaluated. -/
inductive BinaryOp where
  | add | subtract | multiply | divide
  | equal | notEqual | greater | greaterEqual | less | lessEqual
deriving DecidableEq, Repr, Inhabited

/-- How a binary operator is written. -/
def BinaryOp.spelling : BinaryOp → String
  | add => "+"
  | subtract => "-"
  | multiply => "*"
  | divide => "/"
  | equal => "=="
  | notEqual => "!="
  | greater => ">"
  | greaterEqual => ">="
  | less => "<"
  | lessEqual => "<="

/-- Operators that evaluate their second operand only when the first does not decide. -/
inductive LogicalOp where
  | and
  | or
deriving DecidableEq, Repr, Inhabited

/-- How a logical operator is written. -/
def LogicalOp.spelling : LogicalOp → String
  | and => "and"
  | or => "or"

/-! ### Trees -/

/-- Expressions.  `ρ` is what is known about the binding of each reference. -/
inductive Expr (ρ : Type) where
  | literal (value : Literal)
  | read (name : Ident) (binding : ρ)
  | assign (name : Ident) (binding : ρ) (value : Expr ρ)
  | unary (op : UnaryOp) (position : Position) (operand : Expr ρ)
  | binary (left : Expr ρ) (op : BinaryOp) (position : Position) (right : Expr ρ)
  | logical (left : Expr ρ) (op : LogicalOp) (right : Expr ρ)
  | grouping (inner : Expr ρ)
  /-- A call; `close` is the place of the closing parenthesis, where its errors are reported. -/
  | call (callee : Expr ρ) (arguments : List (Expr ρ)) (close : Position)
  | get (object : Expr ρ) (name : Ident)
  | set (object : Expr ρ) (name : Ident) (value : Expr ρ)
  | receiver (keyword : Position) (binding : ρ)
  | superMethod (keyword : Position) (binding : ρ) (method : Ident)
deriving Repr

instance {ρ : Type} : Inhabited (Expr ρ) :=
  ⟨.literal .nil⟩

mutual
/-- Statements and declarations. -/
inductive Stmt (ρ : Type) where
  | expression (value : Expr ρ)
  | print (value : Expr ρ)
  | declare (name : Ident) (initializer : Option (Expr ρ))
  | block (body : List (Stmt ρ))
  | branch (condition : Expr ρ) (thenBranch : Stmt ρ) (elseBranch : Option (Stmt ρ))
  | loop (condition : Expr ρ) (body : Stmt ρ)
  | ret (keyword : Position) (value : Option (Expr ρ))
  | function (declaration : Function ρ)
  | classDecl (name : Ident) (superclass : Option (Ident × ρ)) (methods : List (Function ρ))
deriving Repr

/-- A named function with its parameters and body; methods are functions too. -/
inductive Function (ρ : Type) where
  | mk (name : Ident) (parameters : List Ident) (body : List (Stmt ρ))
deriving Repr
end

namespace Function

variable {ρ : Type}

/-- The name of a function. -/
def name : Function ρ → Ident
  | mk name _ _ => name

/-- The parameters of a function, in order. -/
def parameters : Function ρ → List Ident
  | mk _ parameters _ => parameters

/-- The statements of a function's body. -/
def body : Function ρ → List (Stmt ρ)
  | mk _ _ body => body

end Function

/-- A program is a list of declarations and statements. -/
abbrev Program (ρ : Type) := List (Stmt ρ)

/-- A program as it was read: nothing is known about its names. -/
abbrev Program.Plain := Program Unit

/-! ### References -/

/-- What kind of expression a reference is. -/
inductive ReferenceKind where
  | read
  | write
  | receiver
  | superMethod
deriving DecidableEq, Repr, Inhabited

/-- One place of a program that refers to a name. -/
structure Reference (ρ : Type) where
  kind : ReferenceKind
  name : Ident
  binding : ρ
deriving Repr

namespace Expr

variable {ρ : Type}

mutual
/-- The references in an expression, from left to right. -/
def references : Expr ρ → List (Reference ρ)
  | literal _ => []
  | read name binding => [{ kind := .read, name := name, binding := binding }]
  | assign name binding value =>
      { kind := .write, name := name, binding := binding } :: value.references
  | unary _ _ operand => operand.references
  | binary left _ _ right => left.references ++ right.references
  | logical left _ right => left.references ++ right.references
  | grouping inner => inner.references
  | call callee arguments _ => callee.references ++ referencesAll arguments
  | get object _ => object.references
  | set object _ value => object.references ++ value.references
  | receiver keyword binding =>
      [{ kind := .receiver, name := { text := "this", position := keyword }, binding := binding }]
  | superMethod keyword binding _ =>
      [{ kind := .superMethod, name := { text := "super", position := keyword }
         binding := binding }]

/-- The references in a list of expressions. -/
def referencesAll : List (Expr ρ) → List (Reference ρ)
  | [] => []
  | expression :: rest => expression.references ++ referencesAll rest
end

/-- The references in an expression that may be missing. -/
def referencesOpt : Option (Expr ρ) → List (Reference ρ)
  | none => []
  | some expression => expression.references

end Expr

namespace Stmt

variable {ρ : Type}

mutual
/-- The references in a statement, in the order of the source. -/
def references : Stmt ρ → List (Reference ρ)
  | expression value => value.references
  | print value => value.references
  | declare _ initializer => Expr.referencesOpt initializer
  | block body => referencesAll body
  | branch condition thenBranch none => condition.references ++ thenBranch.references
  | branch condition thenBranch (some elseBranch) =>
      condition.references ++ thenBranch.references ++ elseBranch.references
  | loop condition body => condition.references ++ body.references
  | ret _ value => Expr.referencesOpt value
  | function declaration => referencesFunction declaration
  | classDecl _ none methods => referencesMethods methods
  | classDecl _ (some (name, binding)) methods =>
      { kind := .read, name := name, binding := binding } :: referencesMethods methods

/-- The references in a function's body. -/
def referencesFunction : Function ρ → List (Reference ρ)
  | .mk _ _ body => referencesAll body

/-- The references in the methods of a class. -/
def referencesMethods : List (Function ρ) → List (Reference ρ)
  | [] => []
  | method :: rest => referencesFunction method ++ referencesMethods rest

/-- The references in a list of statements. -/
def referencesAll : List (Stmt ρ) → List (Reference ρ)
  | [] => []
  | statement :: rest => statement.references ++ referencesAll rest
end

end Stmt

/-- The references in a program, in the order of the source. -/
def Program.references {ρ : Type} (program : Program ρ) : List (Reference ρ) :=
  Stmt.referencesAll program

/-! ### Nesting -/

namespace Expr

variable {ρ : Type}

mutual
/-- Whether an expression is nested at most `room` levels deep.  The walk itself goes no deeper
than that, so it is safe on trees of any depth. -/
def fits : Nat → Expr ρ → Bool
  | 0, _ => false
  | _ + 1, literal _ => true
  | _ + 1, read _ _ => true
  | room + 1, assign _ _ value => value.fits room
  | room + 1, unary _ _ operand => operand.fits room
  | room + 1, binary left _ _ right => left.fits room && right.fits room
  | room + 1, logical left _ right => left.fits room && right.fits room
  | room + 1, grouping inner => inner.fits room
  | room + 1, call callee arguments _ => callee.fits room && fitsAll room arguments
  | room + 1, get object _ => object.fits room
  | room + 1, set object _ value => object.fits room && value.fits room
  | _ + 1, receiver _ _ => true
  | _ + 1, superMethod _ _ _ => true

/-- Whether every expression of a list is nested at most `room` levels deep. -/
def fitsAll (room : Nat) : List (Expr ρ) → Bool
  | [] => true
  | expression :: rest => expression.fits room && fitsAll room rest
end

/-- Whether an expression that may be missing is nested at most `room` levels deep. -/
def fitsOpt (room : Nat) : Option (Expr ρ) → Bool
  | none => true
  | some expression => expression.fits room

end Expr

namespace Stmt

variable {ρ : Type}

mutual
/-- Whether a statement is nested at most `room` levels deep. -/
def fits : Nat → Stmt ρ → Bool
  | 0, _ => false
  | room + 1, expression value => value.fits room
  | room + 1, print value => value.fits room
  | room + 1, declare _ initializer => Expr.fitsOpt room initializer
  | room + 1, block body => fitsAll room body
  | room + 1, branch condition thenBranch none =>
      condition.fits room && thenBranch.fits room
  | room + 1, branch condition thenBranch (some elseBranch) =>
      condition.fits room && thenBranch.fits room && elseBranch.fits room
  | room + 1, loop condition body => condition.fits room && body.fits room
  | room + 1, ret _ value => Expr.fitsOpt room value
  | room + 1, function declaration => fitsFunction room declaration
  | room + 1, classDecl _ _ methods => fitsMethods room methods

/-- Whether the statements of a function's body are nested at most `room` levels deep. -/
def fitsFunction (room : Nat) : Function ρ → Bool
  | .mk _ _ body => fitsAll room body

/-- Whether the bodies of a class's methods are nested at most `room` levels deep. -/
def fitsMethods (room : Nat) : List (Function ρ) → Bool
  | [] => true
  | method :: rest => fitsFunction room method && fitsMethods room rest

/-- Whether every statement of a list is nested at most `room` levels deep. -/
def fitsAll (room : Nat) : List (Stmt ρ) → Bool
  | [] => true
  | statement :: rest => statement.fits room && fitsAll room rest
end

end Stmt

/-- Whether a program is nested at most `room` levels deep. -/
def Program.fits {ρ : Type} (room : Nat) (program : Program ρ) : Bool :=
  Stmt.fitsAll room program

end LoxLang
