/-
Module: LoxLang.Proofs.Scope.Mention
Purpose: The names in a program.  Every name is listed with what it is there for and with all that
  the scopes around it introduce, so that it can be told which names belong to one variable: its
  declaration, and the references that are bound to the scope of the declaration.
Main exports: Introduced, Stmt.introduced, Mention, Stmt.mentions, Program.locals,
  Program.occurrences
-/
import LoxLang.Program.Binding

namespace LoxLang

/-! ### What a scope introduces -/

/-- A name that is introduced into a scope. -/
inductive Introduced where
  /-- A variable or a parameter. -/
  | slot (name : Ident)
  /-- A function or a class. -/
  | callable (name : Ident)
deriving DecidableEq, Repr, Inhabited

/-- The text of a name that is introduced. -/
def Introduced.text : Introduced → String
  | slot name => name.text
  | callable name => name.text

namespace Stmt

variable {ρ : Type}

mutual
/-- The names that a statement introduces into the scope it stands in. -/
def introduced : Stmt ρ → List Introduced
  | declare name _ => [.slot name]
  | branch _ thenBranch none => thenBranch.introduced
  | branch _ thenBranch (some elseBranch) => thenBranch.introduced ++ elseBranch.introduced
  | loop _ body => body.introduced
  | function declaration => [.callable declaration.name]
  | classDecl name _ _ => [.callable name]
  | expression _ | print _ | block _ | ret _ _ => []

/-- The names that statements introduce into the scope they stand in. -/
def introducedAll : List (Stmt ρ) → List Introduced
  | [] => []
  | statement :: rest => statement.introduced ++ introducedAll rest
end

end Stmt

/-- The names in the scope of a function: its parameters, and what its body introduces. -/
def Function.introduced {ρ : Type} (declaration : Function ρ) : List Introduced :=
  declaration.parameters.map .slot ++ Stmt.introducedAll declaration.body

/-! ### Names and what they are there for -/

/-- What a name in a program is there for. -/
inductive Role (ρ : Type) where
  /-- It refers to what is bound to it. -/
  | reference (binding : ρ)
  /-- It declares a variable or a parameter. -/
  | slot
  /-- It declares a function or a class. -/
  | callable
  /-- It names a method or another property of objects. -/
  | property

/-- A name in a program, and what the scopes around it introduce, innermost first. -/
structure Mention (ρ : Type) where
  name : Ident
  role : Role ρ
  scopes : List (List Introduced)

section Mentions

variable {ρ : Type}

namespace Expr

mutual
/-- The names in an expression, in the order in which they are bound. -/
def mentions (scopes : List (List Introduced)) : Expr ρ → List (Mention ρ)
  | literal _ => []
  | read name binding => [⟨name, .reference binding, scopes⟩]
  | assign name binding value => value.mentions scopes ++ [⟨name, .reference binding, scopes⟩]
  | unary _ _ operand => operand.mentions scopes
  | binary left _ _ right => left.mentions scopes ++ right.mentions scopes
  | logical left _ right => left.mentions scopes ++ right.mentions scopes
  | grouping inner => inner.mentions scopes
  | call callee arguments _ => callee.mentions scopes ++ mentionsAll scopes arguments
  | get object name => object.mentions scopes ++ [⟨name, .property, scopes⟩]
  | set object name value =>
      value.mentions scopes ++ object.mentions scopes ++ [⟨name, .property, scopes⟩]
  | receiver _ _ => []
  | superMethod _ _ method => [⟨method, .property, scopes⟩]

/-- The names in a list of expressions. -/
def mentionsAll (scopes : List (List Introduced)) : List (Expr ρ) → List (Mention ρ)
  | [] => []
  | expression :: rest => expression.mentions scopes ++ mentionsAll scopes rest
end

/-- The names in an expression that may be missing. -/
def mentionsOpt (scopes : List (List Introduced)) : Option (Expr ρ) → List (Mention ρ)
  | none => []
  | some expression => expression.mentions scopes

end Expr

namespace Stmt

mutual
/-- The names in a statement. -/
def mentions : List (List Introduced) → Stmt ρ → List (Mention ρ)
  | scopes, expression value => value.mentions scopes
  | scopes, print value => value.mentions scopes
  | scopes, declare name initializer =>
      ⟨name, .slot, scopes⟩ :: Expr.mentionsOpt scopes initializer
  | scopes, block body => mentionsAll (introducedAll body :: scopes) body
  | scopes, branch condition thenBranch none =>
      condition.mentions scopes ++ thenBranch.mentions scopes
  | scopes, branch condition thenBranch (some elseBranch) =>
      condition.mentions scopes ++ (thenBranch.mentions scopes ++ elseBranch.mentions scopes)
  | scopes, loop condition body => condition.mentions scopes ++ body.mentions scopes
  | scopes, ret _ value => Expr.mentionsOpt scopes value
  | scopes, function declaration =>
      ⟨declaration.name, .callable, scopes⟩ :: mentionsFunction scopes declaration
  | scopes, classDecl name none methods =>
      ⟨name, .callable, scopes⟩ :: mentionsMethods ([] :: scopes) methods
  | scopes, classDecl name (some (superclass, binding)) methods =>
      ⟨name, .callable, scopes⟩ :: ⟨superclass, .reference binding, scopes⟩
        :: mentionsMethods ([] :: [] :: scopes) methods

/-- The parameters of a function and the names in its body. -/
def mentionsFunction : List (List Introduced) → Function ρ → List (Mention ρ)
  | scopes, .mk name parameters body =>
      (parameters.map fun parameter =>
          ⟨parameter, .slot, (Function.mk name parameters body).introduced :: scopes⟩)
        ++ mentionsAll ((Function.mk name parameters body).introduced :: scopes) body

/-- The names of methods and the names in them. -/
def mentionsMethods : List (List Introduced) → List (Function ρ) → List (Mention ρ)
  | _, [] => []
  | scopes, method :: rest =>
      ⟨method.name, .property, scopes⟩ :: mentionsFunction scopes method
        ++ mentionsMethods scopes rest

/-- The names in a list of statements. -/
def mentionsAll : List (List Introduced) → List (Stmt ρ) → List (Mention ρ)
  | _, [] => []
  | scopes, statement :: rest => statement.mentions scopes ++ mentionsAll scopes rest
end

end Stmt

/-- The names in a program. -/
def Program.mentions (program : Program ρ) : List (Mention ρ) :=
  Stmt.mentionsAll [] program

end Mentions

/-! ### The names of one variable -/

/-- Whether a name declares a variable or parameter that is not global. -/
def Mention.isLocal {ρ : Type} (mention : Mention ρ) : Bool :=
  match mention.role with
  | .slot => !mention.scopes.isEmpty
  | _ => false

/-- Whether a name is a reference to a variable: it is the name of the variable, and it is bound to
the scope that introduces the variable. -/
def Mention.refersTo (name : Ident) (mention : Mention Distance) : Bool :=
  match mention.role with
  | .reference (some distance) =>
      mention.name.text = name.text && Introduced.slot name ∈ mention.scopes.getD distance []
  | _ => false

namespace Program

/-- The local variables and parameters of a program, as they are declared. -/
def locals {ρ : Type} (program : Program ρ) : List Ident :=
  (program.mentions.filter Mention.isLocal).map Mention.name

/-- The places of a variable: that of its declaration, and those of the references to it. -/
def occurrences (program : Program Distance) (name : Ident) : List Position :=
  name.position :: (program.mentions.filter (Mention.refersTo name)).map (·.name.position)

end Program

end LoxLang
