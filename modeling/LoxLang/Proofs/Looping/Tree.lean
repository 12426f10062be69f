/-
Module: LoxLang.Proofs.Looping.Tree
Purpose: Programs in which `for` is a statement of its own.  Statements and declarations are told
  apart, as the grammar does: what a loop repeats is never a declaration.
Main exports: Looping.Clause, Looping.Stmt, Looping.Decl, Looping.Function, Looping.Decl.desugar,
  Looping.Decl.fits, Looping.fitsAll_desugar
-/
import LoxLang.Program.Parser.Statement

namespace LoxLang.Looping

variable {ρ : Type}

/-- The first clause of a `for` loop. -/
inductive Clause (ρ : Type) where
  | declare (name : Ident) (initializer : Option (Expr ρ))
  | expression (value : Expr ρ)

mutual
/-- Statements. -/
inductive Stmt (ρ : Type) where
  | expression (value : Expr ρ)
  | print (value : Expr ρ)
  | block (body : List (Decl ρ))
  | branch (condition : Expr ρ) (thenBranch : Stmt ρ) (elseBranch : Option (Stmt ρ))
  | loop (condition : Expr ρ) (body : Stmt ρ)
  | forLoop (first : Option (Clause ρ)) (condition increment : Option (Expr ρ)) (body : Stmt ρ)
  | ret (keyword : Position) (value : Option (Expr ρ))

/-- What a program, a block and the body of a function consist of. -/
inductive Decl (ρ : Type) where
  | statement (s : Stmt ρ)
  | declare (name : Ident) (initializer : Option (Expr ρ))
  | function (declaration : Function ρ)
  | classDecl (name : Ident) (superclass : Option (Ident × ρ)) (methods : List (Function ρ))

/-- A named function with its parameters and body; methods are functions too. -/
inductive Function (ρ : Type) where
  | mk (name : Ident) (parameters : List Ident) (body : List (Decl ρ))
end

/-- A program is a list of declarations and statements. -/
abbrev Program (ρ : Type) := List (Decl ρ)

namespace Function

/-- The name of a function. -/
def name : Function ρ → Ident
  | mk name _ _ => name

/-- The parameters of a function, in order. -/
def parameters : Function ρ → List Ident
  | mk _ parameters _ => parameters

/-- The body of a function. -/
def body : Function ρ → List (Decl ρ)
  | mk _ _ body => body

end Function

/-- The first clause of a `for` loop as a part of a block. -/
def Clause.decl : Clause ρ → Decl ρ
  | declare name initializer => .declare name initializer
  | expression value => .statement (.expression value)

/-- The condition of a `for` loop; a missing one is true. -/
def conditionOf (condition : Option (Expr ρ)) : Expr ρ :=
  condition.getD (.literal (.bool true))

/-! ### Desugaring -/

/-- The first clause of a `for` loop as a statement. -/
def Clause.desugar : Clause Unit → LoxLang.Stmt Unit
  | declare name initializer => .declare name initializer
  | expression value => .expression value

mutual
/-- The statement with every `for` loop replaced by what it stands for. -/
def Stmt.desugar : Stmt Unit → LoxLang.Stmt Unit
  | .expression value => .expression value
  | .print value => .print value
  | .block body => .block (desugarAll body)
  | .branch condition thenBranch none => .branch condition thenBranch.desugar none
  | .branch condition thenBranch (some elseBranch) =>
      .branch condition thenBranch.desugar (some elseBranch.desugar)
  | .loop condition body => .loop condition body.desugar
  | .forLoop first condition increment body =>
      LoxLang.Stmt.forLoop (first.map Clause.desugar) condition increment body.desugar
  | .ret keyword value => .ret keyword value

/-- The declaration with every `for` loop replaced by what it stands for. -/
def Decl.desugar : Decl Unit → LoxLang.Stmt Unit
  | .statement s => s.desugar
  | .declare name initializer => .declare name initializer
  | .function declaration => .function declaration.desugar
  | .classDecl name superclass methods => .classDecl name superclass (desugarMethods methods)

/-- The function with every `for` loop replaced by what it stands for. -/
def Function.desugar : Function Unit → LoxLang.Function Unit
  | .mk name parameters body => .mk name parameters (desugarAll body)

/-- The methods of a class with every `for` loop replaced by what it stands for. -/
def desugarMethods : List (Function Unit) → List (LoxLang.Function Unit)
  | [] => []
  | method :: rest => method.desugar :: desugarMethods rest

/-- Declarations with every `for` loop replaced by what it stands for. -/
def desugarAll : List (Decl Unit) → List (LoxLang.Stmt Unit)
  | [] => []
  | declaration :: rest => declaration.desugar :: desugarAll rest
end

theorem desugarAll_eq (body : List (Decl Unit)) : desugarAll body = body.map Decl.desugar := by
  induction body with
  | nil => rfl
  | cons first rest ih => rw [desugarAll, ih, List.map_cons]

theorem desugarMethods_eq (methods : List (Function Unit)) :
    desugarMethods methods = methods.map Function.desugar := by
  induction methods with
  | nil => rfl
  | cons first rest ih => rw [desugarMethods, ih, List.map_cons]

/-! ### Nesting -/

/-- Whether something is nested at most `room` levels deep, one level of which it takes itself. -/
def level (inner : Nat → Bool) : Nat → Bool
  | 0 => false
  | room + 1 => inner room

/-- Whether the first clause of a `for` loop is nested at most `room` levels deep. -/
def Clause.fits (room : Nat) : Clause ρ → Bool
  | declare _ initializer => level (fun room => Expr.fitsOpt room initializer) room
  | expression value => level (fun room => value.fits room) room

/-- Whether a turn of a `for` loop is nested at most `room` levels deep.  A turn with an increment
is a level of its own. -/
def fitsTurn (body : Nat → Bool) (increment : Option (Expr ρ)) (room : Nat) : Bool :=
  match increment with
  | none => body room
  | some step => level (fun room => body room && level (fun room => step.fits room) room) room

mutual
/-- Whether a statement is nested at most `room` levels deep. -/
def Stmt.fits : Stmt ρ → Nat → Bool
  | .expression value => level fun room => value.fits room
  | .print value => level fun room => value.fits room
  | .block body => level (fitsAll body)
  | .branch condition thenBranch none =>
      level fun room => condition.fits room && thenBranch.fits room
  | .branch condition thenBranch (some elseBranch) =>
      level fun room => condition.fits room && thenBranch.fits room && elseBranch.fits room
  | .loop condition body => level fun room => condition.fits room && body.fits room
  | .forLoop none condition increment body =>
      level fun room => (conditionOf condition).fits room && fitsTurn body.fits increment room
  | .forLoop (some first) condition increment body =>
      level fun room => first.fits room &&
        level (fun room => (conditionOf condition).fits room && fitsTurn body.fits increment room)
          room
  | .ret _ value => level fun room => Expr.fitsOpt room value

/-- Whether a declaration is nested at most `room` levels deep. -/
def Decl.fits : Decl ρ → Nat → Bool
  | .statement s => s.fits
  | .declare _ initializer => level fun room => Expr.fitsOpt room initializer
  | .function (.mk _ _ body) => level (fitsAll body)
  | .classDecl _ _ methods => level (fitsMethods methods)

/-- Whether the bodies of a class's methods are nested at most `room` levels deep. -/
def fitsMethods : List (Function ρ) → Nat → Bool
  | [], _ => true
  | .mk _ _ body :: rest, room => fitsAll body room && fitsMethods rest room

/-- Whether all declarations of a list are nested at most `room` levels deep. -/
def fitsAll : List (Decl ρ) → Nat → Bool
  | [], _ => true
  | declaration :: rest, room => declaration.fits room && fitsAll rest room
end

/-! ### Nesting of what a loop stands for -/

theorem Clause.fits_desugar (first : Clause Unit) (room : Nat) :
    first.desugar.fits room = first.fits room := by
  cases first <;> cases room <;> rfl

/-- A loop without a first clause takes as many levels as what it stands for. -/
theorem fits_repeated (condition increment : Option (Expr Unit)) {body : LoxLang.Stmt Unit}
    {inner : Nat → Bool} (same : ∀ room, body.fits room = inner room) (room : Nat) :
    (LoxLang.Stmt.forLoop none condition increment body).fits room =
      level (fun room => (conditionOf condition).fits room && fitsTurn inner increment room)
        room := by
  cases room with
  | zero => cases increment <;> rfl
  | succ room =>
      cases increment with
      | none =>
          simp only [LoxLang.Stmt.forLoop, LoxLang.Stmt.fits, same, level, fitsTurn, conditionOf]
      | some step =>
          cases room with
          | zero =>
              simp only [LoxLang.Stmt.forLoop, LoxLang.Stmt.fits, level, fitsTurn, conditionOf]
          | succ room =>
              simp only [LoxLang.Stmt.forLoop, LoxLang.Stmt.fits, LoxLang.Stmt.fitsAll, level,
                fitsTurn, conditionOf, same, Bool.and_true]
              cases room <;> rfl

mutual
theorem Stmt.fits_desugar : ∀ (s : Stmt Unit) (room : Nat), s.desugar.fits room = s.fits room
  | .expression _, 0 => rfl
  | .expression _, _ + 1 => rfl
  | .print _, 0 => rfl
  | .print _, _ + 1 => rfl
  | .ret _ _, 0 => rfl
  | .ret _ _, _ + 1 => rfl
  | .block _, 0 => rfl
  | .block body, room + 1 => fitsAll_desugar body room
  | .branch _ _ none, 0 => rfl
  | .branch condition thenBranch none, room + 1 => by
      simp only [Stmt.desugar, LoxLang.Stmt.fits, Stmt.fits, level, Stmt.fits_desugar thenBranch]
  | .branch _ _ (some _), 0 => rfl
  | .branch condition thenBranch (some elseBranch), room + 1 => by
      simp only [Stmt.desugar, LoxLang.Stmt.fits, Stmt.fits, level, Stmt.fits_desugar thenBranch,
        Stmt.fits_desugar elseBranch]
  | .loop _ _, 0 => rfl
  | .loop condition body, room + 1 => by
      simp only [Stmt.desugar, LoxLang.Stmt.fits, Stmt.fits, level, Stmt.fits_desugar body]
  | .forLoop none condition increment body, room =>
      fits_repeated condition increment (Stmt.fits_desugar body) room
  | .forLoop (some first) condition increment body, 0 => by cases increment <;> rfl
  | .forLoop (some first) condition increment body, room + 1 => by
      have isBlock : (LoxLang.Stmt.forLoop (some first.desugar) condition increment
          body.desugar).fits (room + 1) = (first.desugar.fits room &&
            (LoxLang.Stmt.forLoop none condition increment body.desugar).fits room) := by
        simp only [LoxLang.Stmt.forLoop, LoxLang.Stmt.fits, LoxLang.Stmt.fitsAll, Bool.and_true]
      rw [Stmt.desugar, Option.map_some, isBlock, first.fits_desugar,
        fits_repeated condition increment (Stmt.fits_desugar body) room]
      rfl

theorem Decl.fits_desugar : ∀ (d : Decl Unit) (room : Nat), d.desugar.fits room = d.fits room
  | .statement s, room => s.fits_desugar room
  | .declare _ _, 0 => rfl
  | .declare _ _, _ + 1 => rfl
  | .function (.mk _ _ _), 0 => rfl
  | .function (.mk _ _ body), room + 1 => fitsAll_desugar body room
  | .classDecl _ _ _, 0 => rfl
  | .classDecl _ _ methods, room + 1 => fitsMethods_desugar methods room

theorem fitsMethods_desugar : ∀ (methods : List (Function Unit)) (room : Nat),
    LoxLang.Stmt.fitsMethods room (desugarMethods methods) = fitsMethods methods room
  | [], _ => rfl
  | .mk _ _ body :: rest, room => by
      simp only [desugarMethods, Function.desugar, LoxLang.Stmt.fitsMethods,
        LoxLang.Stmt.fitsFunction, fitsMethods, fitsAll_desugar body, fitsMethods_desugar rest]

/-- A program is nested as deeply as what it stands for. -/
theorem fitsAll_desugar : ∀ (body : List (Decl Unit)) (room : Nat),
    LoxLang.Stmt.fitsAll room (desugarAll body) = fitsAll body room
  | [], _ => rfl
  | d :: rest, room => by
      simp only [desugarAll, LoxLang.Stmt.fitsAll, fitsAll, d.fits_desugar, fitsAll_desugar rest]
end

end LoxLang.Looping
