/-
Module: LoxLang.Proofs.Scope.Traversal
Purpose: One walk for everything that is kept when steps of binding are put together.  A relation
  between steps of binding that holds of the single steps, and is kept by doing steps one after the
  other and inside a new scope, holds of a whole program and the same program with its names moved.
Main exports: Binder.Traversal, Binder.Traversal.expression, Binder.Traversal.statement,
  Binder.Traversal.statements
-/
import LoxLang.Proofs.Rewording.Scope

namespace LoxLang

/-- What follows the name of a superclass is looked at as part of a class that inherits.  The class
around is come back to once or twice, which is the same. -/
theorem Stmt.bind_subclass (name superclass : Ident) (binding : Unit)
    (methods : List (Function Unit)) :
    (classDecl name (some (superclass, binding)) methods).bind = Binder.inClass .class_ (do
      Binder.introduce name
      Binder.checkSuperclass name superclass
      Binder.inClass .subclass do
        let distance ← Binder.use superclass
        let methods ← Binder.within (.holding "super")
          (Binder.within (.holding "this") (bindMethods methods))
        return classDecl name (some (superclass, distance)) methods) :=
  rfl

/-- What steps of binding have in common with the same steps on names that have been moved.  `look`
is about the steps of expressions, which leave every scope as it is, and `act` about all of them. -/
structure Binder.Traversal (change : Rewording)
    (look act : ∀ {α β : Type}, (α → β) → Binder α → Binder β → Prop) : Prop where
  words : change.KeepsWords
  ofLook {α β : Type} {image : α → β} {step : Binder α} {other : Binder β} :
    look image step other → act image step other
  pure {α β : Type} {image : α → β} {value : α} {result : β} :
    result = image value → look image (Pure.pure value) (Pure.pure result)
  lookThen {α β γ δ : Type} {image : α → β} {after : γ → δ} {step : Binder α} {other : Binder β}
    {next : α → Binder γ} {following : β → Binder δ} :
    look image step other → (∀ value, look after (next value) (following (image value))) →
      look after (step >>= next) (other >>= following)
  actThen {α β γ δ : Type} {image : α → β} {after : γ → δ} {step : Binder α} {other : Binder β}
    {next : α → Binder γ} {following : β → Binder δ} :
    act image step other → (∀ value, act after (next value) (following (image value))) →
      act after (step >>= next) (other >>= following)
  within {α β : Type} {image : α → β} {step : Binder α} {other : Binder β} (scope : Scope) :
    act image step other → look image (within scope step) (within scope other)
  inFunction {α β : Type} {image : α → β} {step : Binder α} {other : Binder β}
    (kind : FunctionContext) :
    look image step other → look image (inFunction kind step) (inFunction kind other)
  inClass {α β : Type} {image : α → β} {step : Binder α} {other : Binder β} (kind : ClassContext) :
    act image step other → act image (inClass kind step) (inClass kind other)
  surroundings : look id surroundings surroundings
  declare (name : Ident) : act id (declare name) (declare (name.reword change))
  define (name : Ident) : act id (define name) (define (name.reword change))
  report (cause : ScopeCause) (name : Ident) :
    look id (report cause name) (report cause (name.reword change))
  distance (word : String) : look id (distance word) (distance word)
  use (name : Ident) : look id (use name) (use (name.reword change))

namespace Binder.Traversal

variable {change : Rewording} {look act : ∀ {α β : Type}, (α → β) → Binder α → Binder β → Prop}

/-! ### Single steps -/

section Steps

variable (walk : Traversal change look act)
include walk

theorem distanceOf (name : Ident) :
    look id (Binder.distance name.text) (Binder.distance (name.reword change).text) := by
  rw [Ident.text_reword, walk.words]
  exact walk.distance name.text

/-- A keyword keeps its word, so an error found at it is found where it has been moved to. -/
theorem reportAt (cause : ScopeCause) (word : String) (keyword : Position) :
    look id (Binder.report cause ⟨word, keyword⟩)
      (Binder.report cause ⟨word, change.move keyword⟩) := by
  have moved : (⟨word, change.move keyword⟩ : Ident) = (⟨word, keyword⟩ : Ident).reword change := by
    rw [Ident.reword, walk.words]
  rw [moved]
  exact walk.report cause ⟨word, keyword⟩

theorem useReceiver (keyword : Position) :
    look id (Binder.useReceiver keyword) (Binder.useReceiver (change.move keyword)) := by
  refine walk.lookThen walk.surroundings fun context => ?_
  dsimp only [id]
  split
  · exact walk.lookThen (walk.reportAt _ _ keyword) fun _ => walk.pure rfl
  · exact walk.distance "this"

theorem useSuper (keyword : Position) :
    look id (Binder.useSuper keyword) (Binder.useSuper (change.move keyword)) := by
  refine walk.lookThen walk.surroundings fun context => ?_
  dsimp only [id]
  split
  · exact walk.lookThen (walk.reportAt _ _ keyword) fun _ => walk.distance "super"
  · exact walk.lookThen (walk.reportAt _ _ keyword) fun _ => walk.distance "super"
  · exact walk.distance "super"

theorem checkReturn (keyword : Position) (hasValue : Bool) :
    look id (Binder.checkReturn keyword hasValue)
      (Binder.checkReturn (change.move keyword) hasValue) := by
  refine walk.lookThen walk.surroundings fun context => ?_
  dsimp only [id]
  split
  · exact walk.reportAt _ _ keyword
  · split
    · exact walk.reportAt _ _ keyword
    · exact walk.pure rfl
  · exact walk.pure rfl

theorem checkSuperclass (name superclass : Ident) :
    look id (Binder.checkSuperclass name superclass)
      (Binder.checkSuperclass (name.reword change) (superclass.reword change)) := by
  unfold Binder.checkSuperclass
  simp only [Ident.text_reword, walk.words _]
  split
  · exact walk.report _ superclass
  · exact walk.pure rfl

end Steps

/-! ### Expressions -/

section Expressions

variable (walk : Traversal change look act)
include walk

mutual
theorem expression :
    ∀ e : Expr Unit, look (Expr.reword change) e.bind (e.reword change).bind
  | .literal _ => walk.pure rfl
  | .read name _ => walk.lookThen (walk.use name) fun _ => walk.pure rfl
  | .assign name _ value =>
      walk.lookThen (expression value) fun _ =>
        walk.lookThen (walk.distanceOf name) fun _ => walk.pure rfl
  | .unary _ _ operand => walk.lookThen (expression operand) fun _ => walk.pure rfl
  | .binary left _ _ right =>
      walk.lookThen (expression left) fun _ =>
        walk.lookThen (expression right) fun _ => walk.pure rfl
  | .logical left _ right =>
      walk.lookThen (expression left) fun _ =>
        walk.lookThen (expression right) fun _ => walk.pure rfl
  | .grouping inner => walk.lookThen (expression inner) fun _ => walk.pure rfl
  | .call callee arguments _ =>
      walk.lookThen (expression callee) fun _ =>
        walk.lookThen (expressions arguments) fun _ => walk.pure rfl
  | .get object _ => walk.lookThen (expression object) fun _ => walk.pure rfl
  | .set object _ value =>
      walk.lookThen (expression value) fun _ =>
        walk.lookThen (expression object) fun _ => walk.pure rfl
  | .receiver keyword _ => walk.lookThen (walk.useReceiver keyword) fun _ => walk.pure rfl
  | .superMethod keyword _ _ =>
      walk.lookThen (walk.useSuper keyword) fun _ => walk.pure rfl

theorem expressions :
    ∀ es : List (Expr Unit), look (Expr.rewordAll change) (Expr.bindAll es)
      (Expr.bindAll (Expr.rewordAll change es))
  | [] => walk.pure rfl
  | e :: rest =>
      walk.lookThen (expression e) fun _ =>
        walk.lookThen (expressions rest) fun _ => walk.pure rfl
end

theorem optional (e : Option (Expr Unit)) :
    look (Option.map (Expr.reword change)) (Expr.bindOpt e)
      (Expr.bindOpt (e.map (Expr.reword change))) := by
  cases e with
  | none => exact walk.pure rfl
  | some e => exact walk.lookThen (walk.expression e) fun _ => walk.pure rfl

end Expressions

/-! ### Statements -/

section Statements

variable (walk : Traversal change look act)
include walk

theorem introduce (name : Ident) :
    act id (introduce name) (introduce (name.reword change)) :=
  walk.actThen (walk.declare name) fun _ => walk.define name

theorem introduceAll (names : List Ident) :
    act id (introduceAll names) (introduceAll (names.map (Ident.reword change))) := by
  induction names with
  | nil => exact walk.ofLook (walk.pure rfl)
  | cons name rest ih => exact walk.actThen (walk.introduce name) fun _ => ih

theorem ofMethod_reword (name : Ident) :
    FunctionContext.ofMethod (name.reword change) = FunctionContext.ofMethod name := by
  rw [FunctionContext.ofMethod, Ident.text_reword, walk.words, ← FunctionContext.ofMethod]

mutual
theorem statement :
    ∀ s : Stmt Unit, act (Stmt.reword change) s.bind (s.reword change).bind
  | .expression value =>
      walk.ofLook (walk.lookThen (walk.expression value) fun _ => walk.pure rfl)
  | .print value =>
      walk.ofLook (walk.lookThen (walk.expression value) fun _ => walk.pure rfl)
  | .declare name initializer =>
      walk.actThen (walk.declare name) fun _ =>
        walk.actThen (walk.ofLook (walk.optional initializer)) fun _ =>
          walk.actThen (walk.define name) fun _ => walk.ofLook (walk.pure rfl)
  | .block body =>
      walk.ofLook (walk.lookThen (walk.within .empty (statements body)) fun _ =>
        walk.pure rfl)
  | .branch condition thenBranch none =>
      walk.actThen (walk.ofLook (walk.expression condition)) fun _ =>
        walk.actThen (statement thenBranch) fun _ => walk.ofLook (walk.pure rfl)
  | .branch condition thenBranch (some elseBranch) =>
      walk.actThen (walk.ofLook (walk.expression condition)) fun _ =>
        walk.actThen (statement thenBranch) fun _ =>
          walk.actThen (statement elseBranch) fun _ => walk.ofLook (walk.pure rfl)
  | .loop condition body =>
      walk.actThen (walk.ofLook (walk.expression condition)) fun _ =>
        walk.actThen (statement body) fun _ => walk.ofLook (walk.pure rfl)
  | .ret keyword value => by
      rw [Stmt.reword, Stmt.bind, Stmt.bind, Option.isSome_map]
      exact walk.ofLook (walk.lookThen (walk.checkReturn keyword _) fun _ =>
        walk.lookThen (walk.optional value) fun _ => walk.pure rfl)
  | .function (.mk name parameters body) =>
      walk.actThen (walk.introduce name) fun _ =>
        walk.ofLook (walk.lookThen
          (walk.inFunction .function (walk.within .empty
            (walk.actThen (walk.introduceAll parameters) fun _ => statements body)))
          fun _ => walk.pure rfl)
  | .classDecl name none methods =>
      walk.inClass .class_ (walk.actThen (walk.introduce name) fun _ =>
        walk.ofLook (walk.lookThen
          (walk.within (.holding "this") (walk.ofLook (methodsOf methods)))
          fun _ => walk.pure rfl))
  | .classDecl name (some (superclass, _)) methods => by
      rw [Stmt.reword, Option.map_some, Stmt.bind_subclass, Stmt.bind_subclass]
      exact walk.inClass .class_ (walk.actThen (walk.introduce name) fun _ =>
        walk.actThen (walk.ofLook (walk.checkSuperclass name superclass)) fun _ =>
          walk.inClass .subclass (walk.ofLook (walk.lookThen (walk.use superclass) fun _ =>
            walk.lookThen
              (walk.within (.holding "super") (walk.ofLook
                (walk.within (.holding "this") (walk.ofLook (methodsOf methods)))))
              fun _ => walk.pure rfl)))

theorem methodsOf :
    ∀ methods : List (Function Unit),
      look (Stmt.rewordMethods change) (Stmt.bindMethods methods)
        (Stmt.bindMethods (Stmt.rewordMethods change methods))
  | [] => walk.pure rfl
  | .mk name parameters body :: rest => by
      rw [Stmt.rewordMethods, Stmt.rewordFunction, Stmt.bindMethods, Stmt.bindMethods,
        walk.ofMethod_reword]
      exact walk.lookThen
        (walk.inFunction _ (walk.within .empty
          (walk.actThen (walk.introduceAll parameters) fun _ => statements body)))
        fun _ => walk.lookThen (methodsOf rest) fun _ => walk.pure rfl

theorem statements :
    ∀ ss : List (Stmt Unit), act (Stmt.rewordAll change) (Stmt.bindAll ss)
      (Stmt.bindAll (Stmt.rewordAll change ss))
  | [] => walk.ofLook (walk.pure rfl)
  | s :: rest =>
      walk.actThen (statement s) fun _ =>
        walk.actThen (statements rest) fun _ => walk.ofLook (walk.pure rfl)
end

end Statements

end Binder.Traversal

end LoxLang
