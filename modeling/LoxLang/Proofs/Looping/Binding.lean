/-
Module: LoxLang.Proofs.Looping.Binding
Purpose: Binding names in programs in which `for` is a statement of its own.  A `for` loop is
  looked at in one scope, and in none if it has no first clause; what it stands for is looked at in
  one more scope for each turn.  That scope stays empty, so the same errors are found, and every
  name is bound to the same scope, which is further out by the empty ones in between.
Main exports: Looping.Stmt.bind, Looping.Binding, Looping.bind, Layer, Shape.shift, LoweredExpr,
  LoweredStmt, LoweredDecl, Spread, Settled, Matches, Looping.bind_lowered
-/
import LoxLang.Proofs.Looping.Tree
import LoxLang.Proofs.Scope.Binding
import LoxLang.Proofs.Scope.Clean
import LoxLang.Proofs.Scope.Tidy
import Mathlib.Data.List.Forall2

namespace LoxLang.Looping

/-! ### Binding -/

/-- Binds the names in the first clause of a `for` loop. -/
def Clause.bind : Clause Unit → Binder (Clause Distance)
  | declare name initializer => do
      Binder.declare name
      let initializer ← Expr.bindOpt initializer
      Binder.define name
      return .declare name initializer
  | expression value => return .expression (← value.bind)

mutual
/-- Binds the names in a statement.  The first clause, the condition, the body and the increment of
a `for` loop are looked at in one scope, in this order. -/
def Stmt.bind : Stmt Unit → Binder (Stmt Distance)
  | .expression value => return .expression (← value.bind)
  | .print value => return .print (← value.bind)
  | .block body => return .block (← Binder.within .empty (bindAll body))
  | .branch condition thenBranch none => do
      let condition ← condition.bind
      let thenBranch ← thenBranch.bind
      return .branch condition thenBranch none
  | .branch condition thenBranch (some elseBranch) => do
      let condition ← condition.bind
      let thenBranch ← thenBranch.bind
      let elseBranch ← elseBranch.bind
      return .branch condition thenBranch (some elseBranch)
  | .loop condition body => do
      let condition ← condition.bind
      let body ← body.bind
      return .loop condition body
  | .forLoop none condition increment body => do
      let condition ← Expr.bindOpt condition
      let body ← body.bind
      let increment ← Expr.bindOpt increment
      return .forLoop none condition increment body
  | .forLoop (some first) condition increment body =>
      Binder.within .empty do
        let first ← first.bind
        let condition ← Expr.bindOpt condition
        let body ← body.bind
        let increment ← Expr.bindOpt increment
        return .forLoop (some first) condition increment body
  | .ret keyword value => do
      Binder.checkReturn keyword value.isSome
      return .ret keyword (← Expr.bindOpt value)

/-- Binds the names in a declaration. -/
def Decl.bind : Decl Unit → Binder (Decl Distance)
  | .statement s => return .statement (← s.bind)
  | .declare name initializer => do
      Binder.declare name
      let initializer ← Expr.bindOpt initializer
      Binder.define name
      return .declare name initializer
  | .function (.mk name parameters body) => do
      Binder.introduce name
      let body ← Binder.inFunction .function <| Binder.within .empty do
        Binder.introduceAll parameters
        bindAll body
      return .function (.mk name parameters body)
  | .classDecl name none methods => Binder.inClass .class_ do
      Binder.introduce name
      let methods ← Binder.within (.holding "this") (bindMethods methods)
      return .classDecl name none methods
  | .classDecl name (some (superclass, _)) methods => Binder.inClass .class_ do
      Binder.introduce name
      Binder.checkSuperclass name superclass
      Binder.setClass .subclass
      let distance ← Binder.use superclass
      let methods ← Binder.within (.holding "super")
        (Binder.within (.holding "this") (bindMethods methods))
      return .classDecl name (some (superclass, distance)) methods

/-- Binds the names in the methods of a class. -/
def bindMethods : List (Function Unit) → Binder (List (Function Distance))
  | [] => return []
  | .mk name parameters body :: rest => do
      let body ← Binder.inFunction (.ofMethod name) <| Binder.within .empty do
        Binder.introduceAll parameters
        bindAll body
      let rest ← bindMethods rest
      return .mk name parameters body :: rest

/-- Binds the names in a list of declarations. -/
def bindAll : List (Decl Unit) → Binder (List (Decl Distance))
  | [] => return []
  | declaration :: rest => do
      let declaration ← declaration.bind
      let rest ← bindAll rest
      return declaration :: rest
end

/-- With a superclass, a class is one that inherits from where the superclass is used. -/
theorem Decl.bind_subclass (name superclass : Ident) (binding : Unit)
    (methods : List (Function Unit)) :
    (Decl.classDecl name (some (superclass, binding)) methods).bind = Binder.inClass .class_ (do
      Binder.introduce name
      Binder.checkSuperclass name superclass
      Binder.inClass .subclass do
        let distance ← Binder.use superclass
        let methods ← Binder.within (.holding "super")
          (Binder.within (.holding "this") (bindMethods methods))
        return .classDecl name (some (superclass, distance)) methods) :=
  rfl

/-- A program whose names are bound, and the errors found in it, in order. -/
structure Binding where
  program : Program Distance
  errors : Array ScopeError

/-- Binds the names of a program. -/
def bind (program : Program Unit) : Binding :=
  match bindAll program { context := .topLevel, scopes := [], errors := #[] } with
  | (bound, state) => { program := bound, errors := state.errors }

/-! ### Shapes -/

/-- A scope around a place of a program in which `for` loops are replaced: one that the program has
anyway, or one that a turn of a loop has been given. -/
inductive Layer where
  | own
  | extra

/-- The scopes around a place, innermost first. -/
abbrev Shape := List Layer

/-- How far out a scope is if the extra ones are counted as well. -/
def Shape.shift : Shape → Nat → Nat
  | [], distance => distance
  | .extra :: shape, distance => Shape.shift shape distance + 1
  | .own :: _, 0 => 0
  | .own :: shape, distance + 1 => Shape.shift shape distance + 1

/-- Whether declarations can stand at a place: the innermost scope is none of the extra ones. -/
def Shape.Solid : Shape → Prop
  | .extra :: _ => False
  | _ => True

/-! ### Bound programs -/

/-- A bound expression, and the same where extra scopes are counted.  The scope that holds `super`
is right around the one that holds `this`, with no extra one in between. -/
inductive LoweredExpr (shape : Shape) : Expr Distance → Expr Distance → Prop where
  | literal (value : Literal) : LoweredExpr shape (.literal value) (.literal value)
  | read (name : Ident) (binding : Distance) :
      LoweredExpr shape (.read name binding) (.read name (binding.map (Shape.shift shape)))
  | assign (name : Ident) (binding : Distance) {value other : Expr Distance}
      (inner : LoweredExpr shape value other) :
      LoweredExpr shape (.assign name binding value)
        (.assign name (binding.map (Shape.shift shape)) other)
  | unary (op : UnaryOp) (position : Position) {operand other : Expr Distance}
      (inner : LoweredExpr shape operand other) :
      LoweredExpr shape (.unary op position operand) (.unary op position other)
  | binary (op : BinaryOp) (position : Position) {left right left' right' : Expr Distance}
      (first : LoweredExpr shape left left') (second : LoweredExpr shape right right') :
      LoweredExpr shape (.binary left op position right) (.binary left' op position right')
  | logical (op : LogicalOp) {left right left' right' : Expr Distance}
      (first : LoweredExpr shape left left') (second : LoweredExpr shape right right') :
      LoweredExpr shape (.logical left op right) (.logical left' op right')
  | grouping {inner other : Expr Distance} (within : LoweredExpr shape inner other) :
      LoweredExpr shape (.grouping inner) (.grouping other)
  | call (close : Position) {callee callee' : Expr Distance}
      {arguments arguments' : List (Expr Distance)} (first : LoweredExpr shape callee callee')
      (rest : List.Forall₂ (LoweredExpr shape) arguments arguments') :
      LoweredExpr shape (.call callee arguments close) (.call callee' arguments' close)
  | get (name : Ident) {object other : Expr Distance} (inner : LoweredExpr shape object other) :
      LoweredExpr shape (.get object name) (.get other name)
  | set (name : Ident) {object object' value value' : Expr Distance}
      (first : LoweredExpr shape object object') (second : LoweredExpr shape value value') :
      LoweredExpr shape (.set object name value) (.set object' name value')
  | receiver (keyword : Position) (binding : Distance) :
      LoweredExpr shape (.receiver keyword binding)
        (.receiver keyword (binding.map (Shape.shift shape)))
  | superMethod (keyword : Position) (method : Ident) {inner : Nat}
      (adjacent : Shape.shift shape (inner + 1) = Shape.shift shape inner + 1) :
      LoweredExpr shape (.superMethod keyword (some (inner + 1)) method)
        (.superMethod keyword (some (Shape.shift shape inner + 1)) method)
  | superNowhere (keyword : Position) (method : Ident) :
      LoweredExpr shape (.superMethod keyword none method) (.superMethod keyword none method)

/-- Expressions that may be missing. -/
abbrev LoweredOpt (shape : Shape) : Option (Expr Distance) → Option (Expr Distance) → Prop :=
  Option.Rel (LoweredExpr shape)

mutual
/-- A bound statement, and what it stands for.  The turns of a loop with an increment are blocks of
their own, which hold nothing but the body and the increment. -/
inductive LoweredStmt : Shape → Stmt Distance → LoxLang.Stmt Distance → Prop where
  | expression {shape : Shape} {value other : Expr Distance}
      (lowered : LoweredExpr shape value other) :
      LoweredStmt shape (.expression value) (.expression other)
  | print {shape : Shape} {value other : Expr Distance} (lowered : LoweredExpr shape value other) :
      LoweredStmt shape (.print value) (.print other)
  | block {shape : Shape} {body : List (Decl Distance)} {other : List (LoxLang.Stmt Distance)}
      (lowered : LoweredAll (.own :: shape) body other) :
      LoweredStmt shape (.block body) (.block other)
  | ifThen {shape : Shape} {condition condition' : Expr Distance} {thenBranch : Stmt Distance}
      {thenBranch' : LoxLang.Stmt Distance} (lowered : LoweredExpr shape condition condition')
      (first : LoweredStmt shape thenBranch thenBranch') :
      LoweredStmt shape (.branch condition thenBranch none) (.branch condition' thenBranch' none)
  | ifElse {shape : Shape} {condition condition' : Expr Distance}
      {thenBranch elseBranch : Stmt Distance} {thenBranch' elseBranch' : LoxLang.Stmt Distance}
      (lowered : LoweredExpr shape condition condition')
      (first : LoweredStmt shape thenBranch thenBranch')
      (second : LoweredStmt shape elseBranch elseBranch') :
      LoweredStmt shape (.branch condition thenBranch (some elseBranch))
        (.branch condition' thenBranch' (some elseBranch'))
  | loop {shape : Shape} {condition condition' : Expr Distance} {body : Stmt Distance}
      {body' : LoxLang.Stmt Distance} (lowered : LoweredExpr shape condition condition')
      (inner : LoweredStmt shape body body') :
      LoweredStmt shape (.loop condition body) (.loop condition' body')
  | forLoop {shape : Shape} {condition : Option (Expr Distance)} {condition' : Expr Distance}
      {body : Stmt Distance} {body' : LoxLang.Stmt Distance}
      (lowered : LoweredExpr shape (conditionOf condition) condition')
      (inner : LoweredStmt shape body body') :
      LoweredStmt shape (.forLoop none condition none body) (.loop condition' body')
  | forStep {shape : Shape} {condition : Option (Expr Distance)}
      {condition' step step' : Expr Distance} {body : Stmt Distance}
      {body' : LoxLang.Stmt Distance}
      (lowered : LoweredExpr shape (conditionOf condition) condition')
      (inner : LoweredStmt (.extra :: shape) body body')
      (last : LoweredExpr (.extra :: shape) step step') :
      LoweredStmt shape (.forLoop none condition (some step) body)
        (.loop condition' (.block [body', .expression step']))
  | forFirst {shape : Shape} {first : Clause Distance} {first' loop : LoxLang.Stmt Distance}
      {condition increment : Option (Expr Distance)} {body : Stmt Distance}
      (begins : LoweredDecl (.own :: shape) first.decl first')
      (rest : LoweredStmt (.own :: shape) (.forLoop none condition increment body) loop) :
      LoweredStmt shape (.forLoop (some first) condition increment body) (.block [first', loop])
  | ret {shape : Shape} (keyword : Position) {value other : Option (Expr Distance)}
      (lowered : LoweredOpt shape value other) :
      LoweredStmt shape (.ret keyword value) (.ret keyword other)

/-- A bound declaration, and what it stands for. -/
inductive LoweredDecl : Shape → Decl Distance → LoxLang.Stmt Distance → Prop where
  | statement {shape : Shape} {s : Stmt Distance} {other : LoxLang.Stmt Distance}
      (lowered : LoweredStmt shape s other) : LoweredDecl shape (.statement s) other
  | declare {shape : Shape} (name : Ident) {initializer other : Option (Expr Distance)}
      (solid : Shape.Solid shape) (lowered : LoweredOpt shape initializer other) :
      LoweredDecl shape (.declare name initializer) (.declare name other)
  | function {shape : Shape} {declaration : Function Distance}
      {other : LoxLang.Function Distance} (solid : Shape.Solid shape)
      (lowered : LoweredFunction shape declaration other) :
      LoweredDecl shape (.function declaration) (.function other)
  | class_ {shape : Shape} (name : Ident) {methods : List (Function Distance)}
      {methods' : List (LoxLang.Function Distance)} (solid : Shape.Solid shape)
      (lowered : LoweredMethods (.own :: shape) methods methods') :
      LoweredDecl shape (.classDecl name none methods) (.classDecl name none methods')
  | subclass {shape : Shape} (name superclass : Ident) (binding : Distance)
      {methods : List (Function Distance)} {methods' : List (LoxLang.Function Distance)}
      (solid : Shape.Solid shape)
      (lowered : LoweredMethods (.own :: .own :: shape) methods methods') :
      LoweredDecl shape (.classDecl name (some (superclass, binding)) methods)
        (.classDecl name (some (superclass, binding.map (Shape.shift shape))) methods')

/-- A function with bound names, and what it stands for. -/
inductive LoweredFunction : Shape → Function Distance → LoxLang.Function Distance → Prop where
  | mk {shape : Shape} (name : Ident) (parameters : List Ident) {body : List (Decl Distance)}
      {other : List (LoxLang.Stmt Distance)} (lowered : LoweredAll (.own :: shape) body other) :
      LoweredFunction shape (.mk name parameters body) (.mk name parameters other)

/-- The methods of a class. -/
inductive LoweredMethods :
    Shape → List (Function Distance) → List (LoxLang.Function Distance) → Prop where
  | nil {shape : Shape} : LoweredMethods shape [] []
  | cons {shape : Shape} {method : Function Distance} {other : LoxLang.Function Distance}
      {rest : List (Function Distance)} {others : List (LoxLang.Function Distance)}
      (first : LoweredFunction shape method other) (second : LoweredMethods shape rest others) :
      LoweredMethods shape (method :: rest) (other :: others)

/-- Declarations in order. -/
inductive LoweredAll : Shape → List (Decl Distance) → List (LoxLang.Stmt Distance) → Prop where
  | nil {shape : Shape} : LoweredAll shape [] []
  | cons {shape : Shape} {declaration : Decl Distance} {other : LoxLang.Stmt Distance}
      {rest : List (Decl Distance)} {others : List (LoxLang.Stmt Distance)}
      (first : LoweredDecl shape declaration other) (second : LoweredAll shape rest others) :
      LoweredAll shape (declaration :: rest) (other :: others)
end

/-! ### Scopes with extra ones in between -/

/-- The scopes of a shape: extra ones are empty, and all others are shared. -/
inductive Spread : Shape → List Scope → List Scope → Prop where
  | nil : Spread [] [] []
  | own {shape : Shape} {scopes others : List Scope} (scope : Scope)
      (around : Spread shape scopes others) :
      Spread (.own :: shape) (scope :: scopes) (scope :: others)
  | extra {shape : Shape} {scopes others : List Scope} (around : Spread shape scopes others) :
      Spread (.extra :: shape) scopes (.empty :: others)

/-- The scope that declares a name, counted from the inside. -/
abbrev declaredAt (scopes : List Scope) (name : String) : Option Nat :=
  scopes.findIdx? fun scope => scope.declares name

/-- A name is declared in the same scope, which is further out by the extra ones. -/
theorem Spread.declaredAt {shape : Shape} {scopes others : List Scope}
    (spread : Spread shape scopes others) (name : String) :
    declaredAt others name = (declaredAt scopes name).map (Shape.shift shape) := by
  induction spread with
  | nil => rfl
  | own scope around ih =>
      simp only [Looping.declaredAt, List.findIdx?_cons] at ih ⊢
      split
      · rfl
      · rw [ih, Option.map_map, Option.map_map]
        rfl
  | extra around ih =>
      have nothing : Scope.empty.declares name = false := rfl
      simp only [Looping.declaredAt, List.findIdx?_cons, nothing, Bool.false_eq_true,
        ↓reduceIte] at ih ⊢
      rw [ih, Option.map_map]
      rfl

/-- Wherever `super` is declared, the scope right inside of it is none of the extra ones. -/
def Paired (shape : Shape) (scopes : List Scope) : Prop :=
  ∀ distance, declaredAt scopes "super" = some distance →
    ∃ inner, distance = inner + 1 ∧ Shape.shift shape (inner + 1) = Shape.shift shape inner + 1

/-- What expressions can see of scopes. -/
structure Sees (shape : Shape) (scopes others : List Scope) : Prop where
  finds : ∀ name, declaredAt others name = (declaredAt scopes name).map (Shape.shift shape)
  awaits : ∀ name, Binder.awaits others name = Binder.awaits scopes name
  paired : Paired shape scopes

/-- Scopes where a statement stands: every name that is declared is ready to be read. -/
structure Settled (shape : Shape) (scopes others : List Scope) : Prop where
  spread : Spread shape scopes others
  ready : ∀ scope ∈ scopes, ∀ name, scope.ready? name ≠ some false
  paired : Paired shape scopes

namespace Settled

variable {shape : Shape} {scopes others : List Scope}

theorem awaits_eq_false (ready : ∀ scope ∈ scopes, ∀ name, scope.ready? name ≠ some false)
    (name : String) : Binder.awaits scopes name = false := by
  cases scopes with
  | nil => rfl
  | cons innermost outer => simp [Binder.awaits, ready innermost List.mem_cons_self name]

theorem ready_others (settled : Settled shape scopes others) :
    ∀ scope ∈ others, ∀ name, scope.ready? name ≠ some false := by
  obtain ⟨spread, ready, -⟩ := settled
  induction spread with
  | nil => exact ready
  | own scope around ih =>
      obtain ⟨here, outside⟩ := List.forall_mem_cons.1 ready
      exact List.forall_mem_cons.2 ⟨here, ih outside⟩
  | extra around ih =>
      exact List.forall_mem_cons.2 ⟨fun name => nofun, ih ready⟩

theorem sees (settled : Settled shape scopes others) : Sees shape scopes others where
  finds := settled.spread.declaredAt
  awaits := fun name => by
    rw [awaits_eq_false settled.ready, awaits_eq_false settled.ready_others]
  paired := settled.paired

theorem nil : Settled [] [] [] where
  spread := .nil
  ready := fun _ member => nomatch member
  paired := fun _ impossible => nomatch impossible

end Settled

/-- One scope further in, `super` is found where it was. -/
theorem Paired.own {shape : Shape} {scopes : List Scope} (paired : Paired shape scopes)
    {scope : Scope} (undeclared : scope.declares "super" = false) :
    Paired (.own :: shape) (scope :: scopes) := by
  intro distance found
  simp only [declaredAt, List.findIdx?_cons, undeclared, Bool.false_eq_true, ↓reduceIte,
    Option.map_eq_some_iff] at found
  obtain ⟨outside, isFound, rfl⟩ := found
  obtain ⟨inner, rfl, adjacent⟩ := paired outside isFound
  exact ⟨inner + 1, rfl, congrArg (· + 1) adjacent⟩

theorem Paired.extra {shape : Shape} {scopes : List Scope} (paired : Paired shape scopes) :
    Paired (.extra :: shape) scopes := by
  intro distance found
  obtain ⟨inner, rfl, adjacent⟩ := paired distance found
  exact ⟨inner, rfl, congrArg (· + 1) adjacent⟩

namespace Settled

variable {shape : Shape} {scopes others : List Scope}

/-- Inside of a scope that the program has anyway. -/
theorem own (settled : Settled shape scopes others) {scope : Scope}
    (isReady : ∀ name, scope.ready? name ≠ some false)
    (undeclared : scope.declares "super" = false) :
    Settled (.own :: shape) (scope :: scopes) (scope :: others) where
  spread := .own scope settled.spread
  ready := List.forall_mem_cons.2 ⟨isReady, settled.ready⟩
  paired := settled.paired.own undeclared

theorem inBlock (settled : Settled shape scopes others) :
    Settled (.own :: shape) (.empty :: scopes) (.empty :: others) :=
  settled.own (fun _ => nofun) rfl

/-- Inside of a scope that holds a keyword. -/
theorem ready_holding (keyword name : String) :
    (Scope.holding keyword).ready? name ≠ some false := by
  simp only [Scope.ready?, Scope.holding, List.lookup_cons, List.lookup_nil]
  split <;> simp

theorem inClass (settled : Settled shape scopes others) :
    Settled (.own :: shape) (.holding "this" :: scopes) (.holding "this" :: others) :=
  settled.own (ready_holding "this") rfl

theorem inSubclass (settled : Settled shape scopes others) :
    Settled (.own :: .own :: shape) (.holding "this" :: .holding "super" :: scopes)
      (.holding "this" :: .holding "super" :: others) where
  spread := .own _ (.own _ settled.spread)
  ready := List.forall_mem_cons.2
    ⟨ready_holding "this", List.forall_mem_cons.2 ⟨ready_holding "super", settled.ready⟩⟩
  paired := by
    intro distance found
    cases found
    exact ⟨0, rfl, rfl⟩

/-- Inside of a scope that a turn of a loop has been given. -/
theorem inTurn (settled : Settled shape scopes others) :
    Settled (.extra :: shape) scopes (.empty :: others) where
  spread := .extra settled.spread
  ready := settled.ready
  paired := settled.paired.extra

end Settled

/-! ### Steps that match -/

/-- Two steps of binding find the same errors, yield results that correspond and come back to what
surrounds the code. -/
def Matches {α β : Type} (scopes others after othersAfter : List Scope) (good : α → β → Prop)
    (step : Binder α) (twin : Binder β) : Prop :=
  ∀ context errors, ∃ value other found,
    step ⟨context, scopes, errors⟩ = (value, ⟨context, after, found⟩) ∧
      twin ⟨context, others, errors⟩ = (other, ⟨context, othersAfter, found⟩) ∧ good value other

/-- Steps of which neither changes the scopes. -/
abbrev LooksAlike {α β : Type} (scopes others : List Scope) (good : α → β → Prop)
    (step : Binder α) (twin : Binder β) : Prop :=
  Matches scopes others scopes others good step twin

namespace Matches

variable {α β γ δ : Type} {scopes others middle othersMiddle after othersAfter : List Scope}
  {good : α → β → Prop} {goal : γ → δ → Prop}

theorem pure {value : α} {other : β} (alike : good value other) :
    LooksAlike scopes others good (Pure.pure value) (Pure.pure other) :=
  fun _ errors => ⟨value, other, errors, rfl, rfl, alike⟩

theorem bind {step : Binder α} {twin : Binder β} {next : α → Binder γ} {nextTwin : β → Binder δ}
    (first : Matches scopes others middle othersMiddle good step twin)
    (second : ∀ value other, good value other →
      Matches middle othersMiddle after othersAfter goal (next value) (nextTwin other)) :
    Matches scopes others after othersAfter goal (step >>= next) (twin >>= nextTwin) := by
  intro context errors
  obtain ⟨value, other, found, isStep, isTwin, alike⟩ := first context errors
  obtain ⟨result, resultTwin, last, isNext, isNextTwin, ends⟩ :=
    second value other alike context found
  refine ⟨result, resultTwin, last, ?_, ?_, ends⟩
  · simp only [Bind.bind, StateT.bind, isStep]
    exact isNext
  · simp only [Bind.bind, StateT.bind, isTwin]
    exact isNextTwin

/-- Steps after which only trees are put together. -/
theorem map {step : Binder α} {twin : Binder β} {make : α → γ} {makeTwin : β → δ}
    (first : Matches scopes others after othersAfter good step twin)
    (alike : ∀ value other, good value other → goal (make value) (makeTwin other)) :
    Matches scopes others after othersAfter goal (step >>= fun value => Pure.pure (make value))
      (twin >>= fun other => Pure.pure (makeTwin other)) :=
  first.bind fun value other related => pure (alike value other related)

/-- A tree put together on one side only. -/
theorem mapStep {step : Binder α} {twin : Binder β} {make : α → γ} {goal : γ → β → Prop}
    (first : Matches scopes others after othersAfter good step twin)
    (alike : ∀ value other, good value other → goal (make value) other) :
    Matches scopes others after othersAfter goal
      (step >>= fun value => Pure.pure (make value)) twin := by
  intro context errors
  obtain ⟨value, other, found, isStep, isTwin, related⟩ := first context errors
  refine ⟨make value, other, found, ?_, isTwin, alike value other related⟩
  simp only [Bind.bind, StateT.bind, isStep]
  rfl

/-- A tree put together on the other side only. -/
theorem mapTwin {step : Binder α} {twin : Binder β} {makeTwin : β → δ} {goal : α → δ → Prop}
    (first : Matches scopes others after othersAfter good step twin)
    (alike : ∀ value other, good value other → goal value (makeTwin other)) :
    Matches scopes others after othersAfter goal step
      (twin >>= fun other => Pure.pure (makeTwin other)) := by
  intro context errors
  obtain ⟨value, other, found, isStep, isTwin, related⟩ := first context errors
  refine ⟨value, makeTwin other, found, isStep, ?_, alike value other related⟩
  simp only [Bind.bind, StateT.bind, isTwin]
  rfl

/-- Steps inside of a scope that both have. -/
theorem within {step : Binder α} {twin : Binder β} (scope : Scope)
    (inside : Matches (scope :: scopes) (scope :: others) after othersAfter good step twin)
    (outside : after.tail = scopes) (outsideToo : othersAfter.tail = others) :
    LooksAlike scopes others good (Binder.within scope step) (Binder.within scope twin) := by
  intro context errors
  obtain ⟨value, other, found, isStep, isTwin, alike⟩ := inside context errors
  refine ⟨value, other, found, ?_, ?_, alike⟩
  · simp only [Binder.within, isStep, outside]
  · simp only [Binder.within, isTwin, outsideToo]

/-- A step inside of a scope that only one of them has. -/
theorem withinExtra {step : Binder α} {twin : Binder β}
    (inside : LooksAlike scopes (.empty :: others) good step twin) :
    LooksAlike scopes others good step (Binder.within .empty twin) := by
  intro context errors
  obtain ⟨value, other, found, isStep, isTwin, alike⟩ := inside context errors
  refine ⟨value, other, found, isStep, ?_, alike⟩
  simp only [Binder.within, isTwin, List.tail_cons]

/-- Steps inside of a function. -/
theorem inFunction {step : Binder α} {twin : Binder β}
    (inside : Matches scopes others after othersAfter good step twin) (kind : FunctionContext) :
    Matches scopes others after othersAfter good (Binder.inFunction kind step)
      (Binder.inFunction kind twin) := by
  intro context errors
  obtain ⟨value, other, found, isStep, isTwin, alike⟩ :=
    inside { context with function := kind } errors
  refine ⟨value, other, found, ?_, ?_, alike⟩
  · simp only [Binder.inFunction, isStep]
  · simp only [Binder.inFunction, isTwin]

/-- Steps inside of a class. -/
theorem inClass {step : Binder α} {twin : Binder β}
    (inside : Matches scopes others after othersAfter good step twin) (kind : ClassContext) :
    Matches scopes others after othersAfter good (Binder.inClass kind step)
      (Binder.inClass kind twin) := by
  intro context errors
  obtain ⟨value, other, found, isStep, isTwin, alike⟩ :=
    inside { context with inClass := kind } errors
  refine ⟨value, other, found, ?_, ?_, alike⟩
  · simp only [Binder.inClass, isStep]
  · simp only [Binder.inClass, isTwin]

/-- What is done with the surroundings, which are the same for both. -/
theorem surrounded {next : Context → Binder α} {twin : Context → Binder β}
    (inside : ∀ context,
      Matches scopes others after othersAfter good (next context) (twin context)) :
    Matches scopes others after othersAfter good (Binder.surroundings >>= next)
      (Binder.surroundings >>= twin) :=
  fun context errors => inside context context errors

end Matches

/-! ### Single steps -/

section Looks

variable {shape : Shape} {scopes others : List Scope}

theorem report_matches (cause : ScopeCause) (name : Ident) :
    LooksAlike scopes others (fun _ _ => True) (Binder.report cause name)
      (Binder.report cause name) :=
  fun _ errors => ⟨(), (), errors.push ⟨cause, name⟩, rfl, rfl, trivial⟩

variable (sees : Sees shape scopes others)
include sees

theorem distance_matches (name : String) :
    LooksAlike scopes others (fun binding other => other = binding.map (Shape.shift shape))
      (Binder.distance name) (Binder.distance name) :=
  fun _ errors => ⟨_, _, errors, rfl, rfl, sees.finds name⟩

theorem use_matches (name : Ident) :
    LooksAlike scopes others (fun binding other => other = binding.map (Shape.shift shape))
      (Binder.use name) (Binder.use name) := by
  intro _ errors
  refine ⟨_, _, if Binder.awaits scopes name.text then
    errors.push ⟨.readInOwnInitializer, name⟩ else errors, ?_, ?_, sees.finds name.text⟩
  · rw [Binder.use_apply]
    split <;> rfl
  · rw [Binder.use_apply, sees.awaits]
    split <;> rfl

theorem useReceiver_matches (keyword : Position) :
    LooksAlike scopes others (fun binding other => other = binding.map (Shape.shift shape))
      (Binder.useReceiver keyword) (Binder.useReceiver keyword) := by
  refine .surrounded fun context => ?_
  split
  · exact (report_matches _ _).map fun _ _ _ => rfl
  · exact distance_matches sees "this"

/-- `super` is found right around `this`, or not at all. -/
theorem useSuper_matches (keyword : Position) (method : Ident) :
    LooksAlike scopes others (fun binding other =>
        LoweredExpr shape (.superMethod keyword binding method) (.superMethod keyword other method))
      (Binder.useSuper keyword) (Binder.useSuper keyword) := by
  have found : LooksAlike scopes others (fun binding other =>
        LoweredExpr shape (.superMethod keyword binding method) (.superMethod keyword other method))
      (Binder.distance "super") (Binder.distance "super") := by
    intro _ errors
    refine ⟨declaredAt scopes "super", declaredAt others "super", errors, rfl, rfl, ?_⟩
    rw [sees.finds]
    cases isFound : declaredAt scopes "super" with
    | none => exact .superNowhere keyword method
    | some distance =>
        obtain ⟨inner, rfl, adjacent⟩ := sees.paired distance isFound
        rw [Option.map_some, adjacent]
        exact .superMethod keyword method adjacent
  refine .surrounded fun context => ?_
  split
  · exact (report_matches _ _).bind fun _ _ _ => found
  · exact (report_matches _ _).bind fun _ _ _ => found
  · exact found

omit sees in
theorem checkReturn_matches (keyword : Position) (hasValue : Bool) :
    LooksAlike scopes others (fun _ _ => True) (Binder.checkReturn keyword hasValue)
      (Binder.checkReturn keyword hasValue) := by
  refine .surrounded fun context => ?_
  split
  · exact report_matches _ _
  · split
    · exact report_matches _ _
    · exact .pure trivial
  · exact .pure trivial

omit sees in
theorem checkSuperclass_matches (name superclass : Ident) :
    LooksAlike scopes others (fun _ _ => True) (Binder.checkSuperclass name superclass)
      (Binder.checkSuperclass name superclass) := by
  unfold Binder.checkSuperclass
  split
  · exact report_matches _ _
  · exact .pure trivial

end Looks

/-! ### Declaring names -/

section Declaring

open Binder (markIn)

variable {shape : Shape} {scopes others : List Scope}

theorem Spread.head?_eq (spread : Spread shape scopes others) (solid : Shape.Solid shape) :
    others.head? = scopes.head? := by
  cases spread with
  | nil => rfl
  | own scope around => rfl
  | extra around => exact solid.elim

theorem Spread.markIn (spread : Spread shape scopes others) (solid : Shape.Solid shape)
    (name : String) (ready : Bool) :
    Spread shape (Binder.markIn name ready scopes) (Binder.markIn name ready others) := by
  cases spread with
  | nil => exact .nil
  | own scope around => exact .own _ around
  | extra around => exact solid.elim

theorem tail_markIn (name : String) (ready : Bool) (scopes : List Scope) :
    (markIn name ready scopes).tail = scopes.tail := by
  cases scopes <;> rfl

theorem markInnermost_apply (name : String) (ready : Bool) (context : Context)
    (scopes : List Scope) (errors : Array ScopeError) :
    Binder.markInnermost name ready ⟨context, scopes, errors⟩ =
      ((), ⟨context, markIn name ready scopes, errors⟩) := by
  cases scopes <;> rfl

theorem define_matches (name : Ident) :
    Matches scopes others (markIn name.text true scopes) (markIn name.text true others)
      (fun _ _ => True) (Binder.define name) (Binder.define name) :=
  fun _ errors => ⟨(), (), errors, markInnermost_apply .., markInnermost_apply .., trivial⟩

theorem declare_apply (name : Ident) (context : Context) (scopes : List Scope)
    (errors : Array ScopeError) :
    Binder.declare name ⟨context, scopes, errors⟩ =
      ((), ⟨context, markIn name.text false scopes,
        if scopes.head?.any (·.declares name.text) then errors.push ⟨.declaredTwice, name⟩
        else errors⟩) := by
  cases scopes with
  | nil => rfl
  | cons innermost outer =>
      rw [List.head?_cons, Option.any_some, Binder.declare]
      by_cases isDeclared : innermost.declares name.text = true
      · rw [if_pos isDeclared]
        exact if_pos isDeclared
      · rw [if_neg isDeclared]
        exact if_neg isDeclared

theorem declare_matches (spread : Spread shape scopes others) (solid : Shape.Solid shape)
    (name : Ident) :
    Matches scopes others (markIn name.text false scopes) (markIn name.text false others)
      (fun _ _ => True) (Binder.declare name) (Binder.declare name) := by
  intro context errors
  refine ⟨(), (), _, declare_apply name context scopes errors, ?_, trivial⟩
  rw [declare_apply, spread.head?_eq solid]

theorem Paired.markIn (paired : Paired shape scopes) {name : Ident} (unreserved : name.Unreserved)
    (ready : Bool) : Paired shape (Binder.markIn name.text ready scopes) := by
  have same : declaredAt (Binder.markIn name.text ready scopes) "super" =
      declaredAt scopes "super" := by
    cases scopes with
    | nil => rfl
    | cons innermost outer =>
        have undeclared : (innermost.mark name.text ready).declares "super" =
            innermost.declares "super" := by
          rw [Scope.declares, Scope.ready?_mark, if_neg unreserved.2.symm, ← Scope.declares]
        simp only [declaredAt, Binder.markIn, List.findIdx?_cons, undeclared]
  intro distance found
  exact paired distance (same ▸ found)

/-- While its initializer is looked at, a name is declared in both but not ready to be read. -/
theorem Settled.sees_declared (settled : Settled shape scopes others) (solid : Shape.Solid shape)
    {name : Ident} (unreserved : name.Unreserved) :
    Sees shape (Binder.markIn name.text false scopes) (Binder.markIn name.text false others) where
  finds := (settled.spread.markIn solid name.text false).declaredAt
  awaits := fun other => by
    rw [Binder.awaits, (settled.spread.markIn solid name.text false).head?_eq solid, Binder.awaits]
  paired := settled.paired.markIn unreserved false

/-- The scopes after a name has been declared and made ready. -/
def introduced (name : Ident) (scopes : List Scope) : List Scope :=
  markIn name.text true (markIn name.text false scopes)

theorem tail_introduced (name : Ident) (scopes : List Scope) :
    (introduced name scopes).tail = scopes.tail := by
  rw [introduced, tail_markIn, tail_markIn]

theorem Settled.introduced (settled : Settled shape scopes others) (solid : Shape.Solid shape)
    {name : Ident} (unreserved : name.Unreserved) :
    Settled shape (introduced name scopes) (introduced name others) where
  spread := (settled.spread.markIn solid name.text false).markIn solid name.text true
  ready := by
    cases scopes with
    | nil => exact settled.ready
    | cons innermost outer =>
        obtain ⟨here, outside⟩ := List.forall_mem_cons.1 settled.ready
        refine List.forall_mem_cons.2 ⟨fun other => ?_, outside⟩
        rw [Scope.ready?_mark, Scope.ready?_mark]
        split
        · simp
        · exact here other
  paired := (settled.paired.markIn unreserved false).markIn unreserved true

theorem introduce_matches (settled : Settled shape scopes others) (solid : Shape.Solid shape)
    (name : Ident) :
    Matches scopes others (introduced name scopes) (introduced name others) (fun _ _ => True)
      (Binder.introduce name) (Binder.introduce name) :=
  (declare_matches settled.spread solid name).bind fun _ _ _ => define_matches name

/-- Names that are introduced one after the other. -/
theorem introduceAll_matches (settled : Settled shape scopes others) (solid : Shape.Solid shape)
    {names : List Ident} (unreserved : ∀ name ∈ names, name.Unreserved) :
    ∃ after othersAfter, Settled shape after othersAfter ∧ after.tail = scopes.tail ∧
      othersAfter.tail = others.tail ∧
      Matches scopes others after othersAfter (fun _ _ => True) (Binder.introduceAll names)
        (Binder.introduceAll names) := by
  induction names generalizing scopes others with
  | nil => exact ⟨scopes, others, settled, rfl, rfl, .pure trivial⟩
  | cons name rest ih =>
      obtain ⟨here, later⟩ := List.forall_mem_cons.1 unreserved
      obtain ⟨after, othersAfter, settledAfter, outside, outsideToo, matches_⟩ :=
        ih (settled.introduced solid here) later
      refine ⟨after, othersAfter, settledAfter, outside.trans (tail_introduced ..),
        outsideToo.trans (tail_introduced ..), ?_⟩
      exact (introduce_matches settled solid name).bind fun _ _ _ => matches_

end Declaring

/-! ### Expressions -/

section Expressions

variable {shape : Shape} {scopes others : List Scope}

mutual
theorem bindExpr_lowered (sees : Sees shape scopes others) : ∀ e : Expr Unit,
    LooksAlike scopes others (LoweredExpr shape) e.bind e.bind
  | .literal value => .pure (.literal value)
  | .read name _ => (use_matches sees name).map fun binding _ same => same ▸ .read name binding
  | .assign name _ value => (bindExpr_lowered sees value).bind fun _ _ inner =>
      (distance_matches sees name.text).map fun binding _ same => same ▸ .assign name binding inner
  | .unary op position operand =>
      (bindExpr_lowered sees operand).map fun _ _ inner => .unary op position inner
  | .binary left op position right => (bindExpr_lowered sees left).bind fun _ _ first =>
      (bindExpr_lowered sees right).map fun _ _ second => .binary op position first second
  | .logical left op right => (bindExpr_lowered sees left).bind fun _ _ first =>
      (bindExpr_lowered sees right).map fun _ _ second => .logical op first second
  | .grouping inner => (bindExpr_lowered sees inner).map fun _ _ within => .grouping within
  | .call callee arguments close => (bindExpr_lowered sees callee).bind fun _ _ first =>
      (bindExprs_lowered sees arguments).map fun _ _ rest => .call close first rest
  | .get object name => (bindExpr_lowered sees object).map fun _ _ inner => .get name inner
  | .set object name value => (bindExpr_lowered sees value).bind fun _ _ second =>
      (bindExpr_lowered sees object).map fun _ _ first => .set name first second
  | .receiver keyword _ => (useReceiver_matches sees keyword).map fun binding _ same =>
      same ▸ .receiver keyword binding
  | .superMethod keyword _ method =>
      (useSuper_matches sees keyword method).map fun _ _ lowered => lowered

theorem bindExprs_lowered (sees : Sees shape scopes others) :
    ∀ es : List (Expr Unit),
    LooksAlike scopes others (List.Forall₂ (LoweredExpr shape)) (Expr.bindAll es)
      (Expr.bindAll es)
  | [] => .pure .nil
  | e :: rest => (bindExpr_lowered sees e).bind fun _ _ first =>
      (bindExprs_lowered sees rest).map fun _ _ second => .cons first second
end

theorem bindOpt_lowered (sees : Sees shape scopes others)
    (e : Option (Expr Unit)) :
    LooksAlike scopes others (LoweredOpt shape) (Expr.bindOpt e)
      (Expr.bindOpt e) := by
  cases e with
  | none => exact .pure .none
  | some e => exact (bindExpr_lowered sees e).map fun _ _ lowered => .some lowered

end Expressions

/-! ### Statements -/

section Statements

variable {shape : Shape} {scopes others : List Scope}

/-- The condition of a `for` loop. -/
theorem bindCondition_lowered (sees : Sees shape scopes others)
    (condition : Option (Expr Unit)) :
    LooksAlike scopes others (fun bound other => LoweredExpr shape (conditionOf bound) other)
      (Expr.bindOpt condition) (conditionOf condition).bind := by
  cases condition with
  | none => exact .pure (.literal (.bool true))
  | some condition =>
      intro context errors
      obtain ⟨value, other, found, isValue, isOther, lowered⟩ :=
        bindExpr_lowered sees condition context errors
      refine ⟨some value, other, found, ?_, isOther, lowered⟩
      simp only [Expr.bindOpt, Bind.bind, StateT.bind, isValue]
      rfl

/-- A variable declaration. -/
theorem bindVariable_lowered (settled : Settled shape scopes others) (solid : Shape.Solid shape)
    {name : Ident} (unreserved : name.Unreserved)
    (initializer : Option (Expr Unit)) {α : Type} {good : α → LoxLang.Stmt Distance → Prop}
    {make : Option (Expr Distance) → α}
    (alike : ∀ value other, LoweredOpt shape value other →
      good (make value) (.declare name other)) :
    Matches scopes others (introduced name scopes) (introduced name others) good
      (do
        Binder.declare name
        let initializer ← Expr.bindOpt initializer
        Binder.define name
        return make initializer)
      (LoxLang.Stmt.declare name initializer).bind :=
  (declare_matches settled.spread solid name).bind fun _ _ _ =>
    (bindOpt_lowered (settled.sees_declared solid unreserved) initializer).bind
      fun value other lowered => (define_matches name).map fun _ _ _ => alike value other lowered

/-- The first clause of a `for` loop. -/
theorem bindClause_lowered (settled : Settled shape scopes others) (solid : Shape.Solid shape)
    (first : Clause Unit) (tidy : first.desugar.Tidy) :
    ∃ after othersAfter, Settled shape after othersAfter ∧ after.tail = scopes.tail ∧
      othersAfter.tail = others.tail ∧
      Matches scopes others after othersAfter
        (fun bound other => LoweredDecl shape bound.decl other) first.bind
        first.desugar.bind := by
  cases first with
  | declare name initializer =>
      refine ⟨introduced name scopes, introduced name others,
        settled.introduced solid tidy.1, tail_introduced .., tail_introduced .., ?_⟩
      exact bindVariable_lowered settled solid tidy.1 initializer
        fun _ _ lowered => .declare name solid lowered
  | expression value =>
      refine ⟨scopes, others, settled, rfl, rfl, ?_⟩
      exact (bindExpr_lowered settled.sees value).map
        fun _ _ lowered => .statement (.expression lowered)

/-- A `for` loop with a given first clause, and what stands for the rest of it. -/
def LoweredRest (shape : Shape) (first : Option (Clause Distance)) (bound : Stmt Distance)
    (loop : LoxLang.Stmt Distance) : Prop :=
  ∃ condition increment body, bound = .forLoop first condition increment body ∧
    LoweredStmt shape (.forLoop none condition increment body) loop

/-- A `for` loop, from its condition on.  What stands for it looks at each turn in a scope of its
own if there is an increment. -/
theorem bindRest_lowered (settled : Settled shape scopes others)
    (condition increment : Option (Expr Unit)) {body : Stmt Unit}
    (inner : ∀ {shape scopes others}, Settled shape scopes others →
      LooksAlike scopes others (LoweredStmt shape) body.bind body.desugar.bind)
    (first : Option (Clause Distance)) :
    LooksAlike scopes others (LoweredRest shape first)
      (do
        let condition ← Expr.bindOpt condition
        let body ← body.bind
        let increment ← Expr.bindOpt increment
        return .forLoop first condition increment body)
      (LoxLang.Stmt.forLoop none condition increment body.desugar).bind := by
  cases increment with
  | none =>
      refine (bindCondition_lowered settled.sees condition).bind fun _ _ lowered => ?_
      exact (inner settled).map fun _ _ looped => ⟨_, none, _, rfl, .forLoop lowered looped⟩
  | some step =>
      refine (bindCondition_lowered settled.sees condition).bind
        fun condition condition' lowered => ?_
      simp only [Expr.bindOpt, LoxLang.Stmt.bind, LoxLang.Stmt.bindAll, bind_assoc, pure_bind]
      have inside := settled.inTurn
      have turn : LooksAlike scopes others
          (fun bound turn => LoweredRest shape first bound (.loop condition' (.block turn)))
          (do
            let body ← body.bind
            let step ← step.bind
            return .forLoop first condition (some step) body)
          (Binder.within .empty do
            let body ← body.desugar.bind
            let step ← step.bind
            return [body, .expression step]) :=
        .withinExtra ((inner inside).bind fun _ _ looped =>
          (bindExpr_lowered inside.sees step).map fun _ _ last =>
            ⟨condition, _, _, rfl, .forStep lowered looped last⟩)
      exact turn.mapTwin fun _ _ lowered => lowered

/-- The body of a loop in what stands for a `for` loop is tidy. -/
theorem tidy_body {initializer : Option (LoxLang.Stmt Unit)}
    {condition increment : Option (Expr Unit)} {body : LoxLang.Stmt Unit}
    (tidy : (LoxLang.Stmt.forLoop initializer condition increment body).Tidy) : body.Tidy := by
  cases initializer with
  | none =>
      cases increment with
      | none => exact tidy.2.1
      | some step => exact tidy.2.1.1
  | some first =>
      cases increment with
      | none => exact tidy.2.1.2.1
      | some step => exact tidy.2.1.2.1.1

mutual
/-- A statement is looked at like what it stands for. -/
theorem Stmt.bind_lowered : ∀ (s : Stmt Unit) {shape : Shape} {scopes others : List Scope},
    Settled shape scopes others → s.desugar.Tidy →
    LooksAlike scopes others (LoweredStmt shape) s.bind s.desugar.bind
  | .expression value, _, _, _, settled, _ =>
      (bindExpr_lowered settled.sees value).map fun _ _ lowered => .expression lowered
  | .print value, _, _, _, settled, _ =>
      (bindExpr_lowered settled.sees value).map fun _ _ lowered => .print lowered
  | .block body, _, _, _, settled, tidy => by
      obtain ⟨_, _, -, outside, outsideToo, matches_⟩ :=
        bindAll_lowered body settled.inBlock trivial tidy
      exact (matches_.within .empty outside outsideToo).map fun _ _ lowered => .block lowered
  | .branch condition thenBranch none, _, _, _, settled, tidy =>
      (bindExpr_lowered settled.sees condition).bind fun _ _ lowered =>
        (thenBranch.bind_lowered settled tidy.2.1).map
          fun _ _ first => .ifThen lowered first
  | .branch condition thenBranch (some elseBranch), _, _, _, settled, tidy =>
      (bindExpr_lowered settled.sees condition).bind fun _ _ lowered =>
        (thenBranch.bind_lowered settled tidy.2.1).bind fun _ _ first =>
          (elseBranch.bind_lowered settled tidy.2.2.2.1).map
            fun _ _ second => .ifElse lowered first second
  | .loop condition body, _, _, _, settled, tidy =>
      (bindExpr_lowered settled.sees condition).bind fun _ _ lowered =>
        (body.bind_lowered settled tidy.2.1).map fun _ _ inner => .loop lowered inner
  | .forLoop none condition increment body, _, _, _, settled, tidy => by
      intro context errors
      obtain ⟨_, other, found, isBound, isOther, _, _, _, rfl, lowered⟩ :=
        bindRest_lowered settled condition increment
          (fun settled => body.bind_lowered settled (tidy_body tidy)) none context
            errors
      exact ⟨_, other, found, isBound, isOther, lowered⟩
  | .forLoop (some first) condition increment body, _, _, _, settled, tidy => by
      have shaped : (LoxLang.Stmt.forLoop (some first.desugar) condition increment
          body.desugar).bind = (do
            let body ← Binder.within .empty do
              let first ← first.desugar.bind
              let loop ← (LoxLang.Stmt.forLoop none condition increment body.desugar).bind
              return [first, loop]
            return LoxLang.Stmt.block body) := by
        simp only [LoxLang.Stmt.forLoop, LoxLang.Stmt.bind, LoxLang.Stmt.bindAll, bind_assoc,
          pure_bind]
      obtain ⟨_, _, inside, outside, outsideToo, firstMatches⟩ :=
        bindClause_lowered settled.inBlock trivial first
          (by cases increment <;> exact tidy.1)
      rw [Stmt.desugar, Option.map_some, shaped]
      refine Matches.mapTwin (Matches.within .empty (firstMatches.bind fun first _ begins => ?_)
        outside outsideToo) (fun _ _ lowered => lowered)
      refine (bindRest_lowered inside condition increment
        (fun settled => body.bind_lowered settled (tidy_body tidy)) (some first)).mapTwin ?_
      rintro _ loop ⟨condition, increment, body, rfl, rest⟩
      exact .forFirst begins rest
  | .ret keyword value, _, _, _, settled, _ =>
      (checkReturn_matches keyword value.isSome).bind fun _ _ _ =>
        (bindOpt_lowered settled.sees value).map fun _ _ lowered => .ret keyword lowered

/-- A declaration is looked at like what it stands for. -/
theorem Decl.bind_lowered : ∀ (d : Decl Unit) {shape : Shape} {scopes others : List Scope},
    Settled shape scopes others → Shape.Solid shape → d.desugar.Tidy →
    ∃ after othersAfter, Settled shape after othersAfter ∧ after.tail = scopes.tail ∧
      othersAfter.tail = others.tail ∧
      Matches scopes others after othersAfter (LoweredDecl shape) d.bind d.desugar.bind
  | .statement s, _, scopes, others, settled, _, tidy =>
      ⟨scopes, others, settled, rfl, rfl,
        (s.bind_lowered settled tidy).mapStep fun _ _ lowered => .statement lowered⟩
  | .declare name initializer, _, scopes, others, settled, solid, tidy =>
      ⟨introduced name scopes, introduced name others, settled.introduced solid tidy.1,
        tail_introduced .., tail_introduced ..,
        bindVariable_lowered settled solid tidy.1 initializer
          fun _ _ lowered => .declare name solid lowered⟩
  | .function (.mk name parameters body), _, scopes, others, settled, solid, tidy => by
      have known := settled.introduced solid tidy.1
      obtain ⟨_, _, inside, outside, outsideToo, parametersMatch⟩ :=
        introduceAll_matches known.inBlock trivial tidy.2.1
      obtain ⟨_, _, -, outsideBody, outsideBodyToo, bodyMatches⟩ :=
        bindAll_lowered body inside trivial tidy.2.2
      refine ⟨_, _, known, tail_introduced .., tail_introduced .., ?_⟩
      refine (introduce_matches settled solid name).bind fun _ _ _ => ?_
      have whole := Matches.within .empty (parametersMatch.bind fun _ _ _ => bodyMatches)
        (outsideBody.trans outside) (outsideBodyToo.trans outsideToo)
      exact (whole.inFunction .function).map
        fun _ _ lowered => .function solid (.mk name parameters lowered)
  | .classDecl name none methods, _, scopes, others, settled, solid, tidy => by
      have known := settled.introduced solid tidy.1
      have inside := (bindMethods_lowered methods known.inClass tidy.2).within _ rfl rfl
      have whole := (introduce_matches settled solid name).bind fun _ _ _ =>
        inside.map fun _ _ lowered => LoweredDecl.class_ name solid lowered
      exact ⟨_, _, known, tail_introduced .., tail_introduced .., whole.inClass .class_⟩
  | .classDecl name (some (superclass, _)) methods, _, scopes, others, settled, solid, tidy => by
      have known := settled.introduced solid tidy.1
      rw [Decl.bind_subclass, Decl.desugar, LoxLang.Stmt.bind_subclass]
      refine ⟨_, _, known, tail_introduced .., tail_introduced .., Matches.inClass ?_ .class_⟩
      refine (introduce_matches settled solid name).bind fun _ _ _ => ?_
      refine (checkSuperclass_matches name superclass).bind fun _ _ _ => .inClass ?_ .subclass
      refine (use_matches known.sees superclass).bind fun binding _ same => ?_
      have inside := bindMethods_lowered methods known.inSubclass tidy.2
      exact ((inside.within _ rfl rfl).within _ rfl rfl).map
        fun _ _ lowered => same ▸ .subclass name superclass binding solid lowered

/-- The methods of a class are looked at like what they stand for. -/
theorem bindMethods_lowered : ∀ (methods : List (Function Unit)) {shape : Shape}
    {scopes others : List Scope}, Settled shape scopes others →
    LoxLang.Stmt.TidyMethods (desugarMethods methods) →
    LooksAlike scopes others (LoweredMethods shape) (bindMethods methods)
      (LoxLang.Stmt.bindMethods (desugarMethods methods))
  | [], _, _, _, _, _ => .pure .nil
  | .mk name parameters body :: rest, _, _, _, settled, tidy => by
      obtain ⟨_, _, inside, outside, outsideToo, parametersMatch⟩ :=
        introduceAll_matches settled.inBlock trivial tidy.1.1
      obtain ⟨_, _, -, outsideBody, outsideBodyToo, bodyMatches⟩ :=
        bindAll_lowered body inside trivial tidy.1.2
      have whole := Matches.within .empty (parametersMatch.bind fun _ _ _ => bodyMatches)
        (outsideBody.trans outside) (outsideBodyToo.trans outsideToo)
      refine (whole.inFunction (.ofMethod name)).bind fun _ _ first => ?_
      exact (bindMethods_lowered rest settled tidy.2).map
        fun _ _ second => .cons (.mk name parameters first) second

/-- Declarations are looked at like what they stand for. -/
theorem bindAll_lowered : ∀ (body : List (Decl Unit)) {shape : Shape} {scopes others : List Scope},
    Settled shape scopes others → Shape.Solid shape →
    LoxLang.Stmt.TidyAll (desugarAll body) →
    ∃ after othersAfter, Settled shape after othersAfter ∧ after.tail = scopes.tail ∧
      othersAfter.tail = others.tail ∧
      Matches scopes others after othersAfter (LoweredAll shape) (bindAll body)
        (LoxLang.Stmt.bindAll (desugarAll body))
  | [], _, scopes, others, settled, _, _ => ⟨scopes, others, settled, rfl, rfl, .pure .nil⟩
  | d :: rest, _, _, _, settled, solid, tidy => by
      obtain ⟨_, _, between, outside, outsideToo, matches_⟩ :=
        d.bind_lowered settled solid tidy.1
      obtain ⟨after, othersAfter, settledAfter, outsideRest, outsideRestToo, restMatches⟩ :=
        bindAll_lowered rest between solid tidy.2
      refine ⟨after, othersAfter, settledAfter, outsideRest.trans outside,
        outsideRestToo.trans outsideToo, ?_⟩
      exact matches_.bind fun _ _ first => restMatches.map fun _ _ second => .cons first second
end

end Statements

/-- The same errors are found in a program as in what it stands for. -/
theorem bind_lowered (program : Program Unit) (tidy : LoxLang.Stmt.TidyAll (desugarAll program)) :
    (bind program).errors = (LoxLang.Program.bind (desugarAll program)).errors ∧
      LoweredAll [] (bind program).program (LoxLang.Program.bind (desugarAll program)).program := by
  obtain ⟨_, _, -, -, -, matches_⟩ := bindAll_lowered program .nil trivial tidy
  obtain ⟨bound, other, found, isBound, isOther, lowered⟩ := matches_ .topLevel #[]
  simp only [bind, LoxLang.Program.bind, isBound, isOther]
  exact ⟨trivial, lowered⟩

end LoxLang.Looping
