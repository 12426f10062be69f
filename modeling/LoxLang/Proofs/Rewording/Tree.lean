/-
Module: LoxLang.Proofs.Rewording.Tree
Purpose: Programs with other words in the same places.  A rewording says which word each name
  becomes and where each place of the source moves to; what is known about the binding of names
  stays as it is.
Main exports: Rewording, Token.reword, Expr.reword, Stmt.reword, Stmt.fitsAll_reword,
  Stmt.boundAll_reword
-/
import LoxLang.Program.Tree
import LoxLang.Token.Basic

namespace LoxLang

/-! ### Words and places -/

/-- What becomes of the names and places of a program.  Which word a name becomes may depend on
where it stands. -/
structure Rewording where
  word : Ident → String
  move : Position → Position

/-- Everything stays as it is. -/
def Rewording.keep : Rewording where
  word := Ident.text
  move := id

/-- A name with another word, at another place. -/
def Ident.reword (change : Rewording) (name : Ident) : Ident where
  text := change.word name
  position := change.move name.position

@[simp] theorem Ident.text_reword (change : Rewording) (name : Ident) :
    (name.reword change).text = change.word name :=
  rfl

@[simp] theorem Ident.line_reword (change : Rewording) (name : Ident) :
    (name.reword change).line = (change.move name.position).line :=
  rfl

@[simp] theorem Ident.reword_keep (name : Ident) : name.reword .keep = name :=
  rfl

/-- A token with another word, if it is a name, at another place. -/
def Token.reword (change : Rewording) (token : Token) : Token where
  kind := token.kind
  lexeme :=
    if token.kind = .identifier then change.word ⟨token.lexeme, token.position⟩ else token.lexeme
  literal := token.literal
  position := change.move token.position

@[simp] theorem Token.kind_reword (change : Rewording) (token : Token) :
    (token.reword change).kind = token.kind := by
  rcases token with ⟨kind, lexeme, literal, position⟩
  rfl

@[simp] theorem Token.literal_reword (change : Rewording) (token : Token) :
    (token.reword change).literal = token.literal :=
  rfl

@[simp] theorem Token.position_reword (change : Rewording) (token : Token) :
    (token.reword change).position = change.move token.position :=
  rfl

/-! ### Trees -/

namespace Expr

variable {β : Type}

mutual
/-- An expression with other words. -/
def reword (change : Rewording) : Expr β → Expr β
  | literal value => literal value
  | read name binding => read (name.reword change) binding
  | assign name binding value => assign (name.reword change) binding (value.reword change)
  | unary op position operand => unary op (change.move position) (operand.reword change)
  | binary left op position right =>
      binary (left.reword change) op (change.move position) (right.reword change)
  | logical left op right => logical (left.reword change) op (right.reword change)
  | grouping inner => grouping (inner.reword change)
  | call callee arguments close =>
      call (callee.reword change) (rewordAll change arguments) (change.move close)
  | get object name => get (object.reword change) (name.reword change)
  | set object name value =>
      set (object.reword change) (name.reword change) (value.reword change)
  | receiver keyword binding => receiver (change.move keyword) binding
  | superMethod keyword binding method =>
      superMethod (change.move keyword) binding (method.reword change)

/-- Expressions with other words. -/
def rewordAll (change : Rewording) : List (Expr β) → List (Expr β)
  | [] => []
  | expression :: rest => expression.reword change :: rewordAll change rest
end

theorem rewordAll_eq_map (change : Rewording) (expressions : List (Expr β)) :
    rewordAll change expressions = expressions.map (reword change) := by
  induction expressions with
  | nil => rfl
  | cons expression rest ih => rw [rewordAll, ih, List.map_cons]

end Expr

namespace Stmt

variable {β : Type}

mutual
/-- A statement with other words. -/
def reword (change : Rewording) : Stmt β → Stmt β
  | expression value => expression (value.reword change)
  | print value => print (value.reword change)
  | declare name initializer =>
      declare (name.reword change) (initializer.map (Expr.reword change))
  | block body => block (rewordAll change body)
  | branch condition thenBranch none =>
      branch (condition.reword change) (thenBranch.reword change) none
  | branch condition thenBranch (some elseBranch) =>
      branch (condition.reword change) (thenBranch.reword change) (some (elseBranch.reword change))
  | loop condition body => loop (condition.reword change) (body.reword change)
  | ret keyword value => ret (change.move keyword) (value.map (Expr.reword change))
  | function declaration => function (rewordFunction change declaration)
  | classDecl name superclass methods =>
      classDecl (name.reword change)
        (superclass.map fun parent => (parent.1.reword change, parent.2))
        (rewordMethods change methods)

/-- A function with other words. -/
def rewordFunction (change : Rewording) : Function β → Function β
  | .mk name parameters body =>
      .mk (name.reword change) (parameters.map (Ident.reword change)) (rewordAll change body)

/-- The methods of a class with other words. -/
def rewordMethods (change : Rewording) : List (Function β) → List (Function β)
  | [] => []
  | method :: rest => rewordFunction change method :: rewordMethods change rest

/-- Statements with other words. -/
def rewordAll (change : Rewording) : List (Stmt β) → List (Stmt β)
  | [] => []
  | statement :: rest => statement.reword change :: rewordAll change rest
end

theorem rewordAll_eq_map (change : Rewording) (statements : List (Stmt β)) :
    rewordAll change statements = statements.map (reword change) := by
  induction statements with
  | nil => rfl
  | cons statement rest ih => rw [rewordAll, ih, List.map_cons]

theorem rewordMethods_eq_map (change : Rewording) (methods : List (Function β)) :
    rewordMethods change methods = methods.map (rewordFunction change) := by
  induction methods with
  | nil => rfl
  | cons method rest ih => rw [rewordMethods, ih, List.map_cons]

end Stmt

/-! ### Keeping everything -/

namespace Expr

variable {β : Type}

mutual
theorem reword_keep : ∀ expression : Expr β, expression.reword .keep = expression
  | literal _ | read _ _ | receiver _ _ | superMethod _ _ _ => rfl
  | assign name binding value => by rw [reword, reword_keep value]; rfl
  | unary op position operand => by rw [reword, reword_keep operand]; rfl
  | binary left op position right => by rw [reword, reword_keep left, reword_keep right]; rfl
  | logical left op right => by rw [reword, reword_keep left, reword_keep right]
  | grouping inner => by rw [reword, reword_keep inner]
  | call callee arguments close => by rw [reword, reword_keep callee, rewordAll_keep arguments]; rfl
  | get object name => by rw [reword, reword_keep object]; rfl
  | set object name value => by rw [reword, reword_keep object, reword_keep value]; rfl

theorem rewordAll_keep : ∀ expressions : List (Expr β), rewordAll .keep expressions = expressions
  | [] => rfl
  | expression :: rest => by rw [rewordAll, reword_keep expression, rewordAll_keep rest]
end

theorem map_reword_keep (expression : Option (Expr β)) :
    expression.map (reword .keep) = expression := by
  cases expression with
  | none => rfl
  | some expression => rw [Option.map_some, reword_keep]

end Expr

namespace Stmt

variable {β : Type}

mutual
theorem reword_keep : ∀ statement : Stmt β, statement.reword .keep = statement
  | expression value => by rw [reword, Expr.reword_keep]
  | print value => by rw [reword, Expr.reword_keep]
  | declare name initializer => by rw [reword, Expr.map_reword_keep]; rfl
  | block body => by rw [reword, rewordAll_keep body]
  | branch condition thenBranch none => by
      rw [reword, Expr.reword_keep, reword_keep thenBranch]
  | branch condition thenBranch (some elseBranch) => by
      rw [reword, Expr.reword_keep, reword_keep thenBranch, reword_keep elseBranch]
  | loop condition body => by rw [reword, Expr.reword_keep, reword_keep body]
  | ret keyword value => by rw [reword, Expr.map_reword_keep]; rfl
  | function declaration => by rw [reword, rewordFunction_keep declaration]
  | classDecl name superclass methods => by
      rw [reword, rewordMethods_keep methods]
      cases superclass <;> rfl

theorem rewordFunction_keep : ∀ declaration : Function β,
    rewordFunction .keep declaration = declaration
  | .mk name parameters body => by
      rw [rewordFunction, rewordAll_keep body]
      exact congrArg (Function.mk name · body) (List.map_id _)

theorem rewordMethods_keep : ∀ methods : List (Function β), rewordMethods .keep methods = methods
  | [] => rfl
  | method :: rest => by rw [rewordMethods, rewordFunction_keep method, rewordMethods_keep rest]

theorem rewordAll_keep : ∀ statements : List (Stmt β), rewordAll .keep statements = statements
  | [] => rfl
  | statement :: rest => by rw [rewordAll, reword_keep statement, rewordAll_keep rest]
end

end Stmt

/-! ### Nesting -/

namespace Expr

variable {β : Type} (change : Rewording)

mutual
/-- Other words do not change how deeply an expression is nested. -/
theorem fits_reword : ∀ (room : Nat) (expression : Expr β),
    (expression.reword change).fits room = expression.fits room
  | 0, _ => by simp only [fits]
  | _ + 1, literal _ | _ + 1, read _ _ | _ + 1, receiver _ _ | _ + 1, superMethod _ _ _ => rfl
  | room + 1, assign name binding value => by simp only [reword, fits, fits_reword room value]
  | room + 1, unary op position operand => by simp only [reword, fits, fits_reword room operand]
  | room + 1, binary left op position right => by
      simp only [reword, fits, fits_reword room left, fits_reword room right]
  | room + 1, logical left op right => by
      simp only [reword, fits, fits_reword room left, fits_reword room right]
  | room + 1, grouping inner => by simp only [reword, fits, fits_reword room inner]
  | room + 1, call callee arguments close => by
      simp only [reword, fits, fits_reword room callee, fitsAll_reword room arguments]
  | room + 1, get object name => by simp only [reword, fits, fits_reword room object]
  | room + 1, set object name value => by
      simp only [reword, fits, fits_reword room object, fits_reword room value]

theorem fitsAll_reword : ∀ (room : Nat) (expressions : List (Expr β)),
    fitsAll room (rewordAll change expressions) = fitsAll room expressions
  | _, [] => rfl
  | room, expression :: rest => by
      simp only [rewordAll, fitsAll, fits_reword room expression, fitsAll_reword room rest]
end

theorem fitsOpt_reword (room : Nat) (expression : Option (Expr β)) :
    fitsOpt room (expression.map (reword change)) = fitsOpt room expression := by
  cases expression with
  | none => rfl
  | some expression => exact fits_reword change room expression

end Expr

namespace Stmt

variable {β : Type} (change : Rewording)

mutual
/-- Other words do not change how deeply a statement is nested. -/
theorem fits_reword : ∀ (room : Nat) (statement : Stmt β),
    (statement.reword change).fits room = statement.fits room
  | 0, _ => by simp only [fits]
  | room + 1, expression value => by simp only [reword, fits, Expr.fits_reword]
  | room + 1, print value => by simp only [reword, fits, Expr.fits_reword]
  | room + 1, declare name initializer => by simp only [reword, fits, Expr.fitsOpt_reword]
  | room + 1, block body => by simp only [reword, fits, fitsAll_reword room body]
  | room + 1, branch condition thenBranch none => by
      simp only [reword, fits, Expr.fits_reword, fits_reword room thenBranch]
  | room + 1, branch condition thenBranch (some elseBranch) => by
      simp only [reword, fits, Expr.fits_reword, fits_reword room thenBranch,
        fits_reword room elseBranch]
  | room + 1, loop condition body => by
      simp only [reword, fits, Expr.fits_reword, fits_reword room body]
  | room + 1, ret keyword value => by simp only [reword, fits, Expr.fitsOpt_reword]
  | room + 1, function declaration => by
      simp only [reword, fits, fitsFunction_reword room declaration]
  | room + 1, classDecl name superclass methods => by
      simp only [reword, fits, fitsMethods_reword room methods]

theorem fitsFunction_reword : ∀ (room : Nat) (declaration : Function β),
    fitsFunction room (rewordFunction change declaration) = fitsFunction room declaration
  | room, .mk name parameters body => by
      simp only [rewordFunction, fitsFunction, fitsAll_reword room body]

theorem fitsMethods_reword : ∀ (room : Nat) (methods : List (Function β)),
    fitsMethods room (rewordMethods change methods) = fitsMethods room methods
  | _, [] => rfl
  | room, method :: rest => by
      simp only [rewordMethods, fitsMethods, fitsFunction_reword room method,
        fitsMethods_reword room rest]

theorem fitsAll_reword : ∀ (room : Nat) (statements : List (Stmt β)),
    fitsAll room (rewordAll change statements) = fitsAll room statements
  | _, [] => rfl
  | room, statement :: rest => by
      simp only [rewordAll, fitsAll, fits_reword room statement, fitsAll_reword room rest]
end

end Stmt

/-! ### References -/

/-- What a reference is and how it is bound, apart from its name. -/
def Reference.bound {β : Type} (reference : Reference β) : ReferenceKind × β :=
  (reference.kind, reference.binding)

namespace Expr

variable {β : Type} (change : Rewording)

mutual
/-- Other words leave every reference bound as it is. -/
theorem bound_reword : ∀ expression : Expr β,
    (expression.reword change).references.map Reference.bound =
      expression.references.map Reference.bound
  | literal _ | read _ _ | receiver _ _ | superMethod _ _ _ => rfl
  | assign name binding value => by
      simp only [reword, references, List.map_cons, bound_reword value]
      rfl
  | unary op position operand => by simp only [reword, references, bound_reword operand]
  | binary left op position right => by
      simp only [reword, references, List.map_append, bound_reword left, bound_reword right]
  | logical left op right => by
      simp only [reword, references, List.map_append, bound_reword left, bound_reword right]
  | grouping inner => by simp only [reword, references, bound_reword inner]
  | call callee arguments close => by
      simp only [reword, references, List.map_append, bound_reword callee,
        boundAll_reword arguments]
  | get object name => by simp only [reword, references, bound_reword object]
  | set object name value => by
      simp only [reword, references, List.map_append, bound_reword object, bound_reword value]

theorem boundAll_reword : ∀ expressions : List (Expr β),
    (referencesAll (rewordAll change expressions)).map Reference.bound =
      (referencesAll expressions).map Reference.bound
  | [] => rfl
  | expression :: rest => by
      simp only [rewordAll, referencesAll, List.map_append, bound_reword expression,
        boundAll_reword rest]
end

theorem boundOpt_reword (expression : Option (Expr β)) :
    (referencesOpt (expression.map (reword change))).map Reference.bound =
      (referencesOpt expression).map Reference.bound := by
  cases expression with
  | none => rfl
  | some expression => exact bound_reword change expression

end Expr

namespace Stmt

variable {β : Type} (change : Rewording)

mutual
theorem bound_reword : ∀ statement : Stmt β,
    (statement.reword change).references.map Reference.bound =
      statement.references.map Reference.bound
  | expression value => by simp only [reword, references, Expr.bound_reword]
  | print value => by simp only [reword, references, Expr.bound_reword]
  | declare name initializer => by simp only [reword, references, Expr.boundOpt_reword]
  | block body => by simp only [reword, references, boundAll_reword body]
  | branch condition thenBranch none => by
      simp only [reword, references, List.map_append, Expr.bound_reword, bound_reword thenBranch]
  | branch condition thenBranch (some elseBranch) => by
      simp only [reword, references, List.map_append, Expr.bound_reword, bound_reword thenBranch,
        bound_reword elseBranch]
  | loop condition body => by
      simp only [reword, references, List.map_append, Expr.bound_reword, bound_reword body]
  | ret keyword value => by simp only [reword, references, Expr.boundOpt_reword]
  | function declaration => by simp only [reword, references, boundFunction_reword declaration]
  | classDecl name none methods => by
      simp only [reword, Option.map_none, references, boundMethods_reword methods]
  | classDecl name (some (superclass, binding)) methods => by
      simp only [reword, Option.map_some, references, List.map_cons, boundMethods_reword methods]
      rfl

theorem boundFunction_reword : ∀ declaration : Function β,
    (referencesFunction (rewordFunction change declaration)).map Reference.bound =
      (referencesFunction declaration).map Reference.bound
  | .mk name parameters body => by
      simp only [rewordFunction, referencesFunction, boundAll_reword body]

theorem boundMethods_reword : ∀ methods : List (Function β),
    (referencesMethods (rewordMethods change methods)).map Reference.bound =
      (referencesMethods methods).map Reference.bound
  | [] => rfl
  | method :: rest => by
      simp only [rewordMethods, referencesMethods, List.map_append, boundFunction_reword method,
        boundMethods_reword rest]

theorem boundAll_reword : ∀ statements : List (Stmt β),
    (referencesAll (rewordAll change statements)).map Reference.bound =
      (referencesAll statements).map Reference.bound
  | [] => rfl
  | statement :: rest => by
      simp only [rewordAll, referencesAll, List.map_append, bound_reword statement,
        boundAll_reword rest]
end

end Stmt

end LoxLang
