/-
Module: LoxLang.Proofs.Looping.Parsing
Purpose: Reading programs in which `for` is a statement of its own, and what comes of it: what is
  read otherwise is the same program with every `for` loop replaced by what it stands for, and the
  same errors are found.
Main exports: Looping.statement, Looping.declaration, Looping.Parse, Looping.parseWithin,
  Looping.parseWithin_desugar
-/
import LoxLang.Proofs.Looping.Tree
import LoxLang.Proofs.Parser.Program

namespace LoxLang.Looping

open LoxLang.Parser (accept expectMark expressionBefore lift name recovering repeating repeatUpTo
  stepUntil superclass? elements tooDeep)
open LoxLang.Parsing (endsBlock)

/-- Collects what a parser yields, up to a token that `ends` it. -/
def collect {ε α : Type} (ends : Kind → Bool) (item : EStateM ε Stream (Option α)) :
    EStateM ε Stream (List α) := do
  let all ← repeating (stepUntil ends item) #[]
  return all.toList

/-! ### Statements -/

section Statements

variable (expression : Parser (Expr Unit)) (statement : Parser (Stmt Unit))
  (declaration : Recovered (Option (Decl Unit)))

/-- Reads an expression used as a statement. -/
def expressionStatement : Parser (Expr Unit) := do
  let value ← expression
  let _ ← expectMark .semicolon ";" "after expression"
  return value

/-- Reads the rest of a `print` statement. -/
def printStatement : Parser (Stmt Unit) := do
  let value ← expression
  let _ ← expectMark .semicolon ";" "after value"
  return .print value

/-- Reads the rest of a `return` statement. -/
def returnStatement (keyword : Position) : Parser (Stmt Unit) := do
  let value ← expressionBefore .semicolon expression
  let _ ← expectMark .semicolon ";" "after return value"
  return .ret keyword value

/-- Reads the name and the initializer of a variable. -/
def variableDeclaration : Parser (Ident × Option (Expr Unit)) := do
  let name ← name (.name "variable")
  if ← accept .equal then
    let initializer ← expression
    let _ ← expectMark .semicolon ";" "after variable declaration"
    return (name, some initializer)
  else
    let _ ← expectMark .semicolon ";" "after variable declaration"
    return (name, none)

/-- Reads the rest of a block, after the opening brace. -/
def block : Parser (List (Decl Unit)) := do
  let body ← collect endsBlock (lift declaration)
  let _ ← expectMark .rightBrace "\x7d" "after block"
  return body

/-- Reads the rest of an `if` statement.  An `else` belongs to the nearest `if`. -/
def ifStatement : Parser (Stmt Unit) := do
  let _ ← expectMark .leftParen "(" "after 'if'"
  let condition ← expression
  let _ ← expectMark .rightParen ")" "after if condition"
  let thenBranch ← statement
  if ← accept (.keyword .else_) then
    let elseBranch ← statement
    return .branch condition thenBranch (some elseBranch)
  else
    return .branch condition thenBranch none

/-- Reads the rest of a `while` loop. -/
def whileLoop : Parser (Stmt Unit) := do
  let _ ← expectMark .leftParen "(" "after 'while'"
  let condition ← expression
  let _ ← expectMark .rightParen ")" "after condition"
  let body ← statement
  return .loop condition body

/-- Reads the first clause of a `for` loop with its semicolon. -/
def firstClause : Parser (Option (Clause Unit)) := do
  if ← accept .semicolon then
    return none
  else if ← accept (.keyword .var_) then
    let (name, initializer) ← variableDeclaration expression
    return some (.declare name initializer)
  else
    let value ← expressionStatement expression
    return some (.expression value)

/-- Reads the rest of a `for` loop. -/
def forLoop : Parser (Stmt Unit) := do
  let _ ← expectMark .leftParen "(" "after 'for'"
  let first ← firstClause expression
  let condition ← expressionBefore .semicolon expression
  let _ ← expectMark .semicolon ";" "after loop condition"
  let increment ← expressionBefore .rightParen expression
  let _ ← expectMark .rightParen ")" "after for clauses"
  let body ← statement
  return .forLoop first condition increment body

/-- Reads a statement, given parsers for the parts nested in it. -/
def statementOf : Parser (Stmt Unit) := fun stream =>
  match stream.current.kind with
  | .keyword .for_ => forLoop expression statement stream.advance
  | .keyword .if_ => ifStatement expression statement stream.advance
  | .keyword .print_ => printStatement expression stream.advance
  | .keyword .return_ => returnStatement expression stream.current.position stream.advance
  | .keyword .while_ => whileLoop expression statement stream.advance
  | .leftBrace => (Stmt.block <$> block declaration) stream.advance
  | _ => (Stmt.expression <$> expressionStatement expression) stream

end Statements

/-! ### Declarations -/

section Declarations

variable (limit : ArgumentLimit) (declaration : Recovered (Option (Decl Unit)))

/-- Reads a function or method from its name on. -/
def function (role : FunctionRole) : Parser (Function Unit) := do
  let functionName ← name (.name role.text)
  let _ ← expectMark .leftParen "(" s!"after {role.text} name"
  let parameters ← elements limit .parameters (name (.name "parameter"))
  let _ ← expectMark .rightParen ")" "after parameters"
  let _ ← expectMark .leftBrace "\x7b" s!"before {role.text} body"
  let body ← block declaration
  return .mk functionName parameters body

/-- Reads the methods of a class up to the closing brace. -/
def methods : Parser (List (Function Unit)) :=
  collect endsBlock (some <$> function limit declaration .method)

/-- Reads the rest of a class declaration. -/
def classDeclaration : Parser (Decl Unit) := do
  let className ← name (.name "class")
  let superclass ← superclass?
  let _ ← expectMark .leftBrace "\x7b" "before class body"
  let methods ← methods limit declaration
  let _ ← expectMark .rightBrace "\x7d" "after class body"
  return .classDecl className superclass methods

/-- Reads a declaration or statement, given parsers for the parts nested in it. -/
def declarationOf (expression : Parser (Expr Unit)) (statement : Parser (Stmt Unit)) :
    Parser (Decl Unit) := fun stream =>
  match stream.current.kind with
  | .keyword .class_ => classDeclaration limit declaration stream.advance
  | .keyword .fun_ => (Decl.function <$> function limit declaration .function) stream.advance
  | .keyword .var_ =>
      ((fun (name, initializer) => Decl.declare name initializer) <$>
        variableDeclaration expression) stream.advance
  | _ => (Decl.statement <$> statement) stream

end Declarations

mutual
/-- Reads a statement that nests at most `room` levels deep. -/
def statement (limit : ArgumentLimit) : Nat → Parser (Stmt Unit)
  | 0, stream => tooDeep stream
  | room + 1, stream =>
      statementOf (Parser.expression limit room) (statement limit room) (declaration limit room)
        stream

/-- Reads a declaration or statement that nests at most `room` levels deep.  A syntax error in it
that no nested declaration has caught is reported, and the declaration is dropped. -/
def declaration (limit : ArgumentLimit) : Nat → Recovered (Option (Decl Unit))
  | 0, stream => .error .tooDeep stream
  | room + 1, stream =>
      recovering
        (declarationOf limit (declaration limit room) (Parser.expression limit room)
          (statement limit room))
        stream
end

/-- What reading a token list gives. -/
structure Parse where
  program : Except Abort (Program Unit)
  errors : Array SyntaxError

/-- Reads a program that nests at most `room` levels deep. -/
def parseWithin (room : Nat) (limit : ArgumentLimit) (tokens : List Token) : Parse :=
  match collect endsSource (declaration limit room) (.ofTokens tokens) with
  | .ok program stream => { program := .ok program, errors := stream.errors }
  | .error reason stream => { program := .error reason, errors := stream.errors }

/-! ### Repetition -/

section Repetition

variable {ε α β : Type} (image : α → β)

/-- A result with an image of its value. -/
def imageOf : EStateM.Result ε Stream α → EStateM.Result ε Stream β
  | .ok value rest => .ok (image value) rest
  | .error reason rest => .error reason rest

theorem map_apply (parser : EStateM ε Stream α) (stream : Stream) :
    (image <$> parser) stream = imageOf image (parser stream) := by
  simp only [Functor.map, EStateM.map]
  cases parser stream <;> rfl

variable {image} in
theorem apply_of_eq_map {parser : EStateM ε Stream β} {other : EStateM ε Stream α}
    (same : parser = image <$> other) (stream : Stream) :
    parser stream = imageOf image (other stream) := by
  rw [same, map_apply]

theorem stepUntil_map (ends : Kind → Bool) (item : EStateM ε Stream (Option α)) (seen : Array α) :
    stepUntil ends (Option.map image <$> item) (seen.map image) =
      Prod.map id (Array.map image) <$> stepUntil ends item seen := by
  funext stream
  simp only [stepUntil, Functor.map, EStateM.map]
  split
  · rfl
  · cases item stream with
    | error reason rest => rfl
    | ok found rest =>
        cases found with
        | none => rfl
        | some value => exact congrArg (EStateM.Result.ok · _) (Prod.ext rfl Array.map_push.symm)

/-- What is collected item by item can be replaced item by item. -/
theorem repeatUpTo_map (ends : Kind → Bool) (item : EStateM ε Stream (Option α)) (bound : Nat)
    (seen : Array α) :
    repeatUpTo (stepUntil ends (Option.map image <$> item)) bound (seen.map image) =
      Array.map image <$> repeatUpTo (stepUntil ends item) bound seen := by
  induction bound generalizing seen with
  | zero => rfl
  | succ bound ih =>
      funext stream
      rw [repeatUpTo, stepUntil_map]
      simp only [Functor.map, EStateM.map, repeatUpTo]
      cases stepUntil ends item seen stream with
      | error reason rest => rfl
      | ok result rest =>
          obtain ⟨again, following⟩ := result
          cases again with
          | false => rfl
          | true => exact congrFun (ih following) rest

theorem collect_map (ends : Kind → Bool) (item : EStateM ε Stream (Option α)) :
    collect ends (Option.map image <$> item) = List.map image <$> collect ends item := by
  have repeated : repeating (stepUntil ends (Option.map image <$> item)) #[] =
      Array.map image <$> repeating (stepUntil ends item) #[] :=
    funext fun stream => by
      have same := congrFun (repeatUpTo_map image ends item stream.size #[]) stream
      rwa [Array.map_empty] at same
  simp only [collect, repeated, bind_map_left, map_bind, map_pure, Array.toList_map]

theorem lift_map (parser : Recovered α) : lift (image <$> parser) = image <$> lift parser := by
  funext stream
  simp only [lift, Functor.map, EStateM.map]
  cases parser stream <;> rfl

theorem recovering_map (parser : Parser α) :
    recovering (image <$> parser) = Option.map image <$> recovering parser := by
  funext stream
  simp only [recovering, Functor.map, EStateM.map]
  cases parser stream with
  | ok value rest => rfl
  | error interrupt rest => cases interrupt <;> rfl

end Repetition

/-! ### Reading and desugaring -/

section Desugaring

variable (expression : Parser (Expr Unit)) (statement : Parser (Stmt Unit))
  (declaration : Recovered (Option (Decl Unit)))

theorem expressionStatement_desugar :
    Parser.expressionStatement expression =
      LoxLang.Stmt.expression <$> expressionStatement expression := by
  simp only [Parser.expressionStatement, expressionStatement, map_bind, map_pure]

theorem printStatement_desugar :
    Parser.printStatement expression = Stmt.desugar <$> printStatement expression := by
  simp only [Parser.printStatement, printStatement, map_bind, map_pure, Stmt.desugar]

theorem returnStatement_desugar (keyword : Position) :
    Parser.returnStatement keyword expression =
      Stmt.desugar <$> returnStatement expression keyword := by
  simp only [Parser.returnStatement, returnStatement, map_bind, map_pure, Stmt.desugar]

theorem variableDeclaration_desugar :
    Parser.variableDeclaration expression =
      (fun declared => LoxLang.Stmt.declare declared.1 declared.2) <$>
        variableDeclaration expression := by
  simp only [Parser.variableDeclaration, variableDeclaration, map_bind]
  congr 1
  funext name
  congr 1
  funext given
  cases given <;> simp only [Bool.false_eq_true, ↓reduceIte, map_bind, map_pure]

theorem block_desugar :
    Parser.block (Option.map Decl.desugar <$> declaration) = desugarAll <$> block declaration := by
  have body : Parser.declarations (Option.map Decl.desugar <$> declaration) =
      List.map Decl.desugar <$> collect endsBlock (lift declaration) := by
    rw [Parser.declarations_eq, ← collect_map, ← lift_map]
    rfl
  simp only [Parser.block, block, body, bind_map_left, map_bind, map_pure, desugarAll_eq]

theorem ifStatement_desugar :
    Parser.ifStatement expression (Stmt.desugar <$> statement) =
      Stmt.desugar <$> ifStatement expression statement := by
  simp only [Parser.ifStatement, ifStatement, bind_map_left, map_bind]
  refine bind_congr fun _ => bind_congr fun condition => bind_congr fun _ =>
    bind_congr fun thenBranch => bind_congr fun found => ?_
  cases found <;>
    simp only [Bool.false_eq_true, ↓reduceIte, map_bind, map_pure, Stmt.desugar]

theorem whileLoop_desugar :
    Parser.whileLoop expression (Stmt.desugar <$> statement) =
      Stmt.desugar <$> whileLoop expression statement := by
  simp only [Parser.whileLoop, whileLoop, bind_map_left, map_bind, map_pure, Stmt.desugar]

theorem firstClause_desugar :
    Parser.forInitializer expression = Option.map Clause.desugar <$> firstClause expression := by
  simp only [Parser.forInitializer, firstClause, expressionStatement_desugar,
    variableDeclaration_desugar, bind_map_left, map_bind]
  congr 1
  funext missing
  cases missing with
  | true => rfl
  | false =>
      simp only [Bool.false_eq_true, ↓reduceIte, map_bind]
      congr 1
      funext declares
      cases declares <;>
        simp only [Bool.false_eq_true, ↓reduceIte, map_bind, map_pure, Option.map_some,
          Clause.desugar]

theorem forLoop_desugar :
    Parser.forLoop expression (Stmt.desugar <$> statement) =
      Stmt.desugar <$> forLoop expression statement := by
  simp only [Parser.forLoop, forLoop, firstClause_desugar, bind_map_left, map_bind, map_pure,
    Stmt.desugar]

theorem statementOf_desugar :
    Parser.statementOf expression (Stmt.desugar <$> statement)
        (Option.map Decl.desugar <$> declaration) =
      Stmt.desugar <$> statementOf expression statement declaration := by
  have simple (stream : Stream) : Parser.expressionStatement expression stream =
      imageOf Stmt.desugar ((Stmt.expression <$> expressionStatement expression) stream) := by
    rw [expressionStatement_desugar, map_apply, map_apply]
    cases expressionStatement expression stream <;> rfl
  funext stream
  rw [map_apply]
  simp only [Parser.statementOf, statementOf]
  generalize stream.current.kind = kind
  cases kind with
  | keyword word =>
      cases word with
      | for_ => exact apply_of_eq_map (forLoop_desugar expression statement) stream.advance
      | if_ => exact apply_of_eq_map (ifStatement_desugar expression statement) stream.advance
      | print_ => exact apply_of_eq_map (printStatement_desugar expression) stream.advance
      | return_ =>
          exact apply_of_eq_map (returnStatement_desugar expression stream.current.position)
            stream.advance
      | while_ => exact apply_of_eq_map (whileLoop_desugar expression statement) stream.advance
      | _ => exact simple stream
  | leftBrace =>
      rw [block_desugar]
      simp only [map_apply]
      cases block declaration stream.advance <;> rfl
  | _ => exact simple stream

variable (limit : ArgumentLimit)

theorem function_desugar (role : FunctionRole) :
    Parser.function limit role (Option.map Decl.desugar <$> declaration) =
      Function.desugar <$> function limit declaration role := by
  simp only [Parser.function, function, block_desugar, bind_map_left, map_bind, map_pure,
    Function.desugar]

theorem methods_desugar :
    Parser.methods limit (Option.map Decl.desugar <$> declaration) =
      desugarMethods <$> methods limit declaration := by
  have item : (Parser.function limit .method (Option.map Decl.desugar <$> declaration) >>=
      fun method => pure (some method)) =
      Option.map Function.desugar <$> (some <$> function limit declaration .method) := by
    rw [function_desugar]
    simp only [bind_pure_comp, Functor.map_map, Option.map_some]
  have collected :=
    collect_map Function.desugar endsBlock (some <$> function limit declaration .method)
  rw [← item] at collected
  rw [Parser.methods_eq, methods, funext desugarMethods_eq]
  exact collected

theorem classDeclaration_desugar :
    Parser.classDeclaration limit (Option.map Decl.desugar <$> declaration) =
      Decl.desugar <$> classDeclaration limit declaration := by
  simp only [Parser.classDeclaration, classDeclaration, methods_desugar, bind_map_left, map_bind,
    map_pure, Decl.desugar]

theorem declarationOf_desugar :
    Parser.declarationOf limit expression (Stmt.desugar <$> statement)
        (Option.map Decl.desugar <$> declaration) =
      Decl.desugar <$> declarationOf limit declaration expression statement := by
  have ordinary (stream : Stream) : (Stmt.desugar <$> statement) stream =
      imageOf Decl.desugar ((Decl.statement <$> statement) stream) := by
    rw [map_apply, map_apply]
    cases statement stream <;> rfl
  funext stream
  rw [map_apply]
  simp only [Parser.declarationOf, declarationOf]
  generalize stream.current.kind = kind
  cases kind with
  | keyword word =>
      cases word with
      | class_ => exact apply_of_eq_map (classDeclaration_desugar declaration limit) stream.advance
      | fun_ =>
          simp only [Parser.functionDeclaration, function_desugar, bind_pure_comp, map_apply]
          cases function limit declaration .function stream.advance <;> rfl
      | var_ =>
          simp only [variableDeclaration_desugar, map_apply]
          cases variableDeclaration expression stream.advance <;> rfl
      | _ => exact ordinary stream
  | _ => exact ordinary stream

theorem statement_and_declaration_desugar (room : Nat) :
    Parser.statement limit room = Stmt.desugar <$> Looping.statement limit room ∧
      Parser.declaration limit room =
        Option.map Decl.desugar <$> Looping.declaration limit room := by
  induction room with
  | zero =>
      constructor
      · funext stream
        rw [Parser.statement]
        simp only [Functor.map, EStateM.map, Looping.statement]
        rfl
      · funext stream
        rw [Parser.declaration]
        simp only [Functor.map, EStateM.map, Looping.declaration]
  | succ room ih =>
      obtain ⟨inner, nested⟩ := ih
      constructor
      · have real : Parser.statement limit (room + 1) = Parser.statementOf
            (Parser.expression limit room) (Parser.statement limit room)
            (Parser.declaration limit room) := by
          funext stream
          rw [Parser.statement]
        have kept : Looping.statement limit (room + 1) = statementOf (Parser.expression limit room)
            (Looping.statement limit room) (Looping.declaration limit room) := by
          funext stream
          rw [Looping.statement]
        rw [real, kept, inner, nested, statementOf_desugar]
      · have real : Parser.declaration limit (room + 1) = recovering
            (Parser.declarationOf limit (Parser.expression limit room)
              (Parser.statement limit room) (Parser.declaration limit room)) := by
          funext stream
          rw [Parser.declaration]
        have kept : Looping.declaration limit (room + 1) = recovering
            (declarationOf limit (Looping.declaration limit room) (Parser.expression limit room)
              (Looping.statement limit room)) := by
          funext stream
          rw [Looping.declaration]
        rw [real, kept, inner, nested, declarationOf_desugar, recovering_map]

end Desugaring

/-- What is read is what is read when `for` is kept, with every `for` loop replaced by what it
stands for. -/
theorem parseWithin_desugar (room : Nat) (limit : ArgumentLimit) (tokens : List Token) :
    Program.parseWithin room limit tokens =
      { program := desugarAll <$> (parseWithin room limit tokens).program
        errors := (parseWithin room limit tokens).errors } := by
  have read : Parser.program (Parser.declaration limit room) =
      List.map Decl.desugar <$> collect endsSource (declaration limit room) := by
    rw [Parser.program_eq, (statement_and_declaration_desugar limit room).2, ← collect_map]
    rfl
  rw [Program.parseWithin, read, parseWithin, ← funext desugarAll_eq]
  simp only [Functor.map, EStateM.map]
  cases collect endsSource (declaration limit room) (.ofTokens tokens) <;> rfl

end LoxLang.Looping
