/-
Module: LoxLang.Program.Parser.Statement
Purpose: Reading statements, declarations and whole programs.  A `for` loop is read as the
  `while` loop it stands for.  Syntax errors are caught at the nearest enclosing declaration.
Main exports: Stmt.forLoop, Parser.statement, Parser.declaration, Parse, Program.parse,
  Program.parseWithin
-/
import LoxLang.Program.Parser.Expression

namespace LoxLang

/-- The `while` loop that a `for` loop stands for.  The increment follows the body in a block of
its own, the initializer precedes the loop in another, and a missing condition is true. -/
def Stmt.forLoop (initializer : Option (Stmt Unit)) (condition increment : Option (Expr Unit))
    (body : Stmt Unit) : Stmt Unit :=
  let repeated :=
    match increment with
    | none => body
    | some step => .block [body, .expression step]
  let loop := .loop (condition.getD (.literal (.bool true))) repeated
  match initializer with
  | none => loop
  | some first => .block [first, loop]

namespace Parser

/-! ### Simple statements -/

/-- Reads an expression, unless the token that ends it comes right away. -/
def expressionBefore (kind : Kind) (expression : Parser (Expr Unit)) :
    Parser (Option (Expr Unit)) := do
  if ← check kind then
    return none
  else
    let value ← expression
    return some value

/-- Reads an expression used as a statement. -/
def expressionStatement (expression : Parser (Expr Unit)) : Parser (Stmt Unit) := do
  let value ← expression
  let _ ← expectMark .semicolon ";" "after expression"
  return .expression value

/-- Reads the rest of a `print` statement. -/
def printStatement (expression : Parser (Expr Unit)) : Parser (Stmt Unit) := do
  let value ← expression
  let _ ← expectMark .semicolon ";" "after value"
  return .print value

/-- Reads the rest of a `return` statement. -/
def returnStatement (keyword : Position) (expression : Parser (Expr Unit)) :
    Parser (Stmt Unit) := do
  let value ← expressionBefore .semicolon expression
  let _ ← expectMark .semicolon ";" "after return value"
  return .ret keyword value

/-- Reads the rest of a `var` declaration. -/
def variableDeclaration (expression : Parser (Expr Unit)) : Parser (Stmt Unit) := do
  let name ← name (.name "variable")
  if ← accept .equal then
    let initializer ← expression
    let _ ← expectMark .semicolon ";" "after variable declaration"
    return .declare name (some initializer)
  else
    let _ ← expectMark .semicolon ";" "after variable declaration"
    return .declare name none

/-! ### Compound statements -/

/-- Reads declarations up to a closing brace, which is left in place, or to the end. -/
def declarations (declaration : Recovered (Option (Stmt Unit))) : Parser (List (Stmt Unit)) := do
  let all ← repeating
    (fun (seen : Array (Stmt Unit)) stream =>
      if stream.atEnd || stream.current.kind = .rightBrace then
        .ok (false, seen) stream
      else
        match lift declaration stream with
        | .ok none rest => .ok (true, seen) rest
        | .ok (some statement) rest => .ok (true, seen.push statement) rest
        | .error interrupt rest => .error interrupt rest)
    #[]
  return all.toList

/-- Reads the rest of a block, after the opening brace. -/
def block (declaration : Recovered (Option (Stmt Unit))) : Parser (List (Stmt Unit)) := do
  let body ← declarations declaration
  let _ ← expectMark .rightBrace "\x7d" "after block"
  return body

/-- Reads the rest of an `if` statement.  An `else` belongs to the nearest `if`. -/
def ifStatement (expression : Parser (Expr Unit)) (statement : Parser (Stmt Unit)) :
    Parser (Stmt Unit) := do
  let _ ← expectMark .leftParen "(" "after 'if'"
  let condition ← expression
  let _ ← expectMark .rightParen ")" "after if condition"
  let thenBranch ← statement
  if ← accept (.keyword .else_) then
    let elseBranch ← statement
    return .branch condition thenBranch (some elseBranch)
  else
    return .branch condition thenBranch none

/-- Reads the rest of a `while` loop. -/
def whileLoop (expression : Parser (Expr Unit)) (statement : Parser (Stmt Unit)) :
    Parser (Stmt Unit) := do
  let _ ← expectMark .leftParen "(" "after 'while'"
  let condition ← expression
  let _ ← expectMark .rightParen ")" "after condition"
  let body ← statement
  return .loop condition body

/-- Reads the first clause of a `for` loop with its semicolon. -/
def forInitializer (expression : Parser (Expr Unit)) : Parser (Option (Stmt Unit)) := do
  if ← accept .semicolon then
    return none
  else if ← accept (.keyword .var_) then
    let declaration ← variableDeclaration expression
    return some declaration
  else
    let statement ← expressionStatement expression
    return some statement

/-- Reads the rest of a `for` loop. -/
def forLoop (expression : Parser (Expr Unit)) (statement : Parser (Stmt Unit)) :
    Parser (Stmt Unit) := do
  let _ ← expectMark .leftParen "(" "after 'for'"
  let initializer ← forInitializer expression
  let condition ← expressionBefore .semicolon expression
  let _ ← expectMark .semicolon ";" "after loop condition"
  let increment ← expressionBefore .rightParen expression
  let _ ← expectMark .rightParen ")" "after for clauses"
  let body ← statement
  return Stmt.forLoop initializer condition increment body

/-- Reads a statement, given parsers for the parts nested in it. -/
def statementOf (expression : Parser (Expr Unit)) (statement : Parser (Stmt Unit))
    (declaration : Recovered (Option (Stmt Unit))) : Parser (Stmt Unit) := fun stream =>
  match stream.current.kind with
  | .keyword .for_ => forLoop expression statement stream.advance
  | .keyword .if_ => ifStatement expression statement stream.advance
  | .keyword .print_ => printStatement expression stream.advance
  | .keyword .return_ => returnStatement stream.current.position expression stream.advance
  | .keyword .while_ => whileLoop expression statement stream.advance
  | .leftBrace =>
      match block declaration stream.advance with
      | .ok body rest => .ok (.block body) rest
      | .error interrupt rest => .error interrupt rest
  | _ => expressionStatement expression stream

/-! ### Declarations -/

/-- Reads a function or method from its name on. -/
def function (limit : ArgumentLimit) (role : FunctionRole)
    (declaration : Recovered (Option (Stmt Unit))) : Parser (Function Unit) := do
  let functionName ← name (.name role.text)
  let _ ← expectMark .leftParen "(" s!"after {role.text} name"
  let parameters ← elements limit .parameters (name (.name "parameter"))
  let _ ← expectMark .rightParen ")" "after parameters"
  let _ ← expectMark .leftBrace "\x7b" s!"before {role.text} body"
  let body ← block declaration
  return .mk functionName parameters body

/-- Reads the methods of a class up to the closing brace. -/
def methods (limit : ArgumentLimit) (declaration : Recovered (Option (Stmt Unit))) :
    Parser (List (Function Unit)) := do
  let all ← repeating
    (fun (seen : Array (Function Unit)) => do
      let close ← check .rightBrace
      let stop ← check .eof
      if close || stop then
        return (false, seen)
      else
        let method ← function limit .method declaration
        return (true, seen.push method))
    #[]
  return all.toList

/-- Reads the superclass of a class, if one is named. -/
def superclass? : Parser (Option (Ident × Unit)) := do
  if ← accept .less then
    let superclass ← name (.name "superclass")
    return some (superclass, ())
  else
    return none

/-- Reads the rest of a class declaration. -/
def classDeclaration (limit : ArgumentLimit) (declaration : Recovered (Option (Stmt Unit))) :
    Parser (Stmt Unit) := do
  let className ← name (.name "class")
  let superclass ← superclass?
  let _ ← expectMark .leftBrace "\x7b" "before class body"
  let methods ← methods limit declaration
  let _ ← expectMark .rightBrace "\x7d" "after class body"
  return .classDecl className superclass methods

/-- Reads the rest of a function declaration. -/
def functionDeclaration (limit : ArgumentLimit) (declaration : Recovered (Option (Stmt Unit))) :
    Parser (Stmt Unit) := do
  let declared ← function limit .function declaration
  return .function declared

/-- Reads a declaration or statement, given parsers for the parts nested in it. -/
def declarationOf (limit : ArgumentLimit) (expression : Parser (Expr Unit))
    (statement : Parser (Stmt Unit)) (declaration : Recovered (Option (Stmt Unit))) :
    Parser (Stmt Unit) := fun stream =>
  match stream.current.kind with
  | .keyword .class_ => classDeclaration limit declaration stream.advance
  | .keyword .fun_ => functionDeclaration limit declaration stream.advance
  | .keyword .var_ => variableDeclaration expression stream.advance
  | _ => statement stream

mutual
/-- Reads a statement that nests at most `room` levels deep. -/
def statement (limit : ArgumentLimit) : Nat → Parser (Stmt Unit)
  | 0, stream => tooDeep stream
  | room + 1, stream =>
      statementOf (expression limit room) (statement limit room) (declaration limit room) stream

/-- Reads a declaration or statement that nests at most `room` levels deep.  A syntax error in it
that no nested declaration has caught is reported, and the declaration is dropped. -/
def declaration (limit : ArgumentLimit) : Nat → Recovered (Option (Stmt Unit))
  | 0, stream => .error .tooDeep stream
  | room + 1, stream =>
      recovering
        (declarationOf limit (expression limit room) (statement limit room)
          (declaration limit room))
        stream
end

/-- Reads declarations up to the end of the source. -/
def program (declaration : Recovered (Option (Stmt Unit))) : Recovered (List (Stmt Unit)) :=
  fun stream =>
    let all := repeating
      (fun (seen : Array (Stmt Unit)) stream =>
        if stream.atEnd then
          .ok (false, seen) stream
        else
          match declaration stream with
          | .ok none rest => .ok (true, seen) rest
          | .ok (some statement) rest => .ok (true, seen.push statement) rest
          | .error reason rest => .error reason rest)
      #[] stream
    match all with
    | .ok statements rest => .ok statements.toList rest
    | .error reason rest => .error reason rest

end Parser

/-! ### Programs -/

/-- What reading a token list gives: the declarations that could be read, unless reading was given
up, and all errors in the order they were found. -/
structure Parse where
  program : Except Abort Program.Plain
  errors : Array SyntaxError
deriving Inhabited

namespace Program

/-- Reads a program that nests at most `room` levels deep. -/
def parseWithin (room : Nat) (limit : ArgumentLimit) (tokens : List Token) : Parse :=
  match Parser.program (Parser.declaration limit room) (.ofTokens tokens) with
  | .ok program stream => { program := .ok program, errors := stream.errors }
  | .error reason stream => { program := .error reason, errors := stream.errors }

/-- Reads a program of any depth.  A level of nesting takes at least one token and is counted at
most twice, so the room given here is never used up. -/
def parse (limit : ArgumentLimit) (tokens : List Token) : Parse :=
  parseWithin (2 * tokens.length + 4) limit tokens

end Program

end LoxLang
