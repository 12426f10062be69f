/-
Module: LoxLang.Program.Parser.Expression
Purpose: Reading expressions.  From the loosest to the tightest: assignment, `or`, `and`,
  equality, comparison, sums, products, prefix operators, calls and property accesses, and
  primary expressions.
Main exports: Parser.expression, Parser.unary
-/
import LoxLang.Program.Parser.Basic

namespace LoxLang

/-! ### Operators of each level -/

/-- The prefix operators. -/
def UnaryOp.ofKind? : Kind → Option UnaryOp
  | .bang => some .not
  | .minus => some .negate
  | _ => none

namespace BinaryOp

/-- Operators of products. -/
def factor? : Kind → Option BinaryOp
  | .slash => some .divide
  | .star => some .multiply
  | _ => none

/-- Operators of sums. -/
def term? : Kind → Option BinaryOp
  | .minus => some .subtract
  | .plus => some .add
  | _ => none

/-- Comparisons of size. -/
def comparison? : Kind → Option BinaryOp
  | .greater => some .greater
  | .greaterEqual => some .greaterEqual
  | .less => some .less
  | .lessEqual => some .lessEqual
  | _ => none

/-- Comparisons for equality. -/
def equality? : Kind → Option BinaryOp
  | .bangEqual => some .notEqual
  | .equalEqual => some .equal
  | _ => none

end BinaryOp

namespace Parser

/-! ### Left-associative levels -/

/-- Reads operands joined by binary operators and groups them to the left. -/
def binaryChain (operator? : Kind → Option BinaryOp) (operand : Parser (Expr Unit)) :
    Parser (Expr Unit) := do
  let first ← operand
  repeating
    (fun left => do
      match ← acceptAs? operator? with
      | none => return (false, left)
      | some (op, position) =>
          let right ← operand
          return (true, .binary left op position right))
    first

/-- Reads operands joined by a logical operator and groups them to the left. -/
def logicalChain (kind : Kind) (op : LogicalOp) (operand : Parser (Expr Unit)) :
    Parser (Expr Unit) := do
  let first ← operand
  repeating
    (fun left => do
      if ← accept kind then
        let right ← operand
        return (true, .logical left op right)
      else
        return (false, left))
    first

/-- Reads everything that binds tighter than assignment, given a parser for what binds tighter
than all binary operators. -/
def disjunction (operand : Parser (Expr Unit)) : Parser (Expr Unit) :=
  let factor := binaryChain BinaryOp.factor? operand
  let term := binaryChain BinaryOp.term? factor
  let comparison := binaryChain BinaryOp.comparison? term
  let equality := binaryChain BinaryOp.equality? comparison
  let conjunction := logicalChain (.keyword .and_) .and equality
  logicalChain (.keyword .or_) .or conjunction

/-! ### Primary expressions and calls -/

/-- Reads the rest of a parenthesized expression. -/
def grouping (expression : Parser (Expr Unit)) : Parser (Expr Unit) := do
  let inner ← expression
  let _ ← expectMark .rightParen ")" "after expression"
  return .grouping inner

/-- Reads the rest of an access to a method of the superclass. -/
def superMethod (keyword : Position) : Parser (Expr Unit) := do
  let _ ← expectMark .dot "." "after 'super'"
  let method ← name (.name "superclass method")
  return .superMethod keyword () method

/-- Reads a constant, a name, `this`, an access through `super` or a parenthesized expression. -/
def primary (expression : Parser (Expr Unit)) : Parser (Expr Unit) := fun stream =>
  let token := stream.current
  match token.kind with
  | .keyword .false_ => .ok (.literal (.bool false)) stream.advance
  | .keyword .true_ => .ok (.literal (.bool true)) stream.advance
  | .keyword .nil_ => .ok (.literal .nil) stream.advance
  | .number | .string => .ok (.literal (token.literal.getD .nil)) stream.advance
  | .keyword .super_ => superMethod token.position stream.advance
  | .keyword .this_ => .ok (.receiver token.position ()) stream.advance
  | .identifier =>
      .ok (.read { text := token.lexeme, position := token.position } ()) stream.advance
  | .leftParen => grouping expression stream.advance
  | _ => fail .expression stream

/-- Reads the rest of a call, after the opening parenthesis. -/
def callArguments (limit : ArgumentLimit) (expression : Parser (Expr Unit))
    (callee : Expr Unit) : Parser (Expr Unit) := do
  let arguments ← elements limit .arguments expression
  let close ← expectMark .rightParen ")" "after arguments"
  return .call callee arguments close.position

/-- Reads a primary expression and the calls and property accesses applied to it. -/
def call (limit : ArgumentLimit) (expression : Parser (Expr Unit)) : Parser (Expr Unit) := do
  let first ← primary expression
  repeating
    (fun callee => do
      if ← accept .leftParen then
        let applied ← callArguments limit expression callee
        return (true, applied)
      else if ← accept .dot then
        let property ← name .propertyName
        return (true, .get callee property)
      else
        return (false, callee))
    first

/-- Turns an expression that an equals sign follows into an assignment.  Only names and
properties can be assigned to; for anything else the equals sign is reported and the value is
dropped. -/
def assignTo (target : Expr Unit) (equals : Token) (value : Expr Unit) : Parser (Expr Unit) :=
  match target with
  | .read name _ => return .assign name () value
  | .get object name => return .set object name value
  | other => do
      report .invalidAssignmentTarget equals
      return other

mutual
/-- Reads an expression that nests at most `room` levels deep.  Assignment groups to the right. -/
def expression (limit : ArgumentLimit) : Nat → Parser (Expr Unit)
  | 0, stream => tooDeep stream
  | room + 1, stream =>
      match disjunction (unary limit room) stream with
      | .error interrupt following => .error interrupt following
      | .ok target following =>
          if following.current.kind = .equal then
            match expression limit room following.advance with
            | .error interrupt rest => .error interrupt rest
            | .ok value rest => assignTo target following.current value rest
          else
            .ok target following

/-- Reads an operand of a binary operator: prefix operators, then a call. -/
def unary (limit : ArgumentLimit) : Nat → Parser (Expr Unit)
  | 0, stream => tooDeep stream
  | room + 1, stream =>
      match UnaryOp.ofKind? stream.current.kind with
      | none => call limit (expression limit room) stream
      | some op =>
          match unary limit room stream.advance with
          | .error interrupt rest => .error interrupt rest
          | .ok operand rest => .ok (.unary op stream.current.position operand) rest
end

end Parser

end LoxLang
