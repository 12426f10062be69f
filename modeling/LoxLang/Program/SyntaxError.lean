/-
Module: LoxLang.Program.SyntaxError
Purpose: What can be wrong with a token list, and how it is reported.
Main exports: ArgumentLimit, Expectation, SyntaxCause, SyntaxError, Token.place, locate
-/
import LoxLang.Token.Basic

namespace LoxLang

/-! ### How many arguments are too many -/

/-- The largest allowed number of arguments or parameters, as a configuration may give it.  A
value that cannot be compared with a number is accepted until it is needed. -/
inductive ArgumentLimit where
  | count (limit : Int)
  | fraction (limit : Float)
  | flag (limit : Bool)
  | incomparable
deriving Repr, Inhabited

namespace ArgumentLimit

/-- Whether a list of this length has no room for another element; nothing if the limit cannot be
compared with a number. -/
def reached? (size : Nat) : ArgumentLimit → Option Bool
  | count limit => some (limit ≤ size)
  | fraction limit => some (limit ≤ size.toFloat)
  | flag limit => some (limit.toNat ≤ size)
  | incomparable => none

/-- The limit as error messages give it. -/
def text : ArgumentLimit → String
  | count limit => toString limit
  | fraction limit => Number.listing limit
  | flag limit => (Literal.bool limit).listing
  | incomparable => ""

end ArgumentLimit

/-! ### Causes -/

/-- What kind of function a declaration introduces. -/
inductive FunctionRole where
  | function
  | method
deriving DecidableEq, Repr, Inhabited

/-- The word for a kind of function. -/
def FunctionRole.text : FunctionRole → String
  | function => "function"
  | method => "method"

/-- What a token list should have gone on with. -/
inductive Expectation where
  | expression
  /-- A name that plays the given part. -/
  | name (part : String)
  | propertyName
  /-- A mark, and the place it belongs to. -/
  | mark (spelling place : String)
deriving DecidableEq, Repr, Inhabited

/-- The sentence for a missing piece. -/
def Expectation.message : Expectation → String
  | expression => "Expect expression."
  | name part => s!"Expect {part} name."
  | propertyName => "Expect property name after '.'."
  | mark spelling place => s!"Expect '{spelling}' {place}."

/-- The lists that a limit applies to. -/
inductive ListRole where
  | arguments
  | parameters
deriving DecidableEq, Repr, Inhabited

/-- The word for the elements of a list. -/
def ListRole.text : ListRole → String
  | arguments => "arguments"
  | parameters => "parameters"

/-- What is wrong at a token. -/
inductive SyntaxCause where
  | expected (what : Expectation)
  | invalidAssignmentTarget
  | tooMany (limit : ArgumentLimit) (what : ListRole)
deriving Repr, Inhabited

/-- The sentence for a cause. -/
def SyntaxCause.message : SyntaxCause → String
  | expected what => what.message
  | invalidAssignmentTarget => "Invalid assignment target."
  | tooMany limit what => s!"Can't have more than {limit.text} {what.text}."

/-! ### Reports -/

/-- A cause and the token it was found at. -/
structure SyntaxError where
  cause : SyntaxCause
  token : Token
deriving Repr, Inhabited

/-- A message with the line and the place it belongs to. -/
def locate (line : Nat) (place message : String) : String :=
  s!"[line {line}] Error{place}: {message}"

/-- The place of a piece of source text in a message. -/
def placeOf (lexeme : String) : String :=
  s!" at '{lexeme}'"

/-- The place of a token in a message. -/
def Token.place (token : Token) : String :=
  if token.kind = .eof then " at end" else placeOf token.lexeme

namespace SyntaxError

/-- The line an error is reported on. -/
def line (error : SyntaxError) : Nat :=
  error.token.line

/-- The report of an error. -/
def text (error : SyntaxError) : String :=
  locate error.line error.token.place error.cause.message

end SyntaxError

end LoxLang
