/-
Module: LoxLang.Program.Parser.Basic
Purpose: Reading a token list from left to right.  A parser may report errors and go on, stop at
  an error that leaves it nothing to go on with, or be aborted; only an abort cannot be recovered
  from.
Main exports: Stream, Abort, Interrupt, Parser, Recovered, Parser.expect, Parser.repeating,
  Parser.recovering
-/
import LoxLang.Program.SyntaxError
import LoxLang.Program.Tree

namespace LoxLang

/-! ### The token stream -/

/-- The token to be looked at next, the tokens after it, and the errors reported so far.  `size`
is the number of tokens that the stream began with; there are never more of them left. -/
structure Stream where
  current : Token
  rest : List Token
  errors : Array SyntaxError
  size : Nat
deriving Repr, Inhabited

namespace Stream

/-- The stream of a token list; an empty list is read as one that holds only the end. -/
def ofTokens : List Token → Stream
  | [] => { current := .eof .start, rest := [], errors := #[], size := 1 }
  | first :: rest =>
      { current := first, rest := rest, errors := #[], size := rest.length + 1 }

/-- Whether the end of the source has been reached. -/
def atEnd (stream : Stream) : Bool :=
  stream.current.kind = .eof

/-- Moves to the next token; the end is never passed. -/
def advance (stream : Stream) : Stream :=
  match stream.rest with
  | [] => stream
  | following :: rest =>
      if stream.atEnd then stream else { stream with current := following, rest := rest }

/-- Records an error. -/
def report (error : SyntaxError) (stream : Stream) : Stream :=
  { stream with errors := stream.errors.push error }

/-- The keywords that start a declaration or a statement and at which reading can resume. -/
def isBoundary : Kind → Bool
  | .keyword .class_ | .keyword .fun_ | .keyword .var_ | .keyword .for_
  | .keyword .if_ | .keyword .while_ | .keyword .print_ | .keyword .return_ => true
  | _ => false

/-- Skips tokens up to a boundary: right after a semicolon, right before a keyword that starts a
statement, or at the end.  `previous` is the token skipped last. -/
def skipToBoundary (previous current : Token) : List Token → Token × List Token
  | [] => (current, [])
  | following :: rest =>
      if current.kind = .eof ∨ previous.kind = .semicolon ∨ isBoundary current.kind then
        (current, following :: rest)
      else
        skipToBoundary current following rest

/-- Moves to where reading can resume after an error.  The token at which the error was found is
always skipped, whatever it is. -/
def synchronize (stream : Stream) : Stream :=
  match stream.rest with
  | [] => stream
  | following :: rest =>
      if stream.atEnd then stream
      else
        let (current, rest) := skipToBoundary stream.current following rest
        { stream with current := current, rest := rest }

end Stream

/-! ### Parsers -/

/-- Why reading is given up altogether. -/
inductive Abort where
  /-- The source is nested too deeply. -/
  | tooDeep
  /-- The limit on arguments cannot be compared with a number. -/
  | incomparableLimit
deriving DecidableEq, Repr, Inhabited

/-- Why a parser stops before it has its result. -/
inductive Interrupt where
  | syntaxError (error : SyntaxError)
  | abort (reason : Abort)
deriving Repr, Inhabited

/-- A parser: it moves along the stream and yields a result or is interrupted.  What it has
reported stays reported in both cases. -/
abbrev Parser (α : Type) := EStateM Interrupt Stream α

/-- A parser that lets no syntax error escape. -/
abbrev Recovered (α : Type) := EStateM Abort Stream α

namespace Parser

/-- Whether the next token is of the given kind. -/
def check (kind : Kind) : Parser Bool := fun stream =>
  .ok (decide (stream.current.kind = kind)) stream

/-- Takes the next token if it is of the given kind, and says whether it did. -/
def accept (kind : Kind) : Parser Bool := fun stream =>
  if stream.current.kind = kind then .ok true stream.advance else .ok false stream

/-- Takes the next token if `meaning` has a value for its kind. -/
def acceptAs? {α : Type} (meaning : Kind → Option α) : Parser (Option (α × Position)) :=
  fun stream =>
    match meaning stream.current.kind with
    | none => .ok none stream
    | some value => .ok (some (value, stream.current.position)) stream.advance

/-- Stops with an error at the next token. -/
def fail {α : Type} (what : Expectation) : Parser α := fun stream =>
  .error (.syntaxError { cause := .expected what, token := stream.current }) stream

/-- Takes a token of the given kind, or stops. -/
def expect (kind : Kind) (what : Expectation) : Parser Token := fun stream =>
  if stream.current.kind = kind then .ok stream.current stream.advance
  else fail what stream

/-- Takes a mark, or stops. -/
def expectMark (kind : Kind) (spelling place : String) : Parser Token :=
  expect kind (.mark spelling place)

/-- Takes a name, or stops. -/
def name (what : Expectation) : Parser Ident := do
  let token ← expect .identifier what
  return { text := token.lexeme, position := token.position }

/-- Reports an error at a token and goes on. -/
def report (cause : SyntaxCause) (token : Token) : Parser Unit := fun stream =>
  .ok () (stream.report { cause := cause, token := token })

/-- Gives up because the source is nested too deeply. -/
def tooDeep {α : Type} : Parser α := fun stream =>
  .error (.abort .tooDeep) stream

/-- Runs a parser that lets no syntax error escape as one of several steps. -/
def lift {α : Type} (parser : Recovered α) : Parser α := fun stream =>
  match parser stream with
  | .ok value following => .ok value following
  | .error reason following => .error (.abort reason) following

/-- Runs a parser; a syntax error that stops it is reported, and reading resumes at the next
boundary. -/
def recovering {α : Type} (parser : Parser α) : Recovered (Option α) := fun stream =>
  match parser stream with
  | .ok value following => .ok (some value) following
  | .error (.syntaxError error) following => .ok none (following.report error).synchronize
  | .error (.abort reason) following => .error reason following

/-! ### Repetition -/

/-- Repeats `step` until it says to stop, at most `bound` times. -/
@[specialize]
def repeatUpTo {ε β : Type} (step : β → EStateM ε Stream (Bool × β)) :
    Nat → β → EStateM ε Stream β
  | 0, state, stream => .ok state stream
  | bound + 1, state, stream =>
      match step state stream with
      | .ok (true, following) rest => repeatUpTo step bound following rest
      | .ok (false, final) rest => .ok final rest
      | .error interrupt rest => .error interrupt rest

/-- Repeats `step` until it says to stop.  Every step that does not stop takes a token, so the
number of tokens bounds the number of steps. -/
@[specialize]
def repeating {ε β : Type} (step : β → EStateM ε Stream (Bool × β)) (initial : β) :
    EStateM ε Stream β := fun stream =>
  repeatUpTo step stream.size initial stream

/-- Checks that a list of `size` elements may grow, and reports it if not. -/
def checkLimit (limit : ArgumentLimit) (what : ListRole) (size : Nat) : Parser Unit :=
  fun stream =>
    match limit.reached? size with
    | none => .error (.abort .incomparableLimit) stream
    | some false => .ok () stream
    | some true => report (.tooMany limit what) stream.current stream

/-- Reads elements separated by commas, up to a closing parenthesis that is left in place.  The
limit is checked before each element. -/
def elements {α : Type} (limit : ArgumentLimit) (what : ListRole) (element : Parser α) :
    Parser (List α) := do
  if ← check .rightParen then
    return []
  else
    let all ← repeating
      (fun (seen : Array α) => do
        checkLimit limit what seen.size
        let value ← element
        let more ← accept .comma
        return (more, seen.push value))
      #[]
    return all.toList

end Parser

end LoxLang
