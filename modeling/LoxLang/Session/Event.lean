/-
Module: LoxLang.Session.Event
Purpose: What a session reports to its user besides the output of programs: errors, and on
  request a trace of what is being done.
Main exports: StaticError, Trace, Event, Event.render
-/
import LoxLang.Machine.Basic
import LoxLang.Program.Binding
import LoxLang.Program.SyntaxError
import LoxLang.Token.Scanner

namespace LoxLang

/-- An error found before a program runs. -/
inductive StaticError where
  | lexical (error : LexicalError)
  | syntactic (error : SyntaxError)
  | scoping (error : ScopeError)
deriving Repr, Inhabited

namespace StaticError

/-- The line an error is reported on. -/
def line : StaticError → Nat
  | lexical error => error.line
  | syntactic error => error.line
  | scoping error => error.line

/-- The report of an error. -/
def text : StaticError → String
  | lexical error => error.text
  | syntactic error => error.text
  | scoping error => error.text

end StaticError

/-- What a trace can mention. -/
inductive Trace where
  | configFile (name : String)
  | sourceFile (name : String)
  | lexicalError (error : LexicalError)
  | scanned (tokens errors : Nat)
  | syntaxError (error : SyntaxError)
  | parsed (statements errors : Nat)
  | scopeError (error : ScopeError)
  | bound (references errors : Nat)
  | notRunning (errors : Nat)
  | runtimeError (error : RuntimeError)
  | overflow
deriving Repr, Inhabited

namespace Trace

/-- The part of the program that a trace comes from. -/
def origin : Trace → String
  | configFile _ | sourceFile _ => "lox"
  | lexicalError _ | scanned _ _ => "lox.lexer.lexer"
  | syntaxError _ | parsed _ _ => "lox.parser.parser"
  | scopeError _ | bound _ _ => "lox.resolver.resolver"
  | notRunning _ | overflow => "lox.runner"
  | runtimeError _ => "lox.interpreter.interpreter"

/-- What a trace says. -/
def message : Trace → String
  | configFile name => s!"Using config file: {name}"
  | sourceFile name => s!"Using source file: {name}"
  | lexicalError error => s!"Lexer error: {error.text}"
  | scanned tokens errors => s!"Scanned {tokens} tokens with {errors} errors"
  | syntaxError error => s!"Parser error: {error.text}"
  | parsed statements errors => s!"Parsed {statements} statements with {errors} errors"
  | scopeError error => s!"Resolver error: {error.text}"
  | bound references errors => s!"Resolved {references} local references with {errors} errors"
  | notRunning errors => s!"Not running, {errors} static errors"
  | runtimeError error => s!"Runtime error on line {error.line}: {error.cause.message}"
  | overflow => "Host stack exhausted: maximum recursion depth exceeded"

/-- A trace as one line. -/
def text (trace : Trace) : String :=
  s!"{trace.origin}: {trace.message}"

end Trace

/-- Something that happened, in the order of time. -/
inductive Event where
  | trace (entry : Trace)
  | report (text : String)
deriving Repr, Inhabited

namespace Event

/-- The line an event is shown as; traces are shown only when asked for. -/
def line? (verbose : Bool) : Event → Option String
  | trace entry => if verbose then some entry.text else none
  | report text => some text

/-- Events as text. -/
def render (verbose : Bool) (events : List Event) : String :=
  String.join (events.filterMap fun event => (event.line? verbose).map (· ++ "\n"))

end Event

end LoxLang
