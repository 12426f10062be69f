/-
Module: LoxLang.Token.Basic
Purpose: Tokens of the language: their kinds, how keywords and operators are spelled, and how a
  listing shows a token.
Main exports: Keyword, Kind, Token, Keyword.ofSpelling?, Kind.label, Token.listing
-/
import LoxLang.Literal
import LoxLang.Source.Cursor

namespace LoxLang

/-- The reserved words. -/
inductive Keyword where
  | and_ | class_ | else_ | false_ | for_ | fun_ | if_ | nil_
  | or_ | print_ | return_ | super_ | this_ | true_ | var_ | while_
deriving DecidableEq, Repr, Inhabited

namespace Keyword

/-- How a keyword is written. -/
def spelling : Keyword → String
  | and_ => "and"
  | class_ => "class"
  | else_ => "else"
  | false_ => "false"
  | for_ => "for"
  | fun_ => "fun"
  | if_ => "if"
  | nil_ => "nil"
  | or_ => "or"
  | print_ => "print"
  | return_ => "return"
  | super_ => "super"
  | this_ => "this"
  | true_ => "true"
  | var_ => "var"
  | while_ => "while"

/-- Every keyword, once. -/
def all : List Keyword :=
  [and_, class_, else_, false_, for_, fun_, if_, nil_,
    or_, print_, return_, super_, this_, true_, var_, while_]

/-- The keyword written this way, if there is one. -/
def ofSpelling? (text : String) : Option Keyword :=
  all.find? fun keyword => keyword.spelling = text

/-- The name of a keyword in a listing. -/
def label : Keyword → String
  | and_ => "KEYWORD_AND"
  | class_ => "KEYWORD_CLASS"
  | else_ => "KEYWORD_ELSE"
  | false_ => "KEYWORD_FALSE"
  | for_ => "KEYWORD_FOR"
  | fun_ => "KEYWORD_FUN"
  | if_ => "KEYWORD_IF"
  | nil_ => "KEYWORD_NIL"
  | or_ => "KEYWORD_OR"
  | print_ => "KEYWORD_PRINT"
  | return_ => "KEYWORD_RETURN"
  | super_ => "KEYWORD_SUPER"
  | this_ => "KEYWORD_THIS"
  | true_ => "KEYWORD_TRUE"
  | var_ => "KEYWORD_VAR"
  | while_ => "KEYWORD_WHILE"

end Keyword

/-- The kinds of tokens.  `eof` stands for the end of the source. -/
inductive Kind where
  | leftParen | rightParen | leftBrace | rightBrace | comma | dot | semicolon
  | minus | plus | slash | star
  | bang | bangEqual | equal | equalEqual | greater | greaterEqual | less | lessEqual
  | identifier | string | number
  | keyword (word : Keyword)
  | eof
deriving DecidableEq, Repr, Inhabited

namespace Kind

/-- The name of a kind in a listing. -/
def label : Kind → String
  | leftParen => "LPAREN"
  | rightParen => "RPAREN"
  | leftBrace => "LBRACE"
  | rightBrace => "RBRACE"
  | comma => "COMMA"
  | dot => "DOT"
  | semicolon => "SEMICOLON"
  | minus => "OP_MINUS"
  | plus => "OP_PLUS"
  | slash => "OP_DIVIDE"
  | star => "OP_MULTIPLY"
  | bang => "OP_NOT"
  | bangEqual => "OP_NEQ"
  | equal => "OP_ASSIGN"
  | equalEqual => "OP_EQ"
  | greater => "OP_GT"
  | greaterEqual => "OP_GTE"
  | less => "OP_LT"
  | lessEqual => "OP_LTE"
  | identifier => "IDENTIFIER"
  | string => "LITERAL_STRING"
  | number => "LITERAL_NUMBER"
  | keyword word => word.label
  | eof => "EOF"

/-- The kind of a word: a keyword if it is spelled like one, otherwise an identifier. -/
def ofWord (text : String) : Kind :=
  match Keyword.ofSpelling? text with
  | some word => keyword word
  | none => identifier

/-- The tokens of one character that no longer token starts with. -/
def ofMark? : Char → Option Kind
  | '(' => some leftParen
  | ')' => some rightParen
  | '{' => some leftBrace
  | '}' => some rightBrace
  | ',' => some comma
  | '.' => some dot
  | ';' => some semicolon
  | '-' => some minus
  | '+' => some plus
  | '/' => some slash
  | '*' => some star
  | _ => none

/-- The tokens that an equals sign makes longer: alone, and followed by it. -/
def ofComparison? : Char → Option (Kind × Kind)
  | '!' => some (bang, bangEqual)
  | '=' => some (equal, equalEqual)
  | '<' => some (less, lessEqual)
  | '>' => some (greater, greaterEqual)
  | _ => none

end Kind

/-- A token: its kind, the text it was read from, the value of a number or string, and the place
of its first character. -/
structure Token where
  kind : Kind
  lexeme : String
  literal : Option Literal
  position : Position
deriving Repr, Inhabited

namespace Token

/-- The token that ends every token list. -/
def eof (position : Position) : Token :=
  { kind := .eof, lexeme := "", literal := none, position := position }

/-- The line a token starts on. -/
def line (token : Token) : Nat :=
  token.position.line

/-- A token as one line of a listing. -/
def listing (token : Token) : String :=
  let label := token.kind.label
  let lexeme := Text.quoted token.lexeme
  let literal := (token.literal.getD .nil).listing
  s!"Token({label}, {lexeme}, {literal}, Ln {token.position.line}, Col {token.position.column})"

end Token

end LoxLang
