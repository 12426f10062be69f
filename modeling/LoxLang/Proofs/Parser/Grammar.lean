/-
Module: LoxLang.Proofs.Parser.Grammar
Purpose: The grammar of programs, written as rules in extended form over the kinds of tokens, and
  what it means to derive a list of kinds from it.  `Form.Reads` reads a form over whole tokens,
  given what the symbols stand for; it is how derivations are taken apart and put together.
Main exports: Symbol, Form, rule, Derives, Form.Reads, Derives.reads, Form.Reads.derives
-/
import LoxLang.Token.Basic

namespace LoxLang.Grammar

/-- The symbols of the grammar. -/
inductive Symbol where
  | program | declaration | classDecl | funDecl | function | varDecl
  | statement | exprStmt | forStmt | ifStmt | printStmt | returnStmt | whileStmt | block
  | expression | assignment | logicOr | logicAnd | equality | comparison
  | term | factor | unary | call | primary | arguments | parameters
deriving DecidableEq, Repr, Inhabited

/-- What a rule may say. -/
inductive Form where
  | token (kind : Kind)
  | symbol (name : Symbol)
  | seq (first second : Form)
  | alt (first second : Form)
  | optional (inner : Form)
  | many (inner : Form)
  /-- At least one and at most `most` elements, separated by commas. -/
  | listed (most : Nat) (element : Form)
deriving Repr, Inhabited

namespace Form

/-- One form after the other. -/
def inOrder (first : Form) : List Form → Form
  | [] => first
  | second :: rest => seq first (inOrder second rest)

/-- Any one of several forms. -/
def oneOf (first : Form) : List Form → Form
  | [] => first
  | second :: rest => alt first (oneOf second rest)

/-- Operands with operators between them. -/
def joined (operand : Symbol) (operator : Form) : Form :=
  seq (symbol operand) (many (seq operator (symbol operand)))

end Form

open Form

/-- The rules of the grammar, with at most `most` arguments or parameters to a list. -/
def rule (most : Nat) : Symbol → Form
  | .program => inOrder (many (symbol .declaration)) [token .eof]
  | .declaration =>
      oneOf (symbol .classDecl) [symbol .funDecl, symbol .varDecl, symbol .statement]
  | .classDecl =>
      inOrder (token (.keyword .class_)) [token .identifier,
        optional (inOrder (token .less) [token .identifier]),
        token .leftBrace, many (symbol .function), token .rightBrace]
  | .funDecl => inOrder (token (.keyword .fun_)) [symbol .function]
  | .function =>
      inOrder (token .identifier) [token .leftParen, optional (symbol .parameters),
        token .rightParen, symbol .block]
  | .varDecl =>
      inOrder (token (.keyword .var_)) [token .identifier,
        optional (inOrder (token .equal) [symbol .expression]), token .semicolon]
  | .statement =>
      oneOf (symbol .exprStmt) [symbol .forStmt, symbol .ifStmt, symbol .printStmt,
        symbol .returnStmt, symbol .whileStmt, symbol .block]
  | .exprStmt => inOrder (symbol .expression) [token .semicolon]
  | .forStmt =>
      inOrder (token (.keyword .for_)) [token .leftParen,
        oneOf (symbol .varDecl) [symbol .exprStmt, token .semicolon],
        optional (symbol .expression), token .semicolon, optional (symbol .expression),
        token .rightParen, symbol .statement]
  | .ifStmt =>
      inOrder (token (.keyword .if_)) [token .leftParen, symbol .expression, token .rightParen,
        symbol .statement, optional (inOrder (token (.keyword .else_)) [symbol .statement])]
  | .printStmt => inOrder (token (.keyword .print_)) [symbol .expression, token .semicolon]
  | .returnStmt =>
      inOrder (token (.keyword .return_)) [optional (symbol .expression), token .semicolon]
  | .whileStmt =>
      inOrder (token (.keyword .while_)) [token .leftParen, symbol .expression,
        token .rightParen, symbol .statement]
  | .block => inOrder (token .leftBrace) [many (symbol .declaration), token .rightBrace]
  | .expression => symbol .assignment
  | .assignment =>
      oneOf
        (inOrder (optional (inOrder (symbol .call) [token .dot])) [token .identifier,
          token .equal, symbol .assignment])
        [symbol .logicOr]
  | .logicOr => joined .logicAnd (token (.keyword .or_))
  | .logicAnd => joined .equality (token (.keyword .and_))
  | .equality => joined .comparison (oneOf (token .bangEqual) [token .equalEqual])
  | .comparison =>
      joined .term (oneOf (token .greater)
        [token .greaterEqual, token .less, token .lessEqual])
  | .term => joined .factor (oneOf (token .minus) [token .plus])
  | .factor => joined .unary (oneOf (token .slash) [token .star])
  | .unary =>
      oneOf (inOrder (oneOf (token .bang) [token .minus]) [symbol .unary]) [symbol .call]
  | .call =>
      inOrder (symbol .primary) [many (oneOf
        (inOrder (token .leftParen) [optional (symbol .arguments), token .rightParen])
        [inOrder (token .dot) [token .identifier]])]
  | .primary =>
      oneOf (token (.keyword .true_)) [token (.keyword .false_), token (.keyword .nil_),
        token (.keyword .this_), token .number, token .string, token .identifier,
        inOrder (token .leftParen) [symbol .expression, token .rightParen],
        inOrder (token (.keyword .super_)) [token .dot, token .identifier]]
  | .arguments => listed most (symbol .expression)
  | .parameters => listed most (token .identifier)

/-- A list of kinds that can be derived from a form. -/
inductive Derives (most : Nat) : Form → List Kind → Prop where
  | token (kind : Kind) : Derives most (.token kind) [kind]
  | symbol {symbol : Symbol} {kinds : List Kind} (derives : Derives most (rule most symbol) kinds) :
      Derives most (.symbol symbol) kinds
  | seq {first second : Form} {before after : List Kind} (left : Derives most first before)
      (right : Derives most second after) : Derives most (.seq first second) (before ++ after)
  | altFirst {first second : Form} {kinds : List Kind} (derives : Derives most first kinds) :
      Derives most (.alt first second) kinds
  | altSecond {first second : Form} {kinds : List Kind} (derives : Derives most second kinds) :
      Derives most (.alt first second) kinds
  | absent {inner : Form} : Derives most (.optional inner) []
  | present {inner : Form} {kinds : List Kind} (derives : Derives most inner kinds) :
      Derives most (.optional inner) kinds
  | manyNone {inner : Form} : Derives most (.many inner) []
  | manyMore {inner : Form} {before after : List Kind} (first : Derives most inner before)
      (others : Derives most (.many inner) after) : Derives most (.many inner) (before ++ after)
  | listedOne {bound : Nat} {element : Form} {kinds : List Kind}
      (derives : Derives most element kinds) : Derives most (.listed (bound + 1) element) kinds
  | listedMore {bound : Nat} {element : Form} {before after : List Kind}
      (first : Derives most element before) (others : Derives most (.listed bound element) after) :
      Derives most (.listed (bound + 1) element) (before ++ .comma :: after)

/-! ### Forms over tokens -/

/-- Token lists one after the other that all satisfy a predicate. -/
inductive Repeated (item : List Token → Prop) : List Token → Prop where
  | nil : Repeated item []
  | cons {first rest : List Token} (here : item first) (others : Repeated item rest) :
      Repeated item (first ++ rest)

/-- At most so many token lists separated by commas, and at least one, that all satisfy a
predicate. -/
inductive Listing (element : List Token → Prop) : Nat → List Token → Prop where
  | one {bound : Nat} {ts : List Token} (here : element ts) : Listing element (bound + 1) ts
  | more {bound : Nat} {comma : Token} {ts us : List Token} (here : element ts)
      (isComma : comma.kind = .comma) (others : Listing element bound us) :
      Listing element (bound + 1) (ts ++ comma :: us)

namespace Form

/-- The token lists that a form allows, given those that the symbols stand for. -/
def Reads (meaning : Symbol → List Token → Prop) : Form → List Token → Prop
  | token kind => fun ts => ∃ token : Token, token.kind = kind ∧ ts = [token]
  | symbol name => meaning name
  | seq first second => fun ts =>
      ∃ before after, ts = before ++ after ∧ Reads meaning first before ∧
        Reads meaning second after
  | alt first second => fun ts => Reads meaning first ts ∨ Reads meaning second ts
  | optional inner => fun ts => ts = [] ∨ Reads meaning inner ts
  | many inner => Repeated (Reads meaning inner)
  | listed most element => Listing (Reads meaning element) most

variable {meaning : Symbol → List Token → Prop} {ts : List Token}

theorem reads_token_seq {kind : Kind} {second : Form} :
    (seq (token kind) second).Reads meaning ts ↔
      ∃ (first : Token) (rest : List Token), first.kind = kind ∧ ts = first :: rest ∧
        second.Reads meaning rest := by
  constructor
  · rintro ⟨_, rest, rfl, ⟨first, isKind, rfl⟩, reads⟩
    exact ⟨first, rest, isKind, rfl, reads⟩
  · rintro ⟨first, rest, isKind, rfl, reads⟩
    exact ⟨[first], rest, rfl, ⟨first, isKind, rfl⟩, reads⟩

/-- A form whose symbols stand for what can be derived from them allows only what can be derived
from it. -/
theorem Reads.derives {most : Nat} (form : Form)
    (reads : form.Reads (fun symbol ts => Derives most (.symbol symbol) (ts.map Token.kind)) ts) :
    Derives most form (ts.map Token.kind) := by
  induction form generalizing ts with
  | token kind =>
      rcases reads with ⟨token, rfl, rfl⟩
      exact .token _
  | symbol name => exact reads
  | seq first second ihFirst ihSecond =>
      rcases reads with ⟨before, after, rfl, left, right⟩
      rw [List.map_append]
      exact .seq (ihFirst left) (ihSecond right)
  | alt first second ihFirst ihSecond =>
      rcases reads with left | right
      · exact .altFirst (ihFirst left)
      · exact .altSecond (ihSecond right)
  | optional inner ih =>
      rcases reads with rfl | present
      · exact .absent
      · exact .present (ih present)
  | many inner ih =>
      unfold Reads at reads
      induction reads with
      | nil => exact .manyNone
      | cons here _ others =>
          rw [List.map_append]
          exact .manyMore (ih here) others
  | listed bound element ih =>
      unfold Reads at reads
      induction reads with
      | one here => exact .listedOne (ih here)
      | more here isComma _ others =>
          rw [List.map_append, List.map_cons, isComma]
          exact .listedMore (ih here) others

end Form

/-- Meanings that every rule keeps to hold of everything that can be derived. -/
theorem Derives.reads {most : Nat} {meaning : Symbol → List Token → Prop}
    (closed : ∀ symbol ts, (rule most symbol).Reads meaning ts → meaning symbol ts)
    {form : Form} {kinds : List Kind} (derives : Derives most form kinds) :
    ∀ {ts : List Token}, ts.map Token.kind = kinds → form.Reads meaning ts := by
  induction derives with
  | token kind =>
      intro ts same
      obtain ⟨token, rfl, isKind⟩ := List.map_eq_singleton_iff.1 same
      exact ⟨token, isKind, rfl⟩
  | symbol _ ih => exact fun same => closed _ _ (ih same)
  | seq _ _ ihFirst ihSecond =>
      intro ts same
      obtain ⟨before, after, rfl, left, right⟩ := List.map_eq_append_iff.1 same
      exact ⟨before, after, rfl, ihFirst left, ihSecond right⟩
  | altFirst _ ih => exact fun same => Or.inl (ih same)
  | altSecond _ ih => exact fun same => Or.inr (ih same)
  | absent => exact fun same => Or.inl (List.map_eq_nil_iff.1 same)
  | present _ ih => exact fun same => Or.inr (ih same)
  | manyNone =>
      intro ts same
      rw [List.map_eq_nil_iff.1 same]
      exact Repeated.nil
  | manyMore _ _ ihFirst ihOthers =>
      intro ts same
      obtain ⟨before, after, rfl, left, right⟩ := List.map_eq_append_iff.1 same
      exact Repeated.cons (ihFirst left) (ihOthers right)
  | listedOne _ ih => exact fun same => Listing.one (ih same)
  | listedMore _ _ ihFirst ihOthers =>
      intro ts same
      obtain ⟨before, after, rfl, left, right⟩ := List.map_eq_append_iff.1 same
      obtain ⟨comma, rest, rfl, isComma, right⟩ := List.map_eq_cons_iff.1 right
      exact Listing.more (ihFirst left) isComma (ihOthers right)

end LoxLang.Grammar
