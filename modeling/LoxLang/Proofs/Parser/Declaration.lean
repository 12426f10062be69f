/-
Module: LoxLang.Proofs.Parser.Declaration
Purpose: The statement and declaration parsers read exactly what is spelled as a statement or a
  declaration, and the parser of programs exactly the declarations up to the end.  An `else` goes
  to the nearest `if` because an open statement is only read where none follows.
Main exports: statementAt, declarationAt, Parser.declaration_sound, Parser.declaration_complete
-/
import LoxLang.Proofs.Parser.Statement

namespace LoxLang

open LoxLang.Stream (Passes)

variable {limit : ArgumentLimit} {need : Int}

/-! ### What is read is a statement -/

/-- A statement, where no `else` follows that it would take. -/
def statementAt (limit : ArgumentLimit) : Parsing (Stmt Unit) := fun s taken next =>
  ∃ isOpen, Stmt.Spelled limit isOpen s taken ∧ (isOpen = true → next ≠ .keyword .else_)

/-- A declaration or statement, where no `else` follows that it would take. -/
def declarationAt (limit : ArgumentLimit) : Parsing (Stmt Unit) := fun s taken next =>
  ∃ isOpen, Stmt.Declared limit isOpen s taken ∧ (isOpen = true → next ≠ .keyword .else_)

namespace Parsing

open LoxLang.Parser (spelledAt)

variable {taken : List Token} {next : Kind}

theorem block_iff {declaration : Parsing (Stmt Unit)} {body : List (Stmt Unit)} :
    block declaration body taken next ↔
      ∃ ts closing, taken = ts ++ [closing] ∧ closing.kind = .rightBrace ∧
        Many (unended endsBlock declaration) body ts .rightBrace := by
  constructor
  · rintro ⟨body, ts, _, rfl, inner, end_⟩
    obtain ⟨closing, after, isClosing, rfl, rfl, rfl⟩ := andThen_token.1 end_
    rw [firstKind_cons, isClosing, items_iff] at inner
    exact ⟨ts, closing, rfl, isClosing, inner.1⟩
  · rintro ⟨ts, closing, rfl, isClosing, many⟩
    refine ⟨body, ts, [closing], rfl, ?_, andThen_token.2 ⟨closing, [], isClosing, rfl, rfl, rfl⟩⟩
    rw [firstKind_cons, isClosing, items_iff]
    exact ⟨many, rfl⟩

theorem Many.declaredAll {body : List (Stmt Unit)}
    (many : Many (unended endsBlock (declarationAt limit)) body taken next) :
    Stmt.DeclaredAll limit body taken := by
  induction many with
  | nil => exact .nil
  | cons reads _ ih =>
      rcases reads with ⟨-, isOpen, declared, -⟩
      exact .cons declared ih

theorem expressionBefore_spelledOpt {kind : Kind} {value : Option (Expr Unit)}
    (reads : expressionBefore kind (spelledAt limit .assignment) value taken next) :
    Expr.SpelledOpt limit value taken := by
  rcases reads with ⟨closes, _, _, rfl, ⟨-, rfl⟩, after⟩
  cases closes with
  | true =>
      rcases after with ⟨rfl, rfl⟩
      exact .none
  | false =>
      obtain ⟨value, spelled, rfl⟩ := andThen_pure.1 after
      exact .some spelled

theorem variableDeclaration_spelled {s : Stmt Unit}
    (reads : variableDeclaration (spelledAt limit .assignment) s taken next) :
    Stmt.VariableSpelled limit s taken := by
  obtain ⟨name, _, isName, rfl, afterName⟩ := andThen_name.1 reads
  rcases afterName with ⟨equals, _, isEquals, rfl, value, ts, _, rfl, spelled, afterValue⟩ |
    ⟨-, afterName⟩
  · obtain ⟨semicolon, _, isSemicolon, rfl, rfl, rfl⟩ := andThen_token.1 afterValue
    exact .initialized isName isEquals spelled isSemicolon
  · obtain ⟨semicolon, _, isSemicolon, rfl, rfl, rfl⟩ := andThen_token.1 afterName
    exact .bare isName isSemicolon

theorem expressionStatement_spelled {s : Stmt Unit}
    (reads : expressionStatement (spelledAt limit .assignment) s taken next) :
    ∃ value ts semicolon, s = .expression value ∧ taken = ts ++ [semicolon] ∧
      Expr.Spelled limit .assignment value ts ∧ semicolon.kind = .semicolon := by
  rcases reads with ⟨value, ts, _, rfl, spelled, afterValue⟩
  obtain ⟨semicolon, _, isSemicolon, rfl, rfl, rfl⟩ := andThen_token.1 afterValue
  exact ⟨value, ts, semicolon, rfl, rfl, spelled, isSemicolon⟩

theorem forInitializer_spelled {initializer : Option (Stmt Unit)}
    (reads : forInitializer (spelledAt limit .assignment) initializer taken next) :
    Stmt.InitializerSpelled limit initializer taken := by
  rcases reads with ⟨semicolon, _, isSemicolon, rfl, rfl, rfl⟩ |
    ⟨-, ⟨keyword, _, isVar, rfl, declares⟩ | ⟨-, evaluates⟩⟩
  · exact .none isSemicolon
  · obtain ⟨declaration, read, rfl⟩ := andThen_pure.1 declares
    exact .declare isVar (variableDeclaration_spelled read)
  · obtain ⟨statement, read, rfl⟩ := andThen_pure.1 evaluates
    obtain ⟨value, ts, semicolon, rfl, rfl, spelled, isSemicolon⟩ :=
      expressionStatement_spelled read
    exact .expression spelled isSemicolon

theorem ifStatement_spelled {s : Stmt Unit} {keyword : Token}
    (isIf : keyword.kind = .keyword .if_)
    (reads : ifStatement (spelledAt limit .assignment) (statementAt limit) s taken next) :
    statementAt limit s (keyword :: taken) next := by
  obtain ⟨opening, _, isOpening, rfl, condition, ts, _, rfl, spelled, afterCondition⟩ :=
    andThen_token.1 reads
  obtain ⟨closing, _, isClosing, rfl, thenBranch, us, _, rfl, ⟨isOpen, first, follows⟩, afterThen⟩ :=
    andThen_token.1 afterCondition
  rcases afterThen with ⟨separator, _, isElse, rfl, afterElse⟩ | ⟨noElse, rfl, rfl⟩
  · obtain ⟨elseBranch, ⟨isOpenToo, second, followsToo⟩, rfl⟩ := andThen_pure.1 afterElse
    rw [firstKind_cons, isElse] at follows
    -- an `else` follows the first branch, so that branch is not open
    have isClosed : isOpen = false := by
      cases isOpen with
      | false => rfl
      | true => exact absurd rfl (follows rfl)
    subst isClosed
    exact ⟨isOpenToo, .ifElse isIf isOpening spelled isClosing first isElse second, followsToo⟩
  · refine ⟨true, ?_, fun _ => noElse⟩
    simpa using Stmt.Spelled.ifThen isIf isOpening spelled isClosing first

theorem whileLoop_spelled {s : Stmt Unit} {keyword : Token}
    (isWhile : keyword.kind = .keyword .while_)
    (reads : whileLoop (spelledAt limit .assignment) (statementAt limit) s taken next) :
    statementAt limit s (keyword :: taken) next := by
  obtain ⟨opening, _, isOpening, rfl, condition, ts, _, rfl, spelled, afterCondition⟩ :=
    andThen_token.1 reads
  obtain ⟨closing, _, isClosing, rfl, rest⟩ := andThen_token.1 afterCondition
  obtain ⟨body, ⟨isOpen, inner, follows⟩, rfl⟩ := andThen_pure.1 rest
  exact ⟨isOpen, .loop isWhile isOpening spelled isClosing inner, follows⟩

theorem forLoop_spelled {s : Stmt Unit} {keyword : Token}
    (isFor : keyword.kind = .keyword .for_)
    (reads : forLoop (spelledAt limit .assignment) (statementAt limit) s taken next) :
    statementAt limit s (keyword :: taken) next := by
  obtain ⟨opening, _, isOpening, rfl, initializer, ts, _, rfl, first, condition, us, _, rfl, second,
    afterCondition⟩ := andThen_token.1 reads
  obtain ⟨semicolon, _, isSemicolon, rfl, increment, vs, _, rfl, third, afterIncrement⟩ :=
    andThen_token.1 afterCondition
  obtain ⟨closing, _, isClosing, rfl, rest⟩ := andThen_token.1 afterIncrement
  obtain ⟨body, ⟨isOpen, inner, follows⟩, rfl⟩ := andThen_pure.1 rest
  exact ⟨isOpen, .forLoop isFor isOpening (forInitializer_spelled first)
    (expressionBefore_spelledOpt second) isSemicolon (expressionBefore_spelledOpt third) isClosing
    inner, follows⟩

theorem led_statement_spelled {s : Stmt Unit}
    (reads : led (statementAfter (spelledAt limit .assignment) (statementAt limit)
      (declarationAt limit)) (expressionStatement (spelledAt limit .assignment)) s taken next) :
    statementAt limit s taken next := by
  rcases reads with ⟨keyword, rest, reading, known, rfl, after⟩ | ⟨-, after⟩
  · unfold statementAfter at known
    split at known
    · rename_i isKind
      cases known
      exact forLoop_spelled isKind after
    · rename_i isKind
      cases known
      exact ifStatement_spelled isKind after
    · rename_i isKind
      cases known
      rcases after with ⟨value, ts, _, rfl, spelled, afterValue⟩
      obtain ⟨semicolon, _, isSemicolon, rfl, rfl, rfl⟩ := andThen_token.1 afterValue
      exact ⟨false, .print isKind spelled isSemicolon, nofun⟩
    · rename_i isKind
      cases known
      rcases after with ⟨value, ts, _, rfl, spelled, afterValue⟩
      obtain ⟨semicolon, _, isSemicolon, rfl, rfl, rfl⟩ := andThen_token.1 afterValue
      exact ⟨false, .ret isKind (expressionBefore_spelledOpt spelled) isSemicolon, nofun⟩
    · rename_i isKind
      cases known
      exact whileLoop_spelled isKind after
    · rename_i isKind
      cases known
      obtain ⟨body, inner, rfl⟩ := andThen_pure.1 after
      obtain ⟨ts, closing, rfl, isClosing, many⟩ := block_iff.1 inner
      exact ⟨false, .block isKind many.declaredAll isClosing, nofun⟩
    · cases known
  · obtain ⟨value, ts, semicolon, rfl, rfl, spelled, isSemicolon⟩ :=
      expressionStatement_spelled after
    exact ⟨false, .expression spelled isSemicolon, nofun⟩

theorem function_spelled {function : Function Unit}
    (reads : Parsing.function limit (declarationAt limit) function taken next) :
    Function.Spelled limit function taken := by
  obtain ⟨name, _, isName, rfl, afterName⟩ := andThen_name.1 reads
  obtain ⟨opening, _, isOpening, rfl, parameters, ts, _, rfl, list, afterList⟩ :=
    andThen_token.1 afterName
  obtain ⟨closing, _, isClosing, rfl, afterClosing⟩ := andThen_token.1 afterList
  obtain ⟨left, _, isLeft, rfl, afterLeft⟩ := andThen_token.1 afterClosing
  obtain ⟨body, inner, rfl⟩ := andThen_pure.1 afterLeft
  obtain ⟨us, right, rfl, isRight, many⟩ := block_iff.1 inner
  have weaken (parameter : Ident) (ts : List Token) (next : Kind)
      (spelled : Parsing.name parameter ts next) : Ident.Spelled parameter ts := spelled
  obtain ⟨separated, allowed⟩ := elements_separated weaken list
  exact .mk isName isOpening separated allowed isClosing isLeft many.declaredAll isRight

theorem Many.spelledAll {methods : List (Function Unit)}
    (many : Many (unended endsBlock (Parsing.function limit (declarationAt limit))) methods
      taken next) : Function.SpelledAll limit methods taken := by
  induction many with
  | nil => exact .nil
  | cons reads _ ih => exact .cons (function_spelled reads.2) ih

theorem classDeclaration_spelled {s : Stmt Unit} {keyword : Token}
    (isClass : keyword.kind = .keyword .class_)
    (reads : classDeclaration limit (declarationAt limit) s taken next) :
    Stmt.Declared limit false s (keyword :: taken) := by
  obtain ⟨name, _, isName, rfl, parent, ts, _, rfl, extends_, afterParent⟩ := andThen_name.1 reads
  obtain ⟨opening, _, isOpening, rfl, methods, us, _, rfl, list, afterMethods⟩ :=
    andThen_token.1 afterParent
  obtain ⟨closing, _, isClosing, rfl, rfl, rfl⟩ := andThen_token.1 afterMethods
  have superclass : SuperclassSpelled parent ts := by
    rcases extends_ with ⟨less, _, isLess, rfl, named⟩ | ⟨-, rfl, rfl⟩
    · obtain ⟨name, _, isName, rfl, rfl, rfl⟩ := andThen_name.1 named
      exact .some isLess isName
    · exact .none
  exact .classDecl isClass isName superclass isOpening (items_iff.1 list).1.spelledAll isClosing

theorem led_declaration_declared {s : Stmt Unit}
    (reads : led (declarationAfter limit (spelledAt limit .assignment) (declarationAt limit))
      (statementAt limit) s taken next) :
    declarationAt limit s taken next := by
  rcases reads with ⟨keyword, rest, reading, known, rfl, after⟩ | ⟨-, isOpen, spelled, follows⟩
  · unfold declarationAfter at known
    split at known
    · rename_i isKind
      cases known
      exact ⟨false, classDeclaration_spelled isKind after, nofun⟩
    · rename_i isKind
      cases known
      obtain ⟨declared, inner, rfl⟩ := andThen_pure.1 after
      exact ⟨false, .function isKind (function_spelled inner), nofun⟩
    · rename_i isKind
      cases known
      exact ⟨false, .declare isKind (variableDeclaration_spelled after), nofun⟩
    · cases known
  · exact ⟨isOpen, .statement spelled, follows⟩

end Parsing

namespace Parser

theorem declarationAt_nonempty (s : Stmt Unit) (taken : List Token) (next : Kind)
    (reads : declarationAt limit s taken next) : taken ≠ [] := by
  rcases reads with ⟨isOpen, declared, -⟩
  obtain ⟨first, rest, rfl, -⟩ := declared.starts
  exact List.cons_ne_nil _ _

/-! ### Soundness -/

theorem statement_succ (room : Nat) :
    statement limit (room + 1) =
      statementOf (expression limit room) (statement limit room) (declaration limit room) := by
  funext stream
  rw [statement]

theorem declaration_succ (room : Nat) :
    declaration limit (room + 1) =
      recovering (declarationOf limit (expression limit room) (statement limit room)
        (declaration limit room)) := by
  funext stream
  rw [declaration]

theorem statement_and_declaration_sound (room : Nat) :
    Sound limit (room - 2) (statement limit room) (statementAt limit) ∧
      Sound limit (room - 3) (lift (declaration limit room)) (present (declarationAt limit)) := by
  induction room with
  | zero =>
      refine ⟨fun stream proper => ?_, fun stream proper => ?_⟩
      · rw [statement]
        exact tooDeep_sound (by decide) stream proper
      · have deep : lift (declaration limit 0) stream = tooDeep stream := by
          rw [lift, declaration, tooDeep]
        rw [deep]
        exact tooDeep_sound (by decide) stream proper
  | succ room ih =>
      rcases ih with ⟨soundS, soundD⟩
      have soundE : Sound limit (room - 1) (expression limit room) (spelledAt limit .assignment) :=
        expression_sound room
      push_cast
      refine ⟨?_, ?_⟩
      · rw [statement_succ]
        exact (statementOf_sound declarationAt_nonempty (soundE.needLess (by omega))
          (soundS.needLess (by omega)) (soundD.needLess (by omega))).mono
            fun _ _ _ => Parsing.led_statement_spelled
      · rw [declaration_succ]
        exact recovering_sound ((declarationOf_sound declarationAt_nonempty
          (soundE.needLess (by omega)) (soundS.needLess (by omega))
          (soundD.needLess (by omega))).mono fun _ _ _ => Parsing.led_declaration_declared)

/-- What is read as a declaration without an error is one. -/
theorem declaration_sound (room : Nat) :
    Sound limit (room - 3) (lift (declaration limit room)) (present (declarationAt limit)) :=
  (statement_and_declaration_sound room).2

end Parser

/-! ### Every statement is read -/

/-- A statement of at most `size` tokens, where no `else` follows that it would take. -/
def statementWithin (limit : ArgumentLimit) (size : Nat) : Parsing (Stmt Unit) :=
  fun s taken next => statementAt limit s taken next ∧ taken.length ≤ size

/-- A declaration of at most `size` tokens, where no `else` follows that it would take. -/
def declarationWithin (limit : ArgumentLimit) (size : Nat) : Parsing (Stmt Unit) :=
  fun s taken next => declarationAt limit s taken next ∧ taken.length ≤ size

namespace Parsing

variable {taken : List Token} {next : Kind} {size : Nat}

/-- An expression that a token ends with which no expression goes on. -/
theorem operand_of_spelled {e : Expr Unit} (spelled : Expr.Spelled limit .assignment e taken)
    (ends : next.joins? = none) (short : taken.length ≤ size) :
    operand limit .assignment size e taken next :=
  ⟨spelled, Level.stops_of_joins?_eq_none ends _, short⟩

theorem expressionBefore_of_spelledOpt {kind : Kind} {value : Option (Expr Unit)}
    (spelled : Expr.SpelledOpt limit value taken) (ends : kind.joins? = none)
    (closes : kind.startsExpression = false) (short : taken.length ≤ size) :
    expressionBefore kind (operand limit .assignment size) value taken kind := by
  cases spelled with
  | none => exact ⟨true, [], [], rfl, ⟨by simp, rfl⟩, rfl, rfl⟩
  | some spelled =>
      obtain ⟨first, rest, isTaken, starts⟩ := spelled.starts
      have opens : firstKind taken kind ≠ kind := by
        rw [isTaken, firstKind_cons]
        intro same
        rw [same, closes] at starts
        cases starts
      exact ⟨false, [], taken, rfl, ⟨by simp [opens], rfl⟩,
        andThen_pure.2 ⟨_, operand_of_spelled spelled ends short, rfl⟩⟩

theorem variableDeclaration_of_spelled {s : Stmt Unit}
    (spelled : Stmt.VariableSpelled limit s taken) (short : taken.length ≤ size) :
    variableDeclaration (operand limit .assignment size) s taken next := by
  cases spelled with
  | @bare name semicolon isName isSemicolon =>
      refine andThen_name.2 ⟨name, [semicolon], isName, rfl, Or.inr ⟨?_, ?_⟩⟩
      · simp [isSemicolon]
      · exact andThen_token.2 ⟨semicolon, [], isSemicolon, rfl, rfl, rfl⟩
  | @initialized name equals semicolon value ts isName isEquals spelled isSemicolon =>
      simp only [List.length_cons, List.length_append] at short
      refine andThen_name.2 ⟨name, _, isName, rfl, Or.inl ⟨equals, _, isEquals, rfl, ?_⟩⟩
      refine ⟨value, ts, [semicolon], rfl, ?_, ?_⟩
      · exact operand_of_spelled spelled (by rw [firstKind_cons, isSemicolon]; rfl) (by omega)
      · exact andThen_token.2 ⟨semicolon, [], isSemicolon, rfl, rfl, rfl⟩

theorem expressionStatement_of_spelled {value : Expr Unit} {semicolon : Token} {ts : List Token}
    (spelled : Expr.Spelled limit .assignment value ts)
    (isSemicolon : semicolon.kind = .semicolon) (short : ts.length ≤ size) :
    expressionStatement (operand limit .assignment size) (.expression value)
      (ts ++ [semicolon]) next := by
  refine ⟨value, ts, [semicolon], rfl, ?_, ?_⟩
  · exact operand_of_spelled spelled (by rw [firstKind_cons, isSemicolon]; rfl) short
  · exact andThen_token.2 ⟨semicolon, [], isSemicolon, rfl, rfl, rfl⟩

theorem forInitializer_of_spelled {initializer : Option (Stmt Unit)}
    (spelled : Stmt.InitializerSpelled limit initializer taken) (short : taken.length ≤ size) :
    forInitializer (operand limit .assignment size) initializer taken next := by
  cases spelled with
  | @none semicolon isSemicolon => exact Or.inl ⟨semicolon, [], isSemicolon, rfl, rfl, rfl⟩
  | @declare keyword declaration ts isVar spelled =>
      simp only [List.length_cons] at short
      refine Or.inr ⟨by simp [isVar], Or.inl ⟨keyword, ts, isVar, rfl, andThen_pure.2 ?_⟩⟩
      exact ⟨declaration, variableDeclaration_of_spelled spelled (by omega), rfl⟩
  | @expression value semicolon ts spelled isSemicolon =>
      simp only [List.length_append] at short
      obtain ⟨first, rest, isTs, starts⟩ := spelled.starts
      have opens (kind : Kind) (closes : kind.startsExpression = false) :
          firstKind (ts ++ [semicolon]) next ≠ kind := by
        rw [isTs, List.cons_append, firstKind_cons]
        intro same
        rw [same, closes] at starts
        cases starts
      refine Or.inr ⟨opens _ rfl, Or.inr ⟨opens _ rfl, andThen_pure.2 ⟨_, ?_, rfl⟩⟩⟩
      exact expressionStatement_of_spelled spelled isSemicolon (by omega)

/-- What starts a declaration neither ends a block nor goes on with an open statement. -/
theorem startsDeclaration_opens {kind : Kind} (starts : kind.startsDeclaration = true) :
    endsBlock kind = false ∧ kind ≠ .keyword .else_ := by
  refine ⟨?_, ?_⟩
  · cases isEnd : endsBlock kind with
    | false => rfl
    | true =>
        simp only [endsBlock, Bool.or_eq_true, decide_eq_true_eq] at isEnd
        rcases isEnd with rfl | rfl <;> cases starts
  · rintro rfl
    cases starts

theorem firstKind_declared {body : List (Stmt Unit)} (declared : Stmt.DeclaredAll limit body taken)
    (noElse : next ≠ .keyword .else_) : firstKind taken next ≠ .keyword .else_ := by
  cases declared with
  | nil => exact noElse
  | cons first others =>
      obtain ⟨token, rest, rfl, starts⟩ := first.starts
      exact (startsDeclaration_opens starts).2

theorem many_of_declaredAll {body : List (Stmt Unit)}
    (declared : Stmt.DeclaredAll limit body taken) (short : taken.length ≤ size)
    (noElse : next ≠ .keyword .else_) :
    Many (unended endsBlock (declarationWithin limit size)) body taken next := by
  induction body generalizing taken with
  | nil =>
      cases declared
      exact .nil
  | cons s rest ih =>
      cases declared with
      | @cons isOpen _ _ ts us first others =>
          rw [List.length_append] at short
          obtain ⟨token, tokens, isTs, starts⟩ := first.starts
          refine .cons ⟨?_, ⟨isOpen, first, fun _ => firstKind_declared others noElse⟩, by omega⟩
            (ih others (by omega))
          rw [isTs, firstKind_cons]
          exact (startsDeclaration_opens starts).1

theorem block_of_declaredAll {body : List (Stmt Unit)} {closing : Token}
    (declared : Stmt.DeclaredAll limit body taken) (isClosing : closing.kind = .rightBrace)
    (short : taken.length ≤ size) :
    block (declarationWithin limit size) body (taken ++ [closing]) next :=
  block_iff.2 ⟨taken, closing, rfl, isClosing, many_of_declaredAll declared short (by decide)⟩

theorem function_of_spelled {function : Function Unit}
    (spelled : Function.Spelled limit function taken) (short : taken.length ≤ size) :
    Parsing.function limit (declarationWithin limit size) function taken next := by
  cases spelled with
  | @mk name opening closing left right parameters body ts us isName isOpening separated allowed
      isClosing isLeft inner isRight =>
      simp only [List.length_cons, List.length_append] at short
      have list : elements limit Parsing.name parameters ts .rightParen := by
        refine Separated.elements (fun _ _ named => ⟨named, named⟩) ?_ separated allowed
        rintro parameter us ⟨token, isName, rfl, -⟩
        exact ⟨token, [], rfl, by simp [isName]⟩
      refine andThen_name.2 ⟨name, _, isName, rfl, andThen_token.2 ⟨opening, _, isOpening, rfl, ?_⟩⟩
      refine ⟨parameters, ts, _, rfl, by rwa [firstKind_cons, isClosing], ?_⟩
      refine andThen_token.2 ⟨closing, _, isClosing, rfl, andThen_token.2 ⟨left, _, isLeft, rfl, ?_⟩⟩
      exact andThen_pure.2 ⟨body, block_of_declaredAll inner isRight (by omega), rfl⟩

theorem many_of_spelledAll {methods : List (Function Unit)}
    (spelled : Function.SpelledAll limit methods taken) (short : taken.length ≤ size) :
    Many (unended endsBlock (Parsing.function limit (declarationWithin limit size))) methods
      taken next := by
  induction methods generalizing taken with
  | nil =>
      cases spelled
      exact .nil
  | cons method rest ih =>
      cases spelled with
      | @cons _ _ ts us first others =>
          rw [List.length_append] at short
          refine .cons ⟨?_, function_of_spelled first (by omega)⟩ (ih others (by omega))
          cases first with
          | mk isName => simp [isName, endsBlock]

theorem classDeclaration_of_declared {name opening closing : Token}
    {parent : Option (Ident × Unit)} {methods : List (Function Unit)} {ts us : List Token}
    (isName : name.kind = .identifier) (superclass : SuperclassSpelled parent ts)
    (isOpening : opening.kind = .leftBrace) (spelled : Function.SpelledAll limit methods us)
    (isClosing : closing.kind = .rightBrace) (short : us.length ≤ size) :
    classDeclaration limit (declarationWithin limit size)
      (.classDecl name.ident parent methods) (name :: (ts ++ opening :: (us ++ [closing]))) next := by
  refine andThen_name.2 ⟨name, _, isName, rfl, parent, ts, _, rfl, ?_, ?_⟩
  · cases superclass with
    | none => exact Or.inr ⟨by simp [isOpening], rfl, rfl⟩
    | @some less name isLess isName =>
        exact Or.inl ⟨less, [name], isLess, rfl, andThen_name.2 ⟨name, [], isName, rfl, rfl, rfl⟩⟩
  · refine andThen_token.2 ⟨opening, _, isOpening, rfl, methods, us, [closing], rfl, ?_, ?_⟩
    · rw [firstKind_cons, isClosing]
      exact items_iff.2 ⟨many_of_spelledAll spelled short, rfl⟩
    · exact andThen_token.2 ⟨closing, [], isClosing, rfl, rfl, rfl⟩

theorem ifStatement_of_spelled {isOpen : Bool} {opening closing : Token} {condition : Expr Unit}
    {thenBranch : Stmt Unit} {ts us : List Token} (isOpening : opening.kind = .leftParen)
    (spelled : Expr.Spelled limit .assignment condition ts) (isClosing : closing.kind = .rightParen)
    (first : Stmt.Spelled limit isOpen thenBranch us) (noElse : next ≠ .keyword .else_)
    (short : ts.length ≤ size ∧ us.length ≤ size) :
    ifStatement (operand limit .assignment size) (statementWithin limit size)
      (.branch condition thenBranch none) (opening :: (ts ++ closing :: us)) next := by
  refine andThen_token.2 ⟨opening, _, isOpening, rfl, condition, ts, _, rfl, ?_, ?_⟩
  · exact operand_of_spelled spelled (by rw [firstKind_cons, isClosing]; rfl) short.1
  · refine andThen_token.2 ⟨closing, us, isClosing, rfl, thenBranch, us, [], by simp, ?_, ?_⟩
    · exact ⟨⟨isOpen, first, fun _ => noElse⟩, short.2⟩
    · exact Or.inr ⟨noElse, rfl, rfl⟩

theorem ifElse_of_spelled {isOpen : Bool} {opening closing separator : Token}
    {condition : Expr Unit} {thenBranch elseBranch : Stmt Unit} {ts us vs : List Token}
    (isOpening : opening.kind = .leftParen)
    (spelled : Expr.Spelled limit .assignment condition ts) (isClosing : closing.kind = .rightParen)
    (first : Stmt.Spelled limit false thenBranch us) (isElse : separator.kind = .keyword .else_)
    (second : Stmt.Spelled limit isOpen elseBranch vs)
    (noElse : isOpen = true → next ≠ .keyword .else_)
    (short : ts.length ≤ size ∧ us.length ≤ size ∧ vs.length ≤ size) :
    ifStatement (operand limit .assignment size) (statementWithin limit size)
      (.branch condition thenBranch (some elseBranch))
      (opening :: (ts ++ closing :: (us ++ separator :: vs))) next := by
  refine andThen_token.2 ⟨opening, _, isOpening, rfl, condition, ts, _, rfl, ?_, ?_⟩
  · exact operand_of_spelled spelled (by rw [firstKind_cons, isClosing]; rfl) short.1
  · refine andThen_token.2 ⟨closing, _, isClosing, rfl, thenBranch, us, separator :: vs, rfl, ?_, ?_⟩
    · exact ⟨⟨false, first, nofun⟩, short.2.1⟩
    · refine Or.inl ⟨separator, vs, isElse, rfl, andThen_pure.2 ⟨elseBranch, ?_, rfl⟩⟩
      exact ⟨⟨isOpen, second, noElse⟩, short.2.2⟩

theorem whileLoop_of_spelled {isOpen : Bool} {opening closing : Token} {condition : Expr Unit}
    {body : Stmt Unit} {ts us : List Token} (isOpening : opening.kind = .leftParen)
    (spelled : Expr.Spelled limit .assignment condition ts) (isClosing : closing.kind = .rightParen)
    (inner : Stmt.Spelled limit isOpen body us) (noElse : isOpen = true → next ≠ .keyword .else_)
    (short : ts.length ≤ size ∧ us.length ≤ size) :
    whileLoop (operand limit .assignment size) (statementWithin limit size)
      (.loop condition body) (opening :: (ts ++ closing :: us)) next := by
  refine andThen_token.2 ⟨opening, _, isOpening, rfl, condition, ts, _, rfl, ?_, ?_⟩
  · exact operand_of_spelled spelled (by rw [firstKind_cons, isClosing]; rfl) short.1
  · refine andThen_token.2 ⟨closing, us, isClosing, rfl, andThen_pure.2 ⟨body, ?_, rfl⟩⟩
    exact ⟨⟨isOpen, inner, noElse⟩, short.2⟩

theorem forLoop_of_spelled {isOpen : Bool} {opening semicolon closing : Token}
    {initializer : Option (Stmt Unit)} {condition increment : Option (Expr Unit)}
    {body : Stmt Unit} {ts us vs ws : List Token} (isOpening : opening.kind = .leftParen)
    (first : Stmt.InitializerSpelled limit initializer ts)
    (second : Expr.SpelledOpt limit condition us) (isSemicolon : semicolon.kind = .semicolon)
    (third : Expr.SpelledOpt limit increment vs) (isClosing : closing.kind = .rightParen)
    (inner : Stmt.Spelled limit isOpen body ws) (noElse : isOpen = true → next ≠ .keyword .else_)
    (short : (ts ++ (us ++ semicolon :: (vs ++ closing :: ws))).length ≤ size) :
    forLoop (operand limit .assignment size) (statementWithin limit size)
      (Stmt.forLoop initializer condition increment body)
      (opening :: (ts ++ (us ++ semicolon :: (vs ++ closing :: ws)))) next := by
  simp only [List.length_append, List.length_cons] at short
  refine andThen_token.2 ⟨opening, _, isOpening, rfl, initializer, ts, _, rfl, ?_, ?_⟩
  · exact forInitializer_of_spelled first (by omega)
  refine ⟨condition, us, _, rfl, ?_, ?_⟩
  · rw [firstKind_cons, isSemicolon]
    exact expressionBefore_of_spelledOpt second rfl rfl (by omega)
  refine andThen_token.2 ⟨semicolon, _, isSemicolon, rfl, increment, vs, _, rfl, ?_, ?_⟩
  · rw [firstKind_cons, isClosing]
    exact expressionBefore_of_spelledOpt third rfl rfl (by omega)
  refine andThen_token.2 ⟨closing, ws, isClosing, rfl, andThen_pure.2 ⟨body, ?_, rfl⟩⟩
  exact ⟨⟨isOpen, inner, noElse⟩, by omega⟩

theorem statementAfter_expression {readingE : Parsing (Expr Unit)}
    {readingS readingD : Parsing (Stmt Unit)} {token : Token}
    (starts : token.kind.startsExpression = true) :
    statementAfter readingE readingS readingD token = none := by
  unfold statementAfter
  split <;> simp_all [Kind.startsExpression]

theorem declarationAfter_statement {readingE : Parsing (Expr Unit)}
    {readingD : Parsing (Stmt Unit)} {token : Token} (starts : token.kind.startsStatement = true) :
    declarationAfter limit readingE readingD token = none := by
  unfold declarationAfter
  split <;> simp_all [Kind.startsStatement, Kind.startsExpression]

theorem led_of_statement {s : Stmt Unit} (within : statementWithin limit (size + 1) s taken next) :
    led (statementAfter (operand limit .assignment size) (statementWithin limit size)
      (declarationWithin limit size)) (expressionStatement (operand limit .assignment size))
      s taken next := by
  rcases within with ⟨⟨isOpen, spelled, noElse⟩, short⟩
  cases spelled with
  | @expression value semicolon ts spelled isSemicolon =>
      simp only [List.length_append, List.length_cons] at short
      refine Or.inr ⟨?_, expressionStatement_of_spelled spelled isSemicolon (by omega)⟩
      obtain ⟨first, rest, rfl, starts⟩ := spelled.starts
      rintro token others isFirst
      cases isFirst
      exact statementAfter_expression starts
  | @print keyword semicolon value ts isPrint spelled isSemicolon =>
      simp only [List.length_append, List.length_cons] at short
      refine Or.inl ⟨keyword, _, _, by rw [statementAfter, isPrint], rfl, ?_⟩
      refine ⟨value, ts, [semicolon], rfl, ?_, ?_⟩
      · exact operand_of_spelled spelled (by rw [firstKind_cons, isSemicolon]; rfl) (by omega)
      · exact andThen_token.2 ⟨semicolon, [], isSemicolon, rfl, rfl, rfl⟩
  | @ret keyword semicolon value ts isReturn spelled isSemicolon =>
      simp only [List.length_append, List.length_cons] at short
      refine Or.inl ⟨keyword, _, _, by rw [statementAfter, isReturn], rfl, ?_⟩
      refine ⟨value, ts, [semicolon], rfl, ?_, ?_⟩
      · rw [firstKind_cons, isSemicolon]
        exact expressionBefore_of_spelledOpt spelled rfl rfl (by omega)
      · exact andThen_token.2 ⟨semicolon, [], isSemicolon, rfl, rfl, rfl⟩
  | loop isWhile isOpening spelled isClosing inner =>
      simp only [List.length_append, List.length_cons] at short
      exact Or.inl ⟨_, _, _, by rw [statementAfter, isWhile], rfl,
        whileLoop_of_spelled isOpening spelled isClosing inner noElse ⟨by omega, by omega⟩⟩
  | forLoop isFor isOpening first second isSemicolon third isClosing inner =>
      refine Or.inl ⟨_, _, _, by rw [statementAfter, isFor], rfl,
        forLoop_of_spelled isOpening first second isSemicolon third isClosing inner noElse ?_⟩
      simp only [List.length_cons] at short
      omega
  | ifThen isIf isOpening spelled isClosing first =>
      simp only [List.length_append, List.length_cons] at short
      exact Or.inl ⟨_, _, _, by rw [statementAfter, isIf], rfl,
        ifStatement_of_spelled isOpening spelled isClosing first (noElse rfl)
          ⟨by omega, by omega⟩⟩
  | ifElse isIf isOpening spelled isClosing first isElse second =>
      simp only [List.length_append, List.length_cons] at short
      exact Or.inl ⟨_, _, _, by rw [statementAfter, isIf], rfl,
        ifElse_of_spelled isOpening spelled isClosing first isElse second noElse
          ⟨by omega, by omega, by omega⟩⟩
  | block isOpening inner isClosing =>
      simp only [List.length_append, List.length_cons] at short
      exact Or.inl ⟨_, _, _, by rw [statementAfter, isOpening], rfl,
        andThen_pure.2 ⟨_, block_of_declaredAll inner isClosing (by omega), rfl⟩⟩

theorem led_of_declaration {s : Stmt Unit}
    (within : declarationWithin limit (size + 1) s taken next) :
    led (declarationAfter limit (operand limit .assignment size) (declarationWithin limit size))
      (statementWithin limit (size + 1)) s taken next := by
  rcases within with ⟨⟨isOpen, declared, noElse⟩, short⟩
  cases declared with
  | statement spelled =>
      refine Or.inr ⟨?_, ⟨isOpen, spelled, noElse⟩, short⟩
      obtain ⟨first, rest, rfl, starts⟩ := spelled.starts
      rintro token others isFirst
      cases isFirst
      exact declarationAfter_statement starts
  | declare isVar spelled =>
      simp only [List.length_cons] at short
      exact Or.inl ⟨_, _, _, by rw [declarationAfter, isVar], rfl,
        variableDeclaration_of_spelled spelled (by omega)⟩
  | function isFun spelled =>
      simp only [List.length_cons] at short
      exact Or.inl ⟨_, _, _, by rw [declarationAfter, isFun], rfl,
        andThen_pure.2 ⟨_, function_of_spelled spelled (by omega), rfl⟩⟩
  | classDecl isClass isName superclass isOpening spelled isClosing =>
      simp only [List.length_cons, List.length_append] at short
      exact Or.inl ⟨_, _, _, by rw [declarationAfter, isClass], rfl,
        classDeclaration_of_declared isName superclass isOpening spelled isClosing (by omega)⟩

end Parsing

namespace Parser

/-! ### Completeness -/

theorem statementWithin_nonempty {size : Nat} (s : Stmt Unit) (taken : List Token) (next : Kind)
    (within : statementWithin limit size s taken next) : taken ≠ [] := by
  rcases within with ⟨⟨isOpen, spelled, -⟩, -⟩
  obtain ⟨first, rest, rfl, -⟩ := spelled.starts
  exact List.cons_ne_nil _ _

theorem declarationWithin_nonempty {size : Nat} (s : Stmt Unit) (taken : List Token)
    (next : Kind) (within : declarationWithin limit size s taken next) : taken ≠ [] :=
  declarationAt_nonempty s taken next within.1

theorem operand_nonempty {size : Nat} (e : Expr Unit) (taken : List Token) (next : Kind)
    (operand : Parsing.operand limit .assignment size e taken next) : taken ≠ [] := by
  obtain ⟨first, rest, rfl, -⟩ := operand.1.starts
  exact List.cons_ne_nil _ _

theorem statement_and_declaration_complete (room : Nat) :
    (∀ size, 2 * size ≤ room →
      Complete (statement limit room) (statementWithin limit size)) ∧
    ∀ size, 2 * size + 1 ≤ room →
      Complete (declaration limit room) (present (declarationWithin limit size)) := by
  induction room with
  | zero =>
      refine ⟨fun size enough => ?_, fun size enough => absurd enough (by omega)⟩
      intro stream s taken next rest split bounded within
      have nonempty := List.length_pos_iff.2 (statementWithin_nonempty s taken next.kind within)
      have short := within.2
      omega
  | succ room ih =>
      rcases ih with ⟨completeS, completeD⟩
      refine ⟨fun size enough => ?_, fun size enough => ?_⟩
      · cases size with
        | zero =>
            intro stream s taken next rest split bounded within
            exact absurd (List.length_eq_zero_iff.1 (Nat.le_zero.1 within.2))
              (statementWithin_nonempty s taken next.kind within)
        | succ size =>
            rw [statement_succ]
            exact (statementOf_complete declarationWithin_nonempty operand_nonempty
              (expression_complete (by omega)) (completeS size (by omega))
              (completeD size (by omega))).mono fun _ _ _ => Parsing.led_of_statement
      · cases size with
        | zero =>
            rintro stream found taken next rest split bounded ⟨s, rfl, within⟩
            exact absurd (List.length_eq_zero_iff.1 (Nat.le_zero.1 within.2))
              (declarationWithin_nonempty s taken next.kind within)
        | succ size =>
            rw [declaration_succ]
            exact recovering_complete ((declarationOf_complete declarationWithin_nonempty
              statementWithin_nonempty (expression_complete (by omega))
              (completeS (size + 1) (by omega)) (completeD size (by omega))).mono
                fun _ _ _ => Parsing.led_of_declaration)

/-- Every declaration is read, given room for twice as many levels as it has tokens. -/
theorem declaration_complete {room size : Nat} (enough : 2 * size + 1 ≤ room) :
    Complete (declaration limit room) (present (declarationWithin limit size)) :=
  (statement_and_declaration_complete room).2 size enough

end Parser

end LoxLang
