/-
Module: LoxLang.Proofs.Rewording.Parsing
Purpose: Reading looks at the kinds of tokens and at nothing else, so tokens with other words are
  read as a program with other words, with the same errors at the same tokens.
Main exports: Stream.reword, Commutes, Parser.Respects, Parser.expression_respects,
  Parser.declaration_respects, Program.parseWithin_reword
-/
import LoxLang.Proofs.Parser.Program
import LoxLang.Proofs.Rewording.Tree

namespace LoxLang

variable {change : Rewording}

/-! ### Streams -/

/-- An error at a token with another word. -/
def SyntaxError.reword (change : Rewording) (error : SyntaxError) : SyntaxError where
  cause := error.cause
  token := error.token.reword change

/-- An interrupt at a token with another word. -/
def Interrupt.reword (change : Rewording) : Interrupt → Interrupt
  | syntaxError error => syntaxError (error.reword change)
  | abort reason => abort reason

namespace Stream

/-- A stream of tokens with other words. -/
def reword (change : Rewording) (stream : Stream) : Stream where
  current := stream.current.reword change
  rest := stream.rest.map (Token.reword change)
  errors := stream.errors.map (SyntaxError.reword change)
  size := stream.size

@[simp] theorem current_reword (stream : Stream) :
    (stream.reword change).current = stream.current.reword change :=
  rfl

@[simp] theorem size_reword (stream : Stream) : (stream.reword change).size = stream.size :=
  rfl

@[simp] theorem advance_reword (stream : Stream) :
    (stream.reword change).advance = stream.advance.reword change := by
  rcases stream with ⟨current, rest, errors, size⟩
  cases rest with
  | nil => rfl
  | cons following rest =>
      by_cases isEnd : current.kind = .eof <;> simp [advance, reword, atEnd, isEnd]

@[simp] theorem report_reword (stream : Stream) (error : SyntaxError) :
    (stream.reword change).report (error.reword change) = (stream.report error).reword change := by
  simp only [report, reword, Array.map_push]

theorem skipToBoundary_reword (previous current : Token) (rest : List Token) :
    skipToBoundary (previous.reword change) (current.reword change)
        (rest.map (Token.reword change)) =
      ((skipToBoundary previous current rest).1.reword change,
        (skipToBoundary previous current rest).2.map (Token.reword change)) := by
  induction rest generalizing previous current with
  | nil => rfl
  | cons following rest ih =>
      simp only [List.map_cons, skipToBoundary, Token.kind_reword]
      by_cases stops : current.kind = .eof ∨ previous.kind = .semicolon ∨ isBoundary current.kind
      · simp only [if_pos stops, List.map_cons]
      · simp only [if_neg stops]
        exact ih current following

@[simp] theorem synchronize_reword (stream : Stream) :
    (stream.reword change).synchronize = stream.synchronize.reword change := by
  rcases stream with ⟨current, rest, errors, size⟩
  cases rest with
  | nil => rfl
  | cons following rest =>
      by_cases isEnd : current.kind = .eof <;>
        simp [synchronize, reword, atEnd, isEnd, skipToBoundary_reword]

theorem ofTokens_reword (first : Token) (rest : List Token) :
    ofTokens ((first :: rest).map (Token.reword change)) =
      (ofTokens (first :: rest)).reword change := by
  simp only [List.map_cons, ofTokens, reword, List.length_map, List.map_toArray, List.map_nil]

end Stream

/-! ### Parsers that do not look at words -/

section Commutes

variable {ε α β γ δ : Type} {stop : ε → ε}

/-- What comes out of a stream of tokens with other words. -/
def rewordResult (change : Rewording) (stop : ε → ε) (image : α → β) :
    EStateM.Result ε Stream α → EStateM.Result ε Stream β
  | .ok value following => .ok (image value) (following.reword change)
  | .error interrupt following => .error (stop interrupt) (following.reword change)

/-- A parser comes out of a stream with other words as another parser comes out of the stream,
but for the words. -/
def Commutes (change : Rewording) (stop : ε → ε) (image : α → β) (parser : EStateM ε Stream α)
    (other : EStateM ε Stream β) : Prop :=
  ∀ stream, other (stream.reword change) = rewordResult change stop image (parser stream)

namespace Commutes

variable {image : α → β} {parser : EStateM ε Stream α} {other : EStateM ε Stream β}

theorem pure {value : α} {result : β} (same : result = image value) :
    Commutes change stop image (Pure.pure value) (Pure.pure result) := by
  intro stream
  rw [same]
  rfl

theorem bind {after : γ → δ} {next : α → EStateM ε Stream γ} {following : β → EStateM ε Stream δ}
    (first : Commutes change stop image parser other)
    (second : ∀ value, Commutes change stop after (next value) (following (image value))) :
    Commutes change stop after (parser >>= next) (other >>= following) := by
  intro stream
  have outcome := first stream
  simp only [Bind.bind, EStateM.bind]
  cases result : parser stream with
  | ok value rest =>
      rw [result] at outcome
      rw [outcome]
      exact second value rest
  | error interrupt rest =>
      rw [result] at outcome
      rw [outcome]
      rfl

/-- A choice that does not depend on words. -/
theorem ite {condition : Prop} [Decidable condition] {yes no : EStateM ε Stream α}
    {otherYes otherNo : EStateM ε Stream β}
    (whenTrue : Commutes change stop image yes otherYes)
    (whenFalse : Commutes change stop image no otherNo) :
    Commutes change stop image (if condition then yes else no)
      (if condition then otherYes else otherNo) := by
  split
  · exact whenTrue
  · exact whenFalse

theorem repeatUpTo {step : α → EStateM ε Stream (Bool × α)} {turn : β → EStateM ε Stream (Bool × β)}
    (steps : ∀ state, Commutes change stop (Prod.map id image) (step state) (turn (image state)))
    (bound : Nat) (state : α) :
    Commutes change stop image (Parser.repeatUpTo step bound state)
      (Parser.repeatUpTo turn bound (image state)) := by
  induction bound generalizing state with
  | zero => exact fun stream => rfl
  | succ bound ih =>
      intro stream
      have outcome := steps state stream
      simp only [Parser.repeatUpTo]
      cases result : step state stream with
      | error interrupt rest =>
          rw [result] at outcome
          simp only [outcome, rewordResult]
      | ok found rest =>
          rcases found with ⟨again, following⟩
          rw [result] at outcome
          simp only [outcome, rewordResult, Prod.map, id]
          cases again with
          | true => exact ih following rest
          | false => rfl

theorem repeating {step : α → EStateM ε Stream (Bool × α)} {turn : β → EStateM ε Stream (Bool × β)}
    (steps : ∀ state, Commutes change stop (Prod.map id image) (step state) (turn (image state)))
    {state : α} {begin : β} (same : begin = image state) :
    Commutes change stop image (Parser.repeating step state) (Parser.repeating turn begin) := by
  intro stream
  rw [same]
  exact repeatUpTo steps stream.size state stream

theorem stepUntil (ends : Kind → Bool) {item : EStateM ε Stream (Option α)}
    {other : EStateM ε Stream (Option β)}
    (items : Commutes change stop (Option.map image) item other) (seen : Array α) :
    Commutes change stop (Prod.map id (Array.map image)) (Parser.stepUntil ends item seen)
      (Parser.stepUntil ends other (seen.map image)) := by
  intro stream
  have inside := items stream
  simp only [Parser.stepUntil, Stream.current_reword, Token.kind_reword]
  split
  · rfl
  · cases result : item stream with
    | error reason rest =>
        rw [result] at inside
        rw [inside]
        rfl
    | ok found rest =>
        rw [result] at inside
        rw [inside]
        cases found with
        | none => rfl
        | some value =>
            exact congrArg (EStateM.Result.ok · _) (Prod.ext rfl (Array.map_push ..).symm)

/-- What is collected up to a token that ends it. -/
theorem collecting (ends : Kind → Bool) {item : EStateM ε Stream (Option α)}
    {other : EStateM ε Stream (Option β)}
    (items : Commutes change stop (Option.map image) item other) :
    Commutes change stop (List.map image)
      (Parser.repeating (Parser.stepUntil ends item) #[] >>= fun all => Pure.pure all.toList)
      (Parser.repeating (Parser.stepUntil ends other) #[] >>= fun all => Pure.pure all.toList) :=
  bind (repeating (items.stepUntil ends) Array.map_empty.symm) fun _ => pure Array.toList_map

end Commutes

end Commutes

namespace Parser

/-- A parser yields the same with other words, but for the words. -/
abbrev Respects {α β : Type} (change : Rewording) (image : α → β) (parser : Parser α)
    (other : Parser β) : Prop :=
  Commutes change (Interrupt.reword change) image parser other

/-- A parser that recovers from errors yields the same with other words, but for the words. -/
abbrev RespectsAlways {α β : Type} (change : Rewording) (image : α → β) (parser : Recovered α)
    (other : Recovered β) : Prop :=
  Commutes change id image parser other

variable {α β : Type} {image : α → β} {parser : Parser α} {other : Parser β}

/-! ### Single tokens -/

theorem check_respects (kind : Kind) : Respects change id (check kind) (check kind) :=
  fun _ => rfl

theorem accept_respects (kind : Kind) : Respects change id (accept kind) (accept kind) := by
  intro stream
  simp only [accept, Stream.current_reword, Token.kind_reword, Stream.advance_reword]
  split <;> rfl

theorem acceptAs?_respects (meaning : Kind → Option α) :
    Respects change (Option.map (Prod.map id change.move)) (acceptAs? meaning)
      (acceptAs? meaning) := by
  intro stream
  simp only [acceptAs?, Stream.current_reword, Token.kind_reword, Stream.advance_reword]
  cases meaning stream.current.kind <;> rfl

theorem fail_respects (what : Expectation) : Respects change image (fail what) (fail what) :=
  fun _ => rfl

theorem expect_respects (kind : Kind) (what : Expectation) :
    Respects change (Token.reword change) (expect kind what) (expect kind what) := by
  intro stream
  simp only [expect, Stream.current_reword, Token.kind_reword, Stream.advance_reword]
  split
  · rfl
  · exact fail_respects what stream

theorem expectMark_respects {kind : Kind} {spelling place : String} :
    Respects change (Token.reword change) (expectMark kind spelling place)
      (expectMark kind spelling place) :=
  expect_respects kind _

theorem name_respects (what : Expectation) :
    Respects change (Ident.reword change) (name what) (name what) := by
  intro stream
  have outcome := @expect_respects change .identifier what stream
  simp only [name, Bind.bind, EStateM.bind]
  cases result : expect .identifier what stream with
  | error interrupt rest =>
      rw [result] at outcome
      rw [outcome]
      rfl
  | ok token rest =>
      -- only an identifier is taken, and its word is the one that changes
      have isName : token.kind = .identifier := by
        simp only [expect] at result
        split at result
        next isKind =>
          cases result
          exact isKind
        next => cases result
      rw [result] at outcome
      rw [outcome]
      simp only [rewordResult, Pure.pure, EStateM.pure, Token.reword, isName, ↓reduceIte]
      rfl

theorem report_respects (cause : SyntaxCause) (token : Token) :
    Respects change id (report cause token) (report cause (token.reword change)) := by
  intro stream
  simp only [report]
  exact congrArg (EStateM.Result.ok ()) (stream.report_reword ⟨cause, token⟩)

/-- Taking the next token first. -/
theorem advancing_respects (respects : Respects change image parser other) (stream : Stream) :
    other (stream.reword change).advance =
      rewordResult change (Interrupt.reword change) image (parser stream.advance) := by
  rw [Stream.advance_reword]
  exact respects stream.advance

/-! ### Recovery and lists -/

theorem lift_respects {parser : Recovered α} {other : Recovered β}
    (respects : RespectsAlways change image parser other) :
    Respects change image (lift parser) (lift other) := by
  intro stream
  have outcome := respects stream
  simp only [lift]
  cases result : parser stream <;> rw [result] at outcome <;> rw [outcome] <;> rfl

theorem recovering_respects (respects : Respects change image parser other) :
    RespectsAlways change (Option.map image) (recovering parser) (recovering other) := by
  intro stream
  have outcome := respects stream
  simp only [recovering]
  cases result : parser stream with
  | ok value rest =>
      rw [result] at outcome
      rw [outcome]
      rfl
  | error interrupt rest =>
      rw [result] at outcome
      rw [outcome]
      cases interrupt with
      | abort reason => rfl
      | syntaxError error =>
          simp only [rewordResult, Interrupt.reword, Stream.report_reword,
            Stream.synchronize_reword, Option.map_none]

theorem checkLimit_respects (limit : ArgumentLimit) (what : ListRole) (size : Nat) :
    Respects change id (checkLimit limit what size) (checkLimit limit what size) := by
  intro stream
  simp only [checkLimit]
  cases limit.reached? size with
  | none => rfl
  | some reached =>
      cases reached with
      | false => rfl
      | true => exact report_respects (.tooMany limit what) stream.current stream

theorem elements_respects (limit : ArgumentLimit) (what : ListRole)
    (respects : Respects change image parser other) :
    Respects change (List.map image) (elements limit what parser) (elements limit what other) := by
  refine (check_respects .rightParen).bind fun closes => .ite (.pure rfl) ?_
  refine Commutes.bind (?_ : Respects change (Array.map image) _ _) fun all =>
    .pure Array.toList_map
  refine Commutes.repeating (fun seen => ?_) Array.map_empty.symm
  rw [Array.size_map]
  refine (checkLimit_respects limit what seen.size).bind fun _ => respects.bind fun value =>
    (accept_respects .comma).bind fun more => .pure ?_
  exact Prod.ext rfl (Array.map_push ..).symm

/-! ### Operators -/

section Expressions

variable {operand otherOperand expression otherExpression : Parser (Expr Unit)}

theorem binaryChain_respects (operator? : Kind → Option BinaryOp)
    (respects : Respects change (Expr.reword change) operand otherOperand) :
    Respects change (Expr.reword change) (binaryChain operator? operand)
      (binaryChain operator? otherOperand) := by
  refine respects.bind fun first => Commutes.repeating (fun left => ?_) rfl
  refine (acceptAs?_respects operator?).bind fun found => ?_
  cases found with
  | none => exact .pure rfl
  | some found => exact respects.bind fun right => .pure rfl

theorem logicalChain_respects (kind : Kind) (op : LogicalOp)
    (respects : Respects change (Expr.reword change) operand otherOperand) :
    Respects change (Expr.reword change) (logicalChain kind op operand)
      (logicalChain kind op otherOperand) := by
  refine respects.bind fun first => Commutes.repeating (fun left => ?_) rfl
  refine (accept_respects kind).bind fun found => .ite ?_ (.pure rfl)
  exact respects.bind fun right => .pure rfl

theorem disjunction_respects
    (respects : Respects change (Expr.reword change) operand otherOperand) :
    Respects change (Expr.reword change) (disjunction operand) (disjunction otherOperand) := by
  have factor := binaryChain_respects BinaryOp.factor? respects
  have term := binaryChain_respects BinaryOp.term? factor
  have comparison := binaryChain_respects BinaryOp.comparison? term
  have equality := binaryChain_respects BinaryOp.equality? comparison
  exact logicalChain_respects _ .or (logicalChain_respects _ .and equality)

/-! ### Primary expressions and calls -/

theorem grouping_respects
    (respects : Respects change (Expr.reword change) expression otherExpression) :
    Respects change (Expr.reword change) (grouping expression) (grouping otherExpression) :=
  respects.bind fun _ => expectMark_respects.bind fun _ => .pure rfl

theorem superMethod_respects (keyword : Position) :
    Respects change (Expr.reword change) (superMethod keyword)
      (superMethod (change.move keyword)) :=
  expectMark_respects.bind fun _ => (name_respects _).bind fun _ => .pure rfl

theorem primary_respects
    (respects : Respects change (Expr.reword change) expression otherExpression) :
    Respects change (Expr.reword change) (primary expression) (primary otherExpression) := by
  intro stream
  simp only [primary, Stream.current_reword, Token.kind_reword, Token.literal_reword,
    Token.position_reword]
  cases isKind : stream.current.kind with
  | keyword word =>
      cases word with
      | super_ => exact advancing_respects (superMethod_respects _) stream
      | _ =>
          simp only [Stream.advance_reword]
          rfl
  | identifier =>
      simp only [Token.reword, isKind, ↓reduceIte, Stream.advance_reword]
      rfl
  | leftParen => exact advancing_respects (grouping_respects respects) stream
  | _ =>
      simp only [Stream.advance_reword]
      rfl

theorem callArguments_respects (limit : ArgumentLimit)
    (respects : Respects change (Expr.reword change) expression otherExpression)
    (callee : Expr Unit) :
    Respects change (Expr.reword change) (callArguments limit expression callee)
      (callArguments limit otherExpression (callee.reword change)) :=
  (elements_respects limit .arguments respects).bind fun arguments =>
    expectMark_respects.bind fun _ =>
      .pure (by rw [Expr.reword, Expr.rewordAll_eq_map]; rfl)

theorem call_respects (limit : ArgumentLimit)
    (respects : Respects change (Expr.reword change) expression otherExpression) :
    Respects change (Expr.reword change) (call limit expression) (call limit otherExpression) := by
  refine (primary_respects respects).bind fun first => Commutes.repeating (fun callee => ?_) rfl
  refine (accept_respects .leftParen).bind fun opens => .ite ?_ ?_
  · exact (callArguments_respects limit respects callee).bind fun applied => .pure rfl
  · refine (accept_respects .dot).bind fun dotted => .ite ?_ (.pure rfl)
    exact (name_respects _).bind fun property => .pure rfl

theorem assignTo_respects (target : Expr Unit) (equals : Token) (value : Expr Unit) :
    Respects change (Expr.reword change) (assignTo target equals value)
      (assignTo (target.reword change) (equals.reword change) (value.reword change)) := by
  cases target with
  | read name binding => exact .pure rfl
  | get object name => exact .pure rfl
  | _ => exact (report_respects _ equals).bind fun _ => .pure rfl

theorem expression_and_unary_respect (limit : ArgumentLimit) (room : Nat) :
    Respects change (Expr.reword change) (Parser.expression limit room)
        (Parser.expression limit room) ∧
      Respects change (Expr.reword change) (unary limit room) (unary limit room) := by
  induction room with
  | zero => exact ⟨fun _ => by simp only [Parser.expression]; rfl, fun _ => by simp only [unary]; rfl⟩
  | succ room ih =>
      obtain ⟨whole, part⟩ := ih
      constructor
      · intro stream
        have first := disjunction_respects part stream
        simp only [Parser.expression]
        cases result : disjunction (unary limit room) stream with
        | error interrupt rest =>
            rw [result] at first
            rw [first]
            rfl
        | ok target following =>
            rw [result] at first
            rw [first]
            simp only [rewordResult, Stream.current_reword, Token.kind_reword]
            split
            · have second := advancing_respects whole following
              cases assigned : Parser.expression limit room following.advance with
              | error interrupt rest =>
                  rw [assigned] at second
                  rw [second]
                  rfl
              | ok value rest =>
                  rw [assigned] at second
                  rw [second]
                  exact assignTo_respects target following.current value rest
            · rfl
      · intro stream
        simp only [unary, Stream.current_reword, Token.kind_reword, Token.position_reword]
        cases UnaryOp.ofKind? stream.current.kind with
        | none => exact call_respects limit whole stream
        | some op =>
            have second := advancing_respects part stream
            cases result : unary limit room stream.advance with
            | error interrupt rest =>
                rw [result] at second
                simp only [second, rewordResult]
            | ok operand rest =>
                rw [result] at second
                simp only [second, rewordResult, Expr.reword]

theorem expression_respects (limit : ArgumentLimit) (room : Nat) :
    Respects change (Expr.reword change) (Parser.expression limit room)
      (Parser.expression limit room) :=
  (expression_and_unary_respect limit room).1

end Expressions

/-! ### Statements -/

section Statements

variable {expression : Parser (Expr Unit)} {statement : Parser (Stmt Unit)}
  {declaration : Recovered (Option (Stmt Unit))}

theorem expressionBefore_respects (kind : Kind)
    (value : Respects change (Expr.reword change) expression expression) :
    Respects change (Option.map (Expr.reword change)) (expressionBefore kind expression)
      (expressionBefore kind expression) :=
  (check_respects kind).bind fun _ => .ite (.pure rfl) (value.bind fun _ => .pure rfl)

theorem expressionStatement_respects
    (value : Respects change (Expr.reword change) expression expression) :
    Respects change (Stmt.reword change) (expressionStatement expression)
      (expressionStatement expression) :=
  value.bind fun _ => expectMark_respects.bind fun _ => .pure rfl

theorem printStatement_respects
    (value : Respects change (Expr.reword change) expression expression) :
    Respects change (Stmt.reword change) (printStatement expression) (printStatement expression) :=
  value.bind fun _ => expectMark_respects.bind fun _ => .pure rfl

theorem returnStatement_respects (keyword : Position)
    (value : Respects change (Expr.reword change) expression expression) :
    Respects change (Stmt.reword change) (returnStatement keyword expression)
      (returnStatement (change.move keyword) expression) :=
  (expressionBefore_respects _ value).bind fun _ =>
    expectMark_respects.bind fun _ => .pure rfl

theorem variableDeclaration_respects
    (value : Respects change (Expr.reword change) expression expression) :
    Respects change (Stmt.reword change) (variableDeclaration expression)
      (variableDeclaration expression) := by
  refine (name_respects _).bind fun name => (accept_respects .equal).bind fun found => .ite ?_ ?_
  · exact value.bind fun _ => expectMark_respects.bind fun _ => .pure rfl
  · exact expectMark_respects.bind fun _ => .pure rfl

theorem block_respects
    (declared : RespectsAlways change (Option.map (Stmt.reword change)) declaration declaration) :
    Respects change (List.map (Stmt.reword change)) (block declaration) (block declaration) := by
  have body := (lift_respects declared).collecting Parsing.endsBlock
  rw [← declarations_eq] at body
  exact body.bind fun _ => expectMark_respects.bind fun _ => .pure rfl

theorem ifStatement_respects
    (value : Respects change (Expr.reword change) expression expression)
    (inner : Respects change (Stmt.reword change) statement statement) :
    Respects change (Stmt.reword change) (ifStatement expression statement)
      (ifStatement expression statement) := by
  refine expectMark_respects.bind fun _ => value.bind fun condition =>
    expectMark_respects.bind fun _ => inner.bind fun thenBranch =>
      (accept_respects _).bind fun found => .ite ?_ (.pure ?_)
  · exact inner.bind fun elseBranch => .pure (by rw [Stmt.reword])
  · rw [Stmt.reword]

theorem whileLoop_respects
    (value : Respects change (Expr.reword change) expression expression)
    (inner : Respects change (Stmt.reword change) statement statement) :
    Respects change (Stmt.reword change) (whileLoop expression statement)
      (whileLoop expression statement) :=
  expectMark_respects.bind fun _ => value.bind fun _ =>
    expectMark_respects.bind fun _ => inner.bind fun _ => .pure (by rw [Stmt.reword])

theorem forInitializer_respects
    (value : Respects change (Expr.reword change) expression expression) :
    Respects change (Option.map (Stmt.reword change)) (forInitializer expression)
      (forInitializer expression) :=
  (accept_respects _).bind fun _ => .ite (.pure rfl)
    ((accept_respects _).bind fun _ => .ite
      ((variableDeclaration_respects value).bind fun _ => .pure rfl)
      ((expressionStatement_respects value).bind fun _ => .pure rfl))

/-- The loop that a `for` loop stands for has the words of its parts. -/
theorem reword_forLoop (initializer : Option (Stmt Unit)) (condition increment : Option (Expr Unit))
    (body : Stmt Unit) :
    (Stmt.forLoop initializer condition increment body).reword change =
      Stmt.forLoop (initializer.map (Stmt.reword change)) (condition.map (Expr.reword change))
        (increment.map (Expr.reword change)) (body.reword change) := by
  cases initializer <;> cases condition <;> cases increment <;>
    simp [Stmt.forLoop, Stmt.reword, Stmt.rewordAll, Expr.reword]

theorem forLoop_respects
    (value : Respects change (Expr.reword change) expression expression)
    (inner : Respects change (Stmt.reword change) statement statement) :
    Respects change (Stmt.reword change) (forLoop expression statement)
      (forLoop expression statement) :=
  expectMark_respects.bind fun _ => (forInitializer_respects value).bind fun _ =>
    (expressionBefore_respects _ value).bind fun _ => expectMark_respects.bind fun _ =>
      (expressionBefore_respects _ value).bind fun _ => expectMark_respects.bind fun _ =>
        inner.bind fun _ => .pure (reword_forLoop ..).symm

theorem statementOf_respects
    (value : Respects change (Expr.reword change) expression expression)
    (inner : Respects change (Stmt.reword change) statement statement)
    (declared : RespectsAlways change (Option.map (Stmt.reword change)) declaration declaration) :
    Respects change (Stmt.reword change) (statementOf expression statement declaration)
      (statementOf expression statement declaration) := by
  intro stream
  simp only [statementOf, Stream.current_reword, Token.kind_reword, Token.position_reword]
  split
  · exact advancing_respects (forLoop_respects value inner) stream
  · exact advancing_respects (ifStatement_respects value inner) stream
  · exact advancing_respects (printStatement_respects value) stream
  · exact advancing_respects (returnStatement_respects _ value) stream
  · exact advancing_respects (whileLoop_respects value inner) stream
  · have inside := advancing_respects (block_respects declared) stream
    cases result : block declaration stream.advance with
    | error interrupt rest =>
        rw [result] at inside
        rw [inside]
        rfl
    | ok body rest =>
        rw [result] at inside
        rw [inside]
        simp only [rewordResult, Stmt.reword, Stmt.rewordAll_eq_map]
  · exact expressionStatement_respects value stream

/-! ### Declarations -/

theorem function_respects (limit : ArgumentLimit) (role : FunctionRole)
    (declared : RespectsAlways change (Option.map (Stmt.reword change)) declaration declaration) :
    Respects change (Stmt.rewordFunction change) (function limit role declaration)
      (function limit role declaration) :=
  (name_respects _).bind fun _ => expectMark_respects.bind fun _ =>
    (elements_respects limit .parameters (name_respects _)).bind fun _ =>
      expectMark_respects.bind fun _ => expectMark_respects.bind fun _ =>
        (block_respects declared).bind fun _ =>
          .pure (by rw [Stmt.rewordFunction, Stmt.rewordAll_eq_map])

theorem methods_respect (limit : ArgumentLimit)
    (declared : RespectsAlways change (Option.map (Stmt.reword change)) declaration declaration) :
    Respects change (List.map (Stmt.rewordFunction change)) (methods limit declaration)
      (methods limit declaration) := by
  rw [methods_eq]
  refine Commutes.collecting Parsing.endsBlock ?_
  exact (function_respects limit .method declared).bind fun _ => .pure rfl

theorem superclass?_respects :
    Respects change (Option.map (Prod.map (Ident.reword change) id)) superclass? superclass? :=
  (accept_respects _).bind fun _ => .ite ((name_respects _).bind fun _ => .pure rfl) (.pure rfl)

theorem classDeclaration_respects (limit : ArgumentLimit)
    (declared : RespectsAlways change (Option.map (Stmt.reword change)) declaration declaration) :
    Respects change (Stmt.reword change) (classDeclaration limit declaration)
      (classDeclaration limit declaration) := by
  refine (name_respects _).bind fun _ => superclass?_respects.bind fun superclass =>
    expectMark_respects.bind fun _ => (methods_respect limit declared).bind fun _ =>
      expectMark_respects.bind fun _ => .pure ?_
  rw [Stmt.reword, Stmt.rewordMethods_eq_map]
  rfl

theorem functionDeclaration_respects (limit : ArgumentLimit)
    (declared : RespectsAlways change (Option.map (Stmt.reword change)) declaration declaration) :
    Respects change (Stmt.reword change) (functionDeclaration limit declaration)
      (functionDeclaration limit declaration) :=
  (function_respects limit .function declared).bind fun _ => .pure (by rw [Stmt.reword])

theorem declarationOf_respects (limit : ArgumentLimit)
    (value : Respects change (Expr.reword change) expression expression)
    (inner : Respects change (Stmt.reword change) statement statement)
    (declared : RespectsAlways change (Option.map (Stmt.reword change)) declaration declaration) :
    Respects change (Stmt.reword change) (declarationOf limit expression statement declaration)
      (declarationOf limit expression statement declaration) := by
  intro stream
  simp only [declarationOf, Stream.current_reword, Token.kind_reword]
  split
  · exact advancing_respects (classDeclaration_respects limit declared) stream
  · exact advancing_respects (functionDeclaration_respects limit declared) stream
  · exact advancing_respects (variableDeclaration_respects value) stream
  · exact inner stream

theorem statement_and_declaration_respect (limit : ArgumentLimit) (room : Nat) :
    Respects change (Stmt.reword change) (Parser.statement limit room)
        (Parser.statement limit room) ∧
      RespectsAlways change (Option.map (Stmt.reword change)) (Parser.declaration limit room)
        (Parser.declaration limit room) := by
  induction room with
  | zero => exact ⟨fun _ => by simp only [Parser.statement]; rfl,
      fun _ => by simp only [Parser.declaration]; rfl⟩
  | succ room ih =>
      have value := @expression_respects change limit room
      constructor
      · intro stream
        simp only [Parser.statement]
        exact statementOf_respects value ih.1 ih.2 stream
      · intro stream
        simp only [Parser.declaration]
        exact recovering_respects (declarationOf_respects limit value ih.1 ih.2) stream

theorem declaration_respects (limit : ArgumentLimit) (room : Nat) :
    RespectsAlways change (Option.map (Stmt.reword change)) (Parser.declaration limit room)
      (Parser.declaration limit room) :=
  (statement_and_declaration_respect limit room).2

theorem program_respects
    (declared : RespectsAlways change (Option.map (Stmt.reword change)) declaration declaration) :
    RespectsAlways change (List.map (Stmt.reword change)) (program declaration)
      (program declaration) := by
  rw [program_eq]
  exact declared.collecting endsSource

end Statements

end Parser

/-! ### Whole token lists -/

/-- Tokens with other words are read as a program with other words, and the errors found are found
at the same tokens. -/
theorem Program.parseWithin_reword (room : Nat) (limit : ArgumentLimit) (first : Token)
    (rest : List Token) :
    parseWithin room limit ((first :: rest).map (Token.reword change)) =
      { program := (parseWithin room limit (first :: rest)).program.map
          (List.map (Stmt.reword change))
        errors := (parseWithin room limit (first :: rest)).errors.map
          (SyntaxError.reword change) } := by
  have outcome := Parser.program_respects (@Parser.declaration_respects change limit room)
    (Stream.ofTokens (first :: rest))
  rw [parseWithin, parseWithin, Stream.ofTokens_reword, outcome]
  cases Parser.program (Parser.declaration limit room) (.ofTokens (first :: rest)) <;> rfl

theorem EndsOnce.reword (change : Rewording) {tokens : List Token} (ends : EndsOnce tokens) :
    EndsOnce (tokens.map (Token.reword change)) := by
  apply ends.of_kinds
  rw [List.map_map]
  exact List.map_congr_left fun token _ => Token.kind_reword change token

/-- What is read without errors is read without errors with other words. -/
theorem Program.parseWithin_reword_clean (change : Rewording) {room : Nat}
    {limit : ArgumentLimit} {tokens : List Token} {program : Program.Plain} (ends : EndsOnce tokens)
    (parsed : parseWithin room limit tokens = { program := .ok program, errors := #[] }) :
    parseWithin room limit (tokens.map (Token.reword change)) =
      { program := .ok (program.map (Stmt.reword change)), errors := #[] } := by
  cases tokens with
  | nil => exact ends.elim
  | cons first rest =>
      rw [parseWithin_reword, parsed]
      simp [Except.map]

end LoxLang
