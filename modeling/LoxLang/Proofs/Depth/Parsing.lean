/-
Module: LoxLang.Proofs.Depth.Parsing
Purpose: Reading with more room for nesting.  A source that is not nested too deeply for the less
  room is read as the same program with the same errors.
Main exports: Parser.ReadsDeeper, Parser.expression_deeper, Parser.declaration_deeper,
  Program.parseWithin_deeper, Program.fits_mono
-/
import LoxLang.Proofs.Depth.Basic
import LoxLang.Proofs.Parser.Program

namespace LoxLang

/-! ### Parsers with more room -/

section Deepens

variable {ε α β : Type} {deep : ε}

/-- What a parser shows before it ends, which is nothing. -/
def nothing (_ : Stream) : List Unit :=
  []

theorem Further.gaveUp {start stopped : Stream} {result : EStateM.Result ε Stream α} :
    Further deep nothing start (.error deep stopped) result :=
  .further (List.prefix_refl _) (List.prefix_refl _)

theorem Further.refl {start : Stream} (result : EStateM.Result ε Stream α) :
    Further deep nothing start result result :=
  .same (List.prefix_refl _)

/-- Where a parser begins does not matter to what it shows. -/
theorem Further.anywhere {start origin : Stream} {result other : EStateM.Result ε Stream α}
    (further : Further deep nothing start result other) :
    Further deep nothing origin result other :=
  further.after (List.prefix_refl _)

namespace Deepens

/-- A parser that does not depend on the room. -/
theorem refl (parser : EStateM ε Stream α) : Deepens deep nothing parser parser :=
  fun stream => .refl (parser stream)

theorem repeatUpTo {step deeper : β → EStateM ε Stream (Bool × β)}
    (steps : ∀ state, Deepens deep nothing (step state) (deeper state)) (bound : Nat) (state : β) :
    Deepens deep nothing (Parser.repeatUpTo step bound state)
      (Parser.repeatUpTo deeper bound state) := by
  induction bound generalizing state with
  | zero => exact refl _
  | succ bound ih =>
      intro stream
      have outcome := steps state stream
      simp only [Parser.repeatUpTo]
      generalize step state stream = result at outcome ⊢
      generalize deeper state stream = other at outcome ⊢
      cases outcome with
      | further => exact .gaveUp
      | same =>
          cases result with
          | error interrupt rest => exact .refl _
          | ok found rest =>
              rcases found with ⟨again, following⟩
              cases again with
              | true => exact (ih following rest).anywhere
              | false => exact .refl _

theorem repeating {step deeper : β → EStateM ε Stream (Bool × β)}
    (steps : ∀ state, Deepens deep nothing (step state) (deeper state)) (state : β) :
    Deepens deep nothing (Parser.repeating step state) (Parser.repeating deeper state) :=
  fun stream => repeatUpTo steps stream.size state stream

theorem stepUntil (ends : Kind → Bool) {item deeper : EStateM ε Stream (Option α)}
    (items : Deepens deep nothing item deeper) (seen : Array α) :
    Deepens deep nothing (Parser.stepUntil ends item seen) (Parser.stepUntil ends deeper seen) := by
  intro stream
  have outcome := items stream
  simp only [Parser.stepUntil]
  generalize item stream = result at outcome ⊢
  generalize deeper stream = other at outcome ⊢
  split
  · exact .refl _
  · cases outcome with
    | further => exact .gaveUp
    | same => exact .refl _

/-- What is collected up to a token that ends it. -/
theorem collecting (ends : Kind → Bool) {item deeper : EStateM ε Stream (Option α)}
    (items : Deepens deep nothing item deeper) :
    Deepens deep nothing
      (Parser.repeating (Parser.stepUntil ends item) #[] >>= fun all => Pure.pure all.toList)
      (Parser.repeating (Parser.stepUntil ends deeper) #[] >>= fun all => Pure.pure all.toList) :=
  Deepens.bind (repeating (items.stepUntil ends) #[]) fun _ => refl _

end Deepens

end Deepens

namespace Parser

variable {α : Type}

/-! ### Recovery and lists -/

/-- A parser and the same parser with more room for nesting. -/
abbrev ReadsDeeper (parser deeper : Parser α) : Prop :=
  Deepens (.abort .tooDeep) nothing parser deeper

/-- A parser that recovers from errors and the same parser with more room for nesting. -/
abbrev RecoversDeeper (parser deeper : Recovered α) : Prop :=
  Deepens .tooDeep nothing parser deeper

theorem lift_deeper {parser deeper : Recovered α} (recovers : RecoversDeeper parser deeper) :
    ReadsDeeper (lift parser) (lift deeper) := by
  intro stream
  have outcome := recovers stream
  simp only [lift]
  generalize parser stream = result at outcome ⊢
  generalize deeper stream = other at outcome ⊢
  cases outcome with
  | further => exact .gaveUp
  | same => exact .refl _

/-- Giving up is no syntax error, so it is not recovered from. -/
theorem recovering_deeper {parser deeper : Parser α} (reads : ReadsDeeper parser deeper) :
    RecoversDeeper (recovering parser) (recovering deeper) := by
  intro stream
  have outcome := reads stream
  simp only [recovering]
  generalize parser stream = result at outcome ⊢
  generalize deeper stream = other at outcome ⊢
  cases outcome with
  | further => exact .gaveUp
  | same => exact .refl _

theorem elements_deeper (limit : ArgumentLimit) (what : ListRole) {parser deeper : Parser α}
    (reads : ReadsDeeper parser deeper) :
    ReadsDeeper (elements limit what parser) (elements limit what deeper) := by
  refine (Deepens.refl (check .rightParen)).bind fun closes => .ite (.refl _) ?_
  refine Deepens.bind (Deepens.repeating (fun seen => ?_) #[]) fun all => .refl _
  exact (Deepens.refl (checkLimit limit what seen.size)).bind fun _ =>
    reads.bind fun value => .refl _

/-! ### Expressions -/

section Expressions

variable {operand deeperOperand expression deeperExpression : Parser (Expr Unit)}

theorem binaryChain_deeper (operator? : Kind → Option BinaryOp)
    (reads : ReadsDeeper operand deeperOperand) :
    ReadsDeeper (binaryChain operator? operand) (binaryChain operator? deeperOperand) := by
  refine reads.bind fun first => Deepens.repeating (fun left => ?_) first
  refine (Deepens.refl (acceptAs? operator?)).bind fun found => ?_
  cases found with
  | none => exact .refl _
  | some found => exact reads.bind fun right => .refl _

theorem logicalChain_deeper (kind : Kind) (op : LogicalOp)
    (reads : ReadsDeeper operand deeperOperand) :
    ReadsDeeper (logicalChain kind op operand) (logicalChain kind op deeperOperand) := by
  refine reads.bind fun first => Deepens.repeating (fun left => ?_) first
  refine (Deepens.refl (accept kind)).bind fun found => .ite ?_ (.refl _)
  exact reads.bind fun right => .refl _

theorem disjunction_deeper (reads : ReadsDeeper operand deeperOperand) :
    ReadsDeeper (disjunction operand) (disjunction deeperOperand) := by
  have factor := binaryChain_deeper BinaryOp.factor? reads
  have term := binaryChain_deeper BinaryOp.term? factor
  have comparison := binaryChain_deeper BinaryOp.comparison? term
  have equality := binaryChain_deeper BinaryOp.equality? comparison
  exact logicalChain_deeper _ .or (logicalChain_deeper _ .and equality)

theorem primary_deeper (reads : ReadsDeeper expression deeperExpression) :
    ReadsDeeper (primary expression) (primary deeperExpression) := by
  intro stream
  have grouped : ReadsDeeper (grouping expression) (grouping deeperExpression) :=
    reads.bind fun _ => .refl _
  simp only [primary]
  cases stream.current.kind with
  | leftParen => exact (grouped stream.advance).anywhere
  | keyword word => cases word <;> exact .refl _
  | _ => exact .refl _

theorem call_deeper (limit : ArgumentLimit) (reads : ReadsDeeper expression deeperExpression) :
    ReadsDeeper (call limit expression) (call limit deeperExpression) := by
  refine (primary_deeper reads).bind fun first => Deepens.repeating (fun callee => ?_) first
  refine (Deepens.refl (accept .leftParen)).bind fun opens => .ite ?_ (.refl _)
  have arguments := elements_deeper limit .arguments reads
  exact (arguments.bind fun _ => .refl _).bind fun applied => .refl _

theorem assignmentAfter_deeper (reads : ReadsDeeper expression deeperExpression)
    (target : Expr Unit) :
    ReadsDeeper (assignmentAfter expression target) (assignmentAfter deeperExpression target) := by
  intro stream
  have assigned : ReadsDeeper (expression >>= assignTo target stream.current)
      (deeperExpression >>= assignTo target stream.current) :=
    reads.bind fun value => .refl _
  simp only [assignmentAfter]
  split
  · exact (assigned stream.advance).anywhere
  · exact .refl _

theorem unary_succ_deeper {limit : ArgumentLimit} {room more : Nat}
    (part : ReadsDeeper (unary limit room) (unary limit more))
    (whole : ReadsDeeper (Parser.expression limit room) (Parser.expression limit more)) :
    ReadsDeeper (unary limit (room + 1)) (unary limit (more + 1)) := by
  intro stream
  simp only [unary_succ]
  cases UnaryOp.ofKind? stream.current.kind with
  | none => exact call_deeper limit whole stream
  | some op =>
      have after : ReadsDeeper
          (unary limit room >>= fun operand =>
            pure (Expr.unary op stream.current.position operand))
          (unary limit more >>= fun operand =>
            pure (Expr.unary op stream.current.position operand)) :=
        part.bind fun operand => .refl _
      exact (after stream.advance).anywhere

theorem unary_and_expression_deeper (limit : ArgumentLimit) {room more : Nat}
    (less : room ≤ more) :
    ReadsDeeper (unary limit room) (unary limit more) ∧
      ReadsDeeper (Parser.expression limit room) (Parser.expression limit more) := by
  induction room generalizing more with
  | zero =>
      constructor
      · intro stream
        rw [unary]
        exact .gaveUp
      · intro stream
        rw [Parser.expression]
        exact .gaveUp
  | succ room ih =>
      cases more with
      | zero => exact absurd less (Nat.not_succ_le_zero room)
      | succ more =>
          obtain ⟨part, whole⟩ := ih (Nat.le_of_succ_le_succ less)
          refine ⟨unary_succ_deeper part whole, ?_⟩
          rw [expression_succ, expression_succ]
          exact (disjunction_deeper part).bind (assignmentAfter_deeper whole)

theorem expression_deeper (limit : ArgumentLimit) {room more : Nat} (less : room ≤ more) :
    ReadsDeeper (Parser.expression limit room) (Parser.expression limit more) :=
  (unary_and_expression_deeper limit less).2

end Expressions

/-! ### Statements and declarations -/

section Statements

variable {expression deeperExpression : Parser (Expr Unit)}
  {statement deeperStatement : Parser (Stmt Unit)}
  {declaration deeperDeclaration : Recovered (Option (Stmt Unit))}

theorem expressionBefore_deeper (kind : Kind) (value : ReadsDeeper expression deeperExpression) :
    ReadsDeeper (expressionBefore kind expression) (expressionBefore kind deeperExpression) :=
  (Deepens.refl (check kind)).bind fun _ => .ite (.refl _) (value.bind fun _ => .refl _)

theorem variableDeclaration_deeper (value : ReadsDeeper expression deeperExpression) :
    ReadsDeeper (variableDeclaration expression) (variableDeclaration deeperExpression) :=
  (Deepens.refl (name _)).bind fun _ => (Deepens.refl (accept .equal)).bind fun _ =>
    .ite (value.bind fun _ => .refl _) (.refl _)

theorem block_deeper (declared : RecoversDeeper declaration deeperDeclaration) :
    ReadsDeeper (block declaration) (block deeperDeclaration) := by
  have body := (lift_deeper declared).collecting Parsing.endsBlock
  rw [← declarations_eq, ← declarations_eq] at body
  exact body.bind fun _ => .refl _

theorem ifStatement_deeper (value : ReadsDeeper expression deeperExpression)
    (inner : ReadsDeeper statement deeperStatement) :
    ReadsDeeper (ifStatement expression statement)
      (ifStatement deeperExpression deeperStatement) :=
  (Deepens.refl (expectMark _ _ _)).bind fun _ => value.bind fun _ =>
    (Deepens.refl (expectMark _ _ _)).bind fun _ => inner.bind fun _ =>
      (Deepens.refl (accept _)).bind fun _ => .ite (inner.bind fun _ => .refl _) (.refl _)

theorem whileLoop_deeper (value : ReadsDeeper expression deeperExpression)
    (inner : ReadsDeeper statement deeperStatement) :
    ReadsDeeper (whileLoop expression statement) (whileLoop deeperExpression deeperStatement) :=
  (Deepens.refl (expectMark _ _ _)).bind fun _ => value.bind fun _ =>
    (Deepens.refl (expectMark _ _ _)).bind fun _ => inner.bind fun _ => .refl _

theorem forInitializer_deeper (value : ReadsDeeper expression deeperExpression) :
    ReadsDeeper (forInitializer expression) (forInitializer deeperExpression) :=
  (Deepens.refl (accept _)).bind fun _ => .ite (.refl _)
    ((Deepens.refl (accept _)).bind fun _ => .ite
      ((variableDeclaration_deeper value).bind fun _ => .refl _)
      ((value.bind fun _ => .refl _).bind fun _ => .refl _))

theorem forLoop_deeper (value : ReadsDeeper expression deeperExpression)
    (inner : ReadsDeeper statement deeperStatement) :
    ReadsDeeper (forLoop expression statement) (forLoop deeperExpression deeperStatement) :=
  (Deepens.refl (expectMark _ _ _)).bind fun _ => (forInitializer_deeper value).bind fun _ =>
    (expressionBefore_deeper _ value).bind fun _ => (Deepens.refl (expectMark _ _ _)).bind fun _ =>
      (expressionBefore_deeper _ value).bind fun _ =>
        (Deepens.refl (expectMark _ _ _)).bind fun _ => inner.bind fun _ => .refl _

theorem statementOf_deeper (value : ReadsDeeper expression deeperExpression)
    (inner : ReadsDeeper statement deeperStatement)
    (declared : RecoversDeeper declaration deeperDeclaration) :
    ReadsDeeper (statementOf expression statement declaration)
      (statementOf deeperExpression deeperStatement deeperDeclaration) := by
  have simple : ∀ {after : Expr Unit → Parser (Stmt Unit)},
      ReadsDeeper (expression >>= after) (deeperExpression >>= after) :=
    value.bind fun _ => .refl _
  intro stream
  simp only [statementOf]
  split
  · exact (forLoop_deeper value inner stream.advance).anywhere
  · exact (ifStatement_deeper value inner stream.advance).anywhere
  · exact (simple stream.advance).anywhere
  · have returned : ReadsDeeper (returnStatement stream.current.position expression)
        (returnStatement stream.current.position deeperExpression) :=
      (expressionBefore_deeper _ value).bind fun _ => .refl _
    exact (returned stream.advance).anywhere
  · exact (whileLoop_deeper value inner stream.advance).anywhere
  · have outcome := block_deeper declared stream.advance
    generalize block declaration stream.advance = result at outcome ⊢
    generalize block deeperDeclaration stream.advance = other at outcome ⊢
    cases outcome with
    | further => exact .gaveUp
    | same => exact .refl _
  · exact simple stream

theorem function_deeper (limit : ArgumentLimit) (role : FunctionRole)
    (declared : RecoversDeeper declaration deeperDeclaration) :
    ReadsDeeper (function limit role declaration) (function limit role deeperDeclaration) :=
  (Deepens.refl (name _)).bind fun _ => (Deepens.refl (expectMark _ _ _)).bind fun _ =>
    (Deepens.refl (elements _ _ _)).bind fun _ => (Deepens.refl (expectMark _ _ _)).bind fun _ =>
      (Deepens.refl (expectMark _ _ _)).bind fun _ =>
        (block_deeper declared).bind fun _ => .refl _

theorem classDeclaration_deeper (limit : ArgumentLimit)
    (declared : RecoversDeeper declaration deeperDeclaration) :
    ReadsDeeper (classDeclaration limit declaration)
      (classDeclaration limit deeperDeclaration) := by
  have body := Deepens.collecting Parsing.endsBlock
    ((function_deeper limit .method declared).bind fun method => Deepens.refl (pure (some method)))
  rw [← methods_eq, ← methods_eq] at body
  exact (Deepens.refl (name _)).bind fun _ => (Deepens.refl superclass?).bind fun _ =>
    (Deepens.refl (expectMark _ _ _)).bind fun _ => body.bind fun _ => .refl _

theorem declarationOf_deeper (limit : ArgumentLimit)
    (value : ReadsDeeper expression deeperExpression)
    (inner : ReadsDeeper statement deeperStatement)
    (declared : RecoversDeeper declaration deeperDeclaration) :
    ReadsDeeper (declarationOf limit expression statement declaration)
      (declarationOf limit deeperExpression deeperStatement deeperDeclaration) := by
  intro stream
  simp only [declarationOf]
  split
  · exact (classDeclaration_deeper limit declared stream.advance).anywhere
  · have declaredFunction := (function_deeper limit .function declared).bind fun found =>
      Deepens.refl (pure (Stmt.function found))
    exact (declaredFunction stream.advance).anywhere
  · exact (variableDeclaration_deeper value stream.advance).anywhere
  · exact inner stream

theorem statement_and_declaration_deeper (limit : ArgumentLimit) {room more : Nat}
    (less : room ≤ more) :
    ReadsDeeper (Parser.statement limit room) (Parser.statement limit more) ∧
      RecoversDeeper (Parser.declaration limit room) (Parser.declaration limit more) := by
  induction room generalizing more with
  | zero =>
      constructor
      · intro stream
        rw [Parser.statement]
        exact .gaveUp
      · intro stream
        rw [Parser.declaration]
        exact .gaveUp
  | succ room ih =>
      cases more with
      | zero => exact absurd less (Nat.not_succ_le_zero room)
      | succ more =>
          have lessInside := Nat.le_of_succ_le_succ less
          have value := expression_deeper limit lessInside
          obtain ⟨inner, declared⟩ := ih lessInside
          constructor
          · rw [statement_succ, statement_succ]
            exact statementOf_deeper value inner declared
          · rw [declaration_succ, declaration_succ]
            exact recovering_deeper (declarationOf_deeper limit value inner declared)

theorem program_deeper (declared : RecoversDeeper declaration deeperDeclaration) :
    RecoversDeeper (program declaration) (program deeperDeclaration) := by
  rw [program_eq, program_eq]
  exact declared.collecting endsSource

end Statements

end Parser

/-! ### Whole programs -/

/-- With more room a token list is read as the same program, unless it was nested too deeply. -/
theorem Program.parseWithin_deeper (limit : ArgumentLimit) (tokens : List Token) {room more : Nat}
    (less : room ≤ more) (shallow : (parseWithin room limit tokens).program ≠ .error .tooDeep) :
    parseWithin more limit tokens = parseWithin room limit tokens := by
  have outcome := Parser.program_deeper (Parser.statement_and_declaration_deeper limit less).2
    (.ofTokens tokens)
  have read : Parser.program (Parser.declaration limit more) (.ofTokens tokens) =
      Parser.program (Parser.declaration limit room) (.ofTokens tokens) := by
    refine outcome.eq_of_ne fun stopped gaveUp => shallow ?_
    rw [parseWithin, gaveUp]
  rw [parseWithin, read, ← parseWithin]

/-! ### Depth of trees -/

section Fits

variable {ρ : Type} {room more : Nat}

namespace Expr

theorem fitsAll_mono (parts : ∀ e : Expr ρ, e.fits room = true → e.fits more = true)
    (list : List (Expr ρ)) (fits : fitsAll room list = true) : fitsAll more list = true := by
  induction list with
  | nil => rfl
  | cons e rest ih =>
      simp only [fitsAll, Bool.and_eq_true] at fits ⊢
      exact ⟨parts e fits.1, ih fits.2⟩

theorem fits_mono (less : room ≤ more) (e : Expr ρ) (fits : e.fits room = true) :
    e.fits more = true := by
  induction room generalizing more e with
  | zero => cases e <;> cases fits
  | succ room ih =>
      cases more with
      | zero => exact absurd less (Nat.not_succ_le_zero room)
      | succ more =>
          have parts := fun e => ih (Nat.le_of_succ_le_succ less) e
          cases e <;> simp only [Expr.fits, Bool.and_eq_true] at fits ⊢
          case assign => exact parts _ fits
          case unary => exact parts _ fits
          case binary => exact ⟨parts _ fits.1, parts _ fits.2⟩
          case logical => exact ⟨parts _ fits.1, parts _ fits.2⟩
          case grouping => exact parts _ fits
          case call => exact ⟨parts _ fits.1, fitsAll_mono parts _ fits.2⟩
          case get => exact parts _ fits
          case set => exact ⟨parts _ fits.1, parts _ fits.2⟩

theorem fitsOpt_mono (less : room ≤ more) (value : Option (Expr ρ))
    (fits : fitsOpt room value = true) : fitsOpt more value = true := by
  cases value with
  | none => rfl
  | some e => exact fits_mono less e fits

end Expr

namespace Stmt

theorem fitsAll_mono (parts : ∀ s : Stmt ρ, s.fits room = true → s.fits more = true)
    (list : List (Stmt ρ)) (fits : fitsAll room list = true) : fitsAll more list = true := by
  induction list with
  | nil => rfl
  | cons s rest ih =>
      simp only [fitsAll, Bool.and_eq_true] at fits ⊢
      exact ⟨parts s fits.1, ih fits.2⟩

theorem fitsMethods_mono (parts : ∀ s : Stmt ρ, s.fits room = true → s.fits more = true)
    (list : List (Function ρ)) (fits : fitsMethods room list = true) :
    fitsMethods more list = true := by
  induction list with
  | nil => rfl
  | cons method rest ih =>
      cases method
      simp only [fitsMethods, fitsFunction, Bool.and_eq_true] at fits ⊢
      exact ⟨fitsAll_mono parts _ fits.1, ih fits.2⟩

theorem fits_mono (less : room ≤ more) (s : Stmt ρ) (fits : s.fits room = true) :
    s.fits more = true := by
  induction room generalizing more s with
  | zero => cases s <;> cases fits
  | succ room ih =>
      cases more with
      | zero => exact absurd less (Nat.not_succ_le_zero room)
      | succ more =>
          have lessInside := Nat.le_of_succ_le_succ less
          have value := fun e : Expr ρ => Expr.fits_mono lessInside e
          have parts := fun s => ih lessInside s
          cases s with
          | expression e => exact value e fits
          | print e => exact value e fits
          | declare name initializer => exact Expr.fitsOpt_mono lessInside initializer fits
          | block body => exact fitsAll_mono parts body fits
          | branch condition thenBranch elseBranch =>
              cases elseBranch with
              | none =>
                  simp only [Stmt.fits, Bool.and_eq_true] at fits ⊢
                  exact ⟨value _ fits.1, parts _ fits.2⟩
              | some elseBranch =>
                  simp only [Stmt.fits, Bool.and_eq_true] at fits ⊢
                  exact ⟨⟨value _ fits.1.1, parts _ fits.1.2⟩, parts _ fits.2⟩
          | loop condition body =>
              simp only [Stmt.fits, Bool.and_eq_true] at fits ⊢
              exact ⟨value _ fits.1, parts _ fits.2⟩
          | ret keyword result => exact Expr.fitsOpt_mono lessInside result fits
          | function declaration =>
              cases declaration
              exact fitsAll_mono parts _ fits
          | classDecl name superclass methods => exact fitsMethods_mono parts methods fits

end Stmt

theorem Program.fits_mono (less : room ≤ more) (program : Program ρ)
    (fits : program.fits room = true) : program.fits more = true :=
  Stmt.fitsAll_mono (fun s => Stmt.fits_mono less s) program fits

end Fits

end LoxLang
