/-
Module: LoxLang.Proofs.Parser.Boundary
Purpose: Programs can be read in pieces.  Within any room, what a parser makes of some tokens
  depends on nothing but them and the kind of the token after them, and after a declaration only
  an `else` would make a difference.  So two token lists that are read without an error are read
  as one where they stand one after the other.
Main exports: Parser.Exact, Parsing.Closed, Parser.expression_exact, Parser.declaration_exact,
  Program.parseWithin_append
-/
import LoxLang.Proofs.Parser.Program

namespace LoxLang

open LoxLang.Stream (Passes)

variable {limit : ArgumentLimit}

namespace Parser

/-- A parser that reads exactly what a reading says, if it reports no error. -/
structure Exact {α : Type} (limit : ArgumentLimit) (parser : Parser α) (reading : Parsing α) :
    Prop where
  sound : Sound limit (-1) parser reading
  complete : Complete parser reading

namespace Exact

variable {α β : Type} {parser : Parser α} {reading : Parsing α}

theorem shorter (reads : Exact limit parser reading) : Sound limit (-1 - 2) parser reading :=
  reads.sound.needLess (by omega)

theorem pure (value : α) : Exact limit (Pure.pure value) (Parsing.pure value) :=
  ⟨Sound.pure value, Complete.pure value⟩

theorem bind {second : α → Parser β} {readings : α → Parsing β}
    (first : Exact limit parser reading)
    (others : ∀ value, Exact limit (second value) (readings value)) :
    Exact limit (parser >>= second) (reading.andThen readings) :=
  ⟨first.sound.bind fun value => (others value).sound,
    first.complete.bind fun value => (others value).complete⟩

theorem expect {kind : Kind} (inside : kind ≠ .eof) (what : Expectation) :
    Exact limit (Parser.expect kind what) (Parsing.token kind) :=
  ⟨Sound.expect inside what, Complete.expect inside what⟩

theorem name (what : Expectation) : Exact limit (Parser.name what) Parsing.name :=
  ⟨Sound.name what, Complete.name what⟩

theorem ifAccept {kind : Kind} (inside : kind ≠ .eof) {yes no : Parser α}
    {readingYes readingNo : Parsing α} (exactYes : Exact limit yes readingYes)
    (exactNo : Exact limit no readingNo) :
    Exact limit (do if ← Parser.accept kind then yes else no)
      (Parsing.ifAccepted kind readingYes readingNo) :=
  ⟨Sound.ifAccept inside exactYes.shorter exactNo.sound,
    Complete.ifAccept inside exactYes.complete exactNo.complete⟩

theorem repeating {step : β → Parser (Bool × β)} {readings : β → Parsing (Bool × β)}
    (reads : ∀ state, Exact limit (step state) (readings state))
    (progressing : Parsing.Progressing readings) (state : β) :
    Exact limit (Parser.repeating step state) (Parsing.Loop readings state) :=
  ⟨Sound.repeating (fun state => (reads state).sound) progressing state,
    Complete.repeating (fun state => (reads state).complete) progressing state⟩

end Exact

end Parser

/-! ### What expressions are put together from -/

namespace Parsing

variable {expression : Parsing (Expr Unit)}

/-- A reading that takes a token. -/
def Nonempty {α : Type} (reading : Parsing α) : Prop :=
  ∀ value taken next, reading value taken next → taken ≠ []

theorem Nonempty.andThen {α β : Type} {first : Parsing α} {second : α → Parsing β}
    (nonempty : first.Nonempty) : (first.andThen second).Nonempty := by
  rintro value taken next ⟨middle, before, after, rfl, reads, -⟩
  simp [nonempty _ _ _ reads]

theorem Nonempty.led {α : Type} {after : Token → Option (Parsing α)} {otherwise : Parsing α}
    (nonempty : otherwise.Nonempty) : (led after otherwise).Nonempty := by
  rintro value taken next (⟨first, rest, reading, -, rfl, -⟩ | ⟨-, reads⟩)
  · exact List.cons_ne_nil _ _
  · exact nonempty _ _ _ reads

/-- The rest of a parenthesized expression. -/
def grouping (expression : Parsing (Expr Unit)) : Parsing (Expr Unit) :=
  expression.andThen fun inner => (token .rightParen).andThen fun _ => pure (.grouping inner)

/-- The rest of an access to a method of the superclass. -/
def superMethod (keyword : Position) : Parsing (Expr Unit) :=
  (token .dot).andThen fun _ => name.andThen fun method =>
    pure (.superMethod keyword () method)

/-- What the first token of a primary expression leads to. -/
def primaryAfter (expression : Parsing (Expr Unit)) (first : Token) :
    Option (Parsing (Expr Unit)) :=
  match first.kind with
  | .keyword .false_ => some (pure (.literal (.bool false)))
  | .keyword .true_ => some (pure (.literal (.bool true)))
  | .keyword .nil_ => some (pure (.literal .nil))
  | .number | .string => some (pure (.literal (first.literal.getD .nil)))
  | .keyword .super_ => some (superMethod first.position)
  | .keyword .this_ => some (pure (.receiver first.position ()))
  | .identifier => some (pure (.read { text := first.lexeme, position := first.position } ()))
  | .leftParen => some (grouping expression)
  | _ => none

/-- A primary expression. -/
def primary (expression : Parsing (Expr Unit)) : Parsing (Expr Unit) :=
  led (primaryAfter expression) fun _ _ _ => False

/-- The rest of a call. -/
def callArguments (limit : ArgumentLimit) (expression : Parsing (Expr Unit))
    (callee : Expr Unit) : Parsing (Expr Unit) :=
  (elements limit expression).andThen fun arguments =>
    (token .rightParen).andThen fun close => pure (.call callee arguments close.position)

/-- One call or property access, if there is one. -/
def callStep (limit : ArgumentLimit) (expression : Parsing (Expr Unit)) (callee : Expr Unit) :
    Parsing (Bool × Expr Unit) :=
  ifAccepted .leftParen
    ((callArguments limit expression callee).andThen fun applied => pure (true, applied))
    (ifAccepted .dot (name.andThen fun property => pure (true, .get callee property))
      (pure (false, callee)))

theorem callStep_progressing : Progressing (callStep limit expression) := by
  rintro state following taken next (⟨first, after, -, rfl, -⟩ |
    ⟨-, ⟨first, after, -, rfl, -⟩ | ⟨-, same, -⟩⟩)
  · exact List.cons_ne_nil _ _
  · exact List.cons_ne_nil _ _
  · cases same

/-- A primary expression and the calls and property accesses applied to it. -/
def call (limit : ArgumentLimit) (expression : Parsing (Expr Unit)) : Parsing (Expr Unit) :=
  (primary expression).andThen (Loop (callStep limit expression))

theorem call_nonempty : (call limit expression).Nonempty :=
  Nonempty.andThen (Nonempty.led fun _ _ _ impossible => impossible.elim)

/-- Operands joined by operators of all levels. -/
def disjunction (operand : Parsing (Expr Unit)) : Parsing (Expr Unit) :=
  chain .disjunction (chain .conjunction
    (chain .equality (chain .comparison (chain .term (chain .factor operand)))))

theorem Nonempty.disjunction {operand : Parsing (Expr Unit)} (nonempty : operand.Nonempty) :
    (disjunction operand).Nonempty :=
  nonempty.andThen.andThen.andThen.andThen.andThen.andThen

/-- A prefix operator and its operand. -/
def prefixed (operand : Parsing (Expr Unit)) (first : Token) : Option (Parsing (Expr Unit)) :=
  (UnaryOp.ofKind? first.kind).map fun op =>
    operand.andThen fun value => pure (.unary op first.position value)

/-- The value of an assignment, if there is an equals sign. -/
def assignmentAfter (expression : Parsing (Expr Unit)) (target : Expr Unit) :
    Parsing (Expr Unit) :=
  ifAccepted .equal
    (expression.andThen fun value e taken _ => taken = [] ∧ Expr.AssignsTo value target e)
    (pure target)

end Parsing

/-! ### Expression parsers are exact -/

namespace Parser

section Expressions

variable {expression operand : Parser (Expr Unit)} {readingE readingO : Parsing (Expr Unit)}

theorem grouping_exact (exactE : Exact limit expression readingE) :
    Exact limit (grouping expression) (Parsing.grouping readingE) :=
  exactE.bind fun _ => (Exact.expect (by decide) _).bind fun _ => Exact.pure _

theorem superMethod_exact (keyword : Position) :
    Exact limit (superMethod keyword) (Parsing.superMethod keyword) :=
  (Exact.expect (by decide) _).bind fun _ => (Exact.name _).bind fun _ => Exact.pure _

theorem callArguments_exact (exactE : Exact limit expression readingE)
    (nonempty : readingE.Nonempty) (callee : Expr Unit) :
    Exact limit (callArguments limit expression callee)
      (Parsing.callArguments limit readingE callee) := by
  have arguments : Exact limit (elements limit .arguments expression)
      (Parsing.elements limit readingE) :=
    ⟨elements_sound _ exactE.sound nonempty, elements_complete _ exactE.complete nonempty⟩
  exact arguments.bind fun _ => (Exact.expect (by decide) _).bind fun _ => Exact.pure _

theorem primary_exact (exactE : Exact limit expression readingE) :
    Exact limit (primary expression) (Parsing.primary readingE) := by
  constructor
  · refine led_sound fun stream proper => ?_
    -- a token that is a whole expression by itself
    have single {e : Expr Unit} (inside : stream.current.kind ≠ .eof)
        (known : Parsing.primaryAfter readingE stream.current = some (Parsing.pure e)) :
        ∃ reading, Parsing.primaryAfter readingE stream.current = some reading ∧
          Outcome limit (-1) stream
            (fun value taken next =>
              ∃ rest, taken = stream.current :: rest ∧ reading value rest next)
            (.ok e stream.advance) :=
      ⟨_, known, [stream.current], proper.passes_advance inside,
        fun _ => ⟨[], rfl, rfl, rfl⟩⟩
    unfold primary
    simp only
    split
    case h_1 isKind | h_2 isKind | h_3 isKind | h_4 isKind | h_5 isKind | h_7 isKind | h_8 isKind =>
      exact Or.inl (single (by simp [isKind]) (by simp only [Parsing.primaryAfter, isKind]))
    case h_6 isSuper =>
      exact Or.inl ⟨_, by simp only [Parsing.primaryAfter, isSuper],
        (superMethod_exact _).shorter.advancing proper (by simp [isSuper])⟩
    case h_9 isOpening =>
      exact Or.inl ⟨_, by simp only [Parsing.primaryAfter, isOpening],
        (grouping_exact exactE).shorter.advancing proper (by simp [isOpening])⟩
    case h_10 =>
      refine Or.inr ⟨?_, Sound.fail .expression stream proper⟩
      unfold Parsing.primaryAfter
      split <;> simp_all
  · rintro stream e taken next rest split bounded
      (⟨first, after, reading, known, rfl, reads⟩ | ⟨-, impossible⟩)
    · unfold Parsing.primaryAfter at known
      split at known
      case h_6 isKind =>
        cases known
        have whole : Exact limit _ _ := superMethod_exact first.position
        obtain ⟨current, read⟩ := whole.complete.advancing split (by simp [isKind]) bounded reads
        simp only [primary, current, isKind, read]
      case h_9 isKind =>
        cases known
        obtain ⟨current, read⟩ := (grouping_exact exactE).complete.advancing split
          (by simp [isKind]) bounded reads
        simp only [primary, current, isKind, read]
      case h_10 => cases known
      all_goals
        rename_i isKind
        cases known
        obtain ⟨rfl, rfl⟩ := reads
        obtain ⟨current, advanced⟩ := Stream.advance_of_tokens split (by simp [isKind])
        simp only [primary, current, isKind, advanced]
    · exact impossible.elim

theorem call_exact (exactE : Exact limit expression readingE) (nonempty : readingE.Nonempty) :
    Exact limit (call limit expression) (Parsing.call limit readingE) :=
  (primary_exact exactE).bind fun _ => Exact.repeating
    (fun _ => Exact.ifAccept (by decide)
      ((callArguments_exact exactE nonempty _).bind fun _ => Exact.pure _)
      (Exact.ifAccept (by decide) ((Exact.name _).bind fun _ => Exact.pure _) (Exact.pure _)))
    Parsing.callStep_progressing _

theorem binaryChain_exact {operator? : Kind → Option BinaryOp} {level : Level}
    (lists : ListsLevel operator? level) (exactO : Exact limit operand readingO) :
    Exact limit (binaryChain operator? operand) (Parsing.chain level readingO) :=
  ⟨binaryChain_sound lists exactO.sound, binaryChain_complete lists exactO.complete⟩

theorem logicalChain_exact (op : LogicalOp) (exactO : Exact limit operand readingO) :
    Exact limit (logicalChain op.kind op operand) (Parsing.chain op.level readingO) :=
  ⟨logicalChain_sound op exactO.sound, logicalChain_complete op exactO.complete⟩

theorem disjunction_exact (exactO : Exact limit operand readingO) :
    Exact limit (disjunction operand) (Parsing.disjunction readingO) := by
  have factor := binaryChain_exact listsLevel_factor exactO
  have term := binaryChain_exact listsLevel_term factor
  have comparison := binaryChain_exact listsLevel_comparison term
  have equality := binaryChain_exact listsLevel_equality comparison
  have conjunction := logicalChain_exact .and equality
  exact logicalChain_exact .or conjunction

theorem assignmentAfter_exact (exactE : Exact limit expression readingE) (target : Expr Unit) :
    Exact limit (assignmentAfter expression target)
      (Parsing.assignmentAfter readingE target) := by
  constructor
  · intro stream proper
    unfold assignmentAfter
    by_cases isEqual : stream.current.kind = .equal
    · rw [if_pos isEqual]
      have second := exactE.shorter.bind fun value => assignTo_sound target stream.current value
      refine (second.advancing proper (by simp [isEqual])).mono ?_
      rintro e taken next ⟨after, rfl, reads⟩
      exact Or.inl ⟨stream.current, after, isEqual, rfl, reads⟩
    · rw [if_neg isEqual]
      exact ⟨[], Passes.refl stream, fun _ => Or.inr ⟨isEqual, rfl, rfl⟩⟩
  · rintro stream e taken next rest split bounded
      (⟨equals, after, isEqual, rfl, reads⟩ | ⟨differs, rfl, rfl⟩)
    · obtain ⟨current, read⟩ := (exactE.complete.bind fun value =>
        assignTo_complete target stream.current value).advancing split (by simp [isEqual]) bounded
          reads
      rw [current] at read
      simp only [assignmentAfter, current, isEqual, ↓reduceIte, read]
    · have current : stream.current = next := (List.cons.inj split).1
      rw [List.nil_append] at split
      rw [firstKind_nil] at differs
      simp only [assignmentAfter, current, differs, ↓reduceIte, stream.moveTo_self split]

end Expressions

/-- An operand begins with a prefix operator, or it is a call. -/
theorem unary_succ_exact {room : Nat} {readingE readingO : Parsing (Expr Unit)}
    (exactO : Exact limit (unary limit room) readingO)
    (exactE : Exact limit (expression limit room) readingE) (nonempty : readingE.Nonempty) :
    Exact limit (unary limit (room + 1))
      (Parsing.led (Parsing.prefixed readingO) (Parsing.call limit readingE)) := by
  have calls := call_exact exactE nonempty
  constructor
  · refine led_sound fun stream proper => ?_
    rw [unary_succ]
    cases isOperator : UnaryOp.ofKind? stream.current.kind with
    | none => exact Or.inr ⟨by simp [Parsing.prefixed, isOperator], calls.sound stream proper⟩
    | some op =>
        have inside : stream.current.kind ≠ .eof := by
          rw [UnaryOp.ofKind?_eq_some.1 isOperator]
          cases op <;> decide
        exact Or.inl ⟨_, by simp [Parsing.prefixed, isOperator],
          (exactO.shorter.bind fun value => Sound.pure _).advancing proper inside⟩
  · rintro stream e taken next rest split bounded
      (⟨first, after, reading, known, rfl, reads⟩ | ⟨unknown, reads⟩)
    · obtain ⟨op, isOperator, rfl⟩ := Option.map_eq_some_iff.1 known
      have inside : first.kind ≠ .eof := by
        rw [UnaryOp.ofKind?_eq_some.1 isOperator]
        cases op <;> decide
      obtain ⟨current, read⟩ := (exactO.complete.bind fun value =>
        Complete.pure (Expr.unary op first.position value)).advancing split inside bounded reads
      simp only [unary_succ, current, isOperator, read]
    · have none := unknown _ _
        (Stream.current_of_split split (Parsing.call_nonempty _ _ _ reads))
      rw [Parsing.prefixed, Option.map_eq_none_iff] at none
      rw [unary_succ, none]
      exact calls.complete stream e taken next rest split bounded reads

theorem tooDeep_exact {α : Type} : Exact limit (tooDeep : Parser α) fun _ _ _ => False :=
  ⟨tooDeep_sound (by decide), fun _ _ _ _ _ _ _ impossible => impossible.elim⟩

/-- Within any room, operands and expressions are read exactly. -/
theorem unary_and_expression_exact (room : Nat) :
    (∃ reading, Exact limit (unary limit room) reading ∧ reading.Nonempty) ∧
      ∃ reading, Exact limit (expression limit room) reading ∧ reading.Nonempty := by
  induction room with
  | zero =>
      have nothing : Parsing.Nonempty fun (_ : Expr Unit) _ _ => False :=
        fun _ _ _ impossible => impossible.elim
      refine ⟨⟨_, ?_, nothing⟩, ⟨_, ?_, nothing⟩⟩
      · have same : unary limit 0 = tooDeep := by
          funext stream
          rw [unary]
        rw [same]
        exact tooDeep_exact
      · have same : expression limit 0 = tooDeep := by
          funext stream
          rw [expression]
        rw [same]
        exact tooDeep_exact
  | succ room ih =>
      obtain ⟨⟨readingO, exactO, nonemptyO⟩, readingE, exactE, nonemptyE⟩ := ih
      refine ⟨⟨_, unary_succ_exact exactO exactE nonemptyE, Parsing.call_nonempty.led⟩, ?_⟩
      rw [expression_succ]
      exact ⟨_, (disjunction_exact exactO).bind (assignmentAfter_exact exactE),
        nonemptyO.disjunction.andThen⟩

end Parser

/-! ### What follows a declaration -/

namespace Parsing

variable {α β : Type} {first : Parsing α} {second : α → Parsing β}

/-- A reading for which it makes no difference what follows, except for an `else`. -/
structure Closed (reading : Parsing α) : Prop where
  before : ∀ {value taken next} other, other ≠ .keyword .else_ → reading value taken next →
    reading value taken other

/-- A reading that takes a token and is closed. -/
structure Ends (reading : Parsing α) : Prop where
  closed : reading.Closed
  nonempty : reading.Nonempty

theorem Closed.pure (value : α) : (pure value).Closed :=
  ⟨fun _ _ reads => reads⟩

theorem Closed.token (kind : Kind) : (token kind).Closed :=
  ⟨fun _ _ reads => reads⟩

theorem Nonempty.token (kind : Kind) : (token kind).Nonempty := by
  rintro value taken next ⟨-, rfl⟩
  exact List.cons_ne_nil _ _

theorem firstKind_of_ne_nil {taken : List Token} (nonempty : taken ≠ []) (next other : Kind) :
    firstKind taken next = firstKind taken other := by
  cases taken with
  | nil => exact absurd rfl nonempty
  | cons token rest => rfl

/-- Only where the second reading takes nothing does the first one see what follows. -/
theorem Closed.andThen (closed : first.Closed) (closedToo : ∀ value, (second value).Closed) :
    (first.andThen second).Closed := by
  constructor
  rintro value taken next other noElse ⟨middle, before, after, rfl, reads, readsAfter⟩
  refine ⟨middle, before, after, rfl, ?_, (closedToo middle).before other noElse readsAfter⟩
  by_cases empty : after = []
  · subst empty
    exact closed.before other noElse reads
  · rw [firstKind_of_ne_nil empty other next]
    exact reads

theorem Ends.andThen (ends : ∀ value, (second value).Ends) : (first.andThen second).Ends where
  closed := by
    constructor
    rintro value taken next other noElse ⟨middle, before, after, rfl, reads, readsAfter⟩
    have taken := (ends middle).nonempty _ _ _ readsAfter
    refine ⟨middle, before, after, rfl, ?_, (ends middle).closed.before other noElse readsAfter⟩
    rw [firstKind_of_ne_nil taken other next]
    exact reads
  nonempty := by
    rintro value taken next ⟨middle, before, after, rfl, -, readsAfter⟩
    simp [(ends middle).nonempty _ _ _ readsAfter]

theorem Ends.token {kind : Kind} {others : Token → Parsing β}
    (closed : ∀ value, (others value).Closed) : ((token kind).andThen others).Ends :=
  ⟨(Closed.token kind).andThen closed, (Nonempty.token kind).andThen⟩

theorem Closed.ifElse {yes no : Parsing α} (closed : yes.Closed) (closedToo : no.Closed) :
    (ifAccepted (.keyword .else_) yes no).Closed := by
  constructor
  rintro value taken next other noElse (⟨first, after, isElse, rfl, reads⟩ | ⟨differs, reads⟩)
  · exact Or.inl ⟨first, after, isElse, rfl, closed.before other noElse reads⟩
  · refine Or.inr ⟨?_, closedToo.before other noElse reads⟩
    cases taken with
    | nil => exact noElse
    | cons first rest => exact differs

theorem Ends.ifAccepted {kind : Kind} {yes no : Parsing α} (closed : yes.Closed)
    (ends : no.Ends) : (ifAccepted kind yes no).Ends where
  closed := by
    constructor
    rintro value taken next other noElse (⟨first, after, isKind, rfl, reads⟩ | ⟨differs, reads⟩)
    · exact Or.inl ⟨first, after, isKind, rfl, closed.before other noElse reads⟩
    · refine Or.inr ⟨?_, ends.closed.before other noElse reads⟩
      rw [firstKind_of_ne_nil (ends.nonempty _ _ _ reads) other next]
      exact differs
  nonempty := by
    rintro value taken next (⟨first, after, -, rfl, -⟩ | ⟨-, reads⟩)
    · exact List.cons_ne_nil _ _
    · exact ends.nonempty _ _ _ reads

theorem Closed.led {after : Token → Option (Parsing α)} {otherwise : Parsing α}
    (closed : ∀ first reading, after first = some reading → reading.Closed)
    (closedToo : otherwise.Closed) : (led after otherwise).Closed := by
  constructor
  rintro value taken next other noElse (⟨first, rest, reading, known, rfl, reads⟩ |
    ⟨unknown, reads⟩)
  · exact Or.inl ⟨first, rest, reading, known, rfl,
      (closed first reading known).before other noElse reads⟩
  · exact Or.inr ⟨unknown, closedToo.before other noElse reads⟩

section Statements

variable {readingE : Parsing (Expr Unit)} {readingS readingD : Parsing (Stmt Unit)}

theorem expressionStatement_ends : (expressionStatement readingE).Ends :=
  .andThen fun _ => .token fun _ => .pure _

theorem printStatement_ends : (printStatement readingE).Ends :=
  .andThen fun _ => .token fun _ => .pure _

theorem returnStatement_ends (keyword : Position) : (returnStatement keyword readingE).Ends :=
  .andThen fun _ => .token fun _ => .pure _

theorem variableDeclaration_ends : (variableDeclaration readingE).Ends :=
  .andThen fun _ => .ifAccepted (Ends.andThen fun _ => .token fun _ => .pure _).closed
    (.token fun _ => .pure _)

theorem block_ends : (block readingD).Ends :=
  .andThen fun _ => .token fun _ => .pure _

theorem ifStatement_ends (closed : readingS.Closed) : (ifStatement readingE readingS).Ends :=
  .andThen fun _ => .andThen fun _ => .token fun _ => closed.andThen fun _ =>
    .ifElse (closed.andThen fun _ => .pure _) (.pure _)

theorem whileLoop_ends (closed : readingS.Closed) : (whileLoop readingE readingS).Ends :=
  .andThen fun _ => .andThen fun _ => .token fun _ => closed.andThen fun _ => .pure _

theorem forLoop_ends (closed : readingS.Closed) : (forLoop readingE readingS).Ends :=
  .andThen fun _ => .andThen fun _ => .andThen fun _ => .andThen fun _ => .andThen fun _ =>
    .token fun _ => closed.andThen fun _ => .pure _

theorem function_ends : (function limit readingD).Ends :=
  .andThen fun _ => .andThen fun _ => .andThen fun _ => .andThen fun _ => .token fun _ =>
    block_ends.closed.andThen fun _ => .pure _

theorem classDeclaration_ends : (classDeclaration limit readingD).Ends :=
  .andThen fun _ => .andThen fun _ => .andThen fun _ => .andThen fun _ => .token fun _ => .pure _

theorem statement_ends (closed : readingS.Closed) :
    (led (statementAfter readingE readingS readingD) (expressionStatement readingE)).Ends where
  closed := by
    refine Closed.led ?_ expressionStatement_ends.closed
    intro first reading known
    unfold statementAfter at known
    split at known <;> cases known
    · exact (forLoop_ends closed).closed
    · exact (ifStatement_ends closed).closed
    · exact printStatement_ends.closed
    · exact (returnStatement_ends _).closed
    · exact (whileLoop_ends closed).closed
    · exact block_ends.closed.andThen fun _ => .pure _
  nonempty := Nonempty.led expressionStatement_ends.nonempty

theorem declaration_ends (ends : readingS.Ends) :
    (led (declarationAfter limit readingE readingD) readingS).Ends where
  closed := by
    refine Closed.led ?_ ends.closed
    intro first reading known
    unfold declarationAfter at known
    split at known <;> cases known
    · exact classDeclaration_ends.closed
    · exact function_ends.closed.andThen fun _ => .pure _
    · exact variableDeclaration_ends.closed
  nonempty := Nonempty.led ends.nonempty

end Statements

end Parsing

/-! ### Statement parsers are exact -/

namespace Parser

/-- Within any room, statements and declarations are read exactly, and it makes no difference what
follows them. -/
theorem statement_and_declaration_exact (room : Nat) :
    (∃ reading, Exact limit (statement limit room) reading ∧ reading.Ends) ∧
      ∃ reading, Sound limit (-1) (lift (declaration limit room)) (present reading) ∧
        Complete (declaration limit room) (present reading) ∧ reading.Ends := by
  induction room with
  | zero =>
      have nothing : Parsing.Ends fun (_ : Stmt Unit) _ _ => False :=
        ⟨⟨fun _ _ impossible => impossible.elim⟩, fun _ _ _ impossible => impossible.elim⟩
      refine ⟨⟨_, ?_, nothing⟩, ⟨_, ?_, ?_, nothing⟩⟩
      · have same : statement limit 0 = tooDeep := by
          funext stream
          rw [statement]
        rw [same]
        exact tooDeep_exact
      · have same : lift (declaration limit 0) = tooDeep := by
          funext stream
          rw [lift, declaration]
          rfl
        rw [same]
        exact tooDeep_sound (by decide)
      · rintro stream found taken next rest split bounded ⟨value, -, impossible⟩
        exact impossible.elim
  | succ room ih =>
      obtain ⟨⟨readingS, exactS, endsS⟩, readingD, soundD, completeD, endsD⟩ := ih
      obtain ⟨readingE, exactE, nonemptyE⟩ :
          ∃ reading, Exact limit (expression limit room) reading ∧ reading.Nonempty :=
        (unary_and_expression_exact room).2
      have shorterD : Sound limit (-1 - 2) _ _ := soundD.needLess (by omega)
      constructor
      · have sound := statementOf_sound endsD.nonempty exactE.sound exactS.shorter shorterD
        have complete := statementOf_complete endsD.nonempty nonemptyE exactE.complete
          exactS.complete completeD
        rw [← statement_succ] at sound complete
        exact ⟨_, ⟨sound, complete⟩, Parsing.statement_ends endsS.closed⟩
      · have sound := recovering_sound (declarationOf_sound endsD.nonempty exactE.shorter
          exactS.sound shorterD)
        have declared : Complete (declarationOf limit _ _ _) _ := declarationOf_complete
          endsD.nonempty endsS.nonempty exactE.complete exactS.complete completeD
        have complete := recovering_complete declared
        rw [← declaration_succ] at sound complete
        exact ⟨_, sound, complete, Parsing.declaration_ends endsS⟩

/-- Within any room, what is read as a program is a number of declarations up to the end. -/
theorem program_exact (room : Nat) :
    ∃ reading : Parsing (Stmt Unit),
      Sound limit (-1) (lift (program (declaration limit room)))
        (Parsing.items endsSource reading) ∧
      Complete (program (declaration limit room)) (Parsing.items endsSource reading) ∧
      reading.Ends := by
  obtain ⟨reading, sound, complete, ends⟩ :
      ∃ reading, Sound limit (-1) (lift (declaration limit room)) (present reading) ∧
        Complete (declaration limit room) (present reading) ∧ reading.Ends :=
    (statement_and_declaration_exact room).2
  refine ⟨reading, program_sound_of sound ends.nonempty, ?_, ends⟩
  rw [program_eq]
  exact (Complete.repeating (stepUntil_complete complete)
    (Parsing.manyStep_progressing endsSource ends.nonempty) #[]).bind
      fun all => Complete.pure all.toList

end Parser

/-! ### Programs one after the other -/

namespace Parsing

/-- Items of one list and then of another, if the first ones may be followed by the others. -/
theorem Many.append {α : Type} {item : Parsing α} {first second : List α}
    {taken after : List Token} {next : Kind} (many : Many item first taken (firstKind after next))
    (others : Many item second after next) :
    Many item (first ++ second) (taken ++ after) next := by
  generalize isNext : firstKind after next = following at many
  induction many with
  | nil => exact others
  | @cons value rest ts us following reads _ ih =>
      rw [← isNext, ← firstKind_append] at reads
      rw [List.cons_append, List.append_assoc]
      exact .cons reads (ih isNext)

/-- Items that are closed can be followed by anything but an `else`. -/
theorem Many.before {item : Parsing (Stmt Unit)} {list : List (Stmt Unit)} {taken : List Token}
    {next other : Kind} (many : Many (unended endsSource item) list taken next) (ends : item.Ends)
    (noElse : other ≠ .keyword .else_) : Many (unended endsSource item) list taken other := by
  induction many with
  | nil => exact .nil
  | @cons value rest ts us next reads _ ih =>
      refine .cons ⟨?_, ?_⟩ ih
      · have taken := ends.nonempty _ _ _ reads.2
        rw [firstKind_of_ne_nil taken _ (firstKind us next)]
        exact reads.1
      · by_cases empty : us = []
        · subst empty
          exact ends.closed.before other noElse reads.2
        · rw [firstKind_of_ne_nil empty other next]
          exact reads.2

end Parsing

namespace Program

/-- What is read without an error up to the end. -/
theorem parseWithin_reads {room : Nat} {reading : Parsing (Stmt Unit)} {body : List Token}
    {last : Token} {program : Program.Plain}
    (sound : Parser.Sound limit (-1) (Parser.lift (Parser.program (Parser.declaration limit room)))
      (Parsing.items endsSource reading))
    (ends : EndsOnce (body ++ [last]))
    (read : parseWithin room limit (body ++ [last]) = { program := .ok program, errors := #[] }) :
    Parsing.Many (Parsing.unended endsSource reading) program body last.kind := by
  obtain ⟨proper, same⟩ := Stream.ofTokens_proper ends
  have outcome := sound _ proper
  unfold parseWithin at read
  cases result : Parser.program (Parser.declaration limit room)
      (.ofTokens (body ++ [last])) with
  | error reason following =>
      rw [result] at read
      cases read
  | ok found following =>
      rw [result] at read
      rw [Parser.lift_ok result] at outcome
      rcases outcome with ⟨taken, passes, reads⟩
      obtain ⟨same', clean⟩ := Parse.mk.inj read
      cases same'
      obtain ⟨many, isEnd⟩ := Parsing.items_iff.1 (reads clean)
      have split := passes.tokens
      rw [same, Stream.tokens] at split
      obtain ⟨rfl, rfl⟩ := ends.split_at_end split (by simpa [endsSource] using isEnd)
      exact many

/-- A program does not begin with an `else`. -/
theorem parseWithin_first {room : Nat} {reading : Parsing (Stmt Unit)} {body : List Token}
    {last : Token} {program : Program.Plain} (ends : EndsOnce (body ++ [last]))
    (read : parseWithin room limit (body ++ [last]) = { program := .ok program, errors := #[] })
    (many : Parsing.Many (Parsing.unended endsSource reading) program body last.kind) :
    firstKind body last.kind ≠ .keyword .else_ := by
  cases many with
  | nil =>
      have isEnd : last.kind = .eof := ends
      simp [firstKind, isEnd]
  | @cons statement rest before after _ reads _ =>
      obtain ⟨taken, others, split, declared⟩ := parseWithin_clean ends (by rw [read]) (by rw [read])
      cases declared with
      | cons first =>
          obtain ⟨token, following, rfl, starts⟩ := first.starts
          have same : firstKind (before ++ after) last.kind = token.kind := by
            cases listed : before ++ after with
            | nil =>
                rw [listed] at split
                exact congrArg Token.kind (List.cons.inj split).1
            | cons leading remaining =>
                rw [listed] at split
                exact congrArg Token.kind (List.cons.inj split).1
          rw [same]
          rintro isElse
          rw [isElse] at starts
          cases starts

/-- Two token lists that are read without an error within a room are read as one within it. -/
theorem parseWithin_append {room : Nat} {body after : List Token} {end_ last : Token}
    {first second : Program.Plain} (ends : EndsOnce (body ++ [end_]))
    (endsToo : EndsOnce (after ++ [last]))
    (read : parseWithin room limit (body ++ [end_]) = { program := .ok first, errors := #[] })
    (readToo : parseWithin room limit (after ++ [last]) =
      { program := .ok second, errors := #[] }) :
    parseWithin room limit (body ++ after ++ [last]) =
      { program := .ok (first ++ second), errors := #[] } := by
  obtain ⟨reading, sound, complete, closed⟩ :
      ∃ reading : Parsing (Stmt Unit),
        Parser.Sound limit (-1)
          (Parser.lift (Parser.program (Parser.declaration limit room)))
          (Parsing.items endsSource reading) ∧
        Parser.Complete (Parser.program (Parser.declaration limit room))
          (Parsing.items endsSource reading) ∧ reading.Ends := Parser.program_exact room
  have many := parseWithin_reads sound ends read
  have others := parseWithin_reads sound endsToo readToo
  have isEnd : last.kind = .eof := endsToo.drop (List.cons_ne_nil _ _)
  exact parseWithin_many complete isEnd
    ((many.before closed (parseWithin_first endsToo readToo others)).append others)

/-- Where the end of the tokens stands does not matter for what is read. -/
theorem parseWithin_end {room : Nat} {body : List Token} {end_ last : Token}
    {program : Program.Plain} (ends : EndsOnce (body ++ [end_])) (isEnd : last.kind = .eof)
    (read : parseWithin room limit (body ++ [end_]) = { program := .ok program, errors := #[] }) :
    parseWithin room limit (body ++ [last]) = { program := .ok program, errors := #[] } := by
  obtain ⟨reading, sound, complete, -⟩ := @Parser.program_exact limit room
  have many := parseWithin_reads sound ends read
  have sameKind : end_.kind = last.kind := (ends.drop (List.cons_ne_nil _ _)).trans isEnd.symm
  rw [sameKind] at many
  exact parseWithin_many complete isEnd many

end Program

end LoxLang
