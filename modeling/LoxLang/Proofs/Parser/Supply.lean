/-
Module: LoxLang.Proofs.Parser.Supply
Purpose: A token makes one reference at most.  A parser is handed the names of what has been read
  and those that the tokens ahead can be referred to by; what it yields and the tokens it leaves
  have no more than these.  So it is for whole programs, whatever errors are recovered from, in
  whatever order the clauses of a loop come out and whichever values are dropped.
Main exports: Token.referent?, Parser.Draws, Parser.expression_draws, Parser.declaration_draws,
  Program.references_subperm
-/
import LoxLang.Proofs.Parser.Program
import Mathlib.Algebra.Order.Group.Multiset

namespace LoxLang

/-! ### Names of references -/

/-- The name that a reference made from a token carries: an identifier, `this` or `super`. -/
def Token.referent? (token : Token) : Option Ident :=
  match token.kind with
  | .identifier => some token.ident
  | .keyword .this_ => some { text := "this", position := token.position }
  | .keyword .super_ => some { text := "super", position := token.position }
  | _ => none

/-- The names that tokens can be referred to by, once for each token. -/
def referents (tokens : List Token) : Multiset Ident :=
  Multiset.ofList (tokens.filterMap Token.referent?)

theorem referents_append (ts us : List Token) :
    referents (ts ++ us) = referents ts + referents us := by
  rw [referents, List.filterMap_append, ← Multiset.coe_add]
  rfl

theorem Token.inside_of_referent {token : Token} {name : Ident}
    (isName : token.referent? = some name) : token.kind ≠ .eof := by
  intro isEnd
  rw [referent?, isEnd] at isName
  cases isName

theorem referents_single {token : Token} {name : Ident} (isName : token.referent? = some name) :
    referents [token] = {name} := by
  rw [referents, List.filterMap_cons_some isName]
  rfl

/-- The names that references carry, each as often as there is a reference with it. -/
def namesOf {ρ : Type} (references : List (Reference ρ)) : Multiset Ident :=
  Multiset.ofList (references.map Reference.name)

section NamesOf

variable {ρ : Type}

@[simp] theorem namesOf_nil : namesOf ([] : List (Reference ρ)) = 0 :=
  rfl

@[simp] theorem namesOf_cons (reference : Reference ρ) (rest : List (Reference ρ)) :
    namesOf (reference :: rest) = {reference.name} + namesOf rest :=
  rfl

@[simp] theorem namesOf_append (first second : List (Reference ρ)) :
    namesOf (first ++ second) = namesOf first + namesOf second := by
  rw [namesOf, List.map_append, ← Multiset.coe_add]
  rfl

end NamesOf

/-- The names that an expression refers to. -/
def Expr.uses (e : Expr Unit) : Multiset Ident :=
  namesOf e.references

theorem Expr.uses_all (es : List (Expr Unit)) :
    namesOf (referencesAll es) = (es.map uses).sum := by
  induction es with
  | nil => rfl
  | cons e rest ih => simp [referencesAll, ih, uses]

theorem Expr.uses_opt (value : Option (Expr Unit)) :
    namesOf (referencesOpt value) = value.elim 0 uses := by
  cases value <;> rfl

@[simp] theorem Expr.uses_literal (value : Literal) : (literal value).uses = 0 :=
  rfl

@[simp] theorem Expr.uses_binary (left : Expr Unit) (op : BinaryOp) (position : Position)
    (right : Expr Unit) : (binary left op position right).uses = left.uses + right.uses :=
  namesOf_append _ _

@[simp] theorem Expr.uses_logical (left : Expr Unit) (op : LogicalOp) (right : Expr Unit) :
    (logical left op right).uses = left.uses + right.uses :=
  namesOf_append _ _

@[simp] theorem Expr.uses_call (callee : Expr Unit) (arguments : List (Expr Unit))
    (close : Position) :
    (call callee arguments close).uses = callee.uses + (arguments.map uses).sum :=
  (namesOf_append _ _).trans (congrArg _ (uses_all arguments))

@[simp] theorem Expr.uses_set (object : Expr Unit) (name : Ident) (value : Expr Unit) :
    (set object name value).uses = object.uses + value.uses :=
  namesOf_append _ _

/-- The names that a statement refers to. -/
def Stmt.uses (s : Stmt Unit) : Multiset Ident :=
  namesOf s.references

/-- The names that the body of a function refers to. -/
def Function.uses (declaration : Function Unit) : Multiset Ident :=
  namesOf (Stmt.referencesFunction declaration)

theorem Stmt.uses_all (body : List (Stmt Unit)) :
    namesOf (referencesAll body) = (body.map uses).sum := by
  induction body with
  | nil => rfl
  | cons s rest ih => simp [referencesAll, ih, uses]

theorem Stmt.uses_methods (methods : List (Function Unit)) :
    namesOf (referencesMethods methods) = (methods.map Function.uses).sum := by
  induction methods with
  | nil => rfl
  | cons method rest ih => simp [referencesMethods, ih, Function.uses]

@[simp] theorem Stmt.uses_expression (value : Expr Unit) : (expression value).uses = value.uses :=
  rfl

@[simp] theorem Stmt.uses_block (body : List (Stmt Unit)) :
    (block body).uses = (body.map uses).sum :=
  uses_all body

@[simp] theorem Stmt.uses_loop (condition : Expr Unit) (body : Stmt Unit) :
    (loop condition body).uses = condition.uses + body.uses :=
  namesOf_append _ _

/-- An `else` branch that is missing refers to nothing. -/
@[simp] theorem Stmt.uses_branch (condition : Expr Unit) (thenBranch : Stmt Unit)
    (elseBranch : Option (Stmt Unit)) :
    (branch condition thenBranch elseBranch).uses =
      condition.uses + thenBranch.uses + elseBranch.elim 0 uses := by
  have both : namesOf (condition.references ++ thenBranch.references) =
      condition.uses + thenBranch.uses := namesOf_append _ _
  cases elseBranch with
  | none => exact both.trans (add_zero _).symm
  | some otherwise => exact (namesOf_append _ _).trans (congrArg (· + otherwise.uses) both)

/-- A class refers to its superclass, and its methods refer to what they do. -/
theorem Stmt.uses_classDecl (name : Ident) (superclass : Option (Ident × Unit))
    (methods : List (Function Unit)) :
    (classDecl name superclass methods).uses =
      (superclass.elim 0 fun parent => {parent.1}) + (methods.map Function.uses).sum := by
  cases superclass <;> simp [uses, references, uses_methods]

/-- The clauses of a `for` loop are put in another order, and none of them is put in twice. -/
theorem Stmt.uses_forLoop (initializer : Option (Stmt Unit))
    (condition increment : Option (Expr Unit)) (body : Stmt Unit) :
    (forLoop initializer condition increment body).uses =
      initializer.elim 0 uses + condition.elim 0 Expr.uses + increment.elim 0 Expr.uses +
        body.uses := by
  cases initializer <;> cases condition <;> cases increment <;>
    simp [forLoop, add_assoc, add_comm, add_left_comm]

namespace Parser

variable {α β : Type} {held : Multiset Ident} {uses : α → Multiset Ident} {parser : Parser α}

/-! ### Drawing on a supply of names -/

/-- What comes of a parser uses no more names, together with the tokens that are left, than
`supply` has. -/
def Within (supply : Multiset Ident) (uses : α → Multiset Ident) :
    EStateM.Result Interrupt Stream α → Prop
  | .ok value following => following.Proper ∧ uses value + referents following.tokens ≤ supply
  | .error _ following => following.Proper ∧ referents following.tokens ≤ supply

theorem Within.mono {supply larger : Multiset Ident} {result : EStateM.Result Interrupt Stream α}
    (within : Within supply uses result) (more : supply ≤ larger) : Within larger uses result := by
  cases result with
  | ok value following => exact ⟨within.1, within.2.trans more⟩
  | error interrupt following => exact ⟨within.1, within.2.trans more⟩

/-- A parser that holds the names of what has been read before draws on these and on the names of
the tokens ahead. -/
def Draws (held : Multiset Ident) (uses : α → Multiset Ident) (parser : Parser α) : Prop :=
  ∀ stream : Stream, stream.Proper →
    Within (held + referents stream.tokens) uses (parser stream)

/-- A parser that holds nothing draws on the tokens ahead alone. -/
abbrev Yields (uses : α → Multiset Ident) (parser : Parser α) : Prop :=
  Draws 0 uses parser

namespace Draws

theorem mono {more : Multiset Ident} (draws : Draws held uses parser) (enough : held ≤ more) :
    Draws more uses parser :=
  fun stream proper => (draws stream proper).mono (add_le_add enough le_rfl)

theorem pure {value : α} (enough : uses value ≤ held) :
    Draws held uses (Pure.pure value : Parser α) :=
  fun _ proper => ⟨proper, add_le_add enough le_rfl⟩

/-- What follows draws on what the first part yields and leaves. -/
theorem bind {next : α → Parser β} {total : β → Multiset Ident} (first : Draws held uses parser)
    (second : ∀ value, Draws (uses value) total (next value)) :
    Draws held total (parser >>= next) := by
  intro stream proper
  have begun := first stream proper
  rw [bind_apply]
  cases result : parser stream with
  | error interrupt following =>
      rw [result] at begun
      exact begun
  | ok value following =>
      rw [result] at begun
      exact (second value following begun.1).mono begun.2

/-- What needs no names leaves those that are held alone. -/
theorem holding (draws : Yields uses parser) (held : Multiset Ident) :
    Draws held (fun value => held + uses value) parser := by
  intro stream proper
  have alone := draws stream proper
  rw [zero_add] at alone
  cases result : parser stream with
  | ok value following =>
      rw [result] at alone
      refine ⟨alone.1, ?_⟩
      rw [add_assoc]
      exact add_le_add le_rfl alone.2
  | error interrupt following =>
      rw [result] at alone
      exact ⟨alone.1, alone.2.trans (Multiset.le_add_left _ _)⟩

theorem ite {condition : Prop} [Decidable condition] {yes no : Parser α}
    (whenTrue : Draws held uses yes) (whenFalse : Draws held uses no) :
    Draws held uses (if condition then yes else no) := by
  split
  next => exact whenTrue
  next => exact whenFalse

/-- What goes on after the next token may refer to it. -/
theorem advancing {stream : Stream} (proper : stream.Proper) (inside : stream.current.kind ≠ .eof)
    (after : Draws (held + referents [stream.current]) uses parser) :
    Within (held + referents stream.tokens) uses (parser stream.advance) := by
  have passes := proper.passes_advance inside
  have rest := after stream.advance (passes.proper proper)
  rw [add_assoc, ← referents_append, ← passes.tokens] at rest
  exact rest

/-- What goes on after the next token need not refer to it. -/
theorem skipping {stream : Stream} (proper : stream.Proper) (inside : stream.current.kind ≠ .eof)
    (after : Draws held uses parser) :
    Within (held + referents stream.tokens) uses (parser stream.advance) :=
  advancing proper inside (after.mono (Multiset.le_add_right _ _))

/-- What a token that is not the end leads to need not refer to it. -/
theorem led {stream : Stream} {kind : Kind} (after : Draws held uses parser)
    (proper : stream.Proper) (isKind : stream.current.kind = kind) (notEnd : kind ≠ .eof) :
    Within (held + referents stream.tokens) uses (parser stream.advance) :=
  after.skipping proper (isKind ▸ notEnd)

/-- The next token is taken for something that does not refer to it. -/
theorem taking {stream : Stream} {value : α} (proper : stream.Proper)
    (inside : stream.current.kind ≠ .eof) (enough : uses value ≤ held) :
    Within (held + referents stream.tokens) uses (.ok value stream.advance) := by
  have taken : Draws held uses (Pure.pure value) := pure enough
  exact taken.skipping proper inside

/-- What goes on after the next token refers to it. -/
theorem referring {stream : Stream} {name : Ident} (proper : stream.Proper)
    (isName : stream.current.referent? = some name) (after : Draws (held + {name}) uses parser) :
    Within (held + referents stream.tokens) uses (parser stream.advance) := by
  apply advancing proper (Token.inside_of_referent isName)
  rw [referents_single isName]
  exact after

theorem failing (what : Expectation) : Draws held uses (fail what) :=
  fun _ proper => ⟨proper, Multiset.le_add_left _ _⟩

theorem tooDeep : Draws held uses Parser.tooDeep :=
  fun _ proper => ⟨proper, Multiset.le_add_left _ _⟩

theorem expectMark {kind : Kind} (inside : kind ≠ .eof) (spelling place : String) :
    Draws held (fun _ => held) (Parser.expectMark kind spelling place) := by
  intro stream proper
  by_cases isKind : stream.current.kind = kind
  · simp only [Parser.expectMark, expect, isKind, ↓reduceIte]
    exact taking proper (isKind ▸ inside) le_rfl
  · simp only [Parser.expectMark, expect, isKind, ↓reduceIte]
    exact failing _ stream proper

/-- A name is drawn from the token that it is. -/
theorem name (what : Expectation) :
    Draws held (fun name => held + {name}) (Parser.name what) := by
  intro stream proper
  rw [Parser.name, bind_apply]
  by_cases isName : stream.current.kind = .identifier
  · simp only [expect, isName, ↓reduceIte]
    have isReferent : stream.current.referent? = some stream.current.ident := by
      rw [Token.referent?, isName]
    have named : Draws (held + {stream.current.ident}) (fun name => held + {name})
        (Pure.pure stream.current.ident) := pure le_rfl
    exact named.referring proper isReferent
  · simp only [expect, isName, ↓reduceIte]
    exact failing what stream proper

theorem check (kind : Kind) : Draws held (fun _ => held) (Parser.check kind) :=
  fun _ proper => ⟨proper, le_rfl⟩

theorem accept {kind : Kind} (inside : kind ≠ .eof) :
    Draws held (fun _ => held) (Parser.accept kind) := by
  intro stream proper
  by_cases isKind : stream.current.kind = kind
  · simp only [Parser.accept, isKind, ↓reduceIte]
    exact taking proper (isKind ▸ inside) le_rfl
  · simp only [Parser.accept, isKind, ↓reduceIte]
    exact ⟨proper, le_rfl⟩

theorem acceptAs? {meaning : Kind → Option α} (inside : meaning .eof = none) :
    Draws held (fun _ => held) (Parser.acceptAs? meaning) := by
  intro stream proper
  simp only [Parser.acceptAs?]
  cases found : meaning stream.current.kind with
  | none => exact ⟨proper, le_rfl⟩
  | some value =>
      have notEnd : stream.current.kind ≠ .eof := by
        intro isEnd
        rw [isEnd, inside] at found
        cases found
      exact taking proper notEnd le_rfl

theorem report (cause : SyntaxCause) (token : Token) :
    Draws held (fun _ => held) (Parser.report cause token) :=
  fun stream proper => ⟨(Stream.Passes.report stream _).proper proper, le_rfl⟩

theorem checkLimit (limit : ArgumentLimit) (what : ListRole) (size : Nat) :
    Draws held (fun _ => held) (Parser.checkLimit limit what size) := by
  intro stream proper
  simp only [Parser.checkLimit]
  cases limit.reached? size with
  | none => exact ⟨proper, Multiset.le_add_left _ _⟩
  | some reached =>
      cases reached with
      | false => exact ⟨proper, le_rfl⟩
      | true => exact report _ _ stream proper

/-! ### Loops -/

/-- A loop whose turns use no more names than their state and the tokens ahead have. -/
theorem repeating {uses : β → Multiset Ident} {step : β → Parser (Bool × β)}
    (steps : ∀ state, Draws (uses state) (fun turn => uses turn.2) (step state)) (initial : β) :
    Draws (uses initial) uses (Parser.repeating step initial) := by
  -- A loop that is stopped by its bound leaves what the last turn left, so no bound is too small.
  have bounded : ∀ (bound : Nat) (state : β),
      Draws (uses state) uses (Parser.repeatUpTo step bound state) := by
    intro bound
    induction bound with
    | zero => exact fun state stream proper => ⟨proper, le_rfl⟩
    | succ bound ih =>
        intro state stream proper
        have turned := steps state stream proper
        cases result : step state stream with
        | error interrupt rest =>
            rw [result] at turned
            simp only [Parser.repeatUpTo, result]
            exact turned
        | ok turn rest =>
            rcases turn with ⟨again, following⟩
            rw [result] at turned
            cases again with
            | false =>
                simp only [Parser.repeatUpTo, result]
                exact turned
            | true =>
                simp only [Parser.repeatUpTo, result]
                exact (ih following rest turned.1).mono turned.2
  exact fun stream => bounded stream.size initial stream

theorem elements (limit : ArgumentLimit) (what : ListRole) (element : Yields uses parser) :
    Yields (fun all => (all.map uses).sum) (Parser.elements limit what parser) := by
  refine (check .rightParen).bind fun closes => .ite (pure le_rfl) ?_
  refine Draws.bind (@repeating _ (fun seen => (seen.toList.map uses).sum) _ (fun seen => ?_) #[])
    fun all => pure le_rfl
  refine (checkLimit limit what seen.size).bind fun _ => (element.holding _).bind fun value => ?_
  exact (accept (by decide)).bind fun more => pure (by simp)

end Draws

/-! ### Expressions -/

section Expressions

variable {operand expression : Parser (Expr Unit)}

theorem binaryChain_draws {operator? : Kind → Option BinaryOp} (inside : operator? .eof = none)
    (part : Yields Expr.uses operand) : Yields Expr.uses (binaryChain operator? operand) := by
  refine part.bind fun first => .repeating (fun left => ?_) first
  refine (Draws.acceptAs? inside).bind fun found => ?_
  cases found with
  | none => exact .pure le_rfl
  | some found =>
      exact (part.holding _).bind fun right => .pure (Expr.uses_binary ..).le

theorem logicalChain_draws {kind : Kind} (inside : kind ≠ .eof) (op : LogicalOp)
    (part : Yields Expr.uses operand) : Yields Expr.uses (logicalChain kind op operand) := by
  refine part.bind fun first => .repeating (fun left => ?_) first
  refine (Draws.accept inside).bind fun found => .ite ?_ (.pure le_rfl)
  exact (part.holding _).bind fun right => .pure (Expr.uses_logical ..).le

theorem disjunction_draws (part : Yields Expr.uses operand) :
    Yields Expr.uses (disjunction operand) := by
  have factor : Yields Expr.uses (binaryChain BinaryOp.factor? _) := binaryChain_draws rfl part
  have term : Yields Expr.uses (binaryChain BinaryOp.term? _) := binaryChain_draws rfl factor
  have comparison : Yields Expr.uses (binaryChain BinaryOp.comparison? _) :=
    binaryChain_draws rfl term
  have equality : Yields Expr.uses (binaryChain BinaryOp.equality? _) :=
    binaryChain_draws rfl comparison
  exact logicalChain_draws (by decide) .or (logicalChain_draws (by decide) .and equality)

theorem grouping_draws (inner : Yields Expr.uses expression) :
    Yields Expr.uses (grouping expression) :=
  inner.bind fun _ => (Draws.expectMark (by decide) _ _).bind fun _ => .pure le_rfl

/-- The keyword is what is referred to, and not the name of the method. -/
theorem superMethod_draws (keyword : Position) :
    Draws {{ text := "super", position := keyword }} Expr.uses (superMethod keyword) :=
  (Draws.expectMark (by decide) _ _).bind fun _ => (Draws.name _).bind fun _ =>
    .pure (Multiset.le_add_right _ _)

theorem primary_draws (inner : Yields Expr.uses expression) :
    Yields Expr.uses (primary expression) := by
  intro stream proper
  have constant : ∀ {kind : Kind} (value : Literal), stream.current.kind = kind → kind ≠ .eof →
      Within (0 + referents stream.tokens) Expr.uses (.ok (.literal value) stream.advance) :=
    fun value isKind notEnd => Draws.taking proper (isKind ▸ notEnd) le_rfl
  have reference : ∀ {name : Ident} {next : Parser (Expr Unit)},
      stream.current.referent? = some name → Draws {name} Expr.uses next →
      Within (0 + referents stream.tokens) Expr.uses (next stream.advance) :=
    fun isName after => Draws.referring proper isName (after.mono (Multiset.le_add_left _ _))
  simp only [primary]
  cases isKind : stream.current.kind with
  | keyword word =>
      cases word with
      | super_ =>
          refine reference ?_ (superMethod_draws stream.current.position)
          rw [Token.referent?, isKind]
      | this_ =>
          have receiver : Draws {⟨"this", stream.current.position⟩} Expr.uses
              (pure (.receiver stream.current.position ())) := .pure le_rfl
          refine reference ?_ receiver
          rw [Token.referent?, isKind]
      | true_ => exact constant _ isKind (by decide)
      | false_ => exact constant _ isKind (by decide)
      | nil_ => exact constant _ isKind (by decide)
      | _ => exact Draws.failing .expression stream proper
  | number => exact constant _ isKind (by decide)
  | string => exact constant _ isKind (by decide)
  | identifier =>
      have named : Draws {stream.current.ident} Expr.uses
          (pure (.read stream.current.ident ())) := .pure le_rfl
      refine reference ?_ named
      rw [Token.referent?, isKind]
  | leftParen => exact (grouping_draws inner).led proper isKind (by decide)
  | _ => exact Draws.failing .expression stream proper

theorem callArguments_draws (limit : ArgumentLimit) (inner : Yields Expr.uses expression)
    (callee : Expr Unit) : Draws callee.uses Expr.uses (callArguments limit expression callee) := by
  refine ((Draws.elements limit .arguments inner).holding _).bind fun arguments => ?_
  exact (Draws.expectMark (by decide) _ _).bind fun close => .pure (Expr.uses_call ..).le

theorem call_draws (limit : ArgumentLimit) (inner : Yields Expr.uses expression) :
    Yields Expr.uses (call limit expression) := by
  refine (primary_draws inner).bind fun first => .repeating (fun callee => ?_) first
  refine (Draws.accept (by decide)).bind fun opens => .ite ?_ ?_
  · exact (callArguments_draws limit inner callee).bind fun applied => .pure le_rfl
  · refine (Draws.accept (by decide)).bind fun dotted => .ite ?_ (.pure le_rfl)
    exact (Draws.name _).bind fun property => .pure (Multiset.le_add_right _ _)

/-- The target of an assignment refers to the token it was read from, once more or no longer. -/
theorem assignTo_draws (target : Expr Unit) (equals : Token) (value : Expr Unit) :
    Draws (target.uses + value.uses) Expr.uses (assignTo target equals value) := by
  cases target with
  | read name binding => exact .pure le_rfl
  | get object name => exact .pure (Expr.uses_set object name value).le
  -- The value is dropped, and its names with it.
  | _ => exact (Draws.report _ _).bind fun _ => .pure (Multiset.le_add_right _ _)

theorem assignmentAfter_draws (inner : Yields Expr.uses expression) (target : Expr Unit) :
    Draws target.uses Expr.uses (assignmentAfter expression target) := by
  intro stream proper
  by_cases isEqual : stream.current.kind = .equal
  · simp only [assignmentAfter, isEqual, ↓reduceIte]
    have assigned : Draws target.uses Expr.uses
        (expression >>= fun value => assignTo target stream.current value) :=
      (inner.holding _).bind fun value => assignTo_draws target stream.current value
    exact assigned.led proper isEqual (by decide)
  · simp only [assignmentAfter, isEqual, ↓reduceIte]
    exact ⟨proper, le_rfl⟩

variable {limit : ArgumentLimit}

theorem unary_succ_draws {room : Nat} (part : Yields Expr.uses (unary limit room))
    (whole : Yields Expr.uses (Parser.expression limit room)) :
    Yields Expr.uses (unary limit (room + 1)) := by
  intro stream proper
  rw [unary_succ]
  cases isOp : UnaryOp.ofKind? stream.current.kind with
  | none => exact call_draws limit whole stream proper
  | some op =>
      have inside : stream.current.kind ≠ .eof := by
        intro isEnd
        rw [isEnd] at isOp
        cases isOp
      have after : Yields Expr.uses (unary limit room >>= fun operand =>
          pure (Expr.unary op stream.current.position operand)) :=
        part.bind fun operand => .pure le_rfl
      exact after.skipping proper inside

theorem unary_and_expression_draw (room : Nat) :
    Yields Expr.uses (unary limit room) ∧ Yields Expr.uses (Parser.expression limit room) := by
  induction room with
  | zero =>
      constructor
      · intro stream proper
        simp only [unary]
        exact Draws.tooDeep stream proper
      · intro stream proper
        simp only [Parser.expression]
        exact Draws.tooDeep stream proper
  | succ room ih =>
      obtain ⟨part, whole⟩ := ih
      refine ⟨unary_succ_draws part whole, ?_⟩
      rw [expression_succ]
      exact (disjunction_draws part).bind (assignmentAfter_draws whole)

/-- An expression refers to tokens that were taken for it, and to none of them twice. -/
theorem expression_draws (room : Nat) : Yields Expr.uses (Parser.expression limit room) :=
  (unary_and_expression_draw room).2

end Expressions

/-! ### Statements -/

section Statements

variable {expression : Parser (Expr Unit)} {statement : Parser (Stmt Unit)}
  {declaration : Recovered (Option (Stmt Unit))}

theorem expressionBefore_draws (kind : Kind) (value : Yields Expr.uses expression) :
    Yields (fun found => found.elim 0 Expr.uses) (expressionBefore kind expression) :=
  (Draws.check kind).bind fun _ => .ite (.pure le_rfl) (value.bind fun _ => .pure le_rfl)

theorem expressionStatement_draws (value : Yields Expr.uses expression) :
    Yields Stmt.uses (expressionStatement expression) :=
  value.bind fun _ => (Draws.expectMark (by decide) _ _).bind fun _ => .pure le_rfl

theorem printStatement_draws (value : Yields Expr.uses expression) :
    Yields Stmt.uses (printStatement expression) :=
  value.bind fun _ => (Draws.expectMark (by decide) _ _).bind fun _ => .pure le_rfl

theorem returnStatement_draws (keyword : Position) (value : Yields Expr.uses expression) :
    Yields Stmt.uses (returnStatement keyword expression) :=
  (expressionBefore_draws _ value).bind fun found =>
    (Draws.expectMark (by decide) _ _).bind fun _ => .pure (Expr.uses_opt found).le

theorem variableDeclaration_draws (value : Yields Expr.uses expression) :
    Yields Stmt.uses (variableDeclaration expression) := by
  refine (Draws.name _).bind fun name => (Draws.accept (by decide)).bind fun _ => .ite ?_ ?_
  · exact (value.holding _).bind fun initializer => (Draws.expectMark (by decide) _ _).bind
      fun _ => .pure (Multiset.le_add_left _ _)
  · exact (Draws.expectMark (by decide) _ _).bind fun _ => .pure (Multiset.zero_le _)

theorem collecting_draws {α : Type} {uses : α → Multiset Ident} (ends : Kind → Bool)
    {item : Parser (Option α)} (items : Yields (fun found => found.elim 0 uses) item) :
    Yields (fun all => (all.map uses).sum)
      (repeating (stepUntil ends item) #[] >>= fun all => pure all.toList) := by
  refine Draws.bind (@Draws.repeating _ (fun seen => (seen.toList.map uses).sum) _
    (fun seen stream proper => ?_) #[]) fun all => .pure le_rfl
  have turned := items.holding (seen.toList.map uses).sum stream proper
  simp only [stepUntil]
  split
  next => exact ⟨proper, le_rfl⟩
  next =>
    cases result : item stream with
    | error interrupt rest =>
        rw [result] at turned
        exact turned
    | ok found rest =>
        rw [result] at turned
        cases found with
        | none => simpa [Within] using turned
        | some value => simpa [Within] using turned

/-- A declaration in which an error was found leaves nothing behind that could refer to a token. -/
theorem recovering_draws {α : Type} {uses : α → Multiset Ident} {parser : Parser α}
    (draws : Yields uses parser) :
    Yields (fun found => found.elim 0 uses) (lift (recovering parser)) := by
  intro stream proper
  have begun := draws stream proper
  cases result : parser stream with
  | ok value following =>
      rw [result] at begun
      simp only [lift, recovering, result]
      exact begun
  | error interrupt following =>
      rw [result] at begun
      obtain ⟨stillProper, enough⟩ := begun
      cases interrupt with
      | abort reason =>
          simp only [lift, recovering, result]
          exact ⟨stillProper, enough⟩
      -- What has been read is given up, and skipping tokens leaves no more names than there were.
      | syntaxError error =>
          simp only [lift, recovering, result]
          have reported := (Stream.Passes.report following error).proper stillProper
          obtain ⟨skipped, passes⟩ := Stream.passes_synchronize (following.report error)
          refine ⟨passes.proper reported, le_trans ?_ enough⟩
          have split : following.tokens = _ := passes.tokens
          rw [split, referents_append]
          exact add_le_add (Multiset.zero_le _) le_rfl

theorem block_draws (declared : Yields (·.elim 0 Stmt.uses) (lift declaration)) :
    Yields (fun body => (body.map Stmt.uses).sum) (block declaration) := by
  have body := collecting_draws Parsing.endsBlock declared
  rw [← declarations_eq] at body
  exact body.bind fun _ => (Draws.expectMark (by decide) _ _).bind fun _ => .pure le_rfl

theorem ifStatement_draws (value : Yields Expr.uses expression)
    (inner : Yields Stmt.uses statement) :
    Yields Stmt.uses (ifStatement expression statement) := by
  refine (Draws.expectMark (by decide) _ _).bind fun _ => value.bind fun condition => ?_
  refine (Draws.expectMark (by decide) _ _).bind fun _ => (inner.holding _).bind fun first => ?_
  refine (Draws.accept (by decide)).bind fun _ => .ite ?_ (.pure ?_)
  · refine (inner.holding _).bind fun second => .pure ?_
    simp [add_assoc]
  · simp

theorem whileLoop_draws (value : Yields Expr.uses expression)
    (inner : Yields Stmt.uses statement) :
    Yields Stmt.uses (whileLoop expression statement) := by
  refine (Draws.expectMark (by decide) _ _).bind fun _ => value.bind fun condition => ?_
  exact (Draws.expectMark (by decide) _ _).bind fun _ => (inner.holding _).bind fun body =>
    .pure (Stmt.uses_loop ..).le

theorem forInitializer_draws (value : Yields Expr.uses expression) :
    Yields (·.elim 0 Stmt.uses) (forInitializer expression) :=
  (Draws.accept (by decide)).bind fun _ => .ite (.pure le_rfl)
    ((Draws.accept (by decide)).bind fun _ => .ite
      ((variableDeclaration_draws value).bind fun _ => .pure le_rfl)
      ((expressionStatement_draws value).bind fun _ => .pure le_rfl))

theorem forLoop_draws (value : Yields Expr.uses expression)
    (inner : Yields Stmt.uses statement) :
    Yields Stmt.uses (forLoop expression statement) := by
  refine (Draws.expectMark (by decide) _ _).bind fun _ =>
    (forInitializer_draws value).bind fun initializer => ?_
  refine ((expressionBefore_draws _ value).holding _).bind fun condition =>
    (Draws.expectMark (by decide) _ _).bind fun _ => ?_
  refine ((expressionBefore_draws _ value).holding _).bind fun increment =>
    (Draws.expectMark (by decide) _ _).bind fun _ => ?_
  refine (inner.holding _).bind fun body => .pure ?_
  rw [Stmt.uses_forLoop]

theorem statementOf_draws (value : Yields Expr.uses expression)
    (inner : Yields Stmt.uses statement)
    (declared : Yields (·.elim 0 Stmt.uses) (lift declaration)) :
    Yields Stmt.uses (statementOf expression statement declaration) := by
  intro stream proper
  simp only [statementOf]
  cases isKind : stream.current.kind with
  | keyword word =>
      cases word with
      | for_ => exact (forLoop_draws value inner).led proper isKind (by decide)
      | if_ => exact (ifStatement_draws value inner).led proper isKind (by decide)
      | print_ => exact (printStatement_draws value).led proper isKind (by decide)
      | return_ => exact (returnStatement_draws _ value).led proper isKind (by decide)
      | while_ => exact (whileLoop_draws value inner).led proper isKind (by decide)
      | _ => exact expressionStatement_draws value stream proper
  | leftBrace =>
      have opened := (block_draws declared).led proper isKind (by decide)
      cases result : block declaration stream.advance with
      | error interrupt rest =>
          rw [result] at opened
          exact opened
      | ok body rest =>
          rw [result] at opened
          refine ⟨opened.1, ?_⟩
          rw [Stmt.uses_block]
          exact opened.2
  | _ => exact expressionStatement_draws value stream proper

/-! ### Declarations -/

/-- Only the body of a function refers to names. -/
theorem function_draws (limit : ArgumentLimit) (role : FunctionRole)
    (declared : Yields (·.elim 0 Stmt.uses) (lift declaration)) :
    Yields Function.uses (function limit role declaration) := by
  refine (Draws.name _).bind fun name => (Draws.expectMark (by decide) _ _).bind fun _ => ?_
  refine ((Draws.elements limit .parameters (Draws.name _)).holding _).bind fun parameters => ?_
  refine (Draws.expectMark (by decide) _ _).bind fun _ =>
    (Draws.expectMark (by decide) _ _).bind fun _ => ?_
  refine ((block_draws declared).holding _).bind fun body => .pure ?_
  rw [Function.uses, Stmt.referencesFunction, Stmt.uses_all]
  exact Multiset.le_add_left _ _

theorem methods_draw (limit : ArgumentLimit)
    (declared : Yields (·.elim 0 Stmt.uses) (lift declaration)) :
    Yields (fun all => (all.map Function.uses).sum) (methods limit declaration) := by
  rw [methods_eq]
  exact collecting_draws _ ((function_draws limit .method declared).bind fun _ => .pure le_rfl)

theorem superclass?_draws :
    Yields (fun found => found.elim 0 fun parent => {parent.1}) superclass? :=
  (Draws.accept (by decide)).bind fun _ => .ite
    ((Draws.name _).bind fun _ => .pure (by simp)) (.pure le_rfl)

theorem classDeclaration_draws (limit : ArgumentLimit)
    (declared : Yields (·.elim 0 Stmt.uses) (lift declaration)) :
    Yields Stmt.uses (classDeclaration limit declaration) := by
  refine (Draws.name _).bind fun name => (superclass?_draws.holding _).bind fun superclass => ?_
  refine (Draws.expectMark (by decide) _ _).bind fun _ =>
    ((methods_draw limit declared).holding _).bind fun methods => ?_
  refine (Draws.expectMark (by decide) _ _).bind fun _ => .pure ?_
  rw [Stmt.uses_classDecl]
  exact add_le_add (Multiset.le_add_left _ _) le_rfl

theorem declarationOf_draws (limit : ArgumentLimit) (value : Yields Expr.uses expression)
    (inner : Yields Stmt.uses statement)
    (declared : Yields (·.elim 0 Stmt.uses) (lift declaration)) :
    Yields Stmt.uses (declarationOf limit expression statement declaration) := by
  intro stream proper
  simp only [declarationOf]
  cases isKind : stream.current.kind with
  | keyword word =>
      cases word with
      | class_ => exact (classDeclaration_draws limit declared).led proper isKind (by decide)
      | fun_ =>
          have declaredFunction : Yields Stmt.uses (functionDeclaration limit declaration) :=
            (function_draws limit .function declared).bind fun _ => .pure le_rfl
          exact declaredFunction.led proper isKind (by decide)
      | var_ => exact (variableDeclaration_draws value).led proper isKind (by decide)
      | _ => exact inner stream proper
  | _ => exact inner stream proper

theorem statement_and_declaration_draw (limit : ArgumentLimit) (room : Nat) :
    Yields Stmt.uses (Parser.statement limit room) ∧
      Yields (·.elim 0 Stmt.uses) (lift (Parser.declaration limit room)) := by
  induction room with
  | zero =>
      constructor
      · intro stream proper
        simp only [Parser.statement]
        exact Draws.tooDeep stream proper
      · intro stream proper
        simp only [lift, Parser.declaration]
        exact Draws.tooDeep stream proper
  | succ room ih =>
      obtain ⟨inner, declared⟩ := ih
      have value : Yields Expr.uses (Parser.expression limit room) := expression_draws room
      constructor
      · rw [statement_succ]
        exact statementOf_draws value inner declared
      · rw [declaration_succ]
        exact recovering_draws (declarationOf_draws limit value inner declared)

/-- A declaration refers to tokens that were taken for it, and to none of them twice. -/
theorem declaration_draws (limit : ArgumentLimit) (room : Nat) :
    Yields (·.elim 0 Stmt.uses) (lift (Parser.declaration limit room)) :=
  (statement_and_declaration_draw limit room).2

theorem program_draws (limit : ArgumentLimit) (room : Nat) :
    Yields (fun program => (program.map Stmt.uses).sum)
      (lift (program (Parser.declaration limit room))) := by
  rw [lift_program]
  exact collecting_draws endsSource (declaration_draws limit room)

end Statements

end Parser

/-! ### Programs -/

/-- Each reference of a program that was read is made from a token of its own, also if errors were
found on the way. -/
theorem Program.references_subperm {room : Nat} {limit : ArgumentLimit} {tokens : List Token}
    {program : Program.Plain} (ends : EndsOnce tokens)
    (read : (parseWithin room limit tokens).program = .ok program) :
    (program.references.map Reference.name).Subperm (tokens.filterMap Token.referent?) := by
  obtain ⟨proper, isTokens⟩ := Stream.ofTokens_proper ends
  have drawn := Parser.program_draws limit room (.ofTokens tokens) proper
  rw [zero_add, isTokens] at drawn
  unfold parseWithin at read
  cases result : Parser.program (Parser.declaration limit room) (.ofTokens tokens) with
  | error reason following =>
      rw [result] at read
      cases read
  | ok found following =>
      rw [result] at read
      cases read
      rw [Parser.lift_ok result] at drawn
      have enough : namesOf program.references + referents following.tokens ≤ referents tokens := by
        rw [Program.references, Stmt.uses_all]
        exact drawn.2
      exact Multiset.coe_le.1 ((Multiset.le_add_right _ _).trans enough)

end LoxLang
