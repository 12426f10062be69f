/-
Module: LoxLang.Proofs.Parser.Expression
Purpose: The expression parsers read exactly the expressions that are spelled at their level.
  Operators of one level are read in a loop that groups to the left, which is where the
  right-to-left view of a phrase and the left-to-right view of the parser have to meet.
Main exports: Parser.expression_sound, Parser.expression_complete
-/
import LoxLang.Proofs.Parser.Chains

namespace LoxLang

open LoxLang.Stream (Passes)

variable {limit : ArgumentLimit} {need : Int}

namespace Parser

variable {level : Level} {operand : Parser (Expr Unit)} {operator? : Kind → Option BinaryOp}

/-- A table of operators holds exactly the operators of one level. -/
def ListsLevel (operator? : Kind → Option BinaryOp) (level : Level) : Prop :=
  (∀ kind op, operator? kind = some op ↔ kind = op.kind ∧ op.level = level) ∧
    ∀ kind, operator? kind = none ↔ kind.joins? ≠ some level

theorem listsLevel_factor : ListsLevel BinaryOp.factor? .factor :=
  ⟨fun _ _ => BinaryOp.factor?_eq_some, fun kind => by
    unfold BinaryOp.factor? Kind.joins?; split <;> split <;> simp_all⟩

theorem listsLevel_term : ListsLevel BinaryOp.term? .term :=
  ⟨fun _ _ => BinaryOp.term?_eq_some, fun kind => by
    unfold BinaryOp.term? Kind.joins?; split <;> split <;> simp_all⟩

theorem listsLevel_comparison : ListsLevel BinaryOp.comparison? .comparison :=
  ⟨fun _ _ => BinaryOp.comparison?_eq_some, fun kind => by
    unfold BinaryOp.comparison? Kind.joins?; split <;> split <;> simp_all⟩

theorem listsLevel_equality : ListsLevel BinaryOp.equality? .equality :=
  ⟨fun _ _ => BinaryOp.equality?_eq_some, fun kind => by
    unfold BinaryOp.equality? Kind.joins?; split <;> split <;> simp_all⟩

/-- What one turn of the loop over binary operators reads, as the parser puts it together. -/
def binaryTurn (operator? : Kind → Option BinaryOp) (reading : Parsing (Expr Unit))
    (left : Expr Unit) : Parsing (Bool × Expr Unit) :=
  (Parsing.acceptedAs operator?).andThen fun found =>
    match found with
    | none => Parsing.pure (false, left)
    | some (op, position) =>
        reading.andThen fun right => Parsing.pure (true, .binary left op position right)

theorem binaryTurn_iff (lists : ListsLevel operator? level) {reading : Parsing (Expr Unit)}
    {left : Expr Unit} {result : Bool × Expr Unit} {taken : List Token} {next : Kind} :
    binaryTurn operator? reading left result taken next ↔
      Parsing.chainStep level reading left result taken next := by
  constructor
  · rintro ⟨found, before, after, rfl, accepted, rest⟩
    rcases accepted with ⟨op, token, isOperator, rfl, rfl⟩ | ⟨rfl, rfl, missing⟩
    · rcases rest with ⟨right, during, none, rfl, reads, rfl, rfl⟩
      obtain ⟨isKind, rfl⟩ := (lists.1 _ _).1 isOperator
      exact Or.inr ⟨token, _, right, during, .binary isKind, by simp, reads, rfl⟩
    · rcases rest with ⟨rfl, rfl⟩
      exact Or.inl ⟨rfl, rfl, (lists.2 _).1 missing⟩
  · rintro (⟨rfl, rfl, stops⟩ | ⟨token, join, right, after, joins, rfl, reads, rfl⟩)
    · exact ⟨none, [], [], rfl, Or.inr ⟨rfl, rfl, (lists.2 _).2 stops⟩, rfl, rfl⟩
    · -- the table knows the token, so it cannot be a logical operator
      have known : operator? token.kind ≠ none := fun missing =>
        (lists.2 _).1 missing joins.joins?
      obtain ⟨op, isOperator⟩ := Option.ne_none_iff_exists'.1 known
      have isKind := ((lists.1 _ _).1 isOperator).1
      cases joins with
      | @binary _ other isOther =>
          have same : op = other := by
            rw [isOther] at isKind
            revert isKind
            cases other <;> cases op <;> simp [BinaryOp.kind]
          subst same
          exact ⟨_, [token], after, rfl, Or.inl ⟨op, token, isOperator, rfl, rfl⟩,
            right, after, [], by simp, reads, rfl, rfl⟩
      | @logical _ other isOther =>
          rw [isOther] at isKind
          cases other <;> cases op <;> cases isKind

theorem binaryChain_sound (lists : ListsLevel operator? level) {reading : Parsing (Expr Unit)}
    (sound : Sound limit need operand reading) :
    Sound limit need (binaryChain operator? operand) (Parsing.chain level reading) := by
  have inside : operator? .eof = none := (lists.2 .eof).2 (by simp [Kind.joins?])
  refine sound.bind fun first => Sound.repeating (fun left => ?_)
    (Parsing.chainStep_progressing level reading) first
  refine Sound.mono (?_ : Sound limit need _ (binaryTurn operator? reading left))
    fun _ _ _ => (binaryTurn_iff lists).1
  refine (Sound.acceptAs? inside).bind fun found => ?_
  cases found with
  | none => exact Sound.pure _
  | some operator => exact sound.bind fun right => Sound.pure _

theorem binaryChain_complete (lists : ListsLevel operator? level)
    {reading : Parsing (Expr Unit)} (complete : Complete operand reading) :
    Complete (binaryChain operator? operand) (Parsing.chain level reading) := by
  have inside : operator? .eof = none := (lists.2 .eof).2 (by simp [Kind.joins?])
  refine complete.bind fun first => Complete.repeating (fun left => ?_)
    (Parsing.chainStep_progressing level reading) first
  refine Complete.mono (?_ : Complete _ (binaryTurn operator? reading left))
    fun _ _ _ => (binaryTurn_iff lists).2
  refine (Complete.acceptAs? inside).bind fun found => ?_
  cases found with
  | none => exact Complete.pure _
  | some operator => exact complete.bind fun right => Complete.pure _

/-- What one turn of the loop over a logical operator reads, as the parser puts it together. -/
def logicalTurn (op : LogicalOp) (reading : Parsing (Expr Unit)) (left : Expr Unit) :
    Parsing (Bool × Expr Unit) :=
  (Parsing.accepted op.kind).andThen fun found =>
    if found then reading.andThen fun right => Parsing.pure (true, .logical left op right)
    else Parsing.pure (false, left)

theorem joins?_logical {op : LogicalOp} {kind : Kind} :
    kind.joins? = some op.level ↔ kind = op.kind := by
  cases op <;> unfold Kind.joins? <;> split <;> simp_all [LogicalOp.level, LogicalOp.kind]

theorem logicalTurn_iff {op : LogicalOp} {reading : Parsing (Expr Unit)} {left : Expr Unit}
    {result : Bool × Expr Unit} {taken : List Token} {next : Kind} :
    logicalTurn op reading left result taken next ↔
      Parsing.chainStep op.level reading left result taken next := by
  constructor
  · rintro ⟨found, before, after, rfl, accepted, rest⟩
    rcases accepted with ⟨rfl, token, isOperator, rfl⟩ | ⟨rfl, rfl, differs⟩
    · rcases rest with ⟨right, during, none, rfl, reads, rfl, rfl⟩
      exact Or.inr ⟨token, _, right, during, .logical isOperator, by simp, reads, rfl⟩
    · rcases rest with ⟨rfl, rfl⟩
      exact Or.inl ⟨rfl, rfl, fun joins => differs (joins?_logical.1 joins)⟩
  · rintro (⟨rfl, rfl, stops⟩ | ⟨token, join, right, after, joins, rfl, reads, rfl⟩)
    · exact ⟨false, [], [], rfl, Or.inr ⟨rfl, rfl, fun same => stops (joins?_logical.2 same)⟩,
        rfl, rfl⟩
    · have isOperator := joins?_logical.1 joins.joins?
      generalize isLevel : op.level = level at joins
      cases joins with
      | @binary _ other isOther => cases other <;> cases op <;> cases isLevel
      | @logical _ other isOther =>
          have same : op = other := by
            revert isLevel
            cases other <;> cases op <;> simp [LogicalOp.level]
          subst same
          exact ⟨true, [token], after, rfl, Or.inl ⟨rfl, token, isOperator, rfl⟩,
            right, after, [], by simp, reads, rfl, rfl⟩

theorem LogicalOp.kind_ne_eof (op : LogicalOp) : op.kind ≠ .eof := by
  cases op <;> simp [LogicalOp.kind]

theorem logicalChain_sound (op : LogicalOp) {reading : Parsing (Expr Unit)}
    (sound : Sound limit need operand reading) :
    Sound limit need (logicalChain op.kind op operand) (Parsing.chain op.level reading) := by
  refine sound.bind fun first => Sound.repeating (fun left => ?_)
    (Parsing.chainStep_progressing op.level reading) first
  refine Sound.mono (?_ : Sound limit need _ (logicalTurn op reading left))
    fun _ _ _ => logicalTurn_iff.1
  refine (Sound.accept (LogicalOp.kind_ne_eof op)).bind fun found => ?_
  cases found with
  | true => exact sound.bind fun right => Sound.pure _
  | false => exact Sound.pure _

theorem logicalChain_complete (op : LogicalOp) {reading : Parsing (Expr Unit)}
    (complete : Complete operand reading) :
    Complete (logicalChain op.kind op operand) (Parsing.chain op.level reading) := by
  refine complete.bind fun first => Complete.repeating (fun left => ?_)
    (Parsing.chainStep_progressing op.level reading) first
  refine Complete.mono (?_ : Complete _ (logicalTurn op reading left))
    fun _ _ _ => logicalTurn_iff.2
  refine (Complete.accept (LogicalOp.kind_ne_eof op)).bind fun found => ?_
  cases found with
  | true => exact complete.bind fun right => Complete.pure _
  | false => exact Complete.pure _

/-! ### All levels of operators -/

/-- What is spelled at a level, whatever follows. -/
def spelledAt (limit : ArgumentLimit) (level : Level) : Parsing (Expr Unit) := fun e taken _ =>
  Expr.Spelled limit level e taken

theorem chain_spelledAt (level : Level) (chain : level.IsChain) {e : Expr Unit} {ts : List Token} {next : Kind}
    (reads : Parsing.chain level (spelledAt limit level.tighter) e ts next) :
    spelledAt limit level e ts next := by
  rcases reads with ⟨first, before, after, rfl, spelled, loop⟩
  exact loop.spelled (.relax chain.ne_primary spelled)

theorem disjunction_sound (sound : Sound limit need operand (spelledAt limit .unary)) :
    Sound limit need (disjunction operand) (spelledAt limit .disjunction) := by
  have factor : Sound limit need _ (spelledAt limit .factor) :=
    (binaryChain_sound listsLevel_factor sound).mono fun _ _ _ => chain_spelledAt .factor trivial
  have term : Sound limit need _ (spelledAt limit .term) :=
    (binaryChain_sound listsLevel_term factor).mono fun _ _ _ => chain_spelledAt .term trivial
  have comparison : Sound limit need _ (spelledAt limit .comparison) :=
    (binaryChain_sound listsLevel_comparison term).mono fun _ _ _ => chain_spelledAt .comparison trivial
  have equality : Sound limit need _ (spelledAt limit .equality) :=
    (binaryChain_sound listsLevel_equality comparison).mono fun _ _ _ => chain_spelledAt .equality trivial
  have conjunction : Sound limit need _ (spelledAt limit .conjunction) :=
    (logicalChain_sound .and equality).mono fun _ _ _ => chain_spelledAt .conjunction trivial
  exact (logicalChain_sound .or conjunction).mono fun _ _ _ => chain_spelledAt .disjunction trivial

theorem disjunction_complete {size : Nat}
    (complete : Complete operand (Parsing.operand limit .unary size)) :
    Complete (disjunction operand) (Parsing.operand limit .disjunction size) := by
  have factor : Complete _ (Parsing.operand limit .factor size) :=
    (binaryChain_complete listsLevel_factor complete).mono
      fun _ _ _ => Parsing.operand_chain .factor trivial
  have term : Complete _ (Parsing.operand limit .term size) :=
    (binaryChain_complete listsLevel_term factor).mono
      fun _ _ _ => Parsing.operand_chain .term trivial
  have comparison : Complete _ (Parsing.operand limit .comparison size) :=
    (binaryChain_complete listsLevel_comparison term).mono
      fun _ _ _ => Parsing.operand_chain .comparison trivial
  have equality : Complete _ (Parsing.operand limit .equality size) :=
    (binaryChain_complete listsLevel_equality comparison).mono
      fun _ _ _ => Parsing.operand_chain .equality trivial
  have conjunction : Complete _ (Parsing.operand limit .conjunction size) :=
    (logicalChain_complete .and equality).mono
      fun _ _ _ => Parsing.operand_chain .conjunction trivial
  exact (logicalChain_complete .or conjunction).mono
    fun _ _ _ => Parsing.operand_chain .disjunction trivial

/-! ### Primary expressions -/

section

variable {expression : Parser (Expr Unit)}

theorem grouping_sound (sound : Sound limit need expression (spelledAt limit .assignment)) :
    Sound limit need (grouping expression) fun e taken _ =>
      ∃ (inner : Expr Unit) (ts : List Token) (closing : Token), taken = ts ++ [closing] ∧
        closing.kind = .rightParen ∧ Expr.Spelled limit .assignment inner ts ∧
        e = .grouping inner := by
  refine (sound.bind fun inner => (Sound.expect (by decide) _).bind fun _ => Sound.pure _).mono ?_
  rintro e taken next ⟨inner, ts, rest, rfl, spelled, closing, _, _, rfl, ⟨isClosing, rfl⟩, rfl, rfl⟩
  exact ⟨inner, ts, closing, by simp, isClosing, spelled, rfl⟩

theorem superMethod_sound (keyword : Position) :
    Sound limit need (superMethod keyword) fun e taken _ =>
      ∃ dot name : Token, taken = [dot, name] ∧ dot.kind = .dot ∧ name.kind = .identifier ∧
        e = .superMethod keyword () name.ident := by
  refine ((Sound.expect (by decide) _).bind fun _ => (Sound.name _).bind fun _ =>
    Sound.pure _).mono ?_
  rintro e taken next ⟨dot, _, _, rfl, ⟨isDot, rfl⟩, _, _, _, rfl, ⟨name, isName, rfl, rfl⟩, rfl, rfl⟩
  exact ⟨dot, name, rfl, isDot, isName, rfl⟩

theorem primary_sound (sound : Sound limit (need - 2) expression (spelledAt limit .assignment)) :
    Sound limit need (primary expression) (spelledAt limit .primary) := by
  intro stream proper
  -- a token that is a whole expression by itself
  have single {e : Expr Unit} (inside : stream.current.kind ≠ .eof)
      (spelled : Expr.Spelled limit .primary e [stream.current]) :
      Outcome limit need stream (spelledAt limit .primary) (.ok e stream.advance) :=
    ⟨[stream.current], proper.passes_advance inside, fun _ => spelled⟩
  unfold primary
  simp only
  split
  case h_1 isKind | h_2 isKind | h_3 isKind | h_4 isKind | h_5 isKind =>
    exact single (by simp [isKind]) (.literal (by simp [Token.constant?, isKind]))
  case h_6 isSuper =>
    refine ((superMethod_sound _).advancing proper (by simp [isSuper])).mono ?_
    rintro e taken next ⟨after, rfl, dot, name, rfl, isDot, isName, rfl⟩
    exact .superMethod isSuper isDot isName
  case h_7 isThis => exact single (by simp [isThis]) (.receiver isThis)
  case h_8 isName => exact single (by simp [isName]) (.read isName)
  case h_9 isOpening =>
    refine ((grouping_sound sound).advancing proper (by simp [isOpening])).mono ?_
    rintro e taken next ⟨after, rfl, inner, ts, closing, rfl, isClosing, spelled, rfl⟩
    exact .grouping isOpening spelled isClosing
  case h_10 => exact Sound.fail .expression stream proper

/-! ### Calls and property accesses -/

theorem joins?_eq_call {kind : Kind} :
    kind.joins? = some .call ↔ kind = .leftParen ∨ kind = .dot := by
  unfold Kind.joins?
  split <;> simp_all

theorem callArguments_sound (sound : Sound limit need expression (spelledAt limit .assignment))
    (callee : Expr Unit) :
    Sound limit need (callArguments limit expression callee) fun e taken _ =>
      ∃ (arguments : List (Expr Unit)) (ts : List Token) (closing : Token),
        taken = ts ++ [closing] ∧ closing.kind = .rightParen ∧
        Expr.SpelledAll limit arguments ts ∧ limit.Allows arguments.length ∧
        e = .call callee arguments closing.position := by
  have nonempty : ∀ e taken next, spelledAt limit .assignment e taken next → taken ≠ [] := by
    intro e taken next spelled
    obtain ⟨first, rest, rfl, -⟩ := Expr.Spelled.starts spelled
    exact List.cons_ne_nil _ _
  refine ((elements_sound _ sound nonempty).bind fun arguments =>
    (Sound.expect (by decide) _).bind fun _ => Sound.pure _).mono ?_
  rintro e taken next ⟨arguments, ts, _, rfl, reads, closing, _, _, rfl, ⟨isClosing, rfl⟩, rfl, rfl⟩
  have weaken (e : Expr Unit) (ts : List Token) (next : Kind)
      (spelled : spelledAt limit .assignment e ts next) :
      Expr.Spelled limit .assignment e ts := spelled
  obtain ⟨separated, allowed⟩ := Parsing.elements_separated weaken reads
  exact ⟨arguments, ts, closing, by simp, isClosing, Separated.spelledAll separated, allowed, rfl⟩

theorem applyStep_sound (sound : Sound limit (need - 2) expression (spelledAt limit .assignment))
    (callee : Expr Unit) :
    Sound limit need
      (do
        if ← accept .leftParen then
          let applied ← callArguments limit expression callee
          return (true, applied)
        else if ← accept .dot then
          let property ← name .propertyName
          return (true, .get callee property)
        else
          return (false, callee))
      (Parsing.applyStep limit (fun _ => True) callee) := by
  refine (Sound.ifAccept (by decide)
    ((callArguments_sound sound callee).bind fun applied => Sound.pure (true, applied))
    (Sound.ifAccept (by decide)
      ((Sound.name .propertyName).bind fun property => Sound.pure (true, Expr.get callee property))
      (Sound.pure (false, callee)))).mono ?_
  rintro result taken next (⟨opening, _, isOpening, rfl, e, _, _, rfl, reads, rfl, rfl⟩ |
    ⟨notOpening, ⟨dot, _, isDot, rfl, _, _, _, rfl, ⟨name, isName, rfl, rfl⟩, rfl, rfl⟩ |
      ⟨notDot, rfl, rfl⟩⟩)
  · rcases reads with ⟨arguments, ts, closing, rfl, isClosing, spelled, allowed, rfl⟩
    refine Or.inr ⟨_, ?_, trivial, rfl⟩
    simpa using Expr.Applies.call isOpening spelled allowed isClosing
  · exact Or.inr ⟨_, .get isDot isName, trivial, rfl⟩
  · refine Or.inl ⟨rfl, rfl, fun joins => ?_⟩
    rcases joins?_eq_call.1 joins with isKind | isKind
    · exact notOpening isKind
    · exact notDot isKind

theorem call_sound (sound : Sound limit (need - 2) expression (spelledAt limit .assignment)) :
    Sound limit need (call limit expression) (spelledAt limit .call) := by
  refine ((primary_sound sound).bind fun first =>
    Sound.repeating (applyStep_sound sound) (Parsing.applyStep_progressing _) first).mono ?_
  rintro e taken next ⟨first, before, after, rfl, spelled, loop⟩
  exact loop.applied (.relax (by decide) spelled)

end

/-! ### Prefix operators and assignment -/

theorem assignTo_sound (target : Expr Unit) (equals : Token) (value : Expr Unit) :
    Sound limit need (assignTo target equals value) fun e taken _ =>
      taken = [] ∧ Expr.AssignsTo value target e := by
  unfold assignTo
  split
  · refine (Sound.pure _).mono ?_
    rintro e taken next ⟨rfl, rfl⟩
    exact ⟨rfl, .name _⟩
  · refine (Sound.pure _).mono ?_
    rintro e taken next ⟨rfl, rfl⟩
    exact ⟨rfl, .property _ _⟩
  · refine ((Sound.report _ _ fun _ _ _ => False).bind fun _ => Sound.pure _).mono ?_
    rintro e taken next ⟨_, _, _, _, impossible, _⟩
    exact impossible.elim

/-- What follows the target of an assignment, if anything does. -/
def assignmentAfter (expression : Parser (Expr Unit)) (target : Expr Unit) :
    Parser (Expr Unit) := fun stream =>
  if stream.current.kind = .equal then
    (expression >>= assignTo target stream.current) stream.advance
  else
    .ok target stream

theorem expression_succ (room : Nat) :
    expression limit (room + 1) =
      disjunction (unary limit room) >>= assignmentAfter (expression limit room) := by
  funext stream
  rw [expression, bind_apply]
  cases disjunction (unary limit room) stream with
  | error interrupt following => rfl
  | ok target following =>
      simp only [assignmentAfter, bind_apply]
      split
      · cases expression limit room following.advance <;> rfl
      · rfl

theorem assignmentAfter_sound {expression : Parser (Expr Unit)}
    (sound : Sound limit (need - 2) expression (spelledAt limit .assignment))
    (target : Expr Unit) :
    Sound limit need (assignmentAfter expression target) fun e taken _ =>
      (e = target ∧ taken = []) ∨
        ∃ equals value after, equals.kind = .equal ∧ taken = equals :: after ∧
          Expr.Spelled limit .assignment value after ∧ Expr.AssignsTo value target e := by
  intro stream proper
  unfold assignmentAfter
  split
  · rename_i isEqual
    refine ((sound.bind fun value => assignTo_sound target stream.current value).advancing proper
      (by simp [isEqual])).mono ?_
    rintro e taken next ⟨_, rfl, value, after, _, rfl, spelled, rfl, assigns⟩
    exact Or.inr ⟨stream.current, value, after, isEqual, by simp, spelled, assigns⟩
  · exact ⟨[], Passes.refl stream, fun _ => Or.inl ⟨rfl, rfl⟩⟩

theorem tooDeep_sound {α : Type} {reading : Parsing α} (none : need ≤ 0) :
    Sound limit need tooDeep reading := by
  intro stream _
  refine ⟨⟨[], Passes.refl stream⟩, ?_⟩
  simp only [Excused, Stream.tokens, List.length_cons]
  omega

theorem unary_succ (room : Nat) (stream : Stream) :
    unary limit (room + 1) stream =
      match UnaryOp.ofKind? stream.current.kind with
      | none => call limit (expression limit room) stream
      | some op =>
          (unary limit room >>= fun operand =>
            pure (.unary op stream.current.position operand)) stream.advance := by
  rw [unary]
  cases UnaryOp.ofKind? stream.current.kind with
  | none => rfl
  | some op =>
      simp only [bind_apply]
      cases unary limit room stream.advance <;> rfl

theorem unary_succ_sound {room : Nat}
    (operand : Sound limit room (unary limit room) (spelledAt limit .unary))
    (inner : Sound limit (room - 1) (expression limit room) (spelledAt limit .assignment)) :
    Sound limit (room + 1) (unary limit (room + 1)) (spelledAt limit .unary) := by
  intro stream proper
  rw [unary_succ]
  split
  · exact (call_sound (inner.needLess (by omega)) stream proper).mono
      fun _ _ _ spelled => .relax (by decide) spelled
  · rename_i op isOperator
    have isKind := UnaryOp.ofKind?_eq_some.1 isOperator
    have inside : stream.current.kind ≠ .eof := by rw [isKind]; cases op <;> decide
    refine (((operand.needLess (by omega)).bind fun operand =>
      Sound.pure _).advancing proper inside).mono ?_
    rintro e taken next ⟨_, rfl, operand, after, _, rfl, spelled, rfl, rfl⟩
    rw [List.append_nil]
    exact .unary isKind spelled

theorem expression_succ_sound {room : Nat}
    (operand : Sound limit room (unary limit room) (spelledAt limit .unary))
    (inner : Sound limit (room - 1) (expression limit room) (spelledAt limit .assignment)) :
    Sound limit room (expression limit (room + 1)) (spelledAt limit .assignment) := by
  rw [expression_succ]
  refine ((disjunction_sound operand).bind
    (assignmentAfter_sound (inner.needLess (by omega)))).mono ?_
  rintro e taken next ⟨target, before, after, rfl, spelled, ⟨rfl, rfl⟩ |
    ⟨equals, value, rest, isEquals, rfl, right, assigns⟩⟩
  · rw [List.append_nil]
    exact .relax (by decide) spelled
  · exact assigns.spelled spelled isEquals right

theorem unary_and_expression_sound (room : Nat) :
    Sound limit room (unary limit room) (spelledAt limit .unary) ∧
      Sound limit (room - 1) (expression limit room) (spelledAt limit .assignment) := by
  induction room with
  | zero =>
      refine ⟨fun stream proper => ?_, fun stream proper => ?_⟩
      · rw [unary]
        exact tooDeep_sound (by decide) stream proper
      · rw [expression]
        exact tooDeep_sound (by decide) stream proper
  | succ room ih =>
      refine ⟨?_, ?_⟩
      · exact_mod_cast unary_succ_sound ih.1 ih.2
      · simpa using expression_succ_sound ih.1 ih.2

/-- What is read as an expression without an error is one, and a stream of fewer than half as
many tokens as there is room is never too deep. -/
theorem expression_sound (room : Nat) :
    Sound limit (room - 1) (expression limit room) (spelledAt limit .assignment) :=
  (unary_and_expression_sound room).2

/-! ### Completeness above the operators -/

section

variable {expression : Parser (Expr Unit)} {size inner : Nat}

theorem grouping_complete
    (complete : Complete expression (Parsing.operand limit .assignment inner)) :
    Complete (grouping expression) fun e taken _ =>
      ∃ (operand : Expr Unit) (ts : List Token) (closing : Token), taken = ts ++ [closing] ∧
        closing.kind = .rightParen ∧ Expr.Spelled limit .assignment operand ts ∧
        ts.length ≤ inner ∧ e = .grouping operand := by
  refine (complete.bind fun _ => (Complete.expect (by decide) _).bind fun _ =>
    Complete.pure _).mono ?_
  rintro e taken next ⟨operand, ts, closing, rfl, isClosing, spelled, short, rfl⟩
  refine ⟨operand, ts, [closing], rfl, ⟨spelled, ?_, short⟩, closing, [closing], [], rfl,
    ⟨isClosing, rfl⟩, rfl, rfl⟩
  rw [firstKind_cons, isClosing]
  exact Level.stops_of_joins?_eq_none rfl _

theorem superMethod_complete (keyword : Position) :
    Complete (superMethod keyword) fun e taken _ =>
      ∃ dot name : Token, taken = [dot, name] ∧ dot.kind = .dot ∧ name.kind = .identifier ∧
        e = .superMethod keyword () name.ident := by
  refine ((Complete.expect (by decide) _).bind fun _ => (Complete.name _).bind fun _ =>
    Complete.pure _).mono ?_
  rintro e taken next ⟨dot, name, rfl, isDot, isName, rfl⟩
  exact ⟨dot, [dot], [name], rfl, ⟨isDot, rfl⟩, name.ident, [name], [], rfl,
    ⟨name, isName, rfl, rfl⟩, rfl, rfl⟩

theorem primary_complete
    (complete : Complete expression (Parsing.operand limit .assignment inner))
    (smaller : size ≤ inner + 1) :
    Complete (primary expression) (Parsing.operand limit .primary size) := by
  rintro stream e taken next rest split bounded ⟨spelled, -, short⟩
  cases spelled with
  | relax loose _ => exact absurd rfl loose
  | @binary _ op _ _ _ _ _ isLevel => cases op <;> cases isLevel
  | @logical _ op _ _ _ _ _ isLevel => cases op <;> cases isLevel
  | @literal token value isConstant =>
      have inside : token.kind ≠ .eof := by
        intro isEnd
        simp [Token.constant?, isEnd] at isConstant
      obtain ⟨current, advanced⟩ := Stream.advance_of_tokens split inside
      unfold Token.constant? at isConstant
      split at isConstant <;> simp_all [primary]
  | @read name isName =>
      obtain ⟨current, advanced⟩ := Stream.advance_of_tokens split (by simp [isName])
      simp [primary, current, isName, advanced, Token.ident]
  | @receiver keyword isThis =>
      obtain ⟨current, advanced⟩ := Stream.advance_of_tokens split (by simp [isThis])
      simp [primary, current, isThis, advanced]
  | @superMethod keyword dot name isSuper isDot isName =>
      obtain ⟨current, taken⟩ := (superMethod_complete keyword.position).advancing split
        (by simp [isSuper]) bounded ⟨dot, name, rfl, isDot, isName, rfl⟩
      simp [primary, current, isSuper, taken]
  | @grouping operand opening closing ts isOpening spelled isClosing =>
      simp only [List.length_cons, List.length_append, List.length_nil] at short
      obtain ⟨current, taken⟩ := (grouping_complete complete).advancing split
        (by simp [isOpening]) bounded
        ⟨operand, ts, closing, rfl, isClosing, spelled, by omega, rfl⟩
      simp [primary, current, isOpening, taken]

theorem callArguments_complete
    (complete : Complete expression (Parsing.operand limit .assignment inner))
    (callee : Expr Unit) :
    Complete (callArguments limit expression callee) fun e taken _ =>
      ∃ (arguments : List (Expr Unit)) (ts : List Token) (closing : Token),
        taken = ts ++ [closing] ∧ closing.kind = .rightParen ∧
        Expr.SpelledAll limit arguments ts ∧ limit.Allows arguments.length ∧
        ts.length ≤ inner ∧ e = .call callee arguments closing.position := by
  have nonempty : ∀ e taken next, Parsing.operand limit .assignment inner e taken next →
      taken ≠ [] := by
    rintro e taken next ⟨spelled, -, -⟩
    obtain ⟨first, rest, rfl, -⟩ := spelled.starts
    exact List.cons_ne_nil _ _
  refine ((elements_complete _ complete nonempty).bind fun arguments =>
    (Complete.expect (by decide) _).bind fun _ => Complete.pure _).mono ?_
  rintro e taken next ⟨arguments, ts, closing, rfl, isClosing, spelled, allowed, short, rfl⟩
  refine ⟨arguments, ts, [closing], rfl, ?_, closing, [closing], [], rfl, ⟨isClosing, rfl⟩,
    rfl, rfl⟩
  rw [firstKind_cons, isClosing]
  refine Parsing.Separated.elements ?_ ?_ (spelled.separated.bounded short) allowed
  · rintro e us ⟨spelled, fits⟩
    exact ⟨⟨spelled, Level.stops_of_joins?_eq_none rfl _, fits⟩,
      ⟨spelled, Level.stops_of_joins?_eq_none rfl _, fits⟩⟩
  · rintro e us ⟨spelled, -⟩
    obtain ⟨first, rest, rfl, starts⟩ := spelled.starts
    refine ⟨first, rest, rfl, ?_⟩
    intro isClosing
    rw [isClosing] at starts
    cases starts

theorem applyStep_complete
    (complete : Complete expression (Parsing.operand limit .assignment inner))
    (smaller : size ≤ inner + 1) (callee : Expr Unit) :
    Complete
      (do
        if ← accept .leftParen then
          let applied ← callArguments limit expression callee
          return (true, applied)
        else if ← accept .dot then
          let property ← name .propertyName
          return (true, .get callee property)
        else
          return (false, callee))
      (Parsing.applyStep limit (·.length ≤ size) callee) := by
  refine (Complete.ifAccept (by decide)
    ((callArguments_complete complete callee).bind fun applied => Complete.pure (true, applied))
    (Complete.ifAccept (by decide)
      ((Complete.name .propertyName).bind fun property =>
        Complete.pure (true, Expr.get callee property))
      (Complete.pure (false, callee)))).mono ?_
  rintro result taken next (⟨rfl, rfl, stops⟩ | ⟨e, applies, fits, rfl⟩)
  · rw [ne_eq, joins?_eq_call, not_or] at stops
    exact Or.inr ⟨stops.1, Or.inr ⟨stops.2, rfl, rfl⟩⟩
  · cases applies with
    | @call arguments opening closing ts isOpening spelled allowed isClosing =>
        simp only [List.length_cons, List.length_append, List.length_nil] at fits
        exact Or.inl ⟨opening, ts ++ [closing], isOpening, rfl, _, _, [], by simp,
          ⟨arguments, ts, closing, rfl, isClosing, spelled, allowed, by omega, rfl⟩, rfl, rfl⟩
    | @get dot name isDot isName =>
        refine Or.inr ⟨by simp [isDot], Or.inl ⟨dot, [name], isDot, rfl, ?_⟩⟩
        exact ⟨name.ident, [name], [], rfl, ⟨name, isName, rfl, rfl⟩, rfl, rfl⟩

theorem call_complete
    (complete : Complete expression (Parsing.operand limit .assignment inner))
    (smaller : size ≤ inner + 1) :
    Complete (call limit expression) (Parsing.operand limit .call size) := by
  refine ((primary_complete complete smaller).bind fun first => Complete.repeating
    (applyStep_complete complete smaller) (Parsing.applyStep_progressing _) first).mono ?_
  rintro e taken next ⟨spelled, stops, short⟩
  obtain ⟨first, before, after, rfl, primary, onwards⟩ := spelled.unapplies rfl short
  have stopped : Parsing.Loop (Parsing.applyStep limit (·.length ≤ size)) e e [] next :=
    .stop (Or.inl ⟨rfl, rfl, fun joins => Nat.lt_irrefl _ (stops .call joins)⟩)
  rw [List.length_append] at short
  refine ⟨first, before, after, rfl, ⟨primary, Level.stops_primary _, by omega⟩, ?_⟩
  simpa using onwards e [] next stopped

end

theorem unary_succ_complete {room size : Nat} (enough : 2 * size ≤ room + 1)
    (operand : ∀ smaller, 2 * smaller ≤ room →
      Complete (unary limit room) (Parsing.operand limit .unary smaller))
    (inner : ∀ smaller, 2 * smaller + 1 ≤ room →
      Complete (expression limit room) (Parsing.operand limit .assignment smaller)) :
    Complete (unary limit (room + 1)) (Parsing.operand limit .unary size) := by
  rintro stream e taken next rest split bounded ⟨spelled, stops, short⟩
  obtain ⟨first, others, isTaken, -⟩ := spelled.starts
  have nonempty : 0 < taken.length := by simp [isTaken]
  have current := split
  rw [Stream.tokens] at current
  rw [unary_succ, firstKind_of_split current]
  cases spelled with
  | relax _ tight =>
      rw [tight.not_prefixed rfl]
      exact call_complete (inner (size - 1) (by omega)) (by omega) stream e taken next rest split
        bounded ⟨tight, stops.tighter, short⟩
  | @unary op value token ts isOperator right =>
      simp only [List.length_cons] at short
      have isOp : UnaryOp.ofKind? token.kind = some op := UnaryOp.ofKind?_eq_some.2 isOperator
      have inside : token.kind ≠ .eof := by rw [isOperator]; cases op <;> decide
      obtain ⟨isToken, read⟩ := ((operand (size - 1) (by omega)).bind fun value =>
        Complete.pure (Expr.unary op stream.current.position value)).advancing split inside bounded
          ⟨value, ts, [], by simp, ⟨right, stops, by omega⟩, rfl, rfl⟩
      rw [isToken] at read
      rw [firstKind_cons, isOp, isToken]
      exact read
  | @binary _ op _ _ _ _ _ isLevel => cases op <;> cases isLevel
  | @logical _ op _ _ _ _ _ isLevel => cases op <;> cases isLevel

theorem assignTo_complete (target : Expr Unit) (equals : Token) (value : Expr Unit) :
    Complete (assignTo target equals value) fun e taken _ =>
      taken = [] ∧ Expr.AssignsTo value target e := by
  rintro stream e taken next rest split bounded ⟨rfl, assigns⟩
  cases assigns with
  | name name => exact Complete.pure _ stream _ [] next rest split bounded ⟨rfl, rfl⟩
  | property object name => exact Complete.pure _ stream _ [] next rest split bounded ⟨rfl, rfl⟩

theorem assignmentAfter_complete {expression : Parser (Expr Unit)} {inner : Nat}
    (complete : Complete expression (Parsing.operand limit .assignment inner))
    (target : Expr Unit) :
    Complete (assignmentAfter expression target) fun e taken next =>
      (e = target ∧ taken = [] ∧ next ≠ .equal) ∨
        ∃ equals value after, equals.kind = .equal ∧ taken = equals :: after ∧
          Parsing.operand limit .assignment inner value after next ∧
          Expr.AssignsTo value target e := by
  rintro stream e taken next rest split bounded
    (⟨rfl, rfl, differs⟩ | ⟨equals, value, after, isEquals, rfl, operand, assigns⟩)
  · have current : stream.current = next := (List.cons.inj split).1
    rw [List.nil_append] at split
    simp only [assignmentAfter, current, differs, ↓reduceIte, stream.moveTo_self split]
  · obtain ⟨current, read⟩ := (complete.bind fun value =>
      assignTo_complete target stream.current value).advancing split (by simp [isEquals]) bounded
        ⟨value, after, [], by simp, operand, rfl, assigns⟩
    rw [current] at read
    simp only [assignmentAfter, current, isEquals, ↓reduceIte, read]

/-- An assignment is a target, an equals sign and a value. -/
theorem assignment_split {size : Nat} {e : Expr Unit} {taken : List Token} {next : Kind}
    (operand : Parsing.operand limit .assignment size e taken next) :
    ((Parsing.operand limit .disjunction size).andThen fun target e taken next =>
      (e = target ∧ taken = [] ∧ next ≠ .equal) ∨
        ∃ equals value after, equals.kind = .equal ∧ taken = equals :: after ∧
          Parsing.operand limit .assignment (size - 1) value after next ∧
          Expr.AssignsTo value target e) e taken next := by
  rcases operand with ⟨spelled, stops, short⟩
  have ends : Level.disjunction.Stops .equal := by
    intro joined joins
    cases joins
    decide
  cases spelled with
  | relax _ tight =>
      refine ⟨e, taken, [], by simp, ⟨tight, stops.tighter, short⟩, Or.inl ⟨rfl, rfl, ?_⟩⟩
      rintro rfl
      exact Nat.lt_irrefl _ (stops .assignment rfl)
  | @assign name equals value ts isName isEquals right =>
      simp only [List.length_cons] at short
      refine ⟨.read name.ident (), [name], equals :: ts, rfl, ⟨?_, ?_, ?_⟩,
        Or.inr ⟨equals, value, ts, isEquals, rfl, ⟨right, stops, by omega⟩, .name _⟩⟩
      · exact (Expr.Spelled.read isName).loosen (by decide)
      · rwa [firstKind_cons, isEquals]
      · simp only [List.length_cons, List.length_nil]
        omega
  | @set object value dot name equals ts us target isDot isName isEquals right =>
      simp only [List.length_cons, List.length_append] at short
      refine ⟨.get object name.ident, ts ++ [dot, name], equals :: us, by simp, ⟨?_, ?_, ?_⟩,
        Or.inr ⟨equals, value, us, isEquals, rfl, ⟨right, stops, by omega⟩, .property _ _⟩⟩
      · exact (target.get isDot isName).loosen (by decide)
      · rwa [firstKind_cons, isEquals]
      · simp only [List.length_cons, List.length_append, List.length_nil]
        omega
  | @binary _ op _ _ _ _ _ isLevel => cases op <;> cases isLevel
  | @logical _ op _ _ _ _ _ isLevel => cases op <;> cases isLevel

theorem expression_succ_complete {room size : Nat} (enough : 2 * size + 1 ≤ room + 1)
    (operand : ∀ smaller, 2 * smaller ≤ room →
      Complete (unary limit room) (Parsing.operand limit .unary smaller))
    (inner : ∀ smaller, 2 * smaller + 1 ≤ room →
      Complete (expression limit room) (Parsing.operand limit .assignment smaller)) :
    Complete (expression limit (room + 1)) (Parsing.operand limit .assignment size) := by
  by_cases empty : size = 0
  · rintro stream e taken next rest split bounded ⟨spelled, -, short⟩
    obtain ⟨first, others, rfl, -⟩ := spelled.starts
    simp [empty] at short
  · rw [expression_succ]
    exact ((disjunction_complete (operand size (by omega))).bind
      (assignmentAfter_complete (inner (size - 1) (by omega)))).mono fun _ _ _ => assignment_split

theorem unary_and_expression_complete (room : Nat) :
    (∀ size, 2 * size ≤ room →
      Complete (unary limit room) (Parsing.operand limit .unary size)) ∧
    ∀ size, 2 * size + 1 ≤ room →
      Complete (expression limit room) (Parsing.operand limit .assignment size) := by
  induction room with
  | zero =>
      refine ⟨fun size enough => ?_, fun size enough => absurd enough (by omega)⟩
      rintro stream e taken next rest split bounded ⟨spelled, -, short⟩
      obtain ⟨first, others, rfl, -⟩ := spelled.starts
      simp only [List.length_cons] at short
      omega
  | succ room ih =>
      exact ⟨fun size enough => unary_succ_complete enough ih.1 ih.2,
        fun size enough => expression_succ_complete enough ih.1 ih.2⟩

/-- Every expression that the token after it does not go on with is read, given room for twice as
many levels as it has tokens. -/
theorem expression_complete {room size : Nat} (enough : 2 * size + 1 ≤ room) :
    Complete (expression limit room) (Parsing.operand limit .assignment size) :=
  (unary_and_expression_complete room).2 size enough

end Parser

end LoxLang
