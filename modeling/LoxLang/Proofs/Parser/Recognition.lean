/-
Module: LoxLang.Proofs.Parser.Recognition
Purpose: The parser accepts exactly the grammar.  Phrases and derivations are translated into each
  other: a phrase groups operators to the left where a rule repeats them, and says of each
  statement whether it is open where the rules leave it open which `if` an `else` belongs to.
Main exports: Stmt.DeclaredAll.derives, derives_declaredAll, parse_accepts_exactly_grammar
-/
import LoxLang.Proofs.Parser.Grammar
import LoxLang.Proofs.Parser.Program

namespace LoxLang

open Grammar (Symbol Form Derives rule Repeated Listing)

theorem ArgumentLimit.allows_count {most count : Nat} :
    (ArgumentLimit.count most).Allows count ↔ count ≤ most := by
  constructor
  · intro allowed
    cases count with
    | zero => exact Nat.zero_le most
    | succ count =>
        have last := allowed count (Nat.lt_succ_self count)
        simp only [ArgumentLimit.reached?, Option.some.injEq, decide_eq_false_iff_not] at last
        omega
  · intro enough size below
    simp only [ArgumentLimit.reached?, Option.some.injEq, decide_eq_false_iff_not]
    omega

/-- The symbol for the expressions of a level. -/
def Level.symbol : Level → Symbol
  | assignment => .assignment
  | disjunction => .logicOr
  | conjunction => .logicAnd
  | equality => .equality
  | comparison => .comparison
  | term => .term
  | factor => .factor
  | unary => .unary
  | call => .call
  | primary => .primary

/-! ### From phrases to derivations -/

/-- The kinds of some tokens can be derived from a symbol. -/
def DerivedFrom (most : Nat) (symbol : Symbol) (ts : List Token) : Prop :=
  Derives most (.symbol symbol) (ts.map Token.kind)

theorem derivedFrom_iff {most : Nat} {symbol : Symbol} {ts : List Token} :
    DerivedFrom most symbol ts ↔ (rule most symbol).Reads (DerivedFrom most) ts := by
  have put {symbol : Symbol} {ts : List Token}
      (reads : (rule most symbol).Reads (DerivedFrom most) ts) : DerivedFrom most symbol ts :=
    .symbol (Form.Reads.derives _ reads)
  refine ⟨fun derived => ?_, put⟩
  cases derived with
  | symbol derives => exact derives.reads (fun _ _ => put) rfl

theorem Repeated.snoc {item : List Token → Prop} {ts us : List Token}
    (repeated : Repeated item ts) (last : item us) : Repeated item (ts ++ us) := by
  induction repeated with
  | nil => simpa using Repeated.cons last Repeated.nil
  | cons here _ ih =>
      rw [List.append_assoc]
      exact .cons here ih

variable {most : Nat}

/-- Another operand after an operator goes on with the repetition. -/
theorem DerivedFrom.joined {symbol operand : Symbol} {operator : Form} {token : Token}
    {ts us : List Token} (isRule : rule most symbol = .joined operand operator)
    (first : DerivedFrom most symbol ts) (isOperator : operator.Reads (DerivedFrom most) [token])
    (second : DerivedFrom most operand us) : DerivedFrom most symbol (ts ++ token :: us) := by
  rw [derivedFrom_iff, isRule] at first ⊢
  rcases first with ⟨before, after, rfl, left, repeated⟩
  refine ⟨before, after ++ token :: us, by simp, left, ?_⟩
  exact Repeated.snoc repeated ⟨[token], us, rfl, isOperator, second⟩

theorem DerivedFrom.relax {level : Level} {ts : List Token} (loose : level ≠ .primary)
    (tight : DerivedFrom most level.tighter.symbol ts) : DerivedFrom most level.symbol ts := by
  have alone {operand : Symbol} {operator : Form} (tight : DerivedFrom most operand ts) :
      (Form.joined operand operator).Reads (DerivedFrom most) ts :=
    ⟨ts, [], by simp, tight, Repeated.nil⟩
  rw [derivedFrom_iff]
  cases level with
  | assignment => exact Or.inr tight
  | disjunction => exact alone tight
  | conjunction => exact alone tight
  | equality => exact alone tight
  | comparison => exact alone tight
  | term => exact alone tight
  | factor => exact alone tight
  | unary => exact Or.inr tight
  | call => exact ⟨ts, [], by simp, tight, Repeated.nil⟩
  | primary => exact absurd rfl loose

theorem DerivedFrom.binary {op : BinaryOp} {token : Token} {ts us : List Token}
    (isOperator : token.kind = op.kind) (first : DerivedFrom most op.level.symbol ts)
    (second : DerivedFrom most op.level.tighter.symbol us) :
    DerivedFrom most op.level.symbol (ts ++ token :: us) := by
  cases op <;> refine DerivedFrom.joined rfl first ?_ second <;>
    simp [Form.oneOf, Form.Reads, isOperator, BinaryOp.kind]

theorem DerivedFrom.logical {op : LogicalOp} {token : Token} {ts us : List Token}
    (isOperator : token.kind = op.kind) (first : DerivedFrom most op.level.symbol ts)
    (second : DerivedFrom most op.level.tighter.symbol us) :
    DerivedFrom most op.level.symbol (ts ++ token :: us) := by
  cases op <;> refine DerivedFrom.joined rfl first ?_ second <;>
    simp [Form.Reads, isOperator, LogicalOp.kind]

/-- A call or property access goes on with the repetition. -/
theorem DerivedFrom.applied {ts us : List Token} (function : DerivedFrom most .call ts)
    (applies : (Form.oneOf
      (.inOrder (.token .leftParen) [.optional (.symbol .arguments), .token .rightParen])
      [.inOrder (.token .dot) [.token .identifier]]).Reads (DerivedFrom most) us) :
    DerivedFrom most .call (ts ++ us) := by
  rw [derivedFrom_iff] at function ⊢
  rcases function with ⟨before, after, rfl, left, repeated⟩
  exact ⟨before, after ++ us, by simp, left, Repeated.snoc repeated applies⟩

/-- The tokens that are whole expressions by themselves. -/
theorem DerivedFrom.alone {token : Token}
    (alone : token.kind ∈ [.keyword .true_, .keyword .false_, .keyword .nil_, .keyword .this_,
      .number, .string, .identifier]) : DerivedFrom most .primary [token] := by
  rw [derivedFrom_iff]
  simp only [List.mem_cons, List.not_mem_nil, or_false] at alone
  simp only [rule, Form.oneOf, Form.Reads, List.cons.injEq, and_true, exists_eq_right']
  rcases alone with isKind | isKind | isKind | isKind | isKind | isKind | isKind <;> simp [isKind]

mutual

theorem Expr.Spelled.derived :
    ∀ {level : Level} {e : Expr Unit} {ts : List Token}, Expr.Spelled (.count most) level e ts →
      DerivedFrom most level.symbol ts
  | _, _, _, .relax loose tight => .relax loose tight.derived
  | _, _, _, .assign isName isEquals spelled =>
      derivedFrom_iff.2 (Or.inl ⟨[], _, rfl, Or.inl rfl, Form.reads_token_seq.2
        ⟨_, _, isName, rfl, Form.reads_token_seq.2 ⟨_, _, isEquals, rfl, spelled.derived⟩⟩⟩)
  | _, _, _, .set target isDot isName isEquals spelled => by
      refine derivedFrom_iff.2 (Or.inl ⟨_, _, List.append_cons _ _ _, ?_, ?_⟩)
      · exact Or.inr ⟨_, _, rfl, target.derived, _, isDot, rfl⟩
      · exact Form.reads_token_seq.2 ⟨_, _, isName, rfl,
          Form.reads_token_seq.2 ⟨_, _, isEquals, rfl, spelled.derived⟩⟩
  | _, _, _, .logical rfl isOperator first second =>
      .logical isOperator first.derived second.derived
  | _, _, _, .binary rfl isOperator first second =>
      .binary isOperator first.derived second.derived
  | _, _, _, @Expr.Spelled.unary _ op _ token _ isOperator spelled => by
      refine derivedFrom_iff.2 (Or.inl ⟨[token], _, rfl, ?_, spelled.derived⟩)
      cases op with
      | not => exact Or.inl ⟨token, isOperator, rfl⟩
      | negate => exact Or.inr ⟨token, isOperator, rfl⟩
  | _, _, _, .call function isOpening spelled allowed isClosing => by
      refine function.derived.applied (Or.inl (Form.reads_token_seq.2 ⟨_, _, isOpening, rfl, ?_⟩))
      refine ⟨_, _, rfl, ?_, _, isClosing, rfl⟩
      rcases spelled.listing most (ArgumentLimit.allows_count.1 allowed) with ⟨-, none⟩ | listing
      · exact Or.inl none
      · exact Or.inr (derivedFrom_iff.2 listing)
  | _, _, _, .get target isDot isName =>
      target.derived.applied (Or.inr (Form.reads_token_seq.2 ⟨_, _, isDot, rfl, _, isName, rfl⟩))
  | _, _, _, .literal isConstant => by
      refine .alone ?_
      unfold Token.constant? at isConstant
      split at isConstant <;> simp_all
  | _, _, _, .read isName => .alone (by simp [isName])
  | _, _, _, .receiver isThis => .alone (by simp [isThis])
  | _, _, _, .superMethod isSuper isDot isName => by
      refine derivedFrom_iff.2 ?_
      iterate 8 right
      exact Form.reads_token_seq.2 ⟨_, _, isSuper, rfl,
        Form.reads_token_seq.2 ⟨_, _, isDot, rfl, _, isName, rfl⟩⟩
  | _, _, _, .grouping isOpening spelled isClosing => by
      refine derivedFrom_iff.2 ?_
      iterate 7 right
      refine Or.inl (Form.reads_token_seq.2 ⟨_, _, isOpening, rfl, _, _, rfl, ?_, _, isClosing, rfl⟩)
      exact derivedFrom_iff.2 spelled.derived

theorem Expr.SpelledAll.listing :
    ∀ {arguments : List (Expr Unit)} {ts : List Token} (bound : Nat),
      Expr.SpelledAll (.count most) arguments ts → arguments.length ≤ bound →
        (arguments = [] ∧ ts = []) ∨ Listing (DerivedFrom most .expression) bound ts
  | _, _, _, .none, _ => Or.inl ⟨rfl, rfl⟩
  | _, _, bound + 1, .one spelled, _ => Or.inr (.one (derivedFrom_iff.2 spelled.derived))
  | _, _, bound + 1, .more spelled isComma others, short => by
      rcases others.listing bound (Nat.le_of_succ_le_succ short) with ⟨impossible, -⟩ | listing
      · cases impossible
      · exact Or.inr (.more (derivedFrom_iff.2 spelled.derived) isComma listing)

end

theorem Expr.Spelled.derivedExpression {e : Expr Unit} {ts : List Token}
    (spelled : Expr.Spelled (.count most) .assignment e ts) : DerivedFrom most .expression ts :=
  derivedFrom_iff.2 spelled.derived

theorem Expr.SpelledOpt.derived {value : Option (Expr Unit)} {ts : List Token}
    (spelled : Expr.SpelledOpt (.count most) value ts) :
    (Form.optional (.symbol .expression)).Reads (DerivedFrom most) ts := by
  cases spelled with
  | none => exact Or.inl rfl
  | some spelled => exact Or.inr spelled.derivedExpression

theorem Stmt.VariableSpelled.derived {declaration : Stmt Unit} {keyword : Token} {ts : List Token}
    (isVar : keyword.kind = .keyword .var_)
    (spelled : Stmt.VariableSpelled (.count most) declaration ts) :
    DerivedFrom most .varDecl (keyword :: ts) := by
  refine derivedFrom_iff.2 (Form.reads_token_seq.2 ⟨keyword, ts, isVar, rfl, ?_⟩)
  cases spelled with
  | @bare name semicolon isName isSemicolon =>
      exact Form.reads_token_seq.2 ⟨name, [semicolon], isName, rfl, [], [semicolon], rfl,
        Or.inl rfl, semicolon, isSemicolon, rfl⟩
  | @initialized name equals semicolon value ts isName isEquals spelled isSemicolon =>
      refine Form.reads_token_seq.2 ⟨name, _, isName, rfl, equals :: ts, [semicolon], rfl,
        Or.inr ?_, semicolon, isSemicolon, rfl⟩
      exact Form.reads_token_seq.2 ⟨equals, ts, isEquals, rfl, spelled.derivedExpression⟩

theorem Stmt.InitializerSpelled.derived {initializer : Option (Stmt Unit)} {ts : List Token}
    (spelled : Stmt.InitializerSpelled (.count most) initializer ts) :
    (Form.oneOf (.symbol .varDecl) [.symbol .exprStmt, .token .semicolon]).Reads
      (DerivedFrom most) ts := by
  cases spelled with
  | @none semicolon isSemicolon => exact Or.inr (Or.inr ⟨semicolon, isSemicolon, rfl⟩)
  | declare isVar spelled => exact Or.inl (spelled.derived isVar)
  | @expression value semicolon ts spelled isSemicolon =>
      exact Or.inr (Or.inl (derivedFrom_iff.2
        ⟨ts, [semicolon], rfl, spelled.derivedExpression, semicolon, isSemicolon, rfl⟩))

theorem Separated.listing {parameters : List Ident} {ts : List Token}
    (separated : Separated Ident.Spelled parameters ts) {bound : Nat}
    (short : parameters.length ≤ bound) :
    (parameters = [] ∧ ts = []) ∨
      Listing ((Form.token .identifier).Reads (DerivedFrom most)) bound ts := by
  induction separated generalizing bound with
  | none => exact Or.inl ⟨rfl, rfl⟩
  | one spelled =>
      rcases spelled with ⟨token, isName, rfl, -⟩
      cases bound with
      | zero => simp at short
      | succ bound => exact Or.inr (.one ⟨token, isName, rfl⟩)
  | more spelled isComma _ ih =>
      rcases spelled with ⟨token, isName, rfl, -⟩
      cases bound with
      | zero => simp at short
      | succ bound =>
          rcases ih (Nat.le_of_succ_le_succ short) with ⟨impossible, -⟩ | listing
          · cases impossible
          · exact Or.inr (.more ⟨token, isName, rfl⟩ isComma listing)

mutual

theorem Stmt.Spelled.derived :
    ∀ {isOpen : Bool} {s : Stmt Unit} {ts : List Token}, Stmt.Spelled (.count most) isOpen s ts →
      DerivedFrom most .statement ts
  | _, _, _, .expression spelled isSemicolon =>
      derivedFrom_iff.2 (Or.inl (derivedFrom_iff.2
        ⟨_, _, rfl, spelled.derivedExpression, _, isSemicolon, rfl⟩))
  | _, _, _, .print isPrint spelled isSemicolon =>
      derivedFrom_iff.2 (Or.inr (Or.inr (Or.inr (Or.inl (derivedFrom_iff.2
        (Form.reads_token_seq.2 ⟨_, _, isPrint, rfl, _, _, rfl, spelled.derivedExpression, _,
          isSemicolon, rfl⟩))))))
  | _, _, _, .ret isReturn spelled isSemicolon =>
      derivedFrom_iff.2 (Or.inr (Or.inr (Or.inr (Or.inr (Or.inl (derivedFrom_iff.2
        (Form.reads_token_seq.2 ⟨_, _, isReturn, rfl, _, _, rfl, spelled.derived, _,
          isSemicolon, rfl⟩)))))))
  | _, _, _, .loop isWhile isOpening spelled isClosing inner =>
      derivedFrom_iff.2 (Or.inr (Or.inr (Or.inr (Or.inr (Or.inr (Or.inl (derivedFrom_iff.2
        (Form.reads_token_seq.2 ⟨_, _, isWhile, rfl, Form.reads_token_seq.2 ⟨_, _, isOpening, rfl,
          _, _, rfl, spelled.derivedExpression, Form.reads_token_seq.2 ⟨_, _, isClosing, rfl,
            inner.derived⟩⟩⟩))))))))
  | _, _, _, .forLoop isFor isOpening first second isSemicolon third isClosing inner => by
      refine derivedFrom_iff.2 (Or.inr (Or.inl (derivedFrom_iff.2 ?_)))
      refine Form.reads_token_seq.2 ⟨_, _, isFor, rfl, ?_⟩
      refine Form.reads_token_seq.2 ⟨_, _, isOpening, rfl, _, _, rfl, first.derived, ?_⟩
      refine ⟨_, _, rfl, second.derived, ?_⟩
      refine Form.reads_token_seq.2 ⟨_, _, isSemicolon, rfl, _, _, rfl, third.derived, ?_⟩
      exact Form.reads_token_seq.2 ⟨_, _, isClosing, rfl, inner.derived⟩
  | _, _, _, .ifThen isIf isOpening spelled isClosing first => by
      refine derivedFrom_iff.2 (Or.inr (Or.inr (Or.inl (derivedFrom_iff.2 ?_))))
      refine Form.reads_token_seq.2 ⟨_, _, isIf, rfl, Form.reads_token_seq.2 ⟨_, _, isOpening, rfl,
        _, _, rfl, spelled.derivedExpression, ?_⟩⟩
      refine Form.reads_token_seq.2 ⟨_, _, isClosing, rfl, _, [], (List.append_nil _).symm, ?_⟩
      exact ⟨first.derived, Or.inl rfl⟩
  | _, _, _, .ifElse isIf isOpening spelled isClosing first isElse second => by
      refine derivedFrom_iff.2 (Or.inr (Or.inr (Or.inl (derivedFrom_iff.2 ?_))))
      refine Form.reads_token_seq.2 ⟨_, _, isIf, rfl, Form.reads_token_seq.2 ⟨_, _, isOpening, rfl,
        _, _, rfl, spelled.derivedExpression, ?_⟩⟩
      refine Form.reads_token_seq.2 ⟨_, _, isClosing, rfl, _, _, rfl, first.derived, Or.inr ?_⟩
      exact Form.reads_token_seq.2 ⟨_, _, isElse, rfl, second.derived⟩
  | _, _, _, .block isOpening inner isClosing => by
      refine derivedFrom_iff.2 ?_
      iterate 6 right
      exact derivedFrom_iff.2 (Form.reads_token_seq.2 ⟨_, _, isOpening, rfl, _, _, rfl,
        inner.derived, _, isClosing, rfl⟩)

theorem Stmt.Declared.derived :
    ∀ {isOpen : Bool} {s : Stmt Unit} {ts : List Token}, Stmt.Declared (.count most) isOpen s ts →
      DerivedFrom most .declaration ts
  | _, _, _, .statement spelled => derivedFrom_iff.2 (Or.inr (Or.inr (Or.inr spelled.derived)))
  | _, _, _, .declare isVar spelled =>
      derivedFrom_iff.2 (Or.inr (Or.inr (Or.inl (spelled.derived isVar))))
  | _, _, _, .function isFun spelled =>
      derivedFrom_iff.2 (Or.inr (Or.inl (derivedFrom_iff.2
        (Form.reads_token_seq.2 ⟨_, _, isFun, rfl, spelled.derived⟩))))
  | _, _, _, .classDecl isClass isName parent isOpening spelled isClosing => by
      refine derivedFrom_iff.2 (Or.inl (derivedFrom_iff.2 ?_))
      refine Form.reads_token_seq.2 ⟨_, _, isClass, rfl, ?_⟩
      refine Form.reads_token_seq.2 ⟨_, _, isName, rfl, _, _, rfl, ?_, ?_⟩
      · cases parent with
        | none => exact Or.inl rfl
        | some isLess isName =>
            exact Or.inr (Form.reads_token_seq.2 ⟨_, _, isLess, rfl, _, isName, rfl⟩)
      · exact Form.reads_token_seq.2 ⟨_, _, isOpening, rfl, _, _, rfl, spelled.derived, _,
          isClosing, rfl⟩

theorem Stmt.DeclaredAll.derived :
    ∀ {body : List (Stmt Unit)} {ts : List Token}, Stmt.DeclaredAll (.count most) body ts →
      (Form.many (.symbol .declaration)).Reads (DerivedFrom most) ts
  | _, _, .nil => Repeated.nil
  | _, _, .cons first others => Repeated.cons first.derived others.derived

theorem Function.Spelled.derived :
    ∀ {function : Function Unit} {ts : List Token}, Function.Spelled (.count most) function ts →
      DerivedFrom most .function ts
  | _, _, .mk isName isOpening spelled allowed isClosing isLeft inner isRight => by
      refine derivedFrom_iff.2 (Form.reads_token_seq.2 ⟨_, _, isName, rfl, ?_⟩)
      refine Form.reads_token_seq.2 ⟨_, _, isOpening, rfl, _, _, rfl, ?_, ?_⟩
      · rcases spelled.listing (ArgumentLimit.allows_count.1 allowed) with ⟨-, none⟩ | listing
        · exact Or.inl none
        · exact Or.inr (derivedFrom_iff.2 listing)
      · refine Form.reads_token_seq.2 ⟨_, _, isClosing, rfl, derivedFrom_iff.2 ?_⟩
        exact Form.reads_token_seq.2 ⟨_, _, isLeft, rfl, _, _, rfl, inner.derived, _, isRight, rfl⟩

theorem Function.SpelledAll.derived :
    ∀ {methods : List (Function Unit)} {ts : List Token},
      Function.SpelledAll (.count most) methods ts →
        (Form.many (.symbol .function)).Reads (DerivedFrom most) ts
  | _, _, .nil => Repeated.nil
  | _, _, .cons first others => Repeated.cons first.derived others.derived

end

/-! ### From derivations to phrases -/

theorem Stmt.Spelled.exists_of_eq {limit : ArgumentLimit} {isOpen : Bool} {s : Stmt Unit}
    {ts us : List Token} (spelled : Stmt.Spelled limit isOpen s ts) (same : us = ts) :
    ∃ isOpen s, Stmt.Spelled limit isOpen s us :=
  ⟨isOpen, s, same ▸ spelled⟩

/-- An `else` after an open statement goes to its innermost open `if`. -/
theorem Stmt.Spelled.attach {limit : ArgumentLimit} {separator : Token} {other : Stmt Unit}
    {vs : List Token} {isOpenToo : Bool} (isElse : separator.kind = .keyword .else_)
    (second : Stmt.Spelled limit isOpenToo other vs) :
    ∀ {isOpen : Bool} {s : Stmt Unit} {us : List Token}, Stmt.Spelled limit isOpen s us →
      isOpen = true → ∃ isOpen s, Stmt.Spelled limit isOpen s (us ++ separator :: vs)
  | _, _, _, .loop isWhile isOpening spelled isClosing inner, isOpen => by
      obtain ⟨_, _, attached⟩ := Stmt.Spelled.attach isElse second inner isOpen
      exact (Stmt.Spelled.loop isWhile isOpening spelled isClosing attached).exists_of_eq (by simp)
  | _, _, _, .forLoop isFor isOpening start condition isSemicolon step isClosing inner, isOpen => by
      obtain ⟨_, _, attached⟩ := Stmt.Spelled.attach isElse second inner isOpen
      exact (Stmt.Spelled.forLoop isFor isOpening start condition isSemicolon step isClosing
        attached).exists_of_eq (by simp)
  | _, _, _, @Stmt.Spelled.ifThen _ isOpen _ _ _ _ _ _ _ isIf isOpening spelled isClosing first,
      _ => by
      by_cases goesOn : isOpen = true
      · obtain ⟨_, _, attached⟩ := Stmt.Spelled.attach isElse second first goesOn
        exact (Stmt.Spelled.ifThen isIf isOpening spelled isClosing attached).exists_of_eq (by simp)
      · rw [Bool.not_eq_true] at goesOn
        subst goesOn
        exact (Stmt.Spelled.ifElse isIf isOpening spelled isClosing first isElse
          second).exists_of_eq (by simp)
  | _, _, _, .ifElse isIf isOpening spelled isClosing first between inner, isOpen => by
      obtain ⟨_, _, attached⟩ := Stmt.Spelled.attach isElse second inner isOpen
      exact (Stmt.Spelled.ifElse isIf isOpening spelled isClosing first between
        attached).exists_of_eq (by simp)
  | _, _, _, .expression _ _, isOpen => absurd isOpen Bool.false_ne_true
  | _, _, _, .print _ _ _, isOpen => absurd isOpen Bool.false_ne_true
  | _, _, _, .ret _ _ _, isOpen => absurd isOpen Bool.false_ne_true
  | _, _, _, .block _ _ _, isOpen => absurd isOpen Bool.false_ne_true

/-- Every token that joins operands of a level is one of its operators. -/
theorem Joins.of_joins? {level : Level} {token : Token} (chain : level.IsChain)
    (isJoint : token.kind.joins? = some level) : ∃ join, Joins level token join := by
  have listed {operator? : Kind → Option BinaryOp} (lists : Parser.ListsLevel operator? level) :
      ∃ join, Joins level token join := by
    have known : operator? token.kind ≠ none := fun missing => (lists.2 _).1 missing isJoint
    obtain ⟨op, isOperator⟩ := Option.ne_none_iff_exists'.1 known
    obtain ⟨isKind, rfl⟩ := (lists.1 _ _).1 isOperator
    exact ⟨_, .binary isKind⟩
  have logical {op : LogicalOp} (isLevel : op.level = level) : ∃ join, Joins level token join := by
    subst isLevel
    exact ⟨_, .logical (Parser.joins?_logical.1 isJoint)⟩
  cases level with
  | disjunction => exact logical (show LogicalOp.or.level = _ from rfl)
  | conjunction => exact logical (show LogicalOp.and.level = _ from rfl)
  | equality => exact listed Parser.listsLevel_equality
  | comparison => exact listed Parser.listsLevel_comparison
  | term => exact listed Parser.listsLevel_term
  | factor => exact listed Parser.listsLevel_factor
  | assignment => exact chain.elim
  | unary => exact chain.elim
  | call => exact chain.elim
  | primary => exact chain.elim

/-- What the tokens derived from a symbol spell. -/
def Spells (most : Nat) : Symbol → List Token → Prop
  | .program => fun ts => ∃ program body last, ts = body ++ [last] ∧ last.kind = .eof ∧
      Stmt.DeclaredAll (.count most) program body
  | .declaration | .classDecl | .funDecl => fun ts =>
      ∃ isOpen s, Stmt.Declared (.count most) isOpen s ts
  | .varDecl => fun ts => ∃ keyword declaration us, keyword.kind = .keyword .var_ ∧
      ts = keyword :: us ∧ Stmt.VariableSpelled (.count most) declaration us
  | .function => fun ts => ∃ function, Function.Spelled (.count most) function ts
  | .exprStmt => fun ts => ∃ value us semicolon, ts = us ++ [semicolon] ∧
      Expr.Spelled (.count most) .assignment value us ∧ semicolon.kind = .semicolon
  | .block => fun ts => ∃ opening body us closing, opening.kind = .leftBrace ∧
      ts = opening :: (us ++ [closing]) ∧ Stmt.DeclaredAll (.count most) body us ∧
      closing.kind = .rightBrace
  | .statement | .forStmt | .ifStmt | .printStmt | .returnStmt | .whileStmt => fun ts =>
      ∃ isOpen s, Stmt.Spelled (.count most) isOpen s ts
  | .expression | .assignment => fun ts => ∃ e, Expr.Spelled (.count most) .assignment e ts
  | .logicOr => fun ts => ∃ e, Expr.Spelled (.count most) .disjunction e ts
  | .logicAnd => fun ts => ∃ e, Expr.Spelled (.count most) .conjunction e ts
  | .equality => fun ts => ∃ e, Expr.Spelled (.count most) .equality e ts
  | .comparison => fun ts => ∃ e, Expr.Spelled (.count most) .comparison e ts
  | .term => fun ts => ∃ e, Expr.Spelled (.count most) .term e ts
  | .factor => fun ts => ∃ e, Expr.Spelled (.count most) .factor e ts
  | .unary => fun ts => ∃ e, Expr.Spelled (.count most) .unary e ts
  | .call => fun ts => ∃ e, Expr.Spelled (.count most) .call e ts
  | .primary => fun ts => ∃ e, Expr.Spelled (.count most) .primary e ts
  | .arguments => fun ts => ∃ first rest, Expr.SpelledAll (.count most) (first :: rest) ts ∧
      (first :: rest).length ≤ most
  | .parameters => fun ts => ∃ first rest, Separated Ident.Spelled (first :: rest) ts ∧
      (first :: rest).length ≤ most

namespace Spells

variable {ts : List Token}

/-- Operators that repeat group to the left. -/
theorem joined (level : Level) (chain : level.IsChain) {operand : Symbol} {operator : Form}
    (isOperand : ∀ ts, Spells most operand ts →
      ∃ e, Expr.Spelled (.count most) level.tighter e ts)
    (isOperator : ∀ ts, operator.Reads (Spells most) ts →
      ∃ token, ts = [token] ∧ token.kind.joins? = some level)
    (reads : (Form.joined operand operator).Reads (Spells most) ts) :
    ∃ e, Expr.Spelled (.count most) level e ts := by
  rcases reads with ⟨before, after, rfl, first, repeated⟩
  obtain ⟨left, spelled⟩ := isOperand _ first
  have start : ∃ e, Expr.Spelled (.count most) level e before :=
    ⟨left, .relax chain.ne_primary spelled⟩
  clear first spelled left
  unfold Form.Reads at repeated
  induction repeated generalizing before with
  | nil => simpa using start
  | cons here _ ih =>
      rcases here with ⟨_, us, rfl, operates, second⟩
      obtain ⟨token, rfl, isJoint⟩ := isOperator _ operates
      obtain ⟨join, joins⟩ := Joins.of_joins? chain isJoint
      rcases start with ⟨left, spelled⟩
      obtain ⟨right, second⟩ := isOperand _ second
      rw [← List.append_assoc]
      exact ih _ ⟨_, joins.spelled spelled second⟩

theorem listing_arguments {bound : Nat} (listing : Listing (Spells most .expression) bound ts) :
    ∃ first rest, Expr.SpelledAll (.count most) (first :: rest) ts ∧
      (first :: rest).length ≤ bound := by
  induction listing with
  | one here =>
      rcases here with ⟨e, spelled⟩
      exact ⟨e, [], .one spelled, by simp⟩
  | more here isComma _ ih =>
      rcases here with ⟨e, spelled⟩
      rcases ih with ⟨first, rest, others, short⟩
      exact ⟨e, first :: rest, .more spelled isComma others, Nat.succ_le_succ short⟩

theorem listing_parameters {bound : Nat}
    (listing : Listing ((Form.token .identifier).Reads (Spells most)) bound ts) :
    ∃ first rest, Separated Ident.Spelled (first :: rest) ts ∧
      (first :: rest).length ≤ bound := by
  induction listing with
  | one here =>
      rcases here with ⟨token, isName, rfl⟩
      exact ⟨token.ident, [], .one ⟨token, isName, rfl, rfl⟩, by simp⟩
  | more here isComma _ ih =>
      rcases here with ⟨token, isName, rfl⟩
      rcases ih with ⟨first, rest, others, short⟩
      exact ⟨token.ident, first :: rest, .more ⟨token, isName, rfl, rfl⟩ isComma others,
        Nat.succ_le_succ short⟩

theorem declarations (repeated : Repeated (Spells most .declaration) ts) :
    ∃ body, Stmt.DeclaredAll (.count most) body ts := by
  induction repeated with
  | nil => exact ⟨[], .nil⟩
  | cons here _ ih =>
      rcases here with ⟨isOpen, s, declared⟩
      rcases ih with ⟨body, others⟩
      exact ⟨s :: body, .cons declared others⟩

theorem methods (repeated : Repeated (Spells most .function) ts) :
    ∃ methods, Function.SpelledAll (.count most) methods ts := by
  induction repeated with
  | nil => exact ⟨[], .nil⟩
  | cons here _ ih =>
      rcases here with ⟨method, spelled⟩
      rcases ih with ⟨methods, others⟩
      exact ⟨method :: methods, .cons spelled others⟩

theorem optionalExpression
    (reads : (Form.optional (.symbol .expression)).Reads (Spells most) ts) :
    ∃ value, Expr.SpelledOpt (.count most) value ts := by
  rcases reads with rfl | ⟨e, spelled⟩
  · exact ⟨none, .none⟩
  · exact ⟨some e, .some spelled⟩

/-! #### Rules of expressions -/

theorem assignment (reads : (rule most .assignment).Reads (Spells most) ts) :
    Spells most .assignment ts := by
  rcases reads with ⟨before, _, rfl, target, rest⟩ | ⟨e, spelled⟩
  · obtain ⟨name, _, isName, rfl, afterName⟩ := Form.reads_token_seq.1 rest
    obtain ⟨equals, us, isEquals, rfl, value, spelled⟩ := Form.reads_token_seq.1 afterName
    rcases target with rfl | ⟨ts, _, rfl, ⟨object, target⟩, dot, isDot, rfl⟩
    · exact ⟨_, .assign isName isEquals spelled⟩
    · rw [List.append_assoc]
      exact ⟨_, .set target isDot isName isEquals spelled⟩
  · exact ⟨e, .relax (by decide) spelled⟩

theorem unary (reads : (rule most .unary).Reads (Spells most) ts) : Spells most .unary ts := by
  rcases reads with ⟨_, us, rfl, operator, operand, spelled⟩ | ⟨e, spelled⟩
  · rcases operator with ⟨token, isBang, rfl⟩ | ⟨token, isMinus, rfl⟩
    · exact ⟨_, Expr.Spelled.unary (show token.kind = UnaryOp.not.kind from isBang) spelled⟩
    · exact ⟨_, Expr.Spelled.unary (show token.kind = UnaryOp.negate.kind from isMinus) spelled⟩
  · exact ⟨e, .relax (by decide) spelled⟩

theorem call (reads : (rule most .call).Reads (Spells most) ts) : Spells most .call ts := by
  rcases reads with ⟨before, after, rfl, ⟨first, spelled⟩, repeated⟩
  have start : ∃ e, Expr.Spelled (.count most) .call e before := ⟨first, .relax (by decide) spelled⟩
  clear first spelled
  unfold Form.Reads at repeated
  induction repeated generalizing before with
  | nil => simpa [Spells] using start
  | cons here _ ih =>
      rcases start with ⟨callee, function⟩
      rw [← List.append_assoc]
      refine ih _ ?_
      rcases here with call | access
      · obtain ⟨opening, _, isOpening, rfl, us, _, rfl, list, closing, isClosing, rfl⟩ :=
          Form.reads_token_seq.1 call
        rcases list with rfl | ⟨argument, rest, spelled, short⟩
        · exact ⟨_, .call function isOpening .none
            (ArgumentLimit.allows_count.2 (Nat.zero_le _)) isClosing⟩
        · exact ⟨_, .call function isOpening spelled (ArgumentLimit.allows_count.2 short) isClosing⟩
      · obtain ⟨dot, _, isDot, rfl, name, isName, rfl⟩ := Form.reads_token_seq.1 access
        exact ⟨_, .get function isDot isName⟩

theorem primary (reads : (rule most .primary).Reads (Spells most) ts) :
    Spells most .primary ts := by
  have constant {token : Token} {value : Literal} (isConstant : token.constant? = some value) :
      Spells most .primary [token] := ⟨_, .literal isConstant⟩
  rcases reads with ⟨token, isKind, rfl⟩ | ⟨token, isKind, rfl⟩ | ⟨token, isKind, rfl⟩ |
    ⟨token, isThis, rfl⟩ | ⟨token, isKind, rfl⟩ | ⟨token, isKind, rfl⟩ | ⟨token, isName, rfl⟩ |
    grouping | access
  · exact constant (by rw [Token.constant?, isKind])
  · exact constant (by rw [Token.constant?, isKind])
  · exact constant (by rw [Token.constant?, isKind])
  · exact ⟨_, .receiver isThis⟩
  · exact constant (by rw [Token.constant?, isKind])
  · exact constant (by rw [Token.constant?, isKind])
  · exact ⟨_, .read isName⟩
  · obtain ⟨opening, _, isOpening, rfl, us, _, rfl, ⟨inner, spelled⟩, closing, isClosing, rfl⟩ :=
      Form.reads_token_seq.1 grouping
    exact ⟨_, .grouping isOpening spelled isClosing⟩
  · obtain ⟨keyword, _, isSuper, rfl, afterKeyword⟩ := Form.reads_token_seq.1 access
    obtain ⟨dot, _, isDot, rfl, name, isName, rfl⟩ := Form.reads_token_seq.1 afterKeyword
    exact ⟨_, .superMethod isSuper isDot isName⟩

/-! #### Rules of statements and declarations -/

theorem ifStmt (reads : (rule most .ifStmt).Reads (Spells most) ts) : Spells most .ifStmt ts := by
  obtain ⟨keyword, _, isIf, rfl, afterKeyword⟩ := Form.reads_token_seq.1 reads
  obtain ⟨opening, _, isOpening, rfl, us, _, rfl, ⟨condition, spelled⟩, afterCondition⟩ :=
    Form.reads_token_seq.1 afterKeyword
  obtain ⟨closing, _, isClosing, rfl, vs, _, rfl, ⟨isOpen, thenBranch, first⟩, rest⟩ :=
    Form.reads_token_seq.1 afterCondition
  rcases rest with rfl | rest
  · rw [List.append_nil]
    exact ⟨_, _, .ifThen isIf isOpening spelled isClosing first⟩
  · obtain ⟨separator, ws, isElse, rfl, isOpenToo, elseBranch, second⟩ :=
      Form.reads_token_seq.1 rest
    cases isOpen with
    | false => exact ⟨_, _, .ifElse isIf isOpening spelled isClosing first isElse second⟩
    | true =>
        -- the rules allow it, but the `else` belongs to an `if` further in
        obtain ⟨_, _, attached⟩ := Stmt.Spelled.attach isElse second first rfl
        exact ⟨_, _, .ifThen isIf isOpening spelled isClosing attached⟩

theorem whileStmt (reads : (rule most .whileStmt).Reads (Spells most) ts) :
    Spells most .whileStmt ts := by
  obtain ⟨keyword, _, isWhile, rfl, afterKeyword⟩ := Form.reads_token_seq.1 reads
  obtain ⟨opening, _, isOpening, rfl, us, _, rfl, ⟨condition, spelled⟩, afterCondition⟩ :=
    Form.reads_token_seq.1 afterKeyword
  obtain ⟨closing, vs, isClosing, rfl, isOpen, body, inner⟩ := Form.reads_token_seq.1 afterCondition
  exact ⟨_, _, .loop isWhile isOpening spelled isClosing inner⟩

theorem forStmt (reads : (rule most .forStmt).Reads (Spells most) ts) :
    Spells most .forStmt ts := by
  obtain ⟨keyword, _, isFor, rfl, afterKeyword⟩ := Form.reads_token_seq.1 reads
  obtain ⟨opening, _, isOpening, rfl, ts, _, rfl, start, us, _, rfl, test, afterTest⟩ :=
    Form.reads_token_seq.1 afterKeyword
  obtain ⟨semicolon, _, isSemicolon, rfl, vs, _, rfl, step, afterStep⟩ :=
    Form.reads_token_seq.1 afterTest
  obtain ⟨closing, ws, isClosing, rfl, isOpen, body, inner⟩ := Form.reads_token_seq.1 afterStep
  obtain ⟨condition, second⟩ := optionalExpression test
  obtain ⟨increment, third⟩ := optionalExpression step
  have first : ∃ initializer, Stmt.InitializerSpelled (.count most) initializer ts := by
    rcases start with ⟨var, declaration, vs, isVar, rfl, spelled⟩ |
      ⟨value, vs, semicolon, rfl, spelled, isSemicolon⟩ | ⟨semicolon, isSemicolon, rfl⟩
    · exact ⟨_, .declare isVar spelled⟩
    · exact ⟨_, .expression spelled isSemicolon⟩
    · exact ⟨_, .none isSemicolon⟩
  rcases first with ⟨initializer, first⟩
  exact ⟨_, _, .forLoop isFor isOpening first second isSemicolon third isClosing inner⟩

theorem varDecl (reads : (rule most .varDecl).Reads (Spells most) ts) :
    Spells most .varDecl ts := by
  obtain ⟨keyword, _, isVar, rfl, afterKeyword⟩ := Form.reads_token_seq.1 reads
  obtain ⟨name, _, isName, rfl, _, _, rfl, initializer, semicolon, isSemicolon, rfl⟩ :=
    Form.reads_token_seq.1 afterKeyword
  rcases initializer with rfl | initializer
  · exact ⟨keyword, _, _, isVar, rfl, .bare isName isSemicolon⟩
  · obtain ⟨equals, us, isEquals, rfl, value, spelled⟩ := Form.reads_token_seq.1 initializer
    exact ⟨keyword, _, _, isVar, rfl, .initialized isName isEquals spelled isSemicolon⟩

theorem function (reads : (rule most .function).Reads (Spells most) ts) :
    Spells most .function ts := by
  obtain ⟨name, _, isName, rfl, afterName⟩ := Form.reads_token_seq.1 reads
  obtain ⟨opening, _, isOpening, rfl, us, _, rfl, list, afterList⟩ :=
    Form.reads_token_seq.1 afterName
  obtain ⟨closing, _, isClosing, rfl, left, body, vs, right, isLeft, rfl, inner, isRight⟩ :=
    Form.reads_token_seq.1 afterList
  rcases list with rfl | ⟨parameter, rest, separated, short⟩
  · exact ⟨_, .mk isName isOpening .none (ArgumentLimit.allows_count.2 (Nat.zero_le _)) isClosing
      isLeft inner isRight⟩
  · exact ⟨_, .mk isName isOpening separated (ArgumentLimit.allows_count.2 short) isClosing isLeft
      inner isRight⟩

theorem classDecl (reads : (rule most .classDecl).Reads (Spells most) ts) :
    Spells most .classDecl ts := by
  obtain ⟨keyword, _, isClass, rfl, afterKeyword⟩ := Form.reads_token_seq.1 reads
  obtain ⟨name, _, isName, rfl, us, _, rfl, parent, afterParent⟩ :=
    Form.reads_token_seq.1 afterKeyword
  obtain ⟨opening, _, isOpening, rfl, vs, _, rfl, repeated, closing, isClosing, rfl⟩ :=
    Form.reads_token_seq.1 afterParent
  obtain ⟨methods, spelled⟩ := methods repeated
  rcases parent with rfl | parent
  · exact ⟨_, _, .classDecl isClass isName .none isOpening spelled isClosing⟩
  · obtain ⟨less, _, isLess, rfl, superclass, isSuperclass, rfl⟩ := Form.reads_token_seq.1 parent
    exact ⟨_, _, .classDecl isClass isName (.some isLess isSuperclass) isOpening spelled isClosing⟩

theorem declaration (reads : (rule most .declaration).Reads (Spells most) ts) :
    Spells most .declaration ts := by
  rcases reads with declared | declared | ⟨keyword, d, us, isVar, rfl, spelled⟩ | ⟨_, _, spelled⟩
  · exact declared
  · exact declared
  · exact ⟨_, _, .declare isVar spelled⟩
  · exact ⟨_, _, .statement spelled⟩

theorem statement (reads : (rule most .statement).Reads (Spells most) ts) :
    Spells most .statement ts := by
  rcases reads with ⟨value, us, semicolon, rfl, spelled, isSemicolon⟩ | spelled | spelled | spelled |
    spelled | spelled | ⟨opening, body, us, closing, isOpening, rfl, inner, isClosing⟩
  · exact ⟨_, _, .expression spelled isSemicolon⟩
  · exact spelled
  · exact spelled
  · exact spelled
  · exact spelled
  · exact spelled
  · exact ⟨_, _, .block isOpening inner isClosing⟩

/-- Every rule keeps to what its symbol spells. -/
theorem closed (symbol : Symbol) (ts : List Token)
    (reads : (rule most symbol).Reads (Spells most) ts) : Spells most symbol ts := by
  cases symbol with
  | program =>
      rcases reads with ⟨body, _, rfl, repeated, last, isEnd, rfl⟩
      obtain ⟨program, declared⟩ := declarations repeated
      exact ⟨program, body, last, rfl, isEnd, declared⟩
  | declaration => exact declaration reads
  | classDecl => exact classDecl reads
  | funDecl =>
      obtain ⟨keyword, us, isFun, rfl, function, spelled⟩ := Form.reads_token_seq.1 reads
      exact ⟨_, _, .function isFun spelled⟩
  | function => exact function reads
  | varDecl => exact varDecl reads
  | statement => exact statement reads
  | exprStmt =>
      rcases reads with ⟨us, _, rfl, ⟨value, spelled⟩, semicolon, isSemicolon, rfl⟩
      exact ⟨value, us, semicolon, rfl, spelled, isSemicolon⟩
  | forStmt => exact forStmt reads
  | ifStmt => exact ifStmt reads
  | printStmt =>
      obtain ⟨keyword, _, isPrint, rfl, us, _, rfl, ⟨value, spelled⟩, semicolon, isSemicolon, rfl⟩ :=
        Form.reads_token_seq.1 reads
      exact ⟨_, _, .print isPrint spelled isSemicolon⟩
  | returnStmt =>
      obtain ⟨keyword, _, isReturn, rfl, us, _, rfl, value, semicolon, isSemicolon, rfl⟩ :=
        Form.reads_token_seq.1 reads
      obtain ⟨value, spelled⟩ := optionalExpression value
      exact ⟨_, _, .ret isReturn spelled isSemicolon⟩
  | whileStmt => exact whileStmt reads
  | block =>
      obtain ⟨opening, _, isOpening, rfl, us, _, rfl, repeated, closing, isClosing, rfl⟩ :=
        Form.reads_token_seq.1 reads
      obtain ⟨body, inner⟩ := declarations repeated
      exact ⟨opening, body, us, closing, isOpening, rfl, inner, isClosing⟩
  | expression => exact reads
  | assignment => exact assignment reads
  | logicOr =>
      refine joined .disjunction trivial (fun _ => id) ?_ reads
      rintro ts ⟨token, isKind, rfl⟩
      exact ⟨token, rfl, by rw [isKind]; rfl⟩
  | logicAnd =>
      refine joined .conjunction trivial (fun _ => id) ?_ reads
      rintro ts ⟨token, isKind, rfl⟩
      exact ⟨token, rfl, by rw [isKind]; rfl⟩
  | equality =>
      refine joined .equality trivial (fun _ => id) ?_ reads
      rintro ts (⟨token, isKind, rfl⟩ | ⟨token, isKind, rfl⟩) <;>
        exact ⟨token, rfl, by rw [isKind]; rfl⟩
  | comparison =>
      refine joined .comparison trivial (fun _ => id) ?_ reads
      rintro ts (⟨token, isKind, rfl⟩ | ⟨token, isKind, rfl⟩ | ⟨token, isKind, rfl⟩ |
        ⟨token, isKind, rfl⟩) <;> exact ⟨token, rfl, by rw [isKind]; rfl⟩
  | term =>
      refine joined .term trivial (fun _ => id) ?_ reads
      rintro ts (⟨token, isKind, rfl⟩ | ⟨token, isKind, rfl⟩) <;>
        exact ⟨token, rfl, by rw [isKind]; rfl⟩
  | factor =>
      refine joined .factor trivial (fun _ => id) ?_ reads
      rintro ts (⟨token, isKind, rfl⟩ | ⟨token, isKind, rfl⟩) <;>
        exact ⟨token, rfl, by rw [isKind]; rfl⟩
  | unary => exact unary reads
  | call => exact call reads
  | primary => exact primary reads
  | arguments => exact listing_arguments reads
  | parameters => exact listing_parameters reads

end Spells

/-! ### The parser and the grammar -/

theorem DerivedFrom.spells {symbol : Symbol} {ts : List Token}
    (derived : DerivedFrom most symbol ts) : Spells most symbol ts :=
  derived.reads Spells.closed rfl

theorem EndsOnce.split {tokens : List Token} (ends : EndsOnce tokens) :
    ∃ body last, tokens = body ++ [last] ∧ last.kind = .eof := by
  induction tokens with
  | nil => exact ends.elim
  | cons token rest ih =>
      cases rest with
      | nil => exact ⟨[], token, rfl, ends⟩
      | cons following others =>
          obtain ⟨body, last, same, isEnd⟩ := ih ends.2
          exact ⟨token :: body, last, by rw [same, List.cons_append], isEnd⟩

theorem derivedFrom_program {body : List Token} {last : Token} (isEnd : last.kind = .eof) :
    DerivedFrom most .program (body ++ [last]) ↔
      ∃ program, Stmt.DeclaredAll (.count most) program body := by
  constructor
  · intro derived
    obtain ⟨program, _, _, same, -, declared⟩ := derived.spells
    obtain ⟨rfl, -⟩ := List.append_inj' same rfl
    exact ⟨program, declared⟩
  · rintro ⟨program, declared⟩
    exact derivedFrom_iff.2 ⟨body, [last], rfl, declared.derived, last, isEnd, rfl⟩

/-- Reading a token list that ends once always gives a program, and reports no error exactly if
the kinds of the tokens can be derived from the grammar with lists of at most `most` elements. -/
theorem Program.parse_accepts_exactly_grammar (most : Nat) (tokens : List Token)
    (ends : EndsOnce tokens) :
    (∃ program, (parse (.count most) tokens).program = .ok program) ∧
      ((parse (.count most) tokens).errors = #[] ↔
        Derives most (.symbol .program) (tokens.map Token.kind)) := by
  have comparable : ArgumentLimit.count most ≠ .incomparable := nofun
  refine ⟨parse_total ends comparable, ?_⟩
  obtain ⟨body, last, rfl, isEnd⟩ := ends.split
  refine Iff.trans ?_ (derivedFrom_program isEnd).symm
  constructor
  · intro clean
    obtain ⟨program, -, declared⟩ := parse_clean ends comparable clean
    exact ⟨program, declared⟩
  · rintro ⟨program, declared⟩
    rw [parse_declared isEnd declared]

/-- The tokens of `if (a) if (b) f(c); else d.e = -g;`, where the rules leave it open which `if`
the `else` belongs to. -/
def danglingElse : List Token :=
  [.keyword .if_, .leftParen, .identifier, .rightParen, .keyword .if_, .leftParen, .identifier,
    .rightParen, .identifier, .leftParen, .identifier, .rightParen, .semicolon, .keyword .else_,
    .identifier, .dot, .identifier, .equal, .minus, .identifier, .semicolon, .eof].map
      fun kind => { kind := kind, lexeme := "", literal := none, position := .start }

theorem Program.parse_accepts_danglingElse :
    EndsOnce danglingElse ∧
      (∃ program, (parse (.count 1) danglingElse).program = .ok program) ∧
      ((parse (.count 1) danglingElse).errors = #[] ↔
        Derives 1 (.symbol .program) (danglingElse.map Token.kind)) :=
  have ends : EndsOnce danglingElse := by simp [danglingElse, EndsOnce]
  ⟨ends, parse_accepts_exactly_grammar 1 danglingElse ends⟩

end LoxLang
