/-
Module: LoxLang.Proofs.Parser.Chains
Purpose: How phrases come apart into the turns of a loop.  A phrase describes an operator from
  its two operands, a parser meets the first operand and then one operator after the other; here
  the two views are shown to agree for binary and logical operators, for calls and property
  accesses, and for the targets of assignments.
Main exports: Parsing.chain, Parsing.operand, Parsing.operand_chain, Expr.Applies,
  Parsing.applyStep, Expr.Spelled.unapplies, Expr.AssignsTo
-/
import LoxLang.Proofs.Parser.Phrase

namespace LoxLang

variable {limit : ArgumentLimit}

/-! ### Chains of operators -/

/-- The levels whose operators are read in a loop. -/
def Level.IsChain : Level → Prop
  | .disjunction | .conjunction | .equality | .comparison | .term | .factor => True
  | _ => False

theorem Level.IsChain.ne_primary {level : Level} (chain : level.IsChain) : level ≠ .primary := by
  rintro rfl
  exact chain

/-- What a token between two operands of a level makes of them. -/
inductive Joins : Level → Token → (Expr Unit → Expr Unit → Expr Unit) → Prop where
  | binary {token : Token} {op : BinaryOp} (isOperator : token.kind = op.kind) :
      Joins op.level token fun left right => .binary left op token.position right
  | logical {token : Token} {op : LogicalOp} (isOperator : token.kind = op.kind) :
      Joins op.level token fun left right => .logical left op right

theorem Joins.joins? {level : Level} {token : Token} {join : Expr Unit → Expr Unit → Expr Unit}
    (joins : Joins level token join) : token.kind.joins? = some level := by
  cases joins with
  | @binary _ op isOperator => rw [isOperator]; cases op <;> rfl
  | @logical _ op isOperator => rw [isOperator]; cases op <;> rfl

theorem Joins.spelled {level : Level} {token : Token} {join : Expr Unit → Expr Unit → Expr Unit}
    {left right : Expr Unit} {ts us : List Token} (joins : Joins level token join)
    (first : Expr.Spelled limit level left ts)
    (second : Expr.Spelled limit level.tighter right us) :
    Expr.Spelled limit level (join left right) (ts ++ token :: us) := by
  cases joins with
  | binary isOperator => exact .binary rfl isOperator first second
  | logical isOperator => exact .logical rfl isOperator first second

/-- One turn of the loop that reads the operators of a level. -/
def Parsing.chainStep (level : Level) (operand : Parsing (Expr Unit)) (left : Expr Unit) :
    Parsing (Bool × Expr Unit) := fun result taken next =>
  (result = (false, left) ∧ taken = [] ∧ next.joins? ≠ some level) ∨
    ∃ token join right after, Joins level token join ∧ taken = token :: after ∧
      operand right after next ∧ result = (true, join left right)

/-- An operand and the turns of the loop after it. -/
def Parsing.chain (level : Level) (operand : Parsing (Expr Unit)) : Parsing (Expr Unit) :=
  operand.andThen (Parsing.Loop (Parsing.chainStep level operand))

theorem Parsing.chainStep_progressing (level : Level) (operand : Parsing (Expr Unit)) :
    Parsing.Progressing (Parsing.chainStep level operand) := by
  rintro state following taken next (⟨same, -, -⟩ | ⟨token, join, right, after, -, rfl, -, -⟩)
  · cases same
  · exact List.cons_ne_nil _ _

/-- What the loop makes of a phrase of its level is a phrase of its level. -/
theorem Parsing.Loop.spelled {level : Level} {left e : Expr Unit} {ts us : List Token}
    {next : Kind}
    (loop : Parsing.Loop (Parsing.chainStep level fun e ts _ =>
      Expr.Spelled limit level.tighter e ts) left e us next)
    (first : Expr.Spelled limit level left ts) : Expr.Spelled limit level e (ts ++ us) := by
  induction loop generalizing ts with
  | stop last =>
      rcases last with ⟨same, rfl, -⟩ | ⟨_, _, _, _, -, -, -, same⟩
      · cases same
        simpa using first
      · cases same
  | again step _ ih =>
      rcases step with ⟨same, -, -⟩ | ⟨token, join, right, after, joins, rfl, second, same⟩
      · cases same
      · cases same
        simpa [List.append_assoc] using ih (joins.spelled first second)

/-- An operand of at most `size` tokens whose level the token after it does not go on with. -/
def Parsing.operand (limit : ArgumentLimit) (level : Level) (size : Nat) :
    Parsing (Expr Unit) := fun e taken next =>
  Expr.Spelled limit level e taken ∧ level.Stops next ∧ taken.length ≤ size

/-- A turn of the loop in front of others.  The operator at its start ends the operand before it. -/
theorem Parsing.Loop.joined {level : Level} (chain : level.IsChain) {size : Nat}
    {left right final : Expr Unit} {token : Token} {us more : List Token} {next : Kind}
    {join : Expr Unit → Expr Unit → Expr Unit} (joins : Joins level token join)
    (second : Expr.Spelled limit level.tighter right us) (fits : us.length ≤ size)
    (stops : level.tighter.Stops (firstKind more next))
    (loop : Parsing.Loop (Parsing.chainStep level (Parsing.operand limit level.tighter size))
      (join left right) final more next) :
    level.tighter.Stops (firstKind (token :: us ++ more) next) ∧
      Parsing.Loop (Parsing.chainStep level (Parsing.operand limit level.tighter size))
        left final (token :: us ++ more) next := by
  refine ⟨?_, .again (Or.inr ⟨token, join, right, us, joins, rfl, ⟨second, stops, fits⟩, rfl⟩)
    loop⟩
  intro other isOther
  rw [List.cons_append, firstKind_cons, joins.joins?] at isOther
  cases isOther
  rw [Level.rank_tighter chain.ne_primary]
  exact Nat.lt_succ_self _

/-- A phrase is an operand with turns of the loop after it.  The loop goes on from the phrase
itself: the phrase is the left operand of whatever comes next. -/
def Expr.Unchains (limit : ArgumentLimit) (level : Level) (size : Nat) (e : Expr Unit)
    (ts : List Token) : Prop :=
  ∃ first before after, ts = before ++ after ∧ Expr.Spelled limit level.tighter first before ∧
    ∀ (final : Expr Unit) (more : List Token) (next : Kind),
      level.tighter.Stops (firstKind more next) →
      Parsing.Loop (Parsing.chainStep level (Parsing.operand limit level.tighter size))
        e final more next →
      level.tighter.Stops (firstKind (after ++ more) next) ∧
        Parsing.Loop (Parsing.chainStep level (Parsing.operand limit level.tighter size))
          first final (after ++ more) next

theorem Expr.Unchains.joined {level : Level} (chain : level.IsChain) {size : Nat}
    {left right : Expr Unit} {token : Token} {ts us : List Token}
    {join : Expr Unit → Expr Unit → Expr Unit} (joins : Joins level token join)
    (unchains : Expr.Unchains limit level size left ts)
    (second : Expr.Spelled limit level.tighter right us) (fits : us.length ≤ size) :
    Expr.Unchains limit level size (join left right) (ts ++ token :: us) := by
  rcases unchains with ⟨first, before, after, rfl, tight, onwards⟩
  refine ⟨first, before, after ++ token :: us, by simp, tight, ?_⟩
  intro final more next stops loop
  obtain ⟨stopsHere, looped⟩ := loop.joined chain joins second fits stops
  simpa using onwards final (token :: us ++ more) next stopsHere looped

theorem Expr.Spelled.unchains {size : Nat} :
    ∀ {level : Level} {e : Expr Unit} {ts : List Token}, Expr.Spelled limit level e ts →
      level.IsChain → ts.length ≤ size → Expr.Unchains limit level size e ts
  | _, e, ts, .relax _ tight, _, _ =>
      ⟨e, ts, [], (List.append_nil ts).symm, tight, fun _ _ _ stops loop => ⟨stops, loop⟩⟩
  | _, _, _, .binary rfl isOperator left right, chain, short => by
      simp only [List.length_append, List.length_cons] at short
      exact (left.unchains chain (by omega)).joined chain (.binary isOperator) right (by omega)
  | _, _, _, .logical rfl isOperator left right, chain, short => by
      simp only [List.length_append, List.length_cons] at short
      exact (left.unchains chain (by omega)).joined chain (.logical isOperator) right (by omega)
  | _, _, _, .assign _ _ _, chain, _ => chain.elim
  | _, _, _, .set _ _ _ _ _, chain, _ => chain.elim
  | _, _, _, .unary _ _, chain, _ => chain.elim
  | _, _, _, .call _ _ _ _ _, chain, _ => chain.elim
  | _, _, _, .get _ _ _, chain, _ => chain.elim
  | _, _, _, .literal _, chain, _ => chain.elim
  | _, _, _, .read _, chain, _ => chain.elim
  | _, _, _, .receiver _, chain, _ => chain.elim
  | _, _, _, .superMethod _ _ _, chain, _ => chain.elim
  | _, _, _, .grouping _ _ _, chain, _ => chain.elim

/-- A phrase that the next token does not go on with is what the loop reads. -/
theorem Parsing.operand_chain (level : Level) (chain : level.IsChain) {size : Nat}
    {e : Expr Unit} {ts : List Token} {next : Kind}
    (operand : Parsing.operand limit level size e ts next) :
    Parsing.chain level (Parsing.operand limit level.tighter size) e ts next := by
  rcases operand with ⟨spelled, stops, short⟩
  obtain ⟨first, before, after, rfl, tight, onwards⟩ := spelled.unchains chain short
  have stopped : Parsing.Loop
      (Parsing.chainStep level (Parsing.operand limit level.tighter size)) e e [] next := by
    refine .stop (Or.inl ⟨rfl, rfl, fun joined => ?_⟩)
    exact Nat.lt_irrefl _ (stops level joined)
  obtain ⟨stopsHere, looped⟩ := onwards e [] next stops.tighter stopped
  rw [List.append_nil] at stopsHere looped
  rw [List.length_append] at short
  exact ⟨first, before, after, rfl, ⟨tight, stopsHere, by omega⟩, looped⟩

/-! ### Calls and property accesses -/

/-- What can be applied to an expression, and the tokens it is spelled with. -/
inductive Expr.Applies (limit : ArgumentLimit) (callee : Expr Unit) :
    Expr Unit → List Token → Prop where
  | call {arguments : List (Expr Unit)} {opening closing : Token} {ts : List Token}
      (isOpening : opening.kind = .leftParen) (spelled : Expr.SpelledAll limit arguments ts)
      (allowed : limit.Allows arguments.length) (isClosing : closing.kind = .rightParen) :
      Expr.Applies limit callee (.call callee arguments closing.position)
        (opening :: (ts ++ [closing]))
  | get {dot name : Token} (isDot : dot.kind = .dot) (isName : name.kind = .identifier) :
      Expr.Applies limit callee (.get callee name.ident) [dot, name]

theorem Expr.Applies.spelled {callee e : Expr Unit} {ts us : List Token}
    (applies : Expr.Applies limit callee e us) (function : Expr.Spelled limit .call callee ts) :
    Expr.Spelled limit .call e (ts ++ us) := by
  cases applies with
  | call isOpening spelled allowed isClosing =>
      exact .call function isOpening spelled allowed isClosing
  | get isDot isName => exact .get function isDot isName

theorem Expr.Applies.joins {callee e : Expr Unit} {ts : List Token}
    (applies : Expr.Applies limit callee e ts) :
    ∃ first rest, ts = first :: rest ∧ first.kind.joins? = some .call := by
  cases applies with
  | call isOpening _ _ _ => exact ⟨_, _, rfl, by simp [isOpening, Kind.joins?]⟩
  | get isDot _ => exact ⟨_, _, rfl, by simp [isDot, Kind.joins?]⟩

/-- One turn of the loop that reads calls and property accesses, where `fits` says which token
lists are taken. -/
def Parsing.applyStep (limit : ArgumentLimit) (fits : List Token → Prop) (callee : Expr Unit) :
    Parsing (Bool × Expr Unit) := fun result taken next =>
  (result = (false, callee) ∧ taken = [] ∧ next.joins? ≠ some .call) ∨
    ∃ e, Expr.Applies limit callee e taken ∧ fits taken ∧ result = (true, e)

theorem Parsing.applyStep_progressing (fits : List Token → Prop) :
    Parsing.Progressing (Parsing.applyStep limit fits) := by
  rintro state following taken next (⟨same, -, -⟩ | ⟨e, applies, -, -⟩)
  · cases same
  · obtain ⟨first, rest, rfl, -⟩ := applies.joins
    exact List.cons_ne_nil _ _

/-- Calls and property accesses applied to a phrase make a phrase. -/
theorem Parsing.Loop.applied {fits : List Token → Prop} {left e : Expr Unit} {ts us : List Token}
    {next : Kind} (loop : Parsing.Loop (Parsing.applyStep limit fits) left e us next)
    (spelled : Expr.Spelled limit .call left ts) : Expr.Spelled limit .call e (ts ++ us) := by
  induction loop generalizing ts with
  | stop last =>
      rcases last with ⟨same, rfl, -⟩ | ⟨_, _, _, same⟩
      · cases same
        simpa using spelled
      · cases same
  | again step _ ih =>
      rcases step with ⟨same, -, -⟩ | ⟨_, applies, -, same⟩
      · cases same
      · cases same
        simpa [List.append_assoc] using ih (applies.spelled spelled)

/-- A call phrase is a primary expression with calls and property accesses after it. -/
def Expr.Unapplies (limit : ArgumentLimit) (size : Nat) (e : Expr Unit) (ts : List Token) : Prop :=
  ∃ first before after, ts = before ++ after ∧ Expr.Spelled limit .primary first before ∧
    ∀ (final : Expr Unit) (more : List Token) (next : Kind),
      Parsing.Loop (Parsing.applyStep limit (·.length ≤ size)) e final more next →
        Parsing.Loop (Parsing.applyStep limit (·.length ≤ size)) first final (after ++ more) next

theorem Expr.Unapplies.applied {size : Nat} {callee e : Expr Unit} {ts us : List Token}
    (unapplies : Expr.Unapplies limit size callee ts) (applies : Expr.Applies limit callee e us)
    (fits : us.length ≤ size) : Expr.Unapplies limit size e (ts ++ us) := by
  rcases unapplies with ⟨first, before, after, rfl, primary, onwards⟩
  refine ⟨first, before, after ++ us, by simp, primary, fun final more next loop => ?_⟩
  rw [List.append_assoc]
  exact onwards final (us ++ more) next (.again (Or.inr ⟨e, applies, fits, rfl⟩) loop)

theorem BinaryOp.level_ne_call (op : BinaryOp) : op.level ≠ .call := by
  cases op <;> decide

theorem LogicalOp.level_ne_call (op : LogicalOp) : op.level ≠ .call := by
  cases op <;> decide

theorem Expr.Spelled.unapplies {size : Nat} :
    ∀ {level : Level} {e : Expr Unit} {ts : List Token}, Expr.Spelled limit level e ts →
      level = .call → ts.length ≤ size → Expr.Unapplies limit size e ts
  | _, e, ts, .relax _ tight, isCall, _ => by
      subst isCall
      exact ⟨e, ts, [], (List.append_nil ts).symm, tight, fun _ _ _ loop => loop⟩
  | _, _, _, .call function isOpening spelled allowed isClosing, isCall, short => by
      rw [List.length_append] at short
      exact (function.unapplies isCall (by omega)).applied
        (.call isOpening spelled allowed isClosing) (by omega)
  | _, _, _, .get target isDot isName, isCall, short => by
      rw [List.length_append] at short
      exact (target.unapplies isCall (by omega)).applied (.get isDot isName) (by omega)
  | _, _, _, .binary isLevel _ _ _, isCall, _ => by
      rw [isCall] at isLevel
      exact absurd isLevel (BinaryOp.level_ne_call _)
  | _, _, _, .logical isLevel _ _ _, isCall, _ => by
      rw [isCall] at isLevel
      exact absurd isLevel (LogicalOp.level_ne_call _)
  | _, _, _, .assign _ _ _, isCall, _ => nomatch isCall
  | _, _, _, .set _ _ _ _ _, isCall, _ => nomatch isCall
  | _, _, _, .unary _ _, isCall, _ => nomatch isCall
  | _, _, _, .literal _, isCall, _ => nomatch isCall
  | _, _, _, .read _, isCall, _ => nomatch isCall
  | _, _, _, .receiver _, isCall, _ => nomatch isCall
  | _, _, _, .superMethod _ _ _, isCall, _ => nomatch isCall
  | _, _, _, .grouping _ _ _, isCall, _ => nomatch isCall

/-- What a prefix operator starts is no call phrase. -/
theorem Expr.Spelled.not_prefixed {level : Level} {e : Expr Unit} {ts : List Token} {next : Kind}
    (spelled : Expr.Spelled limit level e ts) (isCall : level = .call) :
    UnaryOp.ofKind? (firstKind ts next) = none := by
  obtain ⟨first, before, after, rfl, primary, -⟩ := spelled.unapplies isCall (Nat.le_refl _)
  rw [firstKind_append]
  cases primary with
  | relax loose _ => exact absurd rfl loose
  | @binary _ op _ _ _ _ _ isLevel => cases op <;> cases isLevel
  | @logical _ op _ _ _ _ _ isLevel => cases op <;> cases isLevel
  | @literal token value isConstant =>
      unfold Token.constant? at isConstant
      split at isConstant <;> simp_all [UnaryOp.ofKind?]
  | read isName => simp [isName, UnaryOp.ofKind?]
  | receiver isThis => simp [isThis, UnaryOp.ofKind?]
  | superMethod isSuper _ _ => simp [isSuper, UnaryOp.ofKind?]
  | grouping isOpening _ _ => simp [isOpening, UnaryOp.ofKind?]

/-! ### Targets of assignments -/

/-- What an equals sign and a value make of the expression before them. -/
inductive Expr.AssignsTo (value : Expr Unit) : Expr Unit → Expr Unit → Prop where
  | name (name : Ident) : Expr.AssignsTo value (.read name ()) (.assign name () value)
  | property (object : Expr Unit) (name : Ident) :
      Expr.AssignsTo value (.get object name) (.set object name value)

theorem Expr.Spelled.of_read {name : Ident} :
    ∀ {level : Level} {ts : List Token}, Expr.Spelled limit level (.read name ()) ts →
      ∃ token : Token, token.kind = .identifier ∧ name = token.ident ∧ ts = [token]
  | _, _, .relax _ tight => tight.of_read
  | _, _, .read isName => ⟨_, isName, rfl, rfl⟩
termination_by level => 9 - level.rank
decreasing_by exact Level.tighter_closer ‹_›

theorem Expr.Spelled.of_get {object : Expr Unit} {name : Ident} :
    ∀ {level : Level} {ts : List Token}, Expr.Spelled limit level (.get object name) ts →
      ∃ (dot token : Token) (us : List Token), Expr.Spelled limit .call object us ∧
        dot.kind = .dot ∧ token.kind = .identifier ∧ name = token.ident ∧ ts = us ++ [dot, token]
  | _, _, .relax _ tight => tight.of_get
  | _, _, .get target isDot isName => ⟨_, _, _, target, isDot, isName, rfl, rfl⟩
termination_by level => 9 - level.rank
decreasing_by exact Level.tighter_closer ‹_›

/-- A target read as an expression of its own is a name or a property access, and is spelled like
one. -/
theorem Expr.AssignsTo.spelled {target value e : Expr Unit} {equals : Token} {level : Level}
    {ts us : List Token} (assigns : Expr.AssignsTo value target e)
    (read : Expr.Spelled limit level target ts) (isEquals : equals.kind = .equal)
    (spelled : Expr.Spelled limit .assignment value us) :
    Expr.Spelled limit .assignment e (ts ++ equals :: us) := by
  cases assigns with
  | name name =>
      obtain ⟨token, isName, rfl, rfl⟩ := read.of_read
      exact .assign isName isEquals spelled
  | property object name =>
      obtain ⟨dot, token, before, target, isDot, isName, rfl, rfl⟩ := read.of_get
      simpa using Expr.Spelled.set target isDot isName isEquals spelled

end LoxLang
