/-
Module: LoxLang.Proofs.Parser.Phrase
Purpose: Which token lists stand for which trees.  Expressions are ranked by how tightly they
  bind; operands stand at the level of their operator on the left and one level tighter on the
  right.  Statements carry whether an `else` put after them would become a part of them.
Main exports: Level, Expr.Spelled, Expr.SpelledAll, Stmt.Spelled, Stmt.Declared,
  Stmt.DeclaredAll, Function.Spelled, Function.SpelledAll
-/
import LoxLang.Proofs.Parser.Elements

namespace LoxLang

/-! ### Levels -/

/-- How tightly an expression binds, from the loosest level to the tightest. -/
inductive Level where
  | assignment | disjunction | conjunction | equality | comparison
  | term | factor | unary | call | primary
deriving DecidableEq, Repr, Inhabited

namespace Level

/-- The place of a level in the order. -/
def rank : Level → Nat
  | assignment => 0
  | disjunction => 1
  | conjunction => 2
  | equality => 3
  | comparison => 4
  | term => 5
  | factor => 6
  | unary => 7
  | call => 8
  | primary => 9

/-- The next tighter level. -/
def tighter : Level → Level
  | assignment => disjunction
  | disjunction => conjunction
  | conjunction => equality
  | equality => comparison
  | comparison => term
  | term => factor
  | factor => unary
  | unary => call
  | call | primary => primary

theorem rank_le_tighter (level : Level) : level.rank ≤ level.tighter.rank := by
  cases level <;> decide

theorem rank_le (level : Level) : level.rank ≤ 9 := by
  cases level <;> decide

theorem rank_injective {level other : Level} (same : other.rank = level.rank) :
    other = level := by
  cases level <;> cases other <;> first | rfl | cases same

theorem rank_tighter {level : Level} (loose : level ≠ .primary) :
    level.tighter.rank = level.rank + 1 := by
  cases level <;> first | rfl | exact absurd rfl loose

theorem tighter_closer {level : Level} (loose : level ≠ .primary) :
    9 - level.tighter.rank < 9 - level.rank := by
  have bound := level.tighter.rank_le
  rw [rank_tighter loose] at bound ⊢
  omega

end Level

namespace UnaryOp

/-- The token of a prefix operator. -/
def kind : UnaryOp → Kind
  | not => .bang
  | negate => .minus

theorem ofKind?_eq_some {kind : Kind} {op : UnaryOp} : ofKind? kind = some op ↔ kind = op.kind := by
  constructor
  · intro found
    unfold ofKind? at found
    split at found <;> cases found <;> rfl
  · rintro rfl
    cases op <;> rfl

end UnaryOp

namespace BinaryOp

/-- The token of a binary operator. -/
def kind : BinaryOp → Kind
  | add => .plus
  | subtract => .minus
  | multiply => .star
  | divide => .slash
  | equal => .equalEqual
  | notEqual => .bangEqual
  | greater => .greater
  | greaterEqual => .greaterEqual
  | less => .less
  | lessEqual => .lessEqual

/-- The level of the expressions that a binary operator makes. -/
def level : BinaryOp → Level
  | add | subtract => .term
  | multiply | divide => .factor
  | equal | notEqual => .equality
  | greater | greaterEqual | less | lessEqual => .comparison

theorem factor?_eq_some {kind : Kind} {op : BinaryOp} :
    factor? kind = some op ↔ kind = op.kind ∧ op.level = .factor := by
  cases op <;> unfold factor? <;> split <;> simp_all [BinaryOp.kind, level]

theorem term?_eq_some {kind : Kind} {op : BinaryOp} :
    term? kind = some op ↔ kind = op.kind ∧ op.level = .term := by
  cases op <;> unfold term? <;> split <;> simp_all [BinaryOp.kind, level]

theorem comparison?_eq_some {kind : Kind} {op : BinaryOp} :
    comparison? kind = some op ↔ kind = op.kind ∧ op.level = .comparison := by
  cases op <;> unfold comparison? <;> split <;> simp_all [BinaryOp.kind, level]

theorem equality?_eq_some {kind : Kind} {op : BinaryOp} :
    equality? kind = some op ↔ kind = op.kind ∧ op.level = .equality := by
  cases op <;> unfold equality? <;> split <;> simp_all [BinaryOp.kind, level]

end BinaryOp

namespace LogicalOp

/-- The token of a logical operator. -/
def kind : LogicalOp → Kind
  | and => .keyword .and_
  | or => .keyword .or_

/-- The level of the expressions that a logical operator makes. -/
def level : LogicalOp → Level
  | and => .conjunction
  | or => .disjunction

end LogicalOp

/-- The level at which a token can go on with an expression that stands before it. -/
def Kind.joins? : Kind → Option Level
  | .equal => some .assignment
  | .keyword .or_ => some .disjunction
  | .keyword .and_ => some .conjunction
  | .bangEqual | .equalEqual => some .equality
  | .greater | .greaterEqual | .less | .lessEqual => some .comparison
  | .minus | .plus => some .term
  | .slash | .star => some .factor
  | .leftParen | .dot => some .call
  | _ => none

/-- Whether a token cannot go on with an expression of the given level. -/
def Level.Stops (level : Level) (kind : Kind) : Prop :=
  ∀ joined, kind.joins? = some joined → joined.rank < level.rank

theorem Level.Stops.tighter {level : Level} {kind : Kind} (stops : level.Stops kind) :
    level.tighter.Stops kind :=
  fun joined joins => Nat.lt_of_lt_of_le (stops joined joins) level.rank_le_tighter

theorem Level.stops_primary (kind : Kind) : Level.primary.Stops kind := by
  intro joined joins
  unfold Kind.joins? at joins
  split at joins <;> cases joins <;> decide

theorem Level.stops_of_joins?_eq_none {kind : Kind} (none : kind.joins? = none) (level : Level) :
    level.Stops kind := by
  intro joined joins
  rw [none] at joins
  cases joins

/-- Whether an expression can start with a token. -/
def Kind.startsExpression : Kind → Bool
  | .keyword .false_ | .keyword .true_ | .keyword .nil_ | .keyword .super_ | .keyword .this_
  | .number | .string | .identifier | .leftParen | .bang | .minus => true
  | _ => false

/-! ### Expressions -/

/-- The name that a token spells. -/
def Token.ident (token : Token) : Ident :=
  { text := token.lexeme, position := token.position }

/-- The constant that a token stands for. -/
def Token.constant? (token : Token) : Option Literal :=
  match token.kind with
  | .keyword .false_ => some (.bool false)
  | .keyword .true_ => some (.bool true)
  | .keyword .nil_ => some .nil
  | .number | .string => some (token.literal.getD .nil)
  | _ => none

mutual

/-- An expression of the given level and the tokens that spell it. -/
inductive Expr.Spelled (limit : ArgumentLimit) : Level → Expr Unit → List Token → Prop where
  | relax {level : Level} {e : Expr Unit} {ts : List Token} (loose : level ≠ .primary)
      (tight : Expr.Spelled limit level.tighter e ts) : Expr.Spelled limit level e ts
  | assign {name equals : Token} {value : Expr Unit} {ts : List Token}
      (isName : name.kind = .identifier) (isEquals : equals.kind = .equal)
      (spelled : Expr.Spelled limit .assignment value ts) :
      Expr.Spelled limit .assignment (.assign name.ident () value) (name :: equals :: ts)
  | set {object value : Expr Unit} {dot name equals : Token} {ts us : List Token}
      (target : Expr.Spelled limit .call object ts) (isDot : dot.kind = .dot)
      (isName : name.kind = .identifier) (isEquals : equals.kind = .equal)
      (spelled : Expr.Spelled limit .assignment value us) :
      Expr.Spelled limit .assignment (.set object name.ident value)
        (ts ++ dot :: name :: equals :: us)
  | logical {level : Level} {op : LogicalOp} {left right : Expr Unit} {token : Token}
      {ts us : List Token} (isLevel : op.level = level) (isOperator : token.kind = op.kind)
      (first : Expr.Spelled limit level left ts)
      (second : Expr.Spelled limit level.tighter right us) :
      Expr.Spelled limit level (.logical left op right) (ts ++ token :: us)
  | binary {level : Level} {op : BinaryOp} {left right : Expr Unit} {token : Token}
      {ts us : List Token} (isLevel : op.level = level) (isOperator : token.kind = op.kind)
      (first : Expr.Spelled limit level left ts)
      (second : Expr.Spelled limit level.tighter right us) :
      Expr.Spelled limit level (.binary left op token.position right) (ts ++ token :: us)
  | unary {op : UnaryOp} {operand : Expr Unit} {token : Token} {ts : List Token}
      (isOperator : token.kind = op.kind) (spelled : Expr.Spelled limit .unary operand ts) :
      Expr.Spelled limit .unary (.unary op token.position operand) (token :: ts)
  | call {callee : Expr Unit} {arguments : List (Expr Unit)} {opening closing : Token}
      {ts us : List Token} (function : Expr.Spelled limit .call callee ts)
      (isOpening : opening.kind = .leftParen) (spelled : Expr.SpelledAll limit arguments us)
      (allowed : limit.Allows arguments.length) (isClosing : closing.kind = .rightParen) :
      Expr.Spelled limit .call (.call callee arguments closing.position)
        (ts ++ opening :: (us ++ [closing]))
  | get {object : Expr Unit} {dot name : Token} {ts : List Token}
      (target : Expr.Spelled limit .call object ts) (isDot : dot.kind = .dot)
      (isName : name.kind = .identifier) :
      Expr.Spelled limit .call (.get object name.ident) (ts ++ [dot, name])
  | literal {token : Token} {value : Literal} (isConstant : token.constant? = some value) :
      Expr.Spelled limit .primary (.literal value) [token]
  | read {name : Token} (isName : name.kind = .identifier) :
      Expr.Spelled limit .primary (.read name.ident ()) [name]
  | receiver {keyword : Token} (isThis : keyword.kind = .keyword .this_) :
      Expr.Spelled limit .primary (.receiver keyword.position ()) [keyword]
  | superMethod {keyword dot name : Token} (isSuper : keyword.kind = .keyword .super_)
      (isDot : dot.kind = .dot) (isName : name.kind = .identifier) :
      Expr.Spelled limit .primary (.superMethod keyword.position () name.ident)
        [keyword, dot, name]
  | grouping {inner : Expr Unit} {opening closing : Token} {ts : List Token}
      (isOpening : opening.kind = .leftParen) (spelled : Expr.Spelled limit .assignment inner ts)
      (isClosing : closing.kind = .rightParen) :
      Expr.Spelled limit .primary (.grouping inner) (opening :: (ts ++ [closing]))

/-- Expressions separated by commas. -/
inductive Expr.SpelledAll (limit : ArgumentLimit) : List (Expr Unit) → List Token → Prop where
  | none : Expr.SpelledAll limit [] []
  | one {e : Expr Unit} {ts : List Token} (spelled : Expr.Spelled limit .assignment e ts) :
      Expr.SpelledAll limit [e] ts
  | more {e following : Expr Unit} {rest : List (Expr Unit)} {comma : Token}
      {ts us : List Token} (spelled : Expr.Spelled limit .assignment e ts)
      (isComma : comma.kind = .comma)
      (others : Expr.SpelledAll limit (following :: rest) us) :
      Expr.SpelledAll limit (e :: following :: rest) (ts ++ comma :: us)

end

/-- An expression that may be missing. -/
inductive Expr.SpelledOpt (limit : ArgumentLimit) : Option (Expr Unit) → List Token → Prop where
  | none : Expr.SpelledOpt limit none []
  | some {e : Expr Unit} {ts : List Token} (spelled : Expr.Spelled limit .assignment e ts) :
      Expr.SpelledOpt limit (some e) ts

theorem Expr.SpelledAll.separated {limit : ArgumentLimit} {arguments : List (Expr Unit)}
    {ts : List Token} (spelled : Expr.SpelledAll limit arguments ts) :
    Separated (Expr.Spelled limit .assignment) arguments ts := by
  induction arguments generalizing ts with
  | nil => cases spelled; exact .none
  | cons e rest ih =>
      cases spelled with
      | one first => exact .one first
      | more first isComma others => exact .more first isComma (ih others)

theorem Separated.spelledAll {limit : ArgumentLimit} {arguments : List (Expr Unit)}
    {ts : List Token} (separated : Separated (Expr.Spelled limit .assignment) arguments ts) :
    Expr.SpelledAll limit arguments ts := by
  induction separated with
  | none => exact .none
  | one first => exact .one first
  | more first isComma others ih => exact .more first isComma ih

/-- What is spelled at a level is spelled at every looser one. -/
theorem Expr.Spelled.loosen {limit : ArgumentLimit} {level other : Level} {e : Expr Unit}
    {ts : List Token} (spelled : Expr.Spelled limit other e ts)
    (looser : level.rank ≤ other.rank) : Expr.Spelled limit level e ts := by
  obtain ⟨gap, isGap⟩ := Nat.exists_eq_add_of_le looser
  clear looser
  induction gap generalizing level with
  | zero => exact Level.rank_injective isGap ▸ spelled
  | succ gap ih =>
      have loose : level ≠ .primary := by
        rintro rfl
        have bound := other.rank_le
        have tightest : Level.primary.rank = 9 := rfl
        omega
      refine .relax loose (ih ?_)
      rw [Level.rank_tighter loose]
      omega

/-! ### Statements -/

/-- What follows `var` in a declaration. -/
inductive Stmt.VariableSpelled (limit : ArgumentLimit) : Stmt Unit → List Token → Prop where
  | bare {name semicolon : Token} (isName : name.kind = .identifier)
      (isSemicolon : semicolon.kind = .semicolon) :
      Stmt.VariableSpelled limit (.declare name.ident none) [name, semicolon]
  | initialized {name equals semicolon : Token} {value : Expr Unit} {ts : List Token}
      (isName : name.kind = .identifier) (isEquals : equals.kind = .equal)
      (spelled : Expr.Spelled limit .assignment value ts)
      (isSemicolon : semicolon.kind = .semicolon) :
      Stmt.VariableSpelled limit (.declare name.ident (some value))
        (name :: equals :: (ts ++ [semicolon]))

/-- The first clause of a `for` loop with its semicolon. -/
inductive Stmt.InitializerSpelled (limit : ArgumentLimit) :
    Option (Stmt Unit) → List Token → Prop where
  | none {semicolon : Token} (isSemicolon : semicolon.kind = .semicolon) :
      Stmt.InitializerSpelled limit none [semicolon]
  | declare {keyword : Token} {declaration : Stmt Unit} {ts : List Token}
      (isVar : keyword.kind = .keyword .var_)
      (spelled : Stmt.VariableSpelled limit declaration ts) :
      Stmt.InitializerSpelled limit (some declaration) (keyword :: ts)
  | expression {value : Expr Unit} {semicolon : Token} {ts : List Token}
      (spelled : Expr.Spelled limit .assignment value ts)
      (isSemicolon : semicolon.kind = .semicolon) :
      Stmt.InitializerSpelled limit (some (.expression value)) (ts ++ [semicolon])

/-- The superclass of a class, if one is named. -/
inductive SuperclassSpelled : Option (Ident × Unit) → List Token → Prop where
  | none : SuperclassSpelled none []
  | some {less name : Token} (isLess : less.kind = .less) (isName : name.kind = .identifier) :
      SuperclassSpelled (some (name.ident, ())) [less, name]

/-- A token that spells a name. -/
def Ident.Spelled (name : Ident) (ts : List Token) : Prop :=
  ∃ token : Token, token.kind = .identifier ∧ ts = [token] ∧ name = token.ident

mutual

/-- A statement and the tokens that spell it.  The flag says whether the statement is open, that
is, whether an `else` after it would become a part of it. -/
inductive Stmt.Spelled (limit : ArgumentLimit) : Bool → Stmt Unit → List Token → Prop where
  | expression {value : Expr Unit} {semicolon : Token} {ts : List Token}
      (spelled : Expr.Spelled limit .assignment value ts)
      (isSemicolon : semicolon.kind = .semicolon) :
      Stmt.Spelled limit false (.expression value) (ts ++ [semicolon])
  | print {keyword semicolon : Token} {value : Expr Unit} {ts : List Token}
      (isPrint : keyword.kind = .keyword .print_)
      (spelled : Expr.Spelled limit .assignment value ts)
      (isSemicolon : semicolon.kind = .semicolon) :
      Stmt.Spelled limit false (.print value) (keyword :: (ts ++ [semicolon]))
  | ret {keyword semicolon : Token} {value : Option (Expr Unit)} {ts : List Token}
      (isReturn : keyword.kind = .keyword .return_) (spelled : Expr.SpelledOpt limit value ts)
      (isSemicolon : semicolon.kind = .semicolon) :
      Stmt.Spelled limit false (.ret keyword.position value) (keyword :: (ts ++ [semicolon]))
  | loop {isOpen : Bool} {keyword opening closing : Token} {condition : Expr Unit}
      {body : Stmt Unit} {ts us : List Token} (isWhile : keyword.kind = .keyword .while_)
      (isOpening : opening.kind = .leftParen)
      (spelled : Expr.Spelled limit .assignment condition ts)
      (isClosing : closing.kind = .rightParen) (inner : Stmt.Spelled limit isOpen body us) :
      Stmt.Spelled limit isOpen (.loop condition body)
        (keyword :: opening :: (ts ++ closing :: us))
  | forLoop {isOpen : Bool} {keyword opening semicolon closing : Token}
      {initializer : Option (Stmt Unit)} {condition increment : Option (Expr Unit)}
      {body : Stmt Unit} {ts us vs ws : List Token} (isFor : keyword.kind = .keyword .for_)
      (isOpening : opening.kind = .leftParen)
      (first : Stmt.InitializerSpelled limit initializer ts)
      (second : Expr.SpelledOpt limit condition us)
      (isSemicolon : semicolon.kind = .semicolon)
      (third : Expr.SpelledOpt limit increment vs)
      (isClosing : closing.kind = .rightParen) (inner : Stmt.Spelled limit isOpen body ws) :
      Stmt.Spelled limit isOpen (Stmt.forLoop initializer condition increment body)
        (keyword :: opening :: (ts ++ (us ++ semicolon :: (vs ++ closing :: ws))))
  | ifThen {isOpen : Bool} {keyword opening closing : Token} {condition : Expr Unit}
      {thenBranch : Stmt Unit} {ts us : List Token} (isIf : keyword.kind = .keyword .if_)
      (isOpening : opening.kind = .leftParen)
      (spelled : Expr.Spelled limit .assignment condition ts)
      (isClosing : closing.kind = .rightParen)
      (first : Stmt.Spelled limit isOpen thenBranch us) :
      Stmt.Spelled limit true (.branch condition thenBranch none)
        (keyword :: opening :: (ts ++ closing :: us))
  | ifElse {isOpen : Bool} {keyword opening closing separator : Token} {condition : Expr Unit}
      {thenBranch elseBranch : Stmt Unit} {ts us vs : List Token}
      (isIf : keyword.kind = .keyword .if_) (isOpening : opening.kind = .leftParen)
      (spelled : Expr.Spelled limit .assignment condition ts)
      (isClosing : closing.kind = .rightParen)
      (first : Stmt.Spelled limit false thenBranch us)
      (isElse : separator.kind = .keyword .else_)
      (second : Stmt.Spelled limit isOpen elseBranch vs) :
      Stmt.Spelled limit isOpen (.branch condition thenBranch (some elseBranch))
        (keyword :: opening :: (ts ++ closing :: (us ++ separator :: vs)))
  | block {opening closing : Token} {body : List (Stmt Unit)} {ts : List Token}
      (isOpening : opening.kind = .leftBrace) (inner : Stmt.DeclaredAll limit body ts)
      (isClosing : closing.kind = .rightBrace) :
      Stmt.Spelled limit false (.block body) (opening :: (ts ++ [closing]))

/-- A declaration or statement and the tokens that spell it. -/
inductive Stmt.Declared (limit : ArgumentLimit) : Bool → Stmt Unit → List Token → Prop where
  | statement {isOpen : Bool} {s : Stmt Unit} {ts : List Token}
      (spelled : Stmt.Spelled limit isOpen s ts) : Stmt.Declared limit isOpen s ts
  | declare {keyword : Token} {declaration : Stmt Unit} {ts : List Token}
      (isVar : keyword.kind = .keyword .var_)
      (spelled : Stmt.VariableSpelled limit declaration ts) :
      Stmt.Declared limit false declaration (keyword :: ts)
  | function {keyword : Token} {declaration : Function Unit} {ts : List Token}
      (isFun : keyword.kind = .keyword .fun_)
      (spelled : Function.Spelled limit declaration ts) :
      Stmt.Declared limit false (.function declaration) (keyword :: ts)
  | classDecl {keyword name opening closing : Token} {superclass : Option (Ident × Unit)}
      {methods : List (Function Unit)} {ts us : List Token}
      (isClass : keyword.kind = .keyword .class_) (isName : name.kind = .identifier)
      (parent : SuperclassSpelled superclass ts) (isOpening : opening.kind = .leftBrace)
      (spelled : Function.SpelledAll limit methods us)
      (isClosing : closing.kind = .rightBrace) :
      Stmt.Declared limit false (.classDecl name.ident superclass methods)
        (keyword :: name :: (ts ++ opening :: (us ++ [closing])))

/-- Declarations one after the other. -/
inductive Stmt.DeclaredAll (limit : ArgumentLimit) : List (Stmt Unit) → List Token → Prop where
  | nil : Stmt.DeclaredAll limit [] []
  | cons {isOpen : Bool} {s : Stmt Unit} {rest : List (Stmt Unit)} {ts us : List Token}
      (first : Stmt.Declared limit isOpen s ts) (others : Stmt.DeclaredAll limit rest us) :
      Stmt.DeclaredAll limit (s :: rest) (ts ++ us)

/-- A function or method from its name on. -/
inductive Function.Spelled (limit : ArgumentLimit) : Function Unit → List Token → Prop where
  | mk {name opening closing left right : Token} {parameters : List Ident}
      {body : List (Stmt Unit)} {ts us : List Token} (isName : name.kind = .identifier)
      (isOpening : opening.kind = .leftParen)
      (spelled : Separated Ident.Spelled parameters ts)
      (allowed : limit.Allows parameters.length) (isClosing : closing.kind = .rightParen)
      (isLeft : left.kind = .leftBrace) (inner : Stmt.DeclaredAll limit body us)
      (isRight : right.kind = .rightBrace) :
      Function.Spelled limit (.mk name.ident parameters body)
        (name :: opening :: (ts ++ closing :: left :: (us ++ [right])))

/-- Methods one after the other. -/
inductive Function.SpelledAll (limit : ArgumentLimit) :
    List (Function Unit) → List Token → Prop where
  | nil : Function.SpelledAll limit [] []
  | cons {method : Function Unit} {rest : List (Function Unit)} {ts us : List Token}
      (first : Function.Spelled limit method ts)
      (others : Function.SpelledAll limit rest us) :
      Function.SpelledAll limit (method :: rest) (ts ++ us)

end

/-! ### First tokens -/

theorem Expr.Spelled.starts {limit : ArgumentLimit} :
    ∀ {level : Level} {e : Expr Unit} {ts : List Token}, Expr.Spelled limit level e ts →
      ∃ first rest, ts = first :: rest ∧ first.kind.startsExpression = true
  | _, _, _, .relax _ tight => tight.starts
  | _, _, _, .assign isName _ _ => ⟨_, _, rfl, by simp [isName, Kind.startsExpression]⟩
  | _, _, _, .set target _ _ _ _ => by
      obtain ⟨first, rest, rfl, starts⟩ := target.starts
      exact ⟨first, _, rfl, starts⟩
  | _, _, _, .logical _ _ left _ => by
      obtain ⟨first, rest, rfl, starts⟩ := left.starts
      exact ⟨first, _, rfl, starts⟩
  | _, _, _, .binary _ _ left _ => by
      obtain ⟨first, rest, rfl, starts⟩ := left.starts
      exact ⟨first, _, rfl, starts⟩
  | _, _, _, @Expr.Spelled.unary _ op _ _ _ isOperator _ =>
      ⟨_, _, rfl, by cases op <;> simp [isOperator, UnaryOp.kind, Kind.startsExpression]⟩
  | _, _, _, .call function _ _ _ _ => by
      obtain ⟨first, rest, rfl, starts⟩ := function.starts
      exact ⟨first, _, rfl, starts⟩
  | _, _, _, .get target _ _ => by
      obtain ⟨first, rest, rfl, starts⟩ := target.starts
      exact ⟨first, _, rfl, starts⟩
  | _, _, _, .literal isConstant => by
      refine ⟨_, [], rfl, ?_⟩
      unfold Token.constant? at isConstant
      split at isConstant <;> simp_all [Kind.startsExpression]
  | _, _, _, .read isName => ⟨_, [], rfl, by simp [isName, Kind.startsExpression]⟩
  | _, _, _, .receiver isThis => ⟨_, [], rfl, by simp [isThis, Kind.startsExpression]⟩
  | _, _, _, .superMethod isSuper _ _ => ⟨_, _, rfl, by simp [isSuper, Kind.startsExpression]⟩
  | _, _, _, .grouping isOpening _ _ => ⟨_, _, rfl, by simp [isOpening, Kind.startsExpression]⟩

/-- Whether a statement can start with a token. -/
def Kind.startsStatement : Kind → Bool
  | .keyword .for_ | .keyword .if_ | .keyword .print_ | .keyword .return_ | .keyword .while_
  | .leftBrace => true
  | other => other.startsExpression

/-- Whether a declaration can start with a token. -/
def Kind.startsDeclaration : Kind → Bool
  | .keyword .class_ | .keyword .fun_ | .keyword .var_ => true
  | other => other.startsStatement

theorem Kind.startsStatement_of_startsExpression {kind : Kind}
    (starts : kind.startsExpression = true) : kind.startsStatement = true := by
  unfold Kind.startsStatement
  split <;> simp_all

theorem Kind.startsDeclaration_of_startsStatement {kind : Kind}
    (starts : kind.startsStatement = true) : kind.startsDeclaration = true := by
  unfold Kind.startsDeclaration
  split <;> simp_all

theorem Stmt.Spelled.starts {limit : ArgumentLimit} {isOpen : Bool} {s : Stmt Unit}
    {ts : List Token} (spelled : Stmt.Spelled limit isOpen s ts) :
    ∃ first rest, ts = first :: rest ∧ first.kind.startsStatement = true := by
  cases spelled with
  | expression value _ =>
      obtain ⟨first, rest, rfl, starts⟩ := value.starts
      exact ⟨first, _, rfl, Kind.startsStatement_of_startsExpression starts⟩
  | print isPrint _ _ => exact ⟨_, _, rfl, by rw [isPrint]; rfl⟩
  | ret isReturn _ _ => exact ⟨_, _, rfl, by rw [isReturn]; rfl⟩
  | loop isWhile _ _ _ _ => exact ⟨_, _, rfl, by rw [isWhile]; rfl⟩
  | forLoop isFor _ _ _ _ _ _ _ => exact ⟨_, _, rfl, by rw [isFor]; rfl⟩
  | ifThen isIf _ _ _ _ => exact ⟨_, _, rfl, by rw [isIf]; rfl⟩
  | ifElse isIf _ _ _ _ _ _ => exact ⟨_, _, rfl, by rw [isIf]; rfl⟩
  | block isOpening _ _ => exact ⟨_, _, rfl, by rw [isOpening]; rfl⟩

theorem Stmt.Declared.starts {limit : ArgumentLimit} {isOpen : Bool} {s : Stmt Unit}
    {ts : List Token} (declared : Stmt.Declared limit isOpen s ts) :
    ∃ first rest, ts = first :: rest ∧ first.kind.startsDeclaration = true := by
  cases declared with
  | statement spelled =>
      obtain ⟨first, rest, rfl, starts⟩ := spelled.starts
      exact ⟨first, rest, rfl, Kind.startsDeclaration_of_startsStatement starts⟩
  | declare isVar _ => exact ⟨_, _, rfl, by rw [isVar]; rfl⟩
  | function isFun _ => exact ⟨_, _, rfl, by rw [isFun]; rfl⟩
  | classDecl isClass _ _ _ _ _ => exact ⟨_, _, rfl, by rw [isClass]; rfl⟩

end LoxLang
