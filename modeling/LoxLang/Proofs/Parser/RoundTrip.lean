/-
Module: LoxLang.Proofs.Parser.RoundTrip
Purpose: Parsing undoes writing.  A tree is written as pieces, which are tokens less their
  positions.  Trees in normal form have each operand at the level where its operator allows it,
  looser operands in parentheses, and no `else` that would go to another `if`.
Main exports: Token.piece, Expr.pieces, Stmt.pieces, Expr.normal, Stmt.normal, Stmt.unplaced,
  Program.parse_pieces
-/
import LoxLang.Proofs.Parser.Program

namespace LoxLang

variable {limit : ArgumentLimit} {ts : List Token}

/-! ### Pieces -/

/-- What a token contributes to a tree besides its position: its kind, the text of a name, and the
value of a number or string. -/
structure Piece where
  kind : Kind
  text : String
  value : Option Literal
deriving Repr, Inhabited

/-- A piece that is told by its kind alone. -/
def Piece.mark (kind : Kind) : Piece :=
  { kind := kind, text := "", value := none }

/-- A piece that is a name. -/
def Piece.name (text : String) : Piece :=
  { kind := .identifier, text := text, value := none }

/-- The piece of a constant. -/
def Literal.piece : Literal → Piece
  | .nil => .mark (.keyword .nil_)
  | .bool true => .mark (.keyword .true_)
  | .bool false => .mark (.keyword .false_)
  | .number value => { kind := .number, text := "", value := some (.number value) }
  | .string value => { kind := .string, text := "", value := some (.string value) }

/-- The piece of a token. -/
def Token.piece (token : Token) : Piece :=
  match token.kind with
  | .identifier => .name token.lexeme
  | .number | .string => { kind := token.kind, text := "", value := token.literal }
  | other => .mark other

theorem Token.piece_kind (token : Token) : token.piece.kind = token.kind := by
  unfold Token.piece
  split <;> simp_all [Piece.name, Piece.mark]

theorem Token.kind_of_piece {token : Token} {kind : Kind} (same : token.piece = .mark kind) :
    token.kind = kind := by
  rw [← token.piece_kind, same, Piece.mark]

theorem Token.of_piece_name {token : Token} {text : String} (same : token.piece = .name text) :
    token.kind = .identifier ∧ token.lexeme = text := by
  have isName : token.kind = .identifier := by rw [← token.piece_kind, same, Piece.name]
  refine ⟨isName, ?_⟩
  simp only [Token.piece, isName, Piece.name, Piece.mk.injEq] at same
  exact same.2.1

theorem Token.constant?_of_piece {token : Token} {value : Literal}
    (same : token.piece = value.piece) : token.constant? = some value := by
  have isKind : token.kind = value.piece.kind := by rw [← token.piece_kind, same]
  cases value with
  | nil => simp only [Token.constant?, isKind, Literal.piece, Piece.mark]
  | bool value => cases value <;> simp only [Token.constant?, isKind, Literal.piece, Piece.mark]
  | number value =>
      simp only [Literal.piece] at isKind
      simp only [Token.piece, isKind, Literal.piece, Piece.mk.injEq] at same
      simp only [Token.constant?, isKind, same, Option.getD_some]
  | string value =>
      simp only [Literal.piece] at isKind
      simp only [Token.piece, isKind, Literal.piece, Piece.mk.injEq] at same
      simp only [Token.constant?, isKind, same, Option.getD_some]

theorem written_mark {kind : Kind} {rest : List Piece}
    (same : ts.map Token.piece = .mark kind :: rest) :
    ∃ token us, ts = token :: us ∧ token.kind = kind ∧ us.map Token.piece = rest := by
  obtain ⟨token, us, rfl, isMark, others⟩ := List.map_eq_cons_iff.1 same
  exact ⟨token, us, rfl, Token.kind_of_piece isMark, others⟩

theorem written_name {text : String} {rest : List Piece}
    (same : ts.map Token.piece = .name text :: rest) :
    ∃ token us, ts = token :: us ∧ token.kind = .identifier ∧ token.lexeme = text ∧
      us.map Token.piece = rest := by
  obtain ⟨token, us, rfl, isName, others⟩ := List.map_eq_cons_iff.1 same
  exact ⟨token, us, rfl, (Token.of_piece_name isName).1, (Token.of_piece_name isName).2, others⟩

/-! ### Expressions -/

/-- A name less its position. -/
def Ident.unplaced (name : Ident) : Ident :=
  { name with position := .start }

namespace Expr

mutual

/-- An expression as it is written. -/
def pieces : Expr Unit → List Piece
  | literal value => [value.piece]
  | read name _ => [.name name.text]
  | assign name _ value => .name name.text :: .mark .equal :: value.pieces
  | unary op _ operand => .mark op.kind :: operand.pieces
  | binary left op _ right => left.pieces ++ .mark op.kind :: right.pieces
  | logical left op right => left.pieces ++ .mark op.kind :: right.pieces
  | grouping inner => .mark .leftParen :: (inner.pieces ++ [.mark .rightParen])
  | call callee arguments _ =>
      callee.pieces ++ .mark .leftParen :: (piecesAll arguments ++ [.mark .rightParen])
  | get object name => object.pieces ++ [.mark .dot, .name name.text]
  | set object name value =>
      object.pieces ++ .mark .dot :: .name name.text :: .mark .equal :: value.pieces
  | receiver _ _ => [.mark (.keyword .this_)]
  | superMethod _ _ method => [.mark (.keyword .super_), .mark .dot, .name method.text]

/-- Arguments as they are written, with commas between them. -/
def piecesAll : List (Expr Unit) → List Piece
  | [] => []
  | [argument] => argument.pieces
  | argument :: following :: rest =>
      argument.pieces ++ .mark .comma :: piecesAll (following :: rest)

end

mutual

/-- Whether an expression can stand as it is where an expression of the given level is expected. -/
def normal (limit : ArgumentLimit) (level : Level) : Expr Unit → Bool
  | literal _ | read _ _ | receiver _ _ | superMethod _ _ _ => true
  | assign _ _ value => level = .assignment && value.normal limit .assignment
  | unary _ _ operand => level.rank ≤ Level.unary.rank && operand.normal limit .unary
  | binary left op _ right =>
      level.rank ≤ op.level.rank && left.normal limit op.level &&
        right.normal limit op.level.tighter
  | logical left op right =>
      level.rank ≤ op.level.rank && left.normal limit op.level &&
        right.normal limit op.level.tighter
  | grouping inner => inner.normal limit .assignment
  | call callee arguments _ =>
      level.rank ≤ Level.call.rank && callee.normal limit .call &&
        normalAll limit arguments && decide (limit.Allows arguments.length)
  | get object _ => level.rank ≤ Level.call.rank && object.normal limit .call
  | set object _ value =>
      level = .assignment && object.normal limit .call && value.normal limit .assignment

/-- Whether all of some arguments can stand as they are. -/
def normalAll (limit : ArgumentLimit) : List (Expr Unit) → Bool
  | [] => true
  | argument :: rest => argument.normal limit .assignment && normalAll limit rest

end

mutual

/-- An expression less its positions. -/
def unplaced : Expr Unit → Expr Unit
  | literal value => literal value
  | read name _ => read name.unplaced ()
  | assign name _ value => assign name.unplaced () value.unplaced
  | unary op _ operand => unary op .start operand.unplaced
  | binary left op _ right => binary left.unplaced op .start right.unplaced
  | logical left op right => logical left.unplaced op right.unplaced
  | grouping inner => grouping inner.unplaced
  | call callee arguments _ => call callee.unplaced (unplacedAll arguments) .start
  | get object name => get object.unplaced name.unplaced
  | set object name value => set object.unplaced name.unplaced value.unplaced
  | receiver _ _ => receiver .start ()
  | superMethod _ _ method => superMethod .start () method.unplaced

/-- Arguments less their positions. -/
def unplacedAll : List (Expr Unit) → List (Expr Unit)
  | [] => []
  | argument :: rest => argument.unplaced :: unplacedAll rest

end

theorem length_unplacedAll (arguments : List (Expr Unit)) :
    (unplacedAll arguments).length = arguments.length := by
  induction arguments with
  | nil => rfl
  | cons argument rest ih => simp [unplacedAll, ih]

/-- Two names of the same text differ only in their positions. -/
theorem ident_unplaced {token : Token} {name : Ident} (same : token.lexeme = name.text) :
    token.ident.unplaced = name.unplaced := by
  simp [Token.ident, Ident.unplaced, same]

mutual

theorem spelled_of_pieces (limit : ArgumentLimit) :
    ∀ (e : Expr Unit) {level : Level} {ts : List Token}, e.normal limit level = true →
      ts.map Token.piece = e.pieces →
        ∃ e', Expr.Spelled limit level e' ts ∧ e'.unplaced = e.unplaced
  | literal value, level, ts, _, written => by
      obtain ⟨token, _, rfl, same, none⟩ := List.map_eq_cons_iff.1 written
      obtain rfl := List.map_eq_nil_iff.1 none
      refine ⟨literal value, ?_, rfl⟩
      exact (Expr.Spelled.literal (Token.constant?_of_piece same)).loosen level.rank_le
  | read name _, level, ts, _, written => by
      obtain ⟨token, _, rfl, isName, isText, none⟩ := written_name written
      obtain rfl := List.map_eq_nil_iff.1 none
      refine ⟨_, (Expr.Spelled.read isName).loosen level.rank_le, ?_⟩
      rw [unplaced, unplaced, ident_unplaced isText]
  | receiver _ _, level, ts, _, written => by
      obtain ⟨token, _, rfl, isThis, none⟩ := written_mark written
      obtain rfl := List.map_eq_nil_iff.1 none
      exact ⟨_, (Expr.Spelled.receiver isThis).loosen level.rank_le, rfl⟩
  | superMethod _ _ method, level, ts, _, written => by
      obtain ⟨keyword, _, rfl, isSuper, written⟩ := written_mark written
      obtain ⟨dot, _, rfl, isDot, written⟩ := written_mark written
      obtain ⟨name, _, rfl, isName, isText, none⟩ := written_name written
      obtain rfl := List.map_eq_nil_iff.1 none
      refine ⟨_, (Expr.Spelled.superMethod isSuper isDot isName).loosen level.rank_le, ?_⟩
      rw [unplaced, unplaced, ident_unplaced isText]
  | assign name _ value, level, ts, isNormal, written => by
      simp only [normal, Bool.and_eq_true, decide_eq_true_eq] at isNormal
      rcases isNormal with ⟨rfl, isNormal⟩
      obtain ⟨token, _, rfl, isName, isText, written⟩ := written_name written
      obtain ⟨equals, us, rfl, isEquals, written⟩ := written_mark written
      obtain ⟨value', spelled, same⟩ := spelled_of_pieces limit value isNormal written
      refine ⟨_, .assign isName isEquals spelled, ?_⟩
      rw [unplaced, unplaced, ident_unplaced isText, same]
  | unary op _ operand, level, ts, isNormal, written => by
      simp only [normal, Bool.and_eq_true, decide_eq_true_eq] at isNormal
      obtain ⟨token, us, rfl, isOperator, written⟩ := written_mark written
      obtain ⟨operand', spelled, same⟩ := spelled_of_pieces limit operand isNormal.2 written
      refine ⟨_, (Expr.Spelled.unary isOperator spelled).loosen isNormal.1, ?_⟩
      rw [unplaced, unplaced, same]
  | binary left op _ right, level, ts, isNormal, written => by
      simp only [normal, Bool.and_eq_true, decide_eq_true_eq] at isNormal
      obtain ⟨us, _, rfl, writtenLeft, written⟩ := List.map_eq_append_iff.1 written
      obtain ⟨token, vs, rfl, isOperator, writtenRight⟩ := written_mark written
      obtain ⟨left', first, sameLeft⟩ := spelled_of_pieces limit left isNormal.1.2 writtenLeft
      obtain ⟨right', second, sameRight⟩ := spelled_of_pieces limit right isNormal.2 writtenRight
      refine ⟨_, (Expr.Spelled.binary rfl isOperator first second).loosen isNormal.1.1, ?_⟩
      rw [unplaced, unplaced, sameLeft, sameRight]
  | logical left op right, level, ts, isNormal, written => by
      simp only [normal, Bool.and_eq_true, decide_eq_true_eq] at isNormal
      obtain ⟨us, _, rfl, writtenLeft, written⟩ := List.map_eq_append_iff.1 written
      obtain ⟨token, vs, rfl, isOperator, writtenRight⟩ := written_mark written
      obtain ⟨left', first, sameLeft⟩ := spelled_of_pieces limit left isNormal.1.2 writtenLeft
      obtain ⟨right', second, sameRight⟩ := spelled_of_pieces limit right isNormal.2 writtenRight
      refine ⟨_, (Expr.Spelled.logical rfl isOperator first second).loosen isNormal.1.1, ?_⟩
      rw [unplaced, unplaced, sameLeft, sameRight]
  | grouping inner, level, ts, isNormal, written => by
      obtain ⟨opening, _, rfl, isOpening, written⟩ := written_mark written
      obtain ⟨us, _, rfl, writtenInner, written⟩ := List.map_eq_append_iff.1 written
      obtain ⟨closing, _, rfl, isClosing, none⟩ := written_mark written
      obtain rfl := List.map_eq_nil_iff.1 none
      obtain ⟨inner', spelled, same⟩ := spelled_of_pieces limit inner isNormal writtenInner
      refine ⟨_, (Expr.Spelled.grouping isOpening spelled isClosing).loosen level.rank_le, ?_⟩
      rw [unplaced, unplaced, same]
  | call callee arguments _, level, ts, isNormal, written => by
      simp only [normal, Bool.and_eq_true, decide_eq_true_eq] at isNormal
      obtain ⟨us, _, rfl, writtenCallee, written⟩ := List.map_eq_append_iff.1 written
      obtain ⟨opening, _, rfl, isOpening, written⟩ := written_mark written
      obtain ⟨vs, _, rfl, writtenArguments, written⟩ := List.map_eq_append_iff.1 written
      obtain ⟨closing, _, rfl, isClosing, none⟩ := written_mark written
      obtain rfl := List.map_eq_nil_iff.1 none
      obtain ⟨callee', function, sameCallee⟩ :=
        spelled_of_pieces limit callee isNormal.1.1.2 writtenCallee
      obtain ⟨arguments', spelled, same⟩ :=
        spelledAll_of_pieces limit arguments isNormal.1.2 writtenArguments
      have allowed : limit.Allows arguments'.length := by
        rw [← length_unplacedAll, same, length_unplacedAll]
        exact isNormal.2
      refine ⟨_, (Expr.Spelled.call function isOpening spelled allowed isClosing).loosen
        isNormal.1.1.1, ?_⟩
      rw [unplaced, unplaced, sameCallee, same]
  | get object name, level, ts, isNormal, written => by
      simp only [normal, Bool.and_eq_true, decide_eq_true_eq] at isNormal
      obtain ⟨us, _, rfl, writtenObject, written⟩ := List.map_eq_append_iff.1 written
      obtain ⟨dot, _, rfl, isDot, written⟩ := written_mark written
      obtain ⟨token, _, rfl, isName, isText, none⟩ := written_name written
      obtain rfl := List.map_eq_nil_iff.1 none
      obtain ⟨object', target, same⟩ := spelled_of_pieces limit object isNormal.2 writtenObject
      refine ⟨_, (Expr.Spelled.get target isDot isName).loosen isNormal.1, ?_⟩
      rw [unplaced, unplaced, same, ident_unplaced isText]
  | set object name value, level, ts, isNormal, written => by
      simp only [normal, Bool.and_eq_true, decide_eq_true_eq] at isNormal
      rcases isNormal with ⟨⟨rfl, isNormalObject⟩, isNormalValue⟩
      obtain ⟨us, _, rfl, writtenObject, written⟩ := List.map_eq_append_iff.1 written
      obtain ⟨dot, _, rfl, isDot, written⟩ := written_mark written
      obtain ⟨token, _, rfl, isName, isText, written⟩ := written_name written
      obtain ⟨equals, vs, rfl, isEquals, written⟩ := written_mark written
      obtain ⟨object', target, sameObject⟩ :=
        spelled_of_pieces limit object isNormalObject writtenObject
      obtain ⟨value', spelled, sameValue⟩ := spelled_of_pieces limit value isNormalValue written
      refine ⟨_, .set target isDot isName isEquals spelled, ?_⟩
      rw [unplaced, unplaced, sameObject, sameValue, ident_unplaced isText]

theorem spelledAll_of_pieces (limit : ArgumentLimit) :
    ∀ (arguments : List (Expr Unit)) {ts : List Token}, normalAll limit arguments = true →
      ts.map Token.piece = piecesAll arguments →
        ∃ arguments', Expr.SpelledAll limit arguments' ts ∧
          unplacedAll arguments' = unplacedAll arguments
  | [], ts, _, written => by
      obtain rfl := List.map_eq_nil_iff.1 written
      exact ⟨[], .none, rfl⟩
  | [argument], ts, isNormal, written => by
      simp only [normalAll, Bool.and_true] at isNormal
      obtain ⟨argument', spelled, same⟩ := spelled_of_pieces limit argument isNormal written
      exact ⟨[argument'], .one spelled, by simp [unplacedAll, same]⟩
  | argument :: following :: rest, ts, isNormal, written => by
      rw [normalAll, Bool.and_eq_true] at isNormal
      obtain ⟨us, _, rfl, writtenFirst, written⟩ := List.map_eq_append_iff.1 written
      obtain ⟨comma, vs, rfl, isComma, written⟩ := written_mark written
      obtain ⟨argument', spelled, same⟩ := spelled_of_pieces limit argument isNormal.1 writtenFirst
      obtain ⟨others', others, sameOthers⟩ :=
        spelledAll_of_pieces limit (following :: rest) isNormal.2 written
      cases others' with
      | nil => simp [unplacedAll] at sameOthers
      | cons following' rest' =>
          refine ⟨argument' :: following' :: rest', .more spelled isComma others, ?_⟩
          rw [unplacedAll, same, sameOthers]
          rfl

end

end Expr

/-! ### Statements -/

namespace Stmt

/-- An expression that may be missing as it is written. -/
def piecesOpt : Option (Expr Unit) → List Piece
  | none => []
  | some value => value.pieces

/-- Parameters as they are written, with commas between them. -/
def piecesParameters : List Ident → List Piece
  | [] => []
  | [parameter] => [.name parameter.text]
  | parameter :: following :: rest =>
      .name parameter.text :: .mark .comma :: piecesParameters (following :: rest)

/-- The superclass of a class as it is written. -/
def piecesSuperclass : Option (Ident × Unit) → List Piece
  | none => []
  | some (name, _) => [.mark .less, .name name.text]

mutual

/-- A statement or declaration as it is written. -/
def pieces : Stmt Unit → List Piece
  | expression value => value.pieces ++ [.mark .semicolon]
  | print value => .mark (.keyword .print_) :: (value.pieces ++ [.mark .semicolon])
  | declare name none => [.mark (.keyword .var_), .name name.text, .mark .semicolon]
  | declare name (some value) =>
      .mark (.keyword .var_) :: .name name.text :: .mark .equal ::
        (value.pieces ++ [.mark .semicolon])
  | block body => .mark .leftBrace :: (piecesAll body ++ [.mark .rightBrace])
  | branch condition thenBranch none =>
      .mark (.keyword .if_) :: .mark .leftParen ::
        (condition.pieces ++ .mark .rightParen :: thenBranch.pieces)
  | branch condition thenBranch (some elseBranch) =>
      .mark (.keyword .if_) :: .mark .leftParen ::
        (condition.pieces ++ .mark .rightParen ::
          (thenBranch.pieces ++ .mark (.keyword .else_) :: elseBranch.pieces))
  | loop condition body =>
      .mark (.keyword .while_) :: .mark .leftParen ::
        (condition.pieces ++ .mark .rightParen :: body.pieces)
  | ret _ value => .mark (.keyword .return_) :: (piecesOpt value ++ [.mark .semicolon])
  | function declaration => .mark (.keyword .fun_) :: piecesFunction declaration
  | classDecl name superclass methods =>
      .mark (.keyword .class_) :: .name name.text ::
        (piecesSuperclass superclass ++ .mark .leftBrace ::
          (piecesMethods methods ++ [.mark .rightBrace]))

/-- Declarations as they are written. -/
def piecesAll : List (Stmt Unit) → List Piece
  | [] => []
  | s :: rest => s.pieces ++ piecesAll rest

/-- A function or method as it is written, from its name on. -/
def piecesFunction : Function Unit → List Piece
  | .mk name parameters body =>
      .name name.text :: .mark .leftParen ::
        (piecesParameters parameters ++ .mark .rightParen :: .mark .leftBrace ::
          (piecesAll body ++ [.mark .rightBrace]))

/-- Methods as they are written. -/
def piecesMethods : List (Function Unit) → List Piece
  | [] => []
  | method :: rest => piecesFunction method ++ piecesMethods rest

end

/-- Whether a statement ends in an `if` without `else`, which would take an `else` put after it. -/
def endsOpen : Stmt Unit → Bool
  | branch _ _ none => true
  | branch _ _ (some elseBranch) => elseBranch.endsOpen
  | loop _ body => body.endsOpen
  | _ => false

/-- Whether an expression that may be missing can stand as it is. -/
def normalOpt (limit : ArgumentLimit) : Option (Expr Unit) → Bool
  | none => true
  | some value => value.normal limit .assignment

mutual

/-- Whether a statement can stand as it is.  Declarations can stand only where they are
`expected`, which is not so in a branch or a loop. -/
def normal (limit : ArgumentLimit) (expected : Bool) : Stmt Unit → Bool
  | expression value => value.normal limit .assignment
  | print value => value.normal limit .assignment
  | declare _ initializer => expected && normalOpt limit initializer
  | block body => normalAll limit body
  | branch condition thenBranch none =>
      condition.normal limit .assignment && thenBranch.normal limit false
  | branch condition thenBranch (some elseBranch) =>
      condition.normal limit .assignment && thenBranch.normal limit false &&
        !thenBranch.endsOpen && elseBranch.normal limit false
  | loop condition body => condition.normal limit .assignment && body.normal limit false
  | ret _ value => normalOpt limit value
  | function declaration => expected && normalFunction limit declaration
  | classDecl _ _ methods => expected && normalMethods limit methods

/-- Whether all of some declarations can stand as they are. -/
def normalAll (limit : ArgumentLimit) : List (Stmt Unit) → Bool
  | [] => true
  | s :: rest => s.normal limit true && normalAll limit rest

/-- Whether a function can stand as it is. -/
def normalFunction (limit : ArgumentLimit) : Function Unit → Bool
  | .mk _ parameters body => decide (limit.Allows parameters.length) && normalAll limit body

/-- Whether all of some methods can stand as they are. -/
def normalMethods (limit : ArgumentLimit) : List (Function Unit) → Bool
  | [] => true
  | method :: rest => normalFunction limit method && normalMethods limit rest

end

mutual

/-- A statement less its positions. -/
def unplaced : Stmt Unit → Stmt Unit
  | expression value => expression value.unplaced
  | print value => print value.unplaced
  | declare name initializer => declare name.unplaced (initializer.map Expr.unplaced)
  | block body => block (unplacedAll body)
  | branch condition thenBranch none => branch condition.unplaced thenBranch.unplaced none
  | branch condition thenBranch (some elseBranch) =>
      branch condition.unplaced thenBranch.unplaced (some elseBranch.unplaced)
  | loop condition body => loop condition.unplaced body.unplaced
  | ret _ value => ret .start (value.map Expr.unplaced)
  | function declaration => function (unplacedFunction declaration)
  | classDecl name superclass methods =>
      classDecl name.unplaced (superclass.map fun parent => (parent.1.unplaced, ()))
        (unplacedMethods methods)

/-- Declarations less their positions. -/
def unplacedAll : List (Stmt Unit) → List (Stmt Unit)
  | [] => []
  | s :: rest => s.unplaced :: unplacedAll rest

/-- A function less its positions. -/
def unplacedFunction : Function Unit → Function Unit
  | .mk name parameters body =>
      .mk name.unplaced (parameters.map Ident.unplaced) (unplacedAll body)

/-- Methods less their positions. -/
def unplacedMethods : List (Function Unit) → List (Function Unit)
  | [] => []
  | method :: rest => unplacedFunction method :: unplacedMethods rest

end

theorem spelledOpt_of_pieces (limit : ArgumentLimit) {value : Option (Expr Unit)}
    (isNormal : normalOpt limit value = true) (written : ts.map Token.piece = piecesOpt value) :
    ∃ value', Expr.SpelledOpt limit value' ts ∧
      value'.map Expr.unplaced = value.map Expr.unplaced := by
  cases value with
  | none =>
      obtain rfl := List.map_eq_nil_iff.1 written
      exact ⟨none, .none, rfl⟩
  | some value =>
      obtain ⟨value', spelled, same⟩ := Expr.spelled_of_pieces limit value isNormal written
      exact ⟨some value', .some spelled, by simp [same]⟩

theorem separated_of_pieces {parameters : List Ident} {ts : List Token}
    (written : ts.map Token.piece = piecesParameters parameters) :
    ∃ parameters', Separated Ident.Spelled parameters' ts ∧
      parameters'.map Ident.unplaced = parameters.map Ident.unplaced := by
  induction parameters using piecesParameters.induct generalizing ts with
  | case1 =>
      obtain rfl := List.map_eq_nil_iff.1 written
      exact ⟨[], .none, rfl⟩
  | case2 parameter =>
      obtain ⟨token, _, rfl, isName, isText, none⟩ := written_name written
      obtain rfl := List.map_eq_nil_iff.1 none
      exact ⟨[token.ident], .one ⟨token, isName, rfl, rfl⟩, by simp [Expr.ident_unplaced isText]⟩
  | case3 parameter following rest ih =>
      obtain ⟨token, _, rfl, isName, isText, afterName⟩ := written_name written
      obtain ⟨comma, us, rfl, isComma, others⟩ := written_mark afterName
      obtain ⟨others', separated, same⟩ := ih others
      cases others' with
      | nil => simp at same
      | cons following' rest' =>
          refine ⟨token.ident :: following' :: rest',
            .more ⟨token, isName, rfl, rfl⟩ isComma separated, ?_⟩
          rw [List.map_cons, same, Expr.ident_unplaced isText]
          rfl

theorem superclassSpelled_of_pieces {superclass : Option (Ident × Unit)} {ts : List Token}
    (written : ts.map Token.piece = piecesSuperclass superclass) :
    ∃ superclass', SuperclassSpelled superclass' ts ∧
      superclass'.map (fun parent => (parent.1.unplaced, ())) =
        superclass.map fun parent => (parent.1.unplaced, ()) := by
  cases superclass with
  | none =>
      obtain rfl := List.map_eq_nil_iff.1 written
      exact ⟨none, .none, rfl⟩
  | some parent =>
      obtain ⟨less, _, rfl, isLess, afterLess⟩ := written_mark written
      obtain ⟨token, _, rfl, isName, isText, none⟩ := written_name afterLess
      obtain rfl := List.map_eq_nil_iff.1 none
      exact ⟨_, .some isLess isName, by simp [Expr.ident_unplaced isText]⟩

/-- What a statement in normal form is read as: a statement, or a declaration where one is
expected. -/
def ReadAs (limit : ArgumentLimit) (expected : Bool) (s : Stmt Unit) (ts : List Token) : Prop :=
  ∃ s', (Stmt.Spelled limit s.endsOpen s' ts ∨
    (expected = true ∧ Stmt.Declared limit s.endsOpen s' ts)) ∧ s'.unplaced = s.unplaced

theorem ReadAs.spelled {s : Stmt Unit} (readAs : s.ReadAs limit false ts) :
    ∃ s', Stmt.Spelled limit s.endsOpen s' ts ∧ s'.unplaced = s.unplaced := by
  rcases readAs with ⟨s', spelled | ⟨impossible, -⟩, same⟩
  · exact ⟨s', spelled, same⟩
  · cases impossible

theorem ReadAs.declared {expected : Bool} {s : Stmt Unit} (readAs : s.ReadAs limit expected ts) :
    ∃ s', Stmt.Declared limit s.endsOpen s' ts ∧ s'.unplaced = s.unplaced := by
  rcases readAs with ⟨s', spelled | ⟨-, declared⟩, same⟩
  · exact ⟨s', .statement spelled, same⟩
  · exact ⟨s', declared, same⟩

mutual

theorem readAs_of_pieces (limit : ArgumentLimit) :
    ∀ (s : Stmt Unit) {expected : Bool} {ts : List Token}, s.normal limit expected = true →
      ts.map Token.piece = s.pieces → s.ReadAs limit expected ts
  | expression value, _, ts, isNormal, written => by
      obtain ⟨us, _, rfl, writtenValue, written⟩ := List.map_eq_append_iff.1 written
      obtain ⟨semicolon, _, rfl, isSemicolon, none⟩ := written_mark written
      obtain rfl := List.map_eq_nil_iff.1 none
      obtain ⟨value', spelled, same⟩ := Expr.spelled_of_pieces limit value isNormal writtenValue
      exact ⟨_, Or.inl (.expression spelled isSemicolon), by rw [unplaced, unplaced, same]⟩
  | print value, _, ts, isNormal, written => by
      obtain ⟨keyword, _, rfl, isPrint, written⟩ := written_mark written
      obtain ⟨us, _, rfl, writtenValue, written⟩ := List.map_eq_append_iff.1 written
      obtain ⟨semicolon, _, rfl, isSemicolon, none⟩ := written_mark written
      obtain rfl := List.map_eq_nil_iff.1 none
      obtain ⟨value', spelled, same⟩ := Expr.spelled_of_pieces limit value isNormal writtenValue
      exact ⟨_, Or.inl (.print isPrint spelled isSemicolon), by rw [unplaced, unplaced, same]⟩
  | declare name none, _, ts, isNormal, written => by
      rw [normal, Bool.and_eq_true] at isNormal
      obtain ⟨keyword, _, rfl, isVar, written⟩ := written_mark written
      obtain ⟨token, _, rfl, isName, isText, written⟩ := written_name written
      obtain ⟨semicolon, _, rfl, isSemicolon, none⟩ := written_mark written
      obtain rfl := List.map_eq_nil_iff.1 none
      refine ⟨_, Or.inr ⟨isNormal.1, .declare isVar (.bare isName isSemicolon)⟩, ?_⟩
      rw [unplaced, unplaced, Expr.ident_unplaced isText]
  | declare name (some value), _, ts, isNormal, written => by
      rw [normal, Bool.and_eq_true] at isNormal
      obtain ⟨keyword, _, rfl, isVar, written⟩ := written_mark written
      obtain ⟨token, _, rfl, isName, isText, written⟩ := written_name written
      obtain ⟨equals, _, rfl, isEquals, written⟩ := written_mark written
      obtain ⟨us, _, rfl, writtenValue, written⟩ := List.map_eq_append_iff.1 written
      obtain ⟨semicolon, _, rfl, isSemicolon, none⟩ := written_mark written
      obtain rfl := List.map_eq_nil_iff.1 none
      obtain ⟨value', spelled, same⟩ := Expr.spelled_of_pieces limit value isNormal.2 writtenValue
      refine ⟨_, Or.inr ⟨isNormal.1,
        .declare isVar (.initialized isName isEquals spelled isSemicolon)⟩, ?_⟩
      rw [unplaced, unplaced, Expr.ident_unplaced isText, Option.map_some, Option.map_some, same]
  | block body, _, ts, isNormal, written => by
      obtain ⟨opening, _, rfl, isOpening, written⟩ := written_mark written
      obtain ⟨us, _, rfl, writtenBody, written⟩ := List.map_eq_append_iff.1 written
      obtain ⟨closing, _, rfl, isClosing, none⟩ := written_mark written
      obtain rfl := List.map_eq_nil_iff.1 none
      obtain ⟨body', inner, same⟩ := declaredAll_of_pieces limit body isNormal writtenBody
      exact ⟨_, Or.inl (.block isOpening inner isClosing), by rw [unplaced, unplaced, same]⟩
  | branch condition thenBranch none, _, ts, isNormal, written => by
      rw [normal, Bool.and_eq_true] at isNormal
      obtain ⟨keyword, _, rfl, isIf, written⟩ := written_mark written
      obtain ⟨opening, _, rfl, isOpening, written⟩ := written_mark written
      obtain ⟨us, _, rfl, writtenCondition, written⟩ := List.map_eq_append_iff.1 written
      obtain ⟨closing, vs, rfl, isClosing, written⟩ := written_mark written
      obtain ⟨condition', spelled, same⟩ :=
        Expr.spelled_of_pieces limit condition isNormal.1 writtenCondition
      obtain ⟨branch', first, sameThen⟩ :=
        (readAs_of_pieces limit thenBranch isNormal.2 written).spelled
      exact ⟨_, Or.inl (.ifThen isIf isOpening spelled isClosing first),
        by rw [unplaced, unplaced, same, sameThen]⟩
  | branch condition thenBranch (some elseBranch), _, ts, isNormal, written => by
      simp only [normal, Bool.and_eq_true, Bool.not_eq_true'] at isNormal
      rcases isNormal with ⟨⟨⟨isNormalCondition, isNormalThen⟩, isClosed⟩, isNormalElse⟩
      obtain ⟨keyword, _, rfl, isIf, written⟩ := written_mark written
      obtain ⟨opening, _, rfl, isOpening, written⟩ := written_mark written
      obtain ⟨us, _, rfl, writtenCondition, written⟩ := List.map_eq_append_iff.1 written
      obtain ⟨closing, _, rfl, isClosing, written⟩ := written_mark written
      obtain ⟨vs, _, rfl, writtenThen, written⟩ := List.map_eq_append_iff.1 written
      obtain ⟨separator, ws, rfl, isElse, written⟩ := written_mark written
      obtain ⟨condition', spelled, same⟩ :=
        Expr.spelled_of_pieces limit condition isNormalCondition writtenCondition
      obtain ⟨then', first, sameThen⟩ :=
        (readAs_of_pieces limit thenBranch isNormalThen writtenThen).spelled
      obtain ⟨else', second, sameElse⟩ :=
        (readAs_of_pieces limit elseBranch isNormalElse written).spelled
      rw [isClosed] at first
      exact ⟨_, Or.inl (.ifElse isIf isOpening spelled isClosing first isElse second),
        by rw [unplaced, unplaced, same, sameThen, sameElse]⟩
  | loop condition body, _, ts, isNormal, written => by
      rw [normal, Bool.and_eq_true] at isNormal
      obtain ⟨keyword, _, rfl, isWhile, written⟩ := written_mark written
      obtain ⟨opening, _, rfl, isOpening, written⟩ := written_mark written
      obtain ⟨us, _, rfl, writtenCondition, written⟩ := List.map_eq_append_iff.1 written
      obtain ⟨closing, vs, rfl, isClosing, written⟩ := written_mark written
      obtain ⟨condition', spelled, same⟩ :=
        Expr.spelled_of_pieces limit condition isNormal.1 writtenCondition
      obtain ⟨body', inner, sameBody⟩ := (readAs_of_pieces limit body isNormal.2 written).spelled
      exact ⟨_, Or.inl (.loop isWhile isOpening spelled isClosing inner),
        by rw [unplaced, unplaced, same, sameBody]⟩
  | ret _ value, _, ts, isNormal, written => by
      obtain ⟨keyword, _, rfl, isReturn, written⟩ := written_mark written
      obtain ⟨us, _, rfl, writtenValue, written⟩ := List.map_eq_append_iff.1 written
      obtain ⟨semicolon, _, rfl, isSemicolon, none⟩ := written_mark written
      obtain rfl := List.map_eq_nil_iff.1 none
      obtain ⟨value', spelled, same⟩ := spelledOpt_of_pieces limit isNormal writtenValue
      exact ⟨_, Or.inl (.ret isReturn spelled isSemicolon), by rw [unplaced, unplaced, same]⟩
  | function declaration, _, ts, isNormal, written => by
      rw [normal, Bool.and_eq_true] at isNormal
      obtain ⟨keyword, us, rfl, isFun, written⟩ := written_mark written
      obtain ⟨declaration', spelled, same⟩ :=
        function_of_pieces limit declaration isNormal.2 written
      exact ⟨_, Or.inr ⟨isNormal.1, .function isFun spelled⟩, by rw [unplaced, unplaced, same]⟩
  | classDecl name superclass methods, _, ts, isNormal, written => by
      rw [normal, Bool.and_eq_true] at isNormal
      obtain ⟨keyword, _, rfl, isClass, written⟩ := written_mark written
      obtain ⟨token, _, rfl, isName, isText, written⟩ := written_name written
      obtain ⟨us, _, rfl, writtenParent, written⟩ := List.map_eq_append_iff.1 written
      obtain ⟨opening, _, rfl, isOpening, written⟩ := written_mark written
      obtain ⟨vs, _, rfl, writtenMethods, written⟩ := List.map_eq_append_iff.1 written
      obtain ⟨closing, _, rfl, isClosing, none⟩ := written_mark written
      obtain rfl := List.map_eq_nil_iff.1 none
      obtain ⟨superclass', parent, sameParent⟩ := superclassSpelled_of_pieces writtenParent
      obtain ⟨methods', spelled, same⟩ := methods_of_pieces limit methods isNormal.2 writtenMethods
      refine ⟨_, Or.inr ⟨isNormal.1, .classDecl isClass isName parent isOpening spelled isClosing⟩, ?_⟩
      rw [unplaced, unplaced, Expr.ident_unplaced isText, sameParent, same]

theorem declaredAll_of_pieces (limit : ArgumentLimit) :
    ∀ (body : List (Stmt Unit)) {ts : List Token}, normalAll limit body = true →
      ts.map Token.piece = piecesAll body →
        ∃ body', Stmt.DeclaredAll limit body' ts ∧ unplacedAll body' = unplacedAll body
  | [], ts, _, written => by
      obtain rfl := List.map_eq_nil_iff.1 written
      exact ⟨[], .nil, rfl⟩
  | s :: rest, ts, isNormal, written => by
      rw [normalAll, Bool.and_eq_true] at isNormal
      obtain ⟨us, vs, rfl, writtenFirst, written⟩ := List.map_eq_append_iff.1 written
      obtain ⟨s', first, same⟩ := (readAs_of_pieces limit s isNormal.1 writtenFirst).declared
      obtain ⟨rest', others, sameOthers⟩ := declaredAll_of_pieces limit rest isNormal.2 written
      exact ⟨s' :: rest', .cons first others, by rw [unplacedAll, unplacedAll, same, sameOthers]⟩

theorem function_of_pieces (limit : ArgumentLimit) :
    ∀ (function : Function Unit) {ts : List Token}, normalFunction limit function = true →
      ts.map Token.piece = piecesFunction function →
        ∃ function', Function.Spelled limit function' ts ∧
          unplacedFunction function' = unplacedFunction function
  | .mk name parameters body, ts, isNormal, written => by
      simp only [normalFunction, Bool.and_eq_true, decide_eq_true_eq] at isNormal
      obtain ⟨token, _, rfl, isName, isText, written⟩ := written_name written
      obtain ⟨opening, _, rfl, isOpening, written⟩ := written_mark written
      obtain ⟨us, _, rfl, writtenParameters, written⟩ := List.map_eq_append_iff.1 written
      obtain ⟨closing, _, rfl, isClosing, written⟩ := written_mark written
      obtain ⟨left, _, rfl, isLeft, written⟩ := written_mark written
      obtain ⟨vs, _, rfl, writtenBody, written⟩ := List.map_eq_append_iff.1 written
      obtain ⟨right, _, rfl, isRight, none⟩ := written_mark written
      obtain rfl := List.map_eq_nil_iff.1 none
      obtain ⟨parameters', separated, sameParameters⟩ := separated_of_pieces writtenParameters
      obtain ⟨body', inner, sameBody⟩ := declaredAll_of_pieces limit body isNormal.2 writtenBody
      have allowed : limit.Allows parameters'.length := by
        have lengths := congrArg List.length sameParameters
        rw [List.length_map, List.length_map] at lengths
        rw [lengths]
        exact isNormal.1
      refine ⟨_, .mk isName isOpening separated allowed isClosing isLeft inner isRight, ?_⟩
      rw [unplacedFunction, unplacedFunction, Expr.ident_unplaced isText, sameParameters, sameBody]

theorem methods_of_pieces (limit : ArgumentLimit) :
    ∀ (methods : List (Function Unit)) {ts : List Token}, normalMethods limit methods = true →
      ts.map Token.piece = piecesMethods methods →
        ∃ methods', Function.SpelledAll limit methods' ts ∧
          unplacedMethods methods' = unplacedMethods methods
  | [], ts, _, written => by
      obtain rfl := List.map_eq_nil_iff.1 written
      exact ⟨[], .nil, rfl⟩
  | method :: rest, ts, isNormal, written => by
      rw [normalMethods, Bool.and_eq_true] at isNormal
      obtain ⟨us, vs, rfl, writtenFirst, written⟩ := List.map_eq_append_iff.1 written
      obtain ⟨method', first, same⟩ := function_of_pieces limit method isNormal.1 writtenFirst
      obtain ⟨rest', others, sameOthers⟩ := methods_of_pieces limit rest isNormal.2 written
      exact ⟨method' :: rest', .cons first others,
        by rw [unplacedMethods, unplacedMethods, same, sameOthers]⟩

end

end Stmt

/-- Parsing undoes writing: tokens that are a program in normal form as it is written, at whatever
positions they stand, are read as that program without an error. -/
theorem Program.parse_pieces (limit : ArgumentLimit) (program : Program.Plain)
    (isNormal : Stmt.normalAll limit program = true) (tokens : List Token)
    (written : tokens.map Token.piece = Stmt.piecesAll program ++ [.mark .eof]) :
    (parse limit tokens).errors = #[] ∧
      ∃ read, (parse limit tokens).program = .ok read ∧
        Stmt.unplacedAll read = Stmt.unplacedAll program := by
  obtain ⟨body, _, rfl, writtenBody, writtenEnd⟩ := List.map_eq_append_iff.1 written
  obtain ⟨last, _, rfl, isEnd, none⟩ := written_mark writtenEnd
  obtain rfl := List.map_eq_nil_iff.1 none
  obtain ⟨read, declared, same⟩ := Stmt.declaredAll_of_pieces limit program isNormal writtenBody
  rw [parse_declared isEnd declared]
  exact ⟨rfl, read, rfl, same⟩

/-- The tree of `if (a) b = c - d - (e - f); else !g.h(i, true);`. -/
def sampleBranch : Stmt Unit :=
  let name (text : String) : Ident := { text := text, position := .start }
  let read (text : String) : Expr Unit := .read (name text) ()
  .branch (read "a")
    (.expression (.assign (name "b") () (.binary
      (.binary (read "c") .subtract .start (read "d")) .subtract .start
      (.grouping (.binary (read "e") .subtract .start (read "f"))))))
    (some (.expression (.unary .not .start
      (.call (.get (read "g") (name "h")) [read "i", .literal (.bool true)] .start))))

/-- A token for a piece. -/
def Piece.token (piece : Piece) : Token :=
  { kind := piece.kind, lexeme := piece.text, literal := piece.value, position := .start }

theorem Program.parse_pieces_sampleBranch :
    Stmt.normalAll (.count 2) [sampleBranch] = true ∧
      ∃ tokens : List Token,
        tokens.map Token.piece = Stmt.piecesAll [sampleBranch] ++ [.mark .eof] ∧
        (parse (.count 2) tokens).errors = #[] ∧
        ∃ read, (parse (.count 2) tokens).program = .ok read ∧
          Stmt.unplacedAll read = Stmt.unplacedAll [sampleBranch] :=
  have isNormal : Stmt.normalAll (.count 2) [sampleBranch] = true := by decide
  have written : ((Stmt.piecesAll [sampleBranch] ++ [Piece.mark .eof]).map Piece.token).map
      Token.piece = Stmt.piecesAll [sampleBranch] ++ [.mark .eof] := rfl
  ⟨isNormal, _, written, parse_pieces (.count 2) [sampleBranch] isNormal _ written⟩

/-- Subtraction groups to the left: grouped to the right it needs parentheses. -/
example :
    let read (text : String) : Expr Unit := .read { text := text, position := .start } ()
    let minus (left right : Expr Unit) : Expr Unit := .binary left .subtract .start right
    (minus (minus (read "a") (read "b")) (read "c")).normal (.count 0) .assignment = true ∧
      (minus (read "a") (minus (read "b") (read "c"))).normal (.count 0) .assignment = false := by
  decide

end LoxLang
