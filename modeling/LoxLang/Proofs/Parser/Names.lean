/-
Module: LoxLang.Proofs.Parser.Names
Purpose: Where the names of a program come from.  The names in a tree are the identifiers among the
  tokens that spell it, each of them once; only their order may be another one.
Main exports: identifiers, Expr.Spelled.names, Stmt.DeclaredAll.names, Program.names_of_parse
-/
import LoxLang.Proofs.Parser.Program
import LoxLang.Proofs.Scope.Mention
import Mathlib.Data.List.Perm.Basic

namespace LoxLang

/-! ### Identifiers -/

/-- The name that a token is, if it is an identifier. -/
def Token.name? (token : Token) : Option Ident :=
  if token.kind = .identifier then some token.ident else none

/-- The identifiers among tokens. -/
def identifiers (tokens : List Token) : List Ident :=
  tokens.filterMap Token.name?

section Identifiers

variable {token : Token} {ts us : List Token}

theorem identifiers_append (ts us : List Token) :
    identifiers (ts ++ us) = identifiers ts ++ identifiers us :=
  List.filterMap_append

theorem identifiers_name (isName : token.kind = .identifier) (ts : List Token) :
    identifiers (token :: ts) = token.ident :: identifiers ts :=
  List.filterMap_cons_some (if_pos isName)

theorem identifiers_mark {kind : Kind} (isKind : token.kind = kind) (isMark : kind ≠ .identifier)
    (ts : List Token) : identifiers (token :: ts) = identifiers ts :=
  List.filterMap_cons_none (if_neg (isKind ▸ isMark))

theorem mem_identifiers {name : Ident} :
    name ∈ identifiers ts ↔ ∃ token ∈ ts, token.kind = .identifier ∧ token.ident = name := by
  simp [identifiers, Token.name?]

end Identifiers

theorem LogicalOp.kind_ne_identifier (op : LogicalOp) : op.kind ≠ .identifier := by
  cases op <;> nofun

theorem BinaryOp.kind_ne_identifier (op : BinaryOp) : op.kind ≠ .identifier := by
  cases op <;> nofun

theorem UnaryOp.kind_ne_identifier (op : UnaryOp) : op.kind ≠ .identifier := by
  cases op <;> nofun

theorem Token.kind_of_constant {token : Token} {value : Literal}
    (isConstant : token.constant? = some value) : token.kind ≠ .identifier := by
  intro isName
  rw [constant?, isName] at isConstant
  cases isConstant

/-! ### Names of trees -/

/-- The names listed are the identifiers among tokens, in some order. -/
def Names (mentions : List (Mention Unit)) (ts : List Token) : Prop :=
  (mentions.map Mention.name).Perm (identifiers ts)

namespace Names

variable {mentions others : List (Mention Unit)} {ts us : List Token} {token : Token}

theorem nil : Names [] [] :=
  .refl _

theorem append (first : Names mentions ts) (second : Names others us) :
    Names (mentions ++ others) (ts ++ us) := by
  rw [Names, List.map_append, identifiers_append]
  exact List.Perm.append first second

theorem swap (first : Names mentions ts) (second : Names others us) :
    Names (mentions ++ others) (us ++ ts) := by
  rw [Names, identifiers_append]
  refine List.Perm.trans ?_ List.perm_append_comm
  rw [List.map_append]
  exact List.Perm.append first second

/-- A token that is not a name in front. -/
theorem mark {kind : Kind} (isKind : token.kind = kind) (isMark : kind ≠ .identifier)
    (names : Names mentions ts) : Names mentions (token :: ts) := by
  rw [Names, identifiers_mark isKind isMark]
  exact names

/-- A token that is not a name at the end. -/
theorem before {kind : Kind} (names : Names mentions ts) (isKind : token.kind = kind)
    (isMark : kind ≠ .identifier) : Names mentions (ts ++ [token]) := by
  rw [Names, identifiers_append, identifiers_mark isKind isMark]
  exact (List.append_nil (identifiers ts)).symm ▸ names

theorem single (isName : token.kind = .identifier) (role : Role Unit)
    (scopes : List (List Introduced)) : Names [⟨token.ident, role, scopes⟩] [token] := by
  rw [Names, identifiers_name isName]
  exact .refl _

end Names

variable {limit : ArgumentLimit}

mutual
/-- The names in an expression are those of the tokens that spell it. -/
theorem Expr.Spelled.names (scopes : List (List Introduced)) :
    ∀ {level : Level} {e : Expr Unit} {ts : List Token}, Expr.Spelled limit level e ts →
      Names (e.mentions scopes) ts
  | _, _, _, .relax _ tight => tight.names scopes
  | _, _, _, .assign isName isEquals spelled =>
      .swap ((spelled.names scopes).mark isEquals nofun) (.single isName _ scopes)
  | _, _, _, .set target isDot isName isEquals spelled => by
      have assigned := (spelled.names scopes).mark isEquals nofun
      have property := Names.mark isDot nofun (.single isName .property scopes)
      have both := assigned.swap ((target.names scopes).append property)
      rw [List.append_assoc] at both
      rw [Expr.mentions, List.append_assoc]
      exact both
  | _, _, _, .logical _ isOperator first second =>
      (first.names scopes).append
        ((second.names scopes).mark isOperator (LogicalOp.kind_ne_identifier _))
  | _, _, _, .binary _ isOperator first second =>
      (first.names scopes).append
        ((second.names scopes).mark isOperator (BinaryOp.kind_ne_identifier _))
  | _, _, _, .unary isOperator spelled =>
      (spelled.names scopes).mark isOperator (UnaryOp.kind_ne_identifier _)
  | _, _, _, .call function isOpening spelled _ isClosing =>
      (function.names scopes).append
        (.mark isOpening nofun ((spelled.names scopes).before isClosing nofun))
  | _, _, _, .get target isDot isName =>
      (target.names scopes).append (.mark isDot nofun (.single isName _ scopes))
  | _, _, _, .literal isConstant => .mark rfl (Token.kind_of_constant isConstant) .nil
  | _, _, _, .read isName => .single isName _ scopes
  | _, _, _, .receiver isThis => .mark isThis nofun .nil
  | _, _, _, .superMethod isSuper isDot isName =>
      .mark isSuper nofun (.mark isDot nofun (.single isName _ scopes))
  | _, _, _, .grouping isOpening spelled isClosing =>
      .mark isOpening nofun ((spelled.names scopes).before isClosing nofun)

theorem Expr.SpelledAll.names (scopes : List (List Introduced)) :
    ∀ {es : List (Expr Unit)} {ts : List Token}, Expr.SpelledAll limit es ts →
      Names (Expr.mentionsAll scopes es) ts
  | _, _, .none => .nil
  | _, _, .one spelled => by
      rw [Expr.mentionsAll, Expr.mentionsAll, List.append_nil]
      exact spelled.names scopes
  | _, _, .more spelled isComma others =>
      (spelled.names scopes).append ((others.names scopes).mark isComma nofun)
end

theorem Expr.SpelledOpt.names {value : Option (Expr Unit)} {ts : List Token}
    (spelled : Expr.SpelledOpt limit value ts) (scopes : List (List Introduced)) :
    Names (Expr.mentionsOpt scopes value) ts := by
  cases spelled with
  | none => exact .nil
  | some spelled => exact spelled.names scopes

theorem Stmt.VariableSpelled.names (scopes : List (List Introduced)) {s : Stmt Unit}
    {ts : List Token} (spelled : Stmt.VariableSpelled limit s ts) :
    Names (s.mentions scopes) ts := by
  cases spelled with
  | bare isName isSemicolon =>
      exact (Names.single isName _ scopes).append (.mark isSemicolon nofun .nil)
  | initialized isName isEquals value isSemicolon =>
      exact (Names.single isName _ scopes).append
        (.mark isEquals nofun ((value.names scopes).before isSemicolon nofun))

/-- The first clause of a `for` loop. -/
theorem Stmt.InitializerSpelled.names {first : Option (Stmt Unit)} {ts : List Token}
    (spelled : Stmt.InitializerSpelled limit first ts) (scopes : List (List Introduced)) :
    Names (Stmt.mentionsAll scopes first.toList) ts := by
  cases spelled with
  | none isSemicolon => exact .mark isSemicolon nofun .nil
  | declare isVar declaration =>
      rw [Option.toList, Stmt.mentionsAll, Stmt.mentionsAll, List.append_nil]
      exact (declaration.names scopes).mark isVar nofun
  | expression value isSemicolon =>
      rw [Option.toList, Stmt.mentionsAll, Stmt.mentionsAll, List.append_nil]
      exact (value.names scopes).before isSemicolon nofun

theorem Separated.names (scopes : List (List Introduced)) {parameters : List Ident}
    {ts : List Token} (separated : Separated Ident.Spelled parameters ts) :
    Names (parameters.map fun parameter => ⟨parameter, .slot, scopes⟩) ts := by
  have single : ∀ {name : Ident} {us : List Token}, Ident.Spelled name us →
      Names [⟨name, .slot, scopes⟩] us := by
    rintro name us ⟨token, isName, rfl, rfl⟩
    exact .single isName _ scopes
  induction separated with
  | none => exact .nil
  | one spelled => exact single spelled
  | more spelled isComma _ ih => exact (single spelled).append (ih.mark isComma nofun)

/-- The loop that a `for` loop stands for looks at the increment after the body. -/
theorem Names.forLoop {initializer : Option (Stmt Unit)} {condition increment : Option (Expr Unit)}
    {body : Stmt Unit} {ts us vs ws : List Token} (scopes : List (List Introduced))
    (first : ∀ scopes, Names (Stmt.mentionsAll scopes initializer.toList) ts)
    (second : ∀ scopes, Names (Expr.mentionsOpt scopes condition) us)
    (third : ∀ scopes, Names (Expr.mentionsOpt scopes increment) vs)
    (inner : ∀ scopes, Names (body.mentions scopes) ws) :
    Names ((Stmt.forLoop initializer condition increment body).mentions scopes)
      (ts ++ (us ++ (vs ++ ws))) := by
  obtain ⟨guard, isGuard, guarded⟩ : ∃ guard, condition.getD (.literal (.bool true)) = guard ∧
      ∀ scopes, Names (guard.mentions scopes) us := by
    cases condition with
    | none => exact ⟨_, rfl, second⟩
    | some e => exact ⟨_, rfl, second⟩
  obtain ⟨again, isLoop, repeated⟩ : ∃ again : Stmt Unit,
      (Stmt.forLoop initializer condition increment body =
        initializer.elim (.loop guard again) fun s => .block [s, .loop guard again]) ∧
      ∀ scopes, Names (again.mentions scopes) (vs ++ ws) := by
    subst isGuard
    cases increment with
    | none =>
        refine ⟨body, by cases initializer <;> rfl, fun scopes => ?_⟩
        exact (third scopes).append (inner scopes)
    | some step =>
        refine ⟨.block [body, .expression step], by cases initializer <;> rfl, fun scopes => ?_⟩
        simp only [Stmt.mentions, Stmt.mentionsAll, List.append_nil]
        exact (inner _).swap (third _)
  rw [isLoop]
  cases initializer with
  | none => exact (first scopes).append ((guarded scopes).append (repeated scopes))
  | some s =>
      simp only [Option.toList, Stmt.mentionsAll, List.append_nil] at first
      simp only [Option.elim, Stmt.mentions, Stmt.mentionsAll, List.append_nil]
      exact (first _).append ((guarded _).append (repeated _))

mutual
/-- The names in a statement are those of the tokens that spell it. -/
theorem Stmt.Spelled.names :
    ∀ {isOpen : Bool} {s : Stmt Unit} {ts : List Token}, Stmt.Spelled limit isOpen s ts →
      ∀ scopes, Names (s.mentions scopes) ts
  | _, _, _, .expression spelled isSemicolon, scopes =>
      (spelled.names scopes).before isSemicolon nofun
  | _, _, _, .print isPrint spelled isSemicolon, scopes =>
      .mark isPrint nofun ((spelled.names scopes).before isSemicolon nofun)
  | _, _, _, .ret isReturn spelled isSemicolon, scopes =>
      .mark isReturn nofun ((spelled.names scopes).before isSemicolon nofun)
  | _, _, _, .loop isWhile isOpening spelled isClosing inner, scopes =>
      .mark isWhile nofun (.mark isOpening nofun
        ((spelled.names scopes).append ((inner.names scopes).mark isClosing nofun)))
  | _, _, _, .forLoop isFor isOpening first second isSemicolon third isClosing inner, scopes => by
      have looped := Names.forLoop scopes first.names second.names
        (fun around => (third.names around).mark isSemicolon nofun)
        (fun around => (inner.names around).mark isClosing nofun)
      exact .mark isFor nofun (.mark isOpening nofun looped)
  | _, _, _, .ifThen isIf isOpening spelled isClosing first, scopes =>
      .mark isIf nofun (.mark isOpening nofun
        ((spelled.names scopes).append ((first.names scopes).mark isClosing nofun)))
  | _, _, _, .ifElse isIf isOpening spelled isClosing first isElse second, scopes =>
      .mark isIf nofun (.mark isOpening nofun ((spelled.names scopes).append
        (.mark isClosing nofun ((first.names scopes).append
          ((second.names scopes).mark isElse nofun)))))
  | _, _, _, .block isOpening inner isClosing, _ =>
      .mark isOpening nofun ((inner.names _).before isClosing nofun)

theorem Stmt.Declared.names :
    ∀ {isOpen : Bool} {s : Stmt Unit} {ts : List Token}, Stmt.Declared limit isOpen s ts →
      ∀ scopes, Names (s.mentions scopes) ts
  | _, _, _, .statement spelled, scopes => spelled.names scopes
  | _, _, _, .declare isVar spelled, scopes => (spelled.names scopes).mark isVar nofun
  | _, _, _, .function isFun spelled, scopes => (spelled.names .callable scopes).mark isFun nofun
  | _, _, _, .classDecl isClass isName parent isOpening spelled isClosing, scopes => by
      have named := Names.single isName .callable scopes
      have methods := fun around => (spelled.names around).before isClosing nofun
      cases parent with
      | none =>
          exact .mark isClass nofun (named.append (.mark isOpening nofun (methods _)))
      | some isLess isParent =>
          exact .mark isClass nofun (named.append (.mark isLess nofun
            ((Names.single isParent _ scopes).append (.mark isOpening nofun (methods _)))))

theorem Stmt.DeclaredAll.names :
    ∀ {body : List (Stmt Unit)} {ts : List Token}, Stmt.DeclaredAll limit body ts →
      ∀ scopes, Names (Stmt.mentionsAll scopes body) ts
  | _, _, .nil, _ => .nil
  | _, _, .cons first others, scopes => (first.names scopes).append (others.names scopes)

theorem Function.Spelled.names :
    ∀ {declaration : Function Unit} {ts : List Token}, Function.Spelled limit declaration ts →
      ∀ (role : Role Unit) (scopes : List (List Introduced)),
        Names (⟨declaration.name, role, scopes⟩ :: Stmt.mentionsFunction scopes declaration) ts
  | _, _, .mk isName isOpening spelled _ isClosing isLeft inner isRight, role, scopes =>
      (Names.single isName role scopes).append (.mark isOpening nofun
        ((spelled.names _).append (.mark isClosing nofun (.mark isLeft nofun
          ((inner.names _).before isRight nofun)))))

theorem Function.SpelledAll.names :
    ∀ {methods : List (Function Unit)} {ts : List Token}, Function.SpelledAll limit methods ts →
      ∀ scopes, Names (Stmt.mentionsMethods scopes methods) ts
  | _, _, .nil, _ => .nil
  | _, _, .cons first others, scopes =>
      (first.names .property scopes).append (others.names scopes)
end

/-! ### Names of programs -/

namespace Program

/-- The names of a program that is read without errors are identifiers among its tokens, none of them
taken twice. -/
theorem names_of_parse {room : Nat} {tokens : List Token} {program : Program.Plain}
    (ends : EndsOnce tokens)
    (parsed : parseWithin room limit tokens = { program := .ok program, errors := #[] }) :
    (program.mentions.map Mention.name).Subperm (identifiers tokens) := by
  obtain ⟨taken, rest, isTokens, declared⟩ := parseWithin_clean ends (by rw [parsed])
    (by rw [parsed])
  rw [isTokens, identifiers_append]
  exact (declared.names []).subperm.trans (List.sublist_append_left _ _).subperm

end Program

end LoxLang
