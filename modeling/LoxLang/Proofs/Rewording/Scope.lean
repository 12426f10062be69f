/-
Module: LoxLang.Proofs.Rewording.Scope
Purpose: Rewordings that rename variables scope by scope.  Each local scope renames the variables
  it declares, and a reference is renamed as the scope that binds it says.  Global variables,
  functions, classes and properties keep their names.
Main exports: Renaming, Vocabulary, renamed, Expr.Consistent, Stmt.Consistent, Stmt.consistent_keep
-/
import LoxLang.Program.Binding
import LoxLang.Proofs.Rewording.Tree

namespace LoxLang

/-! ### Renaming the variables of one scope -/

/-- How one scope renames its variables.  Different variables stay different, and the two keywords
that scopes hold are not renamed. -/
structure Renaming where
  rename : String → String
  injective : Function.Injective rename
  receiver : rename "this" = "this"
  superclass : rename "super" = "super"

namespace Renaming

/-- All variables keep their names. -/
def keep : Renaming where
  rename := id
  injective := fun _ _ same => same
  receiver := rfl
  superclass := rfl

@[simp] theorem rename_keep (name : String) : keep.rename name = name :=
  rfl

theorem rename_inj (own : Renaming) {first second : String} :
    own.rename first = own.rename second ↔ first = second :=
  own.injective.eq_iff

end Renaming

/-- The renamings that scopes may use and the names that are renamed.  Whatever two scopes do,
different names stay different, so a renamed name is not captured by another scope. -/
structure Vocabulary where
  allows : Renaming → Prop
  holds : String → Prop
  allowsKeep : allows .keep
  holdsReceiver : holds "this"
  holdsSuperclass : holds "super"
  apart : ∀ {first second}, allows first → allows second →
    ∀ {name other}, holds name → holds other →
      first.rename name = second.rename other → name = other

/-- No scope renames anything. -/
def Vocabulary.fixed : Vocabulary where
  allows := fun own => own = .keep
  holds := fun _ => True
  allowsKeep := rfl
  holdsReceiver := trivial
  holdsSuperclass := trivial
  apart := by
    rintro first second rfl rfl name other - - same
    exact same

/-- What becomes of a name that is bound at a distance, given the renamings of the scopes around
it, innermost first. -/
def renamed (scopes : List Renaming) : Distance → String → String
  | none, name => name
  | some distance, name => (scopes.getD distance .keep).rename name

/-- How the innermost scope renames what is declared in it; at the top level nothing is renamed. -/
def innermost (scopes : List Renaming) : Renaming :=
  scopes.headD .keep

/-! ### Consistent rewordings -/

section Consistent

variable (vocabulary : Vocabulary) (change : Rewording)

/-- A rewording renames a reference as the scope that binds it says. -/
def Ident.Refers (scopes : List Renaming) (name : Ident) (binding : Distance) : Prop :=
  vocabulary.holds name.text ∧ change.word name = renamed scopes binding name.text

/-- A rewording renames a variable as the scope that declares it says. -/
def Ident.Declares (scopes : List Renaming) (name : Ident) : Prop :=
  vocabulary.holds name.text ∧ change.word name = (innermost scopes).rename name.text

/-- A rewording keeps the name of a function or class, as the scope that declares it says. -/
def Ident.Introduces (scopes : List Renaming) (name : Ident) : Prop :=
  name.Declares vocabulary change scopes ∧ change.word name = name.text

namespace Expr

mutual
/-- A rewording renames the variables of an expression as the scopes around it say. -/
def Consistent (scopes : List Renaming) : Expr Distance → Prop
  | literal _ => True
  | read name binding => name.Refers vocabulary change scopes binding
  | assign name binding value =>
      name.Refers vocabulary change scopes binding ∧ value.Consistent scopes
  | unary _ _ operand => operand.Consistent scopes
  | binary left _ _ right => left.Consistent scopes ∧ right.Consistent scopes
  | logical left _ right => left.Consistent scopes ∧ right.Consistent scopes
  | grouping inner => inner.Consistent scopes
  | call callee arguments _ => callee.Consistent scopes ∧ ConsistentAll scopes arguments
  | get object name => object.Consistent scopes ∧ change.word name = name.text
  | set object name value =>
      object.Consistent scopes ∧ value.Consistent scopes ∧ change.word name = name.text
  | receiver _ _ => True
  | superMethod _ _ method => change.word method = method.text

/-- A rewording renames the variables of expressions as the scopes around them say. -/
def ConsistentAll (scopes : List Renaming) : List (Expr Distance) → Prop
  | [] => True
  | expression :: rest => expression.Consistent scopes ∧ ConsistentAll scopes rest
end

/-- The same for an expression that may be missing. -/
def ConsistentOpt (scopes : List Renaming) : Option (Expr Distance) → Prop
  | none => True
  | some expression => expression.Consistent vocabulary change scopes

end Expr

namespace Stmt

mutual
/-- A rewording renames the variables of a statement as the scopes around it say, and for every
scope in it there is a renaming that it follows. -/
def Consistent : List Renaming → Stmt Distance → Prop
  | scopes, expression value => value.Consistent vocabulary change scopes
  | scopes, print value => value.Consistent vocabulary change scopes
  | scopes, declare name initializer =>
      name.Declares vocabulary change scopes ∧
        Expr.ConsistentOpt vocabulary change scopes initializer
  | scopes, block body =>
      ∃ own, vocabulary.allows own ∧ ConsistentAll (own :: scopes) body
  | scopes, branch condition thenBranch none =>
      condition.Consistent vocabulary change scopes ∧ thenBranch.Consistent scopes
  | scopes, branch condition thenBranch (some elseBranch) =>
      condition.Consistent vocabulary change scopes ∧ thenBranch.Consistent scopes ∧
        elseBranch.Consistent scopes
  | scopes, loop condition body =>
      condition.Consistent vocabulary change scopes ∧ body.Consistent scopes
  | scopes, ret _ value => Expr.ConsistentOpt vocabulary change scopes value
  | scopes, function declaration =>
      declaration.name.Introduces vocabulary change scopes ∧ ConsistentFunction scopes declaration
  | scopes, classDecl name none methods =>
      name.Introduces vocabulary change scopes ∧ ConsistentMethods (.keep :: scopes) methods
  | scopes, classDecl name (some (superclass, binding)) methods =>
      name.Introduces vocabulary change scopes ∧
        superclass.Refers vocabulary change scopes binding ∧
        ConsistentMethods (.keep :: .keep :: scopes) methods

/-- A rewording keeps the name of a function, and renames its parameters and the variables of its
body as one scope. -/
def ConsistentFunction : List Renaming → Function Distance → Prop
  | scopes, .mk name parameters body =>
      change.word name = name.text ∧
        ∃ own, vocabulary.allows own ∧
          (∀ parameter ∈ parameters, parameter.Declares vocabulary change [own]) ∧
          ConsistentAll (own :: scopes) body

/-- The same for the methods of a class. -/
def ConsistentMethods : List Renaming → List (Function Distance) → Prop
  | _, [] => True
  | scopes, method :: rest => ConsistentFunction scopes method ∧ ConsistentMethods scopes rest

/-- The same for statements one after the other. -/
def ConsistentAll : List Renaming → List (Stmt Distance) → Prop
  | _, [] => True
  | scopes, statement :: rest => statement.Consistent scopes ∧ ConsistentAll scopes rest
end

end Stmt

end Consistent

/-! ### Rewordings that keep all words -/

section Keeping

variable {change : Rewording} {scopes : List Renaming}

/-- Scopes that rename nothing. -/
def Still (scopes : List Renaming) : Prop :=
  ∀ own ∈ scopes, own = .keep

theorem Still.nil : Still [] :=
  fun _ member => nomatch member

theorem Still.cons (still : Still scopes) : Still (.keep :: scopes) := by
  intro own member
  cases member with
  | head => rfl
  | tail _ later => exact still own later

theorem Still.renamed (still : Still scopes) (binding : Distance) (name : String) :
    renamed scopes binding name = name := by
  cases binding with
  | none => rfl
  | some distance =>
      rw [LoxLang.renamed, List.getD_eq_getElem?_getD]
      cases found : scopes[distance]? with
      | none => rfl
      | some own =>
          rw [still own (List.mem_of_getElem? found)]
          rfl

theorem Still.innermost (still : Still scopes) : innermost scopes = .keep := by
  cases scopes with
  | nil => rfl
  | cons own rest => exact still own (List.mem_cons_self ..)

/-- A rewording that moves names but does not rename them. -/
def Rewording.KeepsWords (change : Rewording) : Prop :=
  ∀ name, change.word name = name.text

theorem Ident.refers_keep (words : change.KeepsWords) (still : Still scopes) (name : Ident)
    (binding : Distance) : name.Refers .fixed change scopes binding :=
  ⟨trivial, by rw [words, still.renamed]⟩

theorem Ident.declares_keep (words : change.KeepsWords) (still : Still scopes) (name : Ident) :
    name.Declares .fixed change scopes :=
  ⟨trivial, by rw [words, still.innermost, Renaming.rename_keep]⟩

theorem Ident.introduces_keep (words : change.KeepsWords) (still : Still scopes) (name : Ident) :
    name.Introduces .fixed change scopes :=
  ⟨name.declares_keep words still, words name⟩

mutual
theorem Expr.consistent_keep (words : change.KeepsWords) (still : Still scopes) :
    ∀ expression : Expr Distance, expression.Consistent .fixed change scopes
  | .literal _ | .receiver _ _ => trivial
  | .read name binding => name.refers_keep words still binding
  | .assign name binding value =>
      ⟨name.refers_keep words still binding, value.consistent_keep words still⟩
  | .unary _ _ operand => operand.consistent_keep words still
  | .binary left _ _ right => ⟨left.consistent_keep words still, right.consistent_keep words still⟩
  | .logical left _ right => ⟨left.consistent_keep words still, right.consistent_keep words still⟩
  | .grouping inner => inner.consistent_keep words still
  | .call callee arguments _ =>
      ⟨callee.consistent_keep words still, consistentAll_keep words still arguments⟩
  | .get object name => ⟨object.consistent_keep words still, words name⟩
  | .set object name value =>
      ⟨object.consistent_keep words still, value.consistent_keep words still, words name⟩
  | .superMethod _ _ method => words method

theorem Expr.consistentAll_keep (words : change.KeepsWords) (still : Still scopes) :
    ∀ expressions : List (Expr Distance), ConsistentAll .fixed change scopes expressions
  | [] => trivial
  | expression :: rest =>
      ⟨expression.consistent_keep words still, consistentAll_keep words still rest⟩
end

theorem Expr.consistentOpt_keep (words : change.KeepsWords) (still : Still scopes)
    (expression : Option (Expr Distance)) :
    ConsistentOpt .fixed change scopes expression := by
  cases expression with
  | none => trivial
  | some expression => exact expression.consistent_keep words still

mutual
/-- If nothing is renamed, scopes that rename nothing agree with it. -/
theorem Stmt.consistent_keep (words : change.KeepsWords) :
    ∀ {scopes : List Renaming} (_ : Still scopes) (statement : Stmt Distance), statement.Consistent .fixed change scopes
  | _, still, .expression value => value.consistent_keep words still
  | _, still, .print value => value.consistent_keep words still
  | _, still, .declare name initializer =>
      ⟨name.declares_keep words still, Expr.consistentOpt_keep words still initializer⟩
  | _, still, .block body => ⟨.keep, rfl, consistentAll_keep words still.cons body⟩
  | _, still, .branch condition thenBranch none =>
      ⟨condition.consistent_keep words still, thenBranch.consistent_keep words still⟩
  | _, still, .branch condition thenBranch (some elseBranch) =>
      ⟨condition.consistent_keep words still, thenBranch.consistent_keep words still,
        elseBranch.consistent_keep words still⟩
  | _, still, .loop condition body =>
      ⟨condition.consistent_keep words still, body.consistent_keep words still⟩
  | _, still, .ret _ value => Expr.consistentOpt_keep words still value
  | _, still, .function declaration =>
      ⟨declaration.name.introduces_keep words still, consistentFunction_keep words still declaration⟩
  | _, still, .classDecl name none methods =>
      ⟨name.introduces_keep words still, consistentMethods_keep words still.cons methods⟩
  | _, still, .classDecl name (some (superclass, binding)) methods =>
      ⟨name.introduces_keep words still, superclass.refers_keep words still binding,
        consistentMethods_keep words still.cons.cons methods⟩

theorem Stmt.consistentFunction_keep (words : change.KeepsWords) :
    ∀ {scopes : List Renaming} (_ : Still scopes) (declaration : Function Distance),
      ConsistentFunction .fixed change scopes declaration
  | _, still, .mk name _ body =>
      ⟨words name, .keep, rfl, fun parameter _ => parameter.declares_keep words Still.nil.cons,
        consistentAll_keep words still.cons body⟩

theorem Stmt.consistentMethods_keep (words : change.KeepsWords) :
    ∀ {scopes : List Renaming} (_ : Still scopes) (methods : List (Function Distance)),
      ConsistentMethods .fixed change scopes methods
  | _, _, [] => trivial
  | _, still, method :: rest =>
      ⟨consistentFunction_keep words still method, consistentMethods_keep words still rest⟩

theorem Stmt.consistentAll_keep (words : change.KeepsWords) :
    ∀ {scopes : List Renaming} (_ : Still scopes) (statements : List (Stmt Distance)),
      ConsistentAll .fixed change scopes statements
  | _, _, [] => trivial
  | _, still, statement :: rest =>
      ⟨statement.consistent_keep words still, consistentAll_keep words still rest⟩
end

end Keeping

end LoxLang
