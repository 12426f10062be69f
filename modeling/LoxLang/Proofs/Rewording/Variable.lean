/-
Module: LoxLang.Proofs.Rewording.Variable
Purpose: Renaming one variable.  A rewording is consistent if it is so at every name of a program;
  a word that does not occur in a program can replace the name of a local variable or parameter at
  its declaration and at the references that are bound to its scope.
Main exports: Mention.Agrees, Stmt.consistent_of_mentions, Renaming.exchange,
  Vocabulary.exchanging, Renameable, Renameable.consistent
-/
import LoxLang.Proofs.Rewording.Respelling
import LoxLang.Proofs.Rewording.Scope
import LoxLang.Proofs.Scope.Distinct
import Mathlib.Data.List.GetD
import Mathlib.Logic.Equiv.Basic

namespace LoxLang

/-! ### Consistent at every name -/

section Agreement

variable (vocabulary : Vocabulary) (change : Rewording) (own : List Introduced → Renaming)

/-- A rewording does with a name what the scopes around it say, if each scope renames its variables
as `own` says of what it introduces. -/
def Mention.Agrees (mention : Mention Distance) : Prop :=
  match mention.role with
  | .reference binding => mention.name.Refers vocabulary change (mention.scopes.map own) binding
  | .slot => mention.name.Declares vocabulary change (mention.scopes.map own)
  | .callable => mention.name.Introduces vocabulary change (mention.scopes.map own)
  | .property => change.word mention.name = mention.name.text

/-- Names that a rewording does the right thing with. -/
def Agree (mentions : List (Mention Distance)) : Prop :=
  ∀ mention ∈ mentions, mention.Agrees vocabulary change own

variable {vocabulary change own}

theorem Agree.split {mentions others : List (Mention Distance)}
    (agree : Agree vocabulary change own (mentions ++ others)) :
    Agree vocabulary change own mentions ∧ Agree vocabulary change own others :=
  List.forall_mem_append.1 agree

theorem Agree.head {mention : Mention Distance} {mentions : List (Mention Distance)}
    (agree : Agree vocabulary change own (mention :: mentions)) :
    mention.Agrees vocabulary change own ∧ Agree vocabulary change own mentions :=
  List.forall_mem_cons.1 agree

mutual
/-- If a rewording is right about every name in an expression, it is consistent there. -/
theorem Expr.consistent_of_mentions {scopes : List (List Introduced)} :
    ∀ e : Expr Distance, Agree vocabulary change own (e.mentions scopes) →
      e.Consistent vocabulary change (scopes.map own)
  | .literal _, _ | .receiver _ _, _ => trivial
  | .read _ _, agree => agree.head.1
  | .assign _ _ value, agree =>
      ⟨agree.split.2.head.1, value.consistent_of_mentions agree.split.1⟩
  | .unary _ _ operand, agree => operand.consistent_of_mentions agree
  | .binary left _ _ right, agree =>
      ⟨left.consistent_of_mentions agree.split.1, right.consistent_of_mentions agree.split.2⟩
  | .logical left _ right, agree =>
      ⟨left.consistent_of_mentions agree.split.1, right.consistent_of_mentions agree.split.2⟩
  | .grouping inner, agree => inner.consistent_of_mentions agree
  | .call callee arguments _, agree =>
      ⟨callee.consistent_of_mentions agree.split.1,
        consistentAll_of_mentions arguments agree.split.2⟩
  | .get object _, agree =>
      ⟨object.consistent_of_mentions agree.split.1, agree.split.2.head.1⟩
  | .set object _ value, agree =>
      ⟨object.consistent_of_mentions agree.split.1.split.2,
        value.consistent_of_mentions agree.split.1.split.1, agree.split.2.head.1⟩
  | .superMethod _ _ _, agree => agree.head.1

theorem Expr.consistentAll_of_mentions {scopes : List (List Introduced)} :
    ∀ es : List (Expr Distance), Agree vocabulary change own (Expr.mentionsAll scopes es) →
      Expr.ConsistentAll vocabulary change (scopes.map own) es
  | [], _ => trivial
  | e :: rest, agree =>
      ⟨e.consistent_of_mentions agree.split.1, consistentAll_of_mentions rest agree.split.2⟩
end

theorem Expr.consistentOpt_of_mentions {scopes : List (List Introduced)}
    (e : Option (Expr Distance)) (agree : Agree vocabulary change own (Expr.mentionsOpt scopes e)) :
    Expr.ConsistentOpt vocabulary change (scopes.map own) e := by
  cases e with
  | none => trivial
  | some e => exact e.consistent_of_mentions agree

mutual
/-- If a rewording is right about every name in a statement, it is consistent there. -/
theorem Stmt.consistent_of_mentions (allowed : ∀ scope, vocabulary.allows (own scope))
    (hollow : own [] = .keep) : ∀ {scopes : List (List Introduced)} (s : Stmt Distance),
      Agree vocabulary change own (s.mentions scopes) →
      s.Consistent vocabulary change (scopes.map own)
  | _, .expression value, agree => value.consistent_of_mentions agree
  | _, .print value, agree => value.consistent_of_mentions agree
  | _, .declare _ initializer, agree =>
      ⟨agree.head.1, Expr.consistentOpt_of_mentions initializer agree.head.2⟩
  | _, .block body, agree =>
      ⟨own (Stmt.introducedAll body), allowed _,
        consistentAll_of_mentions allowed hollow body agree⟩
  | _, .branch condition thenBranch none, agree =>
      ⟨condition.consistent_of_mentions agree.split.1,
        thenBranch.consistent_of_mentions allowed hollow agree.split.2⟩
  | _, .branch condition thenBranch (some elseBranch), agree =>
      ⟨condition.consistent_of_mentions agree.split.1,
        thenBranch.consistent_of_mentions allowed hollow agree.split.2.split.1,
        elseBranch.consistent_of_mentions allowed hollow agree.split.2.split.2⟩
  | _, .loop condition body, agree =>
      ⟨condition.consistent_of_mentions agree.split.1,
        body.consistent_of_mentions allowed hollow agree.split.2⟩
  | _, .ret _ value, agree => Expr.consistentOpt_of_mentions value agree
  | _, .function declaration, agree =>
      ⟨agree.head.1, consistentFunction_of_mentions allowed hollow declaration agree.head.1.2
        agree.head.2⟩
  | scopes, .classDecl _ none methods, agree => by
      have inside := consistentMethods_of_mentions allowed hollow methods agree.head.2
      rw [List.map_cons, hollow] at inside
      exact ⟨agree.head.1, inside⟩
  | scopes, .classDecl _ (some (_, _)) methods, agree => by
      have inside := consistentMethods_of_mentions allowed hollow methods agree.head.2.head.2
      rw [List.map_cons, List.map_cons, hollow] at inside
      exact ⟨agree.head.1, agree.head.2.head.1, inside⟩

theorem Stmt.consistentFunction_of_mentions (allowed : ∀ scope, vocabulary.allows (own scope))
    (hollow : own [] = .keep) :
    ∀ {scopes : List (List Introduced)} (declaration : Function Distance),
      change.word declaration.name = declaration.name.text →
      Agree vocabulary change own (Stmt.mentionsFunction scopes declaration) →
      Stmt.ConsistentFunction vocabulary change (scopes.map own) declaration
  | _, .mk name parameters body, kept, agree => by
      refine ⟨kept, own (Function.mk name parameters body).introduced, allowed _, ?_,
        consistentAll_of_mentions allowed hollow body agree.split.2⟩
      intro parameter member
      exact agree.split.1 _ (List.mem_map_of_mem member)

theorem Stmt.consistentMethods_of_mentions (allowed : ∀ scope, vocabulary.allows (own scope))
    (hollow : own [] = .keep) :
    ∀ {scopes : List (List Introduced)} (methods : List (Function Distance)),
      Agree vocabulary change own (Stmt.mentionsMethods scopes methods) →
      Stmt.ConsistentMethods vocabulary change (scopes.map own) methods
  | _, [], _ => trivial
  | _, method :: rest, agree =>
      ⟨consistentFunction_of_mentions allowed hollow method agree.split.1.head.1
          agree.split.1.head.2,
        consistentMethods_of_mentions allowed hollow rest agree.split.2⟩

theorem Stmt.consistentAll_of_mentions (allowed : ∀ scope, vocabulary.allows (own scope))
    (hollow : own [] = .keep) : ∀ {scopes : List (List Introduced)} (ss : List (Stmt Distance)),
      Agree vocabulary change own (Stmt.mentionsAll scopes ss) →
      Stmt.ConsistentAll vocabulary change (scopes.map own) ss
  | _, [], _ => trivial
  | _, s :: rest, agree =>
      ⟨s.consistent_of_mentions allowed hollow agree.split.1,
        consistentAll_of_mentions allowed hollow rest agree.split.2⟩
end

end Agreement

/-! ### Exchanging two names -/

/-- A word that is not one of the keywords that scopes hold. -/
def Unreserved (word : String) : Prop :=
  word ≠ "this" ∧ word ≠ "super"

/-- Two names are exchanged. -/
def Renaming.exchange {old new : String} (first : Unreserved old) (second : Unreserved new) :
    Renaming where
  rename := Equiv.swap old new
  injective := (Equiv.swap old new).injective
  receiver := Equiv.swap_apply_of_ne_of_ne first.1.symm second.1.symm
  superclass := Equiv.swap_apply_of_ne_of_ne first.2.symm second.2.symm

/-- Scopes may exchange two names in code where one of them does not occur. -/
def Vocabulary.exchanging {old new : String} (first : Unreserved old) (second : Unreserved new) :
    Vocabulary where
  allows := fun own => own = .keep ∨ own = .exchange first second
  holds := fun name => name ≠ new
  allowsKeep := .inl rfl
  holdsReceiver := second.1.symm
  holdsSuperclass := second.2.symm
  apart := by
    -- what is exchanged on one side only is the new word, or stays as it is
    have onlyOne : ∀ {name other : String}, name ≠ new → other ≠ new →
        name = Equiv.swap old new other → name = other := by
      intro name other isOld isOther same
      by_cases exchanged : other = old
      · rw [exchanged, Equiv.swap_apply_left] at same
        exact absurd same isOld
      · rwa [Equiv.swap_apply_of_ne_of_ne exchanged isOther] at same
    rintro _ _ (rfl | rfl) (rfl | rfl) name other isOld isOther same
    · exact same
    · exact onlyOne isOld isOther same
    · exact (onlyOne isOther isOld same.symm).symm
    · exact (Equiv.swap old new).injective same

/-! ### The names of one variable -/

theorem Mention.isLocal_iff {ρ : Type} {mention : Mention ρ} :
    mention.isLocal = true ↔ mention.role = .slot ∧ mention.scopes ≠ [] := by
  rcases mention with ⟨name, _ | _ | _ | _, scopes⟩ <;> simp [isLocal]

theorem Program.mem_locals {program : Program Distance} {name : Ident} :
    name ∈ program.locals ↔
      ∃ declaration ∈ program.mentions, declaration.isLocal = true ∧ declaration.name = name := by
  simp [locals, and_assoc]

theorem Mention.refersTo_iff {name other : Ident} {distance : Nat}
    {scopes : List (List Introduced)} :
    Mention.refersTo name ⟨other, .reference (some distance), scopes⟩ = true ↔
      other.text = name.text ∧ Introduced.slot name ∈ scopes.getD distance [] := by
  rw [refersTo, Bool.and_eq_true, decide_eq_true_iff, decide_eq_true_iff]

/-- References to a variable have its name. -/
theorem Mention.text_of_refersTo {name : Ident} {mention : Mention Distance}
    (refers : mention.refersTo name = true) : mention.name.text = name.text := by
  rcases mention with ⟨other, role, scopes⟩
  cases role with
  | reference binding =>
      cases binding with
      | none => cases refers
      | some distance => exact (refersTo_iff.1 refers).1
  | _ => cases refers

/-- A local variable or parameter of a program, and a word that it can be renamed to because it does
not occur in the program. -/
structure Renameable (program : Program Distance) (declaration : Mention Distance) (new : String) :
    Prop where
  declared : declaration ∈ program.mentions
  isLocal : declaration.isLocal = true
  placed : ∀ mention ∈ program.mentions, mention.Placed
  apart : ∀ mention ∈ program.mentions, ∀ other ∈ program.mentions,
    mention.name.position = other.name.position → mention = other
  fresh : ∀ mention ∈ program.mentions, mention.name.text ≠ new
  unreserved : Unreserved declaration.name.text
  unreservedNew : Unreserved new

namespace Renameable

variable {program : Program Distance} {declaration mention : Mention Distance} {new : String}

/-- How the scope that introduces a variable renames it, and every other scope nothing. -/
def own (renameable : Renameable program declaration new) (scope : List Introduced) : Renaming :=
  if Introduced.slot declaration.name ∈ scope then
    .exchange renameable.unreserved renameable.unreservedNew
  else
    .keep

theorem own_nil (renameable : Renameable program declaration new) :
    renameable.own [] = .keep :=
  if_neg List.not_mem_nil

theorem own_allowed (renameable : Renameable program declaration new) (scope : List Introduced) :
    (Vocabulary.exchanging renameable.unreserved renameable.unreservedNew).allows
      (renameable.own scope) := by
  unfold own
  split
  · exact .inr rfl
  · exact .inl rfl

theorem rename_variable (renameable : Renameable program declaration new)
    {scope : List Introduced} (introduced : Introduced.slot declaration.name ∈ scope) :
    (renameable.own scope).rename declaration.name.text = new := by
  rw [own, if_pos introduced]
  exact Equiv.swap_apply_left _ _

/-- A scope renames nothing else than the variable. -/
theorem rename_other (renameable : Renameable program declaration new) {text : String}
    (fresh : text ≠ new) {scope : List Introduced}
    (other : Introduced.slot declaration.name ∈ scope → text ≠ declaration.name.text) :
    (renameable.own scope).rename text = text := by
  unfold own
  split
  · exact Equiv.swap_apply_of_ne_of_ne (other ‹_›) fresh
  · rfl

/-- What is introduced besides the variable keeps its name, since no scope introduces a name
twice. -/
theorem innermost_other (renameable : Renameable program declaration new)
    (isMention : mention ∈ program.mentions) {item : Introduced}
    (introduces : mention.introduces? = some item) (isText : item.text = mention.name.text)
    (other : item ≠ .slot declaration.name) :
    (innermost (mention.scopes.map renameable.own)).rename mention.name.text =
      mention.name.text := by
  obtain ⟨separate, inside⟩ := renameable.placed mention isMention
  cases isScopes : mention.scopes with
  | nil => rfl
  | cons scope outer =>
      refine renameable.rename_other (renameable.fresh mention isMention) fun introduced same => ?_
      have isItem := inside item introduces scope (by rw [isScopes]; rfl)
      have different := separate scope (by rw [isScopes]; exact List.mem_cons_self)
      exact other (List.inj_on_of_nodup_map different isItem introduced (isText.trans same))

/-- The names at the places of a variable are its declaration and the references to it. -/
theorem mem_occurrences (renameable : Renameable program declaration new)
    (isMention : mention ∈ program.mentions) :
    mention.name.position ∈ program.occurrences declaration.name ↔
      mention = declaration ∨ mention.refersTo declaration.name = true := by
  rw [Program.occurrences, List.mem_cons, List.mem_map]
  constructor
  · rintro (here | ⟨other, isOther, here⟩)
    · exact .inl (renameable.apart _ isMention _ renameable.declared here)
    · obtain ⟨inProgram, refers⟩ := List.mem_filter.1 isOther
      obtain rfl := renameable.apart _ inProgram _ isMention here
      exact .inr refers
  · rintro (rfl | refers)
    · exact .inl rfl
    · exact .inr ⟨mention, List.mem_filter.2 ⟨isMention, refers⟩, rfl⟩

section Words

variable (renameable : Renameable program declaration new) (move : Position → Position)

include renameable

/-- The names of the variable become the new word. -/
theorem word_variable (isMention : mention ∈ program.mentions)
    (isVariable : mention = declaration ∨ mention.refersTo declaration.name = true) :
    (Rewording.respelling (program.occurrences declaration.name) new move).word mention.name = new :=
  if_pos ((renameable.mem_occurrences isMention).2 isVariable)

/-- All other names stay as they are. -/
theorem word_other (isMention : mention ∈ program.mentions) (isOther : mention ≠ declaration)
    (elsewhere : mention.refersTo declaration.name = false) :
    (Rewording.respelling (program.occurrences declaration.name) new move).word mention.name =
      mention.name.text := by
  refine if_neg fun here => ?_
  cases (renameable.mem_occurrences isMention).1 here with
  | inl same => exact isOther same
  | inr refers => rw [elsewhere] at refers; cases refers

/-- References are renamed as the scope that binds them says. -/
theorem word_reference {name : Ident} {binding : Distance} {scopes : List (List Introduced)}
    (isMention : ⟨name, .reference binding, scopes⟩ ∈ program.mentions)
    (isOther : (⟨name, .reference binding, scopes⟩ : Mention Distance) ≠ declaration) :
    (Rewording.respelling (program.occurrences declaration.name) new move).word name =
      renamed (scopes.map renameable.own) binding name.text := by
  cases binding with
  | none => exact renameable.word_other move isMention isOther rfl
  | some distance =>
      rw [renamed, ← renameable.own_nil, List.getD_map]
      cases found : Mention.refersTo declaration.name ⟨name, .reference (some distance), scopes⟩ with
      | true =>
          obtain ⟨isName, introduced⟩ := Mention.refersTo_iff.1 found
          rw [renameable.word_variable move isMention (.inr found), isName]
          exact (renameable.rename_variable introduced).symm
      | false =>
          rw [renameable.word_other move isMention isOther found,
            renameable.rename_other (renameable.fresh _ isMention)]
          intro introduced isName
          rw [Mention.refersTo_iff.2 ⟨isName, introduced⟩] at found
          cases found

/-- Variables are renamed as the scope that introduces them says. -/
theorem word_slot {name : Ident} {scopes : List (List Introduced)}
    (isMention : ⟨name, .slot, scopes⟩ ∈ program.mentions) :
    (Rewording.respelling (program.occurrences declaration.name) new move).word name =
      (innermost (scopes.map renameable.own)).rename name.text := by
  by_cases same : name = declaration.name
  · have isDeclaration := renameable.apart _ isMention _ renameable.declared (by rw [same])
    rw [renameable.word_variable move isMention (.inl isDeclaration)]
    cases scopes with
    | nil =>
        have isLocal := renameable.isLocal
        rw [← isDeclaration] at isLocal
        cases isLocal
    | cons scope outer =>
        have introduced := (renameable.placed _ isMention).inside _ rfl scope rfl
        rw [same] at introduced ⊢
        exact (renameable.rename_variable introduced).symm
  · have isOther : (⟨name, .slot, scopes⟩ : Mention Distance) ≠ declaration := by
      rintro rfl
      exact same rfl
    rw [renameable.word_other move isMention isOther rfl,
      renameable.innermost_other isMention rfl rfl (fun isSlot => same (Introduced.slot.inj isSlot))]

/-- The rewording that renames a variable does at every name what the scopes around it say. -/
theorem agree :
    Agree (.exchanging renameable.unreserved renameable.unreservedNew)
      (.respelling (program.occurrences declaration.name) new move) renameable.own
      program.mentions := by
  have isSlot := (Mention.isLocal_iff.1 renameable.isLocal).1
  rintro ⟨name, role, scopes⟩ isMention
  have fresh : name.text ≠ new := renameable.fresh _ isMention
  cases role with
  | reference binding =>
      exact ⟨fresh, renameable.word_reference move isMention (by rintro rfl; cases isSlot)⟩
  | slot => exact ⟨fresh, renameable.word_slot move isMention⟩
  | callable =>
      have kept := renameable.word_other move isMention (by rintro rfl; cases isSlot) rfl
      refine ⟨⟨fresh, ?_⟩, kept⟩
      rw [kept]
      exact (renameable.innermost_other isMention rfl rfl nofun).symm
  | property => exact renameable.word_other move isMention (by rintro rfl; cases isSlot) rfl

/-- Renaming a variable at its places is consistent. -/
theorem consistent :
    Stmt.ConsistentAll (.exchanging renameable.unreserved renameable.unreservedNew)
      (.respelling (program.occurrences declaration.name) new move) [] program :=
  Stmt.consistentAll_of_mentions renameable.own_allowed renameable.own_nil program
    (renameable.agree move)

end Words

end Renameable

end LoxLang
