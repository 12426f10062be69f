/-
Module: LoxLang.Proofs.Scope.Distinct
Purpose: What binding without errors says about the names of a program.  A scope that is bound
  without errors introduces no name twice, and binding adds distances to the references of a program
  but leaves its names as they are.
Main exports: Separate, Mention.Placed, Gains, Settled, Stmt.bind_settled, Program.placed_of_bind,
  Program.names_of_bind
-/
import LoxLang.Proofs.Scope.Binding
import LoxLang.Proofs.Scope.Clean
import LoxLang.Proofs.Scope.Mention
import Mathlib.Data.List.Nodup

namespace LoxLang

/-! ### Names in their scopes -/

/-- No scope introduces a name twice. -/
def Separate (scopes : List (List Introduced)) : Prop :=
  ∀ scope ∈ scopes, (scope.map Introduced.text).Nodup

theorem Separate.nil : Separate [] :=
  fun _ member => nomatch member

theorem Separate.cons {scope : List Introduced} {scopes : List (List Introduced)}
    (different : (scope.map Introduced.text).Nodup) (separate : Separate scopes) :
    Separate (scope :: scopes) :=
  List.forall_mem_cons.2 ⟨different, separate⟩

/-- What a name introduces into the innermost scope. -/
def Mention.introduces? {ρ : Type} (mention : Mention ρ) : Option Introduced :=
  match mention.role with
  | .slot => some (.slot mention.name)
  | .callable => some (.callable mention.name)
  | .reference _ | .property => none

/-- No scope around a name introduces a name twice, and what the name introduces is in the innermost
one. -/
structure Mention.Placed {ρ : Type} (mention : Mention ρ) : Prop where
  separate : Separate mention.scopes
  inside : ∀ item ∈ mention.introduces?, ∀ own ∈ mention.scopes.head?, item ∈ own

/-! ### Names that are new to a scope -/

/-- The innermost scope has gained names that it did not declare before, each of them once.  At the
top level there is no scope to gain them. -/
inductive Gains : List Scope → List String → List Scope → Prop where
  | topLevel (names : List String) : Gains [] names []
  | inside {own other : Scope} {outer : List Scope} {names : List String}
      (different : names.Nodup) (new : ∀ name ∈ names, own.declares name = false)
      (declares : ∀ name, other.declares name = true ↔ name ∈ names ∨ own.declares name = true) :
      Gains (own :: outer) names (other :: outer)

namespace Gains

variable {scopes middle after : List Scope} {names others : List String}

theorem refl (scopes : List Scope) : Gains scopes [] scopes := by
  cases scopes with
  | nil => exact .topLevel []
  | cons own outer => exact .inside .nil (fun _ member => nomatch member) (fun name => by simp)

theorem append (first : Gains scopes names middle) (second : Gains middle others after) :
    Gains scopes (names ++ others) after := by
  cases first with
  | topLevel _ =>
      cases second with
      | topLevel _ => exact .topLevel _
  | @inside own _ _ _ different new declares =>
      cases second with
      | inside differentToo newToo declaresToo =>
          have newToBoth : ∀ name ∈ others, name ∉ names ∧ own.declares name = false := by
            intro name member
            have undeclared := newToo name member
            rwa [← Bool.not_eq_true, declares, not_or, Bool.not_eq_true] at undeclared
          refine .inside ?_ ?_ ?_
          · refine List.nodup_append.2 ⟨different, differentToo, ?_⟩
            rintro name before _ behind rfl
            exact (newToBoth name behind).1 before
          · intro name member
            cases List.mem_append.1 member with
            | inl before => exact new name before
            | inr behind => exact (newToBoth name behind).2
          · intro name
            rw [declaresToo, declares, List.mem_append, or_left_comm, or_assoc]

/-- A scope that has gained a name declares it. -/
theorem declares (gains : Gains scopes names after) {name : String} (member : name ∈ names) :
    ∀ scope ∈ after.head?, scope.declares name = true := by
  cases gains with
  | topLevel _ => exact fun _ none => nomatch none
  | inside _ _ declares =>
      rintro scope ⟨⟩
      exact (declares name).2 (.inl member)

/-- What a scope gains is gained only there, and each name once. -/
theorem leave {own : Scope} (gains : Gains (own :: scopes) names after) :
    after.tail = scopes ∧ names.Nodup := by
  cases gains with
  | inside different _ _ => exact ⟨rfl, different⟩

end Gains

theorem Scope.declares_mark (scope : Scope) (name other : String) (ready : Bool) :
    (scope.mark name ready).declares other = true ↔
      other = name ∨ scope.declares other = true := by
  rw [declares, declares, ready?_mark]
  by_cases same : other = name <;> simp [same]

namespace Binder

variable {context : Context} {scopes after : List Scope} {name : Ident} {done : Unit}

theorem declare_gains (clean : (declare name).Clean context scopes done after) :
    Gains scopes [name.text] after := by
  obtain ⟨undeclared, rfl⟩ := declare_clean.1 clean
  cases scopes with
  | nil => exact .topLevel _
  | cons own outer =>
      refine .inside (List.nodup_singleton _) ?_ ?_
      · intro other member
        rw [List.mem_singleton.1 member]
        exact undeclared
      · intro other
        rw [Scope.declares_mark, List.mem_singleton]

/-- A name that is declared is made ready. -/
theorem define_gains (clean : (define name).Clean context scopes done after)
    (declared : ∀ scope ∈ scopes.head?, scope.declares name.text = true) :
    Gains scopes [] after := by
  obtain rfl := define_clean.1 clean
  cases scopes with
  | nil => exact .topLevel _
  | cons own outer =>
      refine .inside .nil (fun _ member => nomatch member) fun other => ?_
      rw [Scope.declares_mark]
      constructor
      · rintro (rfl | older)
        · exact .inr (declared own rfl)
        · exact .inr older
      · rintro (⟨⟨⟩⟩ | older)
        exact .inr older

theorem introduce_gains (clean : (introduce name).Clean context scopes done after) :
    Gains scopes [name.text] after := by
  obtain ⟨_, middle, declared, defined⟩ := clean.split fun _ => markInnermost_steady _ _
  have gains := declare_gains declared
  exact gains.append (define_gains defined (gains.declares List.mem_cons_self))

theorem introduceAll_gains {names : List Ident}
    (clean : (introduceAll names).Clean context scopes done after) :
    Gains scopes (names.map Ident.text) after := by
  induction names generalizing scopes with
  | nil =>
      obtain ⟨-, rfl⟩ := clean_pure.1 clean
      exact .refl _
  | cons name rest ih =>
      obtain ⟨_, middle, first, others⟩ := clean.split fun _ => introduceAll_steady rest
      exact (introduce_gains first).append (ih others)

end Binder

/-! ### Code that is bound -/

/-- What is known about code that is bound without errors: `plain` and `bound` are the names in it
before and after, and `found` is what it introduces into the scope around it. -/
structure Settled (found : List Introduced)
    (plain : List (List Introduced) → List (Mention Unit))
    (bound : List (List Introduced) → List (Mention Distance)) (scopes after : List Scope) :
    Prop where
  gains : Gains scopes (found.map Introduced.text) after
  names : ∀ around other, (bound around).map Mention.name = (plain other).map Mention.name
  placed : ∀ around, Separate around → (∀ own ∈ around.head?, found ⊆ own) →
    ∀ mention ∈ bound around, mention.Placed

namespace Settled

variable {found foundToo : List Introduced}
  {plain plainToo : List (List Introduced) → List (Mention Unit)}
  {bound boundToo : List (List Introduced) → List (Mention Distance)}
  {scopes middle after : List Scope}

/-- Code without names. -/
theorem nothing (scopes : List Scope) : Settled [] (fun _ => []) (fun _ => []) scopes scopes where
  gains := .refl scopes
  names := fun _ _ => rfl
  placed := fun _ _ _ _ member => nomatch member

/-- A name that is not introduced. -/
theorem mention (name : Ident) (before : Role Unit) (role : Role Distance)
    (introducesNone : ∀ around, Mention.introduces? ⟨name, role, around⟩ = none)
    (scopes : List Scope) :
    Settled [] (fun around => [⟨name, before, around⟩]) (fun around => [⟨name, role, around⟩])
      scopes scopes where
  gains := .refl scopes
  names := fun _ _ => rfl
  placed := by
    intro around separate _ mention member
    obtain rfl := List.mem_singleton.1 member
    refine ⟨separate, fun item isItem => ?_⟩
    rw [introducesNone] at isItem
    cases isItem

/-- Names that are introduced. -/
theorem introduction (make : Ident → Introduced) (role : Role Distance) (before : Role Unit)
    (introduces : ∀ name around, Mention.introduces? ⟨name, role, around⟩ = some (make name))
    (names : List Ident) (gains : Gains scopes ((names.map make).map Introduced.text) after) :
    Settled (names.map make) (fun around => names.map fun name => ⟨name, before, around⟩)
      (fun around => names.map fun name => ⟨name, role, around⟩) scopes after where
  gains := gains
  names := fun _ _ => by simp only [List.map_map, Function.comp_def]
  placed := by
    intro around separate held mention member
    obtain ⟨name, isName, rfl⟩ := List.mem_map.1 member
    refine ⟨separate, fun item isItem own isOwn => ?_⟩
    rw [introduces] at isItem
    cases isItem
    exact held own isOwn (List.mem_map_of_mem isName)

/-- Code one after the other. -/
theorem append (first : Settled found plain bound scopes middle)
    (second : Settled foundToo plainToo boundToo middle after) :
    Settled (found ++ foundToo) (fun around => plain around ++ plainToo around)
      (fun around => bound around ++ boundToo around) scopes after where
  gains := by
    rw [List.map_append]
    exact first.gains.append second.gains
  names := fun around other => by
    rw [List.map_append, List.map_append, first.names around other, second.names around other]
  placed := fun around separate held => List.forall_mem_append.2
    ⟨first.placed around separate fun own isOwn => (List.append_subset.1 (held own isOwn)).1,
      second.placed around separate fun own isOwn => (List.append_subset.1 (held own isOwn)).2⟩

/-- A step after which the innermost scope declares the same names. -/
theorem step (settled : Settled found plain bound scopes middle)
    (gains : Gains middle [] after) : Settled found plain bound scopes after where
  gains := by
    have both := settled.gains.append gains
    rwa [List.append_nil] at both
  names := settled.names
  placed := settled.placed

/-- Code in a scope of its own. -/
theorem enter {own : Scope} (settled : Settled found plain bound (own :: scopes) after)
    (inner : List Introduced) :
    Settled [] (fun around => plain (inner :: around)) (fun around => bound (found :: around))
      scopes after.tail where
  gains := by
    rw [settled.gains.leave.1]
    exact .refl scopes
  names := fun around other => settled.names _ _
  placed := by
    intro around separate _
    refine settled.placed _ (.cons settled.gains.leave.2 separate) ?_
    rintro _ ⟨⟩
    exact List.Subset.refl found

end Settled

/-! ### Expressions -/

namespace Expr

variable {context : Context}

mutual
/-- Binding an expression without errors leaves its names and the scopes as they are. -/
theorem bind_settled :
    ∀ {e : Expr Unit} {bound : Expr Distance} {scopes after : List Scope},
      e.bind.Clean context scopes bound after →
      Settled [] (mentions · e) (mentions · bound) scopes after
  | literal value, _, scopes, _, clean => by
      obtain ⟨rfl, rfl⟩ := Binder.clean_pure.1 clean
      exact .nothing _
  | read name _, _, _, _, clean => by
      obtain ⟨binding, used, rfl⟩ := Binder.clean_map.1 clean
      obtain ⟨-, -, rfl⟩ := Binder.use_clean.1 used
      exact .mention name _ (.reference binding) (fun _ => rfl) _
  | assign name _ value, _, _, _, clean => by
      obtain ⟨inner, middle, first, rest⟩ := clean.split fun _ =>
        (Binder.distance_steady _).bind fun _ => .pure _
      obtain ⟨binding, used, rfl⟩ := Binder.clean_map.1 rest
      obtain ⟨-, rfl⟩ := Binder.distance_clean.1 used
      exact (bind_settled first).append
        (.mention name _ (.reference binding) (fun _ => rfl) _)
  | unary op position operand, _, _, _, clean => by
      obtain ⟨inner, first, rfl⟩ := Binder.clean_map.1 clean
      have settled := bind_settled first
      exact settled
  | binary left op position right, _, _, _, clean => by
      obtain ⟨first, middle, isFirst, rest⟩ := clean.split fun _ =>
        (bind_steady right).bind fun _ => .pure _
      obtain ⟨second, isSecond, rfl⟩ := Binder.clean_map.1 rest
      exact (bind_settled isFirst).append (bind_settled isSecond)
  | logical left op right, _, _, _, clean => by
      obtain ⟨first, middle, isFirst, rest⟩ := clean.split fun _ =>
        (bind_steady right).bind fun _ => .pure _
      obtain ⟨second, isSecond, rfl⟩ := Binder.clean_map.1 rest
      exact (bind_settled isFirst).append (bind_settled isSecond)
  | grouping inner, _, _, _, clean => by
      obtain ⟨inner, first, rfl⟩ := Binder.clean_map.1 clean
      have settled := bind_settled first
      exact settled
  | call callee arguments close, _, _, _, clean => by
      obtain ⟨first, middle, isFirst, rest⟩ := clean.split fun _ =>
        (bindAll_steady arguments).bind fun _ => .pure _
      obtain ⟨second, isSecond, rfl⟩ := Binder.clean_map.1 rest
      exact (bind_settled isFirst).append (bindAll_settled isSecond)
  | get object name, _, _, _, clean => by
      obtain ⟨inner, first, rfl⟩ := Binder.clean_map.1 clean
      exact (bind_settled first).append (.mention name _ .property (fun _ => rfl) _)
  | set object name value, _, _, _, clean => by
      obtain ⟨second, middle, isSecond, rest⟩ := clean.split fun _ =>
        (bind_steady object).bind fun _ => .pure _
      obtain ⟨first, isFirst, rfl⟩ := Binder.clean_map.1 rest
      exact ((bind_settled isSecond).append (bind_settled isFirst)).append
        (.mention name _ .property (fun _ => rfl) _)
  | receiver keyword _, _, _, _, clean => by
      obtain ⟨binding, used, rfl⟩ := Binder.clean_map.1 clean
      obtain ⟨-, -, rfl⟩ := Binder.useReceiver_clean.1 used
      exact .nothing _
  | superMethod keyword _ method, _, _, _, clean => by
      obtain ⟨binding, used, rfl⟩ := Binder.clean_map.1 clean
      obtain ⟨-, -, rfl⟩ := Binder.useSuper_clean.1 used
      exact .mention method _ .property (fun _ => rfl) _

theorem bindAll_settled :
    ∀ {es : List (Expr Unit)} {bound : List (Expr Distance)} {scopes after : List Scope},
      (bindAll es).Clean context scopes bound after →
      Settled [] (mentionsAll · es) (mentionsAll · bound) scopes after
  | [], _, _, _, clean => by
      obtain ⟨rfl, rfl⟩ := Binder.clean_pure.1 clean
      exact .nothing _
  | e :: others, _, _, _, clean => by
      obtain ⟨first, middle, isFirst, rest⟩ := clean.split fun _ =>
        (bindAll_steady others).bind fun _ => .pure _
      obtain ⟨second, isSecond, rfl⟩ := Binder.clean_map.1 rest
      exact (bind_settled isFirst).append (bindAll_settled isSecond)
end

theorem bindOpt_settled {e : Option (Expr Unit)} {bound : Option (Expr Distance)}
    {scopes after : List Scope} (clean : (bindOpt e).Clean context scopes bound after) :
    Settled [] (mentionsOpt · e) (mentionsOpt · bound) scopes after := by
  cases e with
  | none =>
      obtain ⟨rfl, rfl⟩ := Binder.clean_pure.1 clean
      exact .nothing _
  | some e =>
      obtain ⟨inner, first, rfl⟩ := Binder.clean_map.1 clean
      exact bind_settled first

end Expr

/-! ### Statements -/

namespace Stmt

theorem introduced_settled {name : Ident} {context : Context} {scopes after : List Scope}
    {done : Unit} (clean : (Binder.introduce name).Clean context scopes done after) :
    Settled [.callable name] (fun around => [⟨name, .callable, around⟩])
      (fun around => [⟨name, .callable, around⟩]) scopes after :=
  .introduction .callable .callable .callable (fun _ _ => rfl) [name]
    (Binder.introduce_gains clean)

/-- The parameters and the body of a function are bound in one scope. -/
theorem bindBody_settled {name : Ident} {parameters : List Ident} {context : Context}
    {body : List (Stmt Unit)} {bound : List (Stmt Distance)} {scopes after : List Scope}
    (inner : ∀ {scopes after : List Scope}, (bindAll body).Clean context scopes bound after →
      Settled (introducedAll bound) (mentionsAll · body) (mentionsAll · bound) scopes after)
    (clean : (Binder.within .empty do
      Binder.introduceAll parameters
      bindAll body).Clean context scopes bound after) :
    Settled [] (mentionsFunction · (.mk name parameters body))
      (mentionsFunction · (.mk name parameters bound)) scopes after := by
  obtain ⟨whole, entered, rfl⟩ := Binder.within_clean.1 clean
  obtain ⟨_, middle, introduced, rest⟩ := entered.split fun _ => bindAll_steady _
  have gains : Gains (.empty :: scopes) ((parameters.map .slot).map Introduced.text) middle := by
    rw [List.map_map]
    exact Binder.introduceAll_gains introduced
  have settled := (Settled.introduction .slot .slot .slot (fun _ _ => rfl) parameters gains).append
    (inner rest)
  exact settled.enter _

mutual
/-- Binding a statement without errors leaves its names as they are, and the scope around it gains
what the statement introduces. -/
theorem bind_settled :
    ∀ {s : Stmt Unit} {bound : Stmt Distance} {context : Context} {scopes after : List Scope},
      s.bind.Clean context scopes bound after →
      Settled bound.introduced (mentions · s) (mentions · bound) scopes after
  | expression value, _, _, _, _, clean => by
      obtain ⟨inner, first, rfl⟩ := Binder.clean_map.1 clean
      exact Expr.bind_settled first
  | print value, _, _, _, _, clean => by
      obtain ⟨inner, first, rfl⟩ := Binder.clean_map.1 clean
      exact Expr.bind_settled first
  | declare name initializer, _, _, _, _, clean => by
      obtain ⟨_, begun, declared, rest⟩ := clean.split fun _ =>
        (Expr.bindOpt_steady _).bind fun _ =>
          (Binder.markInnermost_steady _ _).bind fun _ => .pure _
      obtain ⟨value, middle, valued, rest⟩ := rest.split fun _ =>
        (Binder.markInnermost_steady _ _).bind fun _ => .pure _
      obtain ⟨_, defined, rfl⟩ := Binder.clean_map.1 rest
      have declares := Settled.introduction .slot .slot .slot (fun _ _ => rfl) [name]
        (Binder.declare_gains declared)
      have settled := declares.append (Expr.bindOpt_settled valued)
      exact settled.step (Binder.define_gains defined (settled.gains.declares List.mem_cons_self))
  | block body, _, _, _, _, clean => by
      obtain ⟨inner, first, rfl⟩ := Binder.clean_map.1 clean
      obtain ⟨whole, entered, rfl⟩ := Binder.within_clean.1 first
      exact (bindAll_settled entered).enter _
  | branch condition thenBranch none, _, _, _, _, clean => by
      obtain ⟨value, middle, valued, rest⟩ := clean.split fun _ =>
        (bind_steady _).bind fun _ => .pure _
      obtain ⟨inner, taken, rfl⟩ := Binder.clean_map.1 rest
      exact (Expr.bind_settled valued).append (bind_settled taken)
  | branch condition thenBranch (some elseBranch), _, _, _, _, clean => by
      obtain ⟨value, middle, valued, rest⟩ := clean.split fun _ =>
        (bind_steady _).bind fun _ => (bind_steady _).bind fun _ => .pure _
      obtain ⟨inner, later, taken, rest⟩ := rest.split fun _ =>
        (bind_steady _).bind fun _ => .pure _
      obtain ⟨other, skipped, rfl⟩ := Binder.clean_map.1 rest
      exact (Expr.bind_settled valued).append ((bind_settled taken).append (bind_settled skipped))
  | loop condition body, _, _, _, _, clean => by
      obtain ⟨value, middle, valued, rest⟩ := clean.split fun _ =>
        (bind_steady _).bind fun _ => .pure _
      obtain ⟨inner, taken, rfl⟩ := Binder.clean_map.1 rest
      exact (Expr.bind_settled valued).append (bind_settled taken)
  | ret keyword value, _, _, _, _, clean => by
      obtain ⟨_, middle, checked, rest⟩ := clean.split fun _ =>
        (Expr.bindOpt_steady _).bind fun _ => .pure _
      obtain ⟨inner, valued, rfl⟩ := Binder.clean_map.1 rest
      obtain ⟨-, rfl⟩ := Binder.checkReturn_clean.1 checked
      exact Expr.bindOpt_settled valued
  | function (.mk name parameters body), _, _, _, _, clean => by
      obtain ⟨middle, inner, introduced, bodied, rfl⟩ := function_clean.1 clean
      exact (introduced_settled introduced).append (bindBody_settled bindAll_settled bodied)
  | classDecl name none methods, _, _, _, _, clean => by
      obtain ⟨middle, inner, introduced, bodied, rfl⟩ := class_clean.1 clean
      obtain ⟨whole, entered, rfl⟩ := Binder.within_clean.1 bodied
      exact (introduced_settled introduced).append ((bindMethods_settled entered).enter _)
  | classDecl name (some (superclass, _)) methods, _, _, _, _, clean => by
      obtain ⟨middle, binding, inner, introduced, -, used, bodied, rfl⟩ := subclass_clean.1 clean
      obtain ⟨around, within', rfl⟩ := Binder.within_clean.1 bodied
      obtain ⟨whole, entered, rfl⟩ := Binder.within_clean.1 within'
      exact (introduced_settled introduced).append
        (Settled.append (.mention superclass _ (.reference binding) (fun _ => rfl) _)
          (((bindMethods_settled entered).enter _).enter _))

theorem bindMethods_settled :
    ∀ {methods : List (Function Unit)} {bound : List (Function Distance)} {context : Context}
      {scopes after : List Scope}, (bindMethods methods).Clean context scopes bound after →
      Settled [] (mentionsMethods · methods) (mentionsMethods · bound) scopes after
  | [], _, _, _, _, clean => by
      obtain ⟨rfl, rfl⟩ := Binder.clean_pure.1 clean
      exact .nothing _
  | .mk name parameters body :: others, _, _, _, _, clean => by
      obtain ⟨middle, inner, bound, bodied, later, rfl⟩ := methods_clean.1 clean
      have named := Settled.mention name .property .property (fun _ => rfl)
      exact (Settled.append (named _) (bindBody_settled bindAll_settled bodied)).append
        (bindMethods_settled later)

theorem bindAll_settled :
    ∀ {ss : List (Stmt Unit)} {bound : List (Stmt Distance)} {context : Context}
      {scopes after : List Scope}, (bindAll ss).Clean context scopes bound after →
      Settled (introducedAll bound) (mentionsAll · ss) (mentionsAll · bound) scopes after
  | [], _, _, _, _, clean => by
      obtain ⟨rfl, rfl⟩ := Binder.clean_pure.1 clean
      exact .nothing _
  | s :: others, _, _, _, _, clean => by
      obtain ⟨bound, middle, one, rest⟩ := clean.split fun _ =>
        (bindAll_steady others).bind fun _ => .pure _
      obtain ⟨more, later, rfl⟩ := Binder.clean_map.1 rest
      exact (bind_settled one).append (bindAll_settled later)
end

end Stmt

/-! ### Programs -/

namespace Program

variable {plain : Program.Plain} {program : Program Distance}

theorem settled_of_bind (bound : bind plain = { program := program, errors := #[] }) :
    ∃ after, Settled (Stmt.introducedAll program) (Stmt.mentionsAll · plain)
      (Stmt.mentionsAll · program) [] after := by
  obtain ⟨after, clean⟩ := clean_of_bind bound
  exact ⟨after, Stmt.bindAll_settled clean⟩

/-- In a program that is bound without errors no scope introduces a name twice. -/
theorem placed_of_bind (bound : bind plain = { program := program, errors := #[] }) :
    ∀ mention ∈ program.mentions, mention.Placed := by
  obtain ⟨after, settled⟩ := settled_of_bind bound
  exact settled.placed [] .nil fun _ none => nomatch none

/-- A program that is bound without errors has the names that it had before. -/
theorem names_of_bind (bound : bind plain = { program := program, errors := #[] }) :
    program.mentions.map Mention.name = plain.mentions.map Mention.name := by
  obtain ⟨after, settled⟩ := settled_of_bind bound
  exact settled.names [] []

end Program

end LoxLang
