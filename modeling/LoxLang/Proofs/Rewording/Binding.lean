/-
Module: LoxLang.Proofs.Rewording.Binding
Purpose: Binding follows a rewording.  If a program is bound without errors and a rewording renames
  its variables scope by scope, then the reworded program is bound without errors as well, and
  every reference at the same distance as before.
Main exports: Scope.reword, Fitting, Binder.use_reword, Expr.bind_reword, Stmt.bind_reword,
  Program.bind_reword
-/
import LoxLang.Proofs.Rewording.Scope
import LoxLang.Proofs.Scope.Clean

namespace LoxLang

variable {vocabulary : Vocabulary} {change : Rewording}

/-! ### Scopes with other names -/

/-- A scope with its names renamed. -/
def Scope.reword (own : Renaming) (scope : Scope) : Scope where
  names := scope.names.map fun entry => (own.rename entry.1, entry.2)

namespace Scope

theorem ready?_reword (own : Renaming) (scope : Scope) (name : String) :
    (scope.reword own).ready? (own.rename name) = scope.ready? name := by
  rcases scope with ⟨entries⟩
  simp only [ready?, reword]
  induction entries with
  | nil => rfl
  | cons entry rest ih =>
      rcases entry with ⟨key, value⟩
      by_cases same : name = key
      · simp [same]
      · have different : own.rename name ≠ own.rename key := fun equal =>
          same (own.rename_inj.1 equal)
        simp only [List.map_cons, List.lookup_cons, beq_false_of_ne different,
          beq_false_of_ne same, ih]

theorem declares_reword (own : Renaming) (scope : Scope) (name : String) :
    (scope.reword own).declares (own.rename name) = scope.declares name := by
  rw [declares, ready?_reword, ← declares]

theorem mark_reword (own : Renaming) (scope : Scope) (name : String) (ready : Bool) :
    (scope.mark name ready).reword own = (scope.reword own).mark (own.rename name) ready := by
  have others : ∀ entry : String × Bool, decide (own.rename entry.1 ≠ own.rename name) =
      decide (entry.1 ≠ name) := fun entry => by simp only [ne_eq, own.rename_inj]
  simp only [mark, reword, List.map_cons, List.filter_map, Function.comp_def, others]

/-- A scope that declares a renamed name declares the name itself. -/
theorem declares_of_reword {own other : Renaming} {scope : Scope} {name : String}
    (allowed : vocabulary.allows own) (allowedOther : vocabulary.allows other)
    (held : ∀ entry ∈ scope.names, vocabulary.holds entry.1) (holds : vocabulary.holds name)
    (isDeclared : (scope.reword own).declares (other.rename name) = true) :
    scope.declares name = true := by
  obtain ⟨ready, found⟩ := Option.isSome_iff_exists.1 isDeclared
  obtain ⟨before, rest, split, -⟩ := List.lookup_eq_some_iff.1 found
  have stored : (other.rename name, ready) ∈ (scope.reword own).names := by
    rw [split]
    exact List.mem_append_right _ (List.mem_cons_self ..)
  obtain ⟨entry, member, same⟩ := List.mem_map.1 stored
  obtain ⟨renames, -⟩ := Prod.mk.inj same
  have equal := vocabulary.apart allowed allowedOther (held entry member) holds renames
  rw [← equal, ← declares_reword own, declares, ready?, renames]
  exact isDeclared

end Scope

/-- Scopes with their names renamed, each in its own way. -/
def rewordScopes (renamings : List Renaming) (scopes : List Scope) : List Scope :=
  List.zipWith Scope.reword renamings scopes

/-- There is an allowed renaming for each scope, and the scopes hold names that are renamed. -/
inductive Fitting (vocabulary : Vocabulary) : List Renaming → List Scope → Prop where
  | nil : Fitting vocabulary [] []
  | cons {own : Renaming} {scope : Scope} {renamings : List Renaming} {scopes : List Scope}
      (allowed : vocabulary.allows own) (held : ∀ entry ∈ scope.names, vocabulary.holds entry.1)
      (rest : Fitting vocabulary renamings scopes) :
      Fitting vocabulary (own :: renamings) (scope :: scopes)

namespace Fitting

variable {renamings : List Renaming} {scopes : List Scope} {name : String}

theorem enter {own : Renaming} (fitting : Fitting vocabulary renamings scopes)
    (allowed : vocabulary.allows own) : Fitting vocabulary (own :: renamings) (.empty :: scopes) :=
  .cons allowed (fun _ member => nomatch member) fitting

theorem hold (fitting : Fitting vocabulary renamings scopes) (held : vocabulary.holds name) :
    Fitting vocabulary (.keep :: renamings) (.holding name :: scopes) := by
  refine .cons vocabulary.allowsKeep (fun entry member => ?_) fitting
  cases List.mem_singleton.1 member
  exact held

theorem leave {own : Renaming} (fitting : Fitting vocabulary (own :: renamings) scopes) :
    Fitting vocabulary renamings scopes.tail ∧
      (rewordScopes (own :: renamings) scopes).tail = rewordScopes renamings scopes.tail := by
  cases fitting with
  | cons _ _ rest => exact ⟨rest, rfl⟩

/-- The renaming of every scope is allowed. -/
theorem allows (fitting : Fitting vocabulary renamings scopes) (distance : Nat) :
    vocabulary.allows (renamings.getD distance .keep) := by
  induction fitting generalizing distance with
  | nil => exact vocabulary.allowsKeep
  | cons allowed held rest ih =>
      cases distance with
      | zero => exact allowed
      | succ distance => exact ih distance

/-- Marking a name in the innermost scope. -/
theorem markIn (fitting : Fitting vocabulary renamings scopes) (held : vocabulary.holds name)
    (ready : Bool) :
    Fitting vocabulary renamings (Binder.markIn name ready scopes) ∧
      Binder.markIn ((innermost renamings).rename name) ready (rewordScopes renamings scopes) =
        rewordScopes renamings (Binder.markIn name ready scopes) := by
  cases fitting with
  | nil => exact ⟨.nil, rfl⟩
  | @cons own scope renamings scopes allowed others rest =>
      refine ⟨.cons allowed ?_ rest, ?_⟩
      · intro entry member
        cases List.mem_cons.1 member with
        | inl isNew => exact isNew ▸ held
        | inr old => exact others entry (List.mem_filter.1 old).1
      · simp only [rewordScopes, Binder.markIn, List.zipWith_cons_cons, Scope.mark_reword]
        rfl

/-- A name that no scope declares is declared by no scope under any of its new names. -/
theorem undeclared (fitting : Fitting vocabulary renamings scopes) (held : vocabulary.holds name)
    {other : Renaming} (allowed : vocabulary.allows other)
    (missing : (scopes.findIdx? fun scope => scope.declares name) = none) :
    ((rewordScopes renamings scopes).findIdx? fun scope =>
      scope.declares (other.rename name)) = none := by
  induction fitting with
  | nil => rfl
  | @cons own scope renamings scopes allowedOwn others rest ih =>
      rw [List.findIdx?_eq_none_iff] at missing
      have here := missing scope (List.mem_cons_self ..)
      have elsewhere := ih (List.findIdx?_eq_none_iff.2 fun other member =>
        missing other (List.mem_cons_of_mem _ member))
      have notHere : (scope.reword own).declares (other.rename name) = false := by
        rw [← Bool.not_eq_true]
        intro isDeclared
        have declared := Scope.declares_of_reword allowedOwn allowed others held isDeclared
        rw [here] at declared
        cases declared
      rw [rewordScopes, List.zipWith_cons_cons, List.findIdx?_cons, notHere]
      simp only [Bool.false_eq_true, ↓reduceIte, Option.map_eq_none_iff]
      exact elsewhere

/-- A renamed name is bound at the distance of the name. -/
theorem distance (fitting : Fitting vocabulary renamings scopes) (held : vocabulary.holds name) :
    ((rewordScopes renamings scopes).findIdx? fun scope => scope.declares (renamed renamings
      (scopes.findIdx? fun scope => scope.declares name) name)) =
        scopes.findIdx? fun scope => scope.declares name := by
  cases found : (scopes.findIdx? fun scope => scope.declares name) with
  | none => exact fitting.undeclared held vocabulary.allowsKeep found
  | some distance =>
      induction fitting generalizing distance with
      | nil => cases found
      | @cons own scope renamings scopes allowed others rest ih =>
          rw [List.findIdx?_cons] at found
          rw [rewordScopes, List.zipWith_cons_cons, List.findIdx?_cons]
          cases here : scope.declares name with
          | true =>
              rw [here, if_pos rfl] at found
              cases found
              have again : (scope.reword own).declares (own.rename name) = true := by
                rw [Scope.declares_reword, here]
              rw [renamed, List.getD_cons_zero, again, if_pos rfl]
          | false =>
              simp only [here, Bool.false_eq_true, ↓reduceIte, Option.map_eq_some_iff] at found
              obtain ⟨less, foundRest, rfl⟩ := found
              have notHere : (scope.reword own).declares
                  ((renamings.getD less .keep).rename name) = false := by
                rw [← Bool.not_eq_true]
                intro isDeclared
                have declared := Scope.declares_of_reword allowed (rest.allows less) others held
                  isDeclared
                rw [here] at declared
                cases declared
              have onwards := ih less foundRest
              rw [renamed] at onwards
              rw [renamed, List.getD_cons_succ, notHere]
              simp only [Bool.false_eq_true, ↓reduceIte, Option.map_eq_some_iff]
              exact ⟨less, onwards, rfl⟩

/-- A name that no scope renames is bound at its distance. -/
theorem distance_fixed (fitting : Fitting vocabulary renamings scopes)
    (held : vocabulary.holds name) (isFixed : ∀ own : Renaming, own.rename name = name) :
    ((rewordScopes renamings scopes).findIdx? fun scope => scope.declares name) =
      scopes.findIdx? fun scope => scope.declares name := by
  have found := fitting.distance held
  have same : ∀ binding, renamed renamings binding name = name := by
    intro binding
    cases binding with
    | none => rfl
    | some distance => exact isFixed _
  rwa [same] at found

end Fitting

/-! ### Steps of binding -/

namespace Binder

variable {renamings : List Renaming} {scopes after : List Scope} {name : Ident}
  {binding : Distance} {done : Unit} {context : Context} {keyword : Position}

theorem declare_reword (fitting : Fitting vocabulary renamings scopes)
    (declares : name.Declares vocabulary change renamings)
    (clean : (declare name).Clean context scopes done after) :
    Fitting vocabulary renamings after ∧
      (declare (name.reword change)).Clean context (rewordScopes renamings scopes) done
        (rewordScopes renamings after) := by
  obtain ⟨undeclared, rfl⟩ := declare_clean.1 clean
  obtain ⟨still, marks⟩ := fitting.markIn declares.1 false
  refine ⟨still, declare_clean.2 ⟨?_, ?_⟩⟩
  · rw [Ident.text_reword, declares.2]
    cases fitting with
    | nil => rfl
    | cons allowed held rest =>
        simp only [rewordScopes, List.zipWith_cons_cons, List.head?_cons, Option.any_some,
          innermost, List.headD_cons, Scope.declares_reword] at undeclared ⊢
        exact undeclared
  · rw [Ident.text_reword, declares.2, marks]

theorem define_reword (fitting : Fitting vocabulary renamings scopes)
    (declares : name.Declares vocabulary change renamings)
    (clean : (define name).Clean context scopes done after) :
    Fitting vocabulary renamings after ∧
      (define (name.reword change)).Clean context (rewordScopes renamings scopes) done
        (rewordScopes renamings after) := by
  obtain rfl := define_clean.1 clean
  obtain ⟨still, marks⟩ := fitting.markIn declares.1 true
  refine ⟨still, define_clean.2 ?_⟩
  rw [Ident.text_reword, declares.2, marks]

theorem introduce_reword (fitting : Fitting vocabulary renamings scopes)
    (declares : name.Declares vocabulary change renamings)
    (clean : (introduce name).Clean context scopes done after) :
    Fitting vocabulary renamings after ∧
      (introduce (name.reword change)).Clean context (rewordScopes renamings scopes) done
        (rewordScopes renamings after) := by
  obtain ⟨_, middle, declared, defined⟩ := clean.split fun _ => markInnermost_steady _ _
  obtain ⟨fits, first⟩ := declare_reword fitting declares declared
  obtain ⟨still, second⟩ := define_reword fits declares defined
  exact ⟨still, first.bind second⟩

theorem introduceAll_reword {own : Renaming} {names : List Ident}
    (fitting : Fitting vocabulary (own :: renamings) scopes)
    (declares : ∀ name ∈ names, name.Declares vocabulary change [own])
    (clean : (introduceAll names).Clean context scopes done after) :
    Fitting vocabulary (own :: renamings) after ∧
      (introduceAll (names.map (Ident.reword change))).Clean context
        (rewordScopes (own :: renamings) scopes) done
        (rewordScopes (own :: renamings) after) := by
  induction names generalizing scopes with
  | nil =>
      obtain ⟨-, rfl⟩ := clean_pure.1 clean
      exact ⟨fitting, clean_pure.2 ⟨rfl, rfl⟩⟩
  | cons name rest ih =>
      obtain ⟨_, middle, introduced, others⟩ := clean.split fun _ => introduceAll_steady rest
      obtain ⟨fits, first⟩ := introduce_reword fitting (declares name (List.mem_cons_self ..))
        introduced
      obtain ⟨still, second⟩ := ih fits
        (fun other member => declares other (List.mem_cons_of_mem _ member)) others
      exact ⟨still, first.bind second⟩

theorem distance_reword (fitting : Fitting vocabulary renamings scopes)
    (refers : name.Refers vocabulary change renamings binding)
    (clean : (distance name.text).Clean context scopes binding after) :
    after = scopes ∧ (distance (name.reword change).text).Clean context
      (rewordScopes renamings scopes) binding (rewordScopes renamings scopes) := by
  obtain ⟨rfl, rfl⟩ := distance_clean.1 clean
  refine ⟨rfl, distance_clean.2 ⟨?_, rfl⟩⟩
  rw [Ident.text_reword, refers.2]
  exact (fitting.distance refers.1).symm

theorem use_reword (fitting : Fitting vocabulary renamings scopes)
    (refers : name.Refers vocabulary change renamings binding)
    (clean : (use name).Clean context scopes binding after) :
    after = scopes ∧ (use (name.reword change)).Clean context
      (rewordScopes renamings scopes) binding (rewordScopes renamings scopes) := by
  obtain ⟨ready, isBinding, rfl⟩ := use_clean.1 clean
  have found : (distance name.text).Clean context after binding after :=
    distance_clean.2 ⟨isBinding, rfl⟩
  obtain ⟨-, distant⟩ := distance_reword fitting refers found
  refine ⟨rfl, use_clean.2 ⟨?_, distance_clean.1 distant⟩⟩
  rw [Ident.text_reword, refers.2]
  cases fitting with
  | nil => rfl
  | @cons own scope renamings scopes allowed held rest =>
      simp only [awaits, rewordScopes, List.zipWith_cons_cons, List.head?_cons, Option.any_some,
        decide_eq_false_iff_not] at ready ⊢
      intro isAwaited
      -- only the scope that binds the name could await it, and there it is ready
      have allowedOther : ∃ other : Renaming, vocabulary.allows other ∧
          renamed (own :: renamings) binding name.text = other.rename name.text := by
        cases binding with
        | none => exact ⟨.keep, vocabulary.allowsKeep, rfl⟩
        | some distance => exact ⟨_, (Fitting.cons allowed held rest).allows distance, rfl⟩
      obtain ⟨other, isAllowed, isOther⟩ := allowedOther
      have declared : scope.declares name.text = true := by
        apply Scope.declares_of_reword allowed isAllowed held refers.1
        rw [← isOther, Scope.declares, isAwaited]
        rfl
      rw [List.findIdx?_cons, declared, if_pos rfl] at isBinding
      rw [isBinding, renamed, List.getD_cons_zero, Scope.ready?_reword] at isAwaited
      exact ready isAwaited

theorem useReceiver_reword (change : Rewording) (fitting : Fitting vocabulary renamings scopes)
    (clean : (useReceiver keyword).Clean context scopes binding after) :
    after = scopes ∧ (useReceiver (change.move keyword)).Clean context
      (rewordScopes renamings scopes) binding (rewordScopes renamings scopes) := by
  obtain ⟨inside, rfl, rfl⟩ := useReceiver_clean.1 clean
  refine ⟨rfl, useReceiver_clean.2 ⟨inside, ?_, rfl⟩⟩
  exact (fitting.distance_fixed vocabulary.holdsReceiver Renaming.receiver).symm

theorem useSuper_reword (change : Rewording) (fitting : Fitting vocabulary renamings scopes)
    (clean : (useSuper keyword).Clean context scopes binding after) :
    after = scopes ∧ (useSuper (change.move keyword)).Clean context
      (rewordScopes renamings scopes) binding (rewordScopes renamings scopes) := by
  obtain ⟨inside, rfl, rfl⟩ := useSuper_clean.1 clean
  refine ⟨rfl, useSuper_clean.2 ⟨inside, ?_, rfl⟩⟩
  exact (fitting.distance_fixed vocabulary.holdsSuperclass Renaming.superclass).symm

theorem checkReturn_reword (change : Rewording) (renamings : List Renaming) {hasValue : Bool}
    (clean : (checkReturn keyword hasValue).Clean context scopes done after) :
    after = scopes ∧ (checkReturn (change.move keyword) hasValue).Clean context
      (rewordScopes renamings scopes) done (rewordScopes renamings scopes) := by
  obtain ⟨allowed, rfl⟩ := checkReturn_clean.1 clean
  exact ⟨rfl, checkReturn_clean.2 ⟨allowed, rfl⟩⟩

/-- A superclass that is renamed to the name of the class would have been called so before. -/
theorem superclass_differs {superclass : Ident} (fitting : Fitting vocabulary renamings scopes)
    (introduces : name.Introduces vocabulary change renamings)
    (refers : superclass.Refers vocabulary change renamings binding)
    (different : superclass.text ≠ name.text) :
    (superclass.reword change).text ≠ (name.reword change).text := by
  rw [Ident.text_reword, Ident.text_reword, refers.2, introduces.2]
  intro same
  cases binding with
  | none => exact different same
  | some distance =>
      exact different (vocabulary.apart (fitting.allows distance) vocabulary.allowsKeep refers.1
        introduces.1.1 same)

end Binder

/-! ### Expressions -/

namespace Expr

variable {renamings : List Renaming} {scopes after : List Scope} {context : Context}

mutual
/-- An expression with other words is bound as the expression is. -/
theorem bind_reword :
    ∀ {e : Expr Unit} {bound : Expr Distance} {scopes after : List Scope},
      Fitting vocabulary renamings scopes → e.bind.Clean context scopes bound after →
      bound.Consistent vocabulary change renamings →
      after = scopes ∧ (e.reword change).bind.Clean context (rewordScopes renamings scopes)
        (bound.reword change) (rewordScopes renamings scopes)
  | literal value, _, _, _, fitting, clean, _ => by
      obtain ⟨rfl, rfl⟩ := Binder.clean_pure.1 clean
      exact ⟨rfl, Binder.clean_pure.2 ⟨rfl, rfl⟩⟩
  | read name _, _, _, _, fitting, clean, consistent => by
      obtain ⟨binding, used, rfl⟩ := Binder.clean_map.1 clean
      obtain ⟨rfl, again⟩ := Binder.use_reword fitting consistent used
      exact ⟨rfl, again.map _⟩
  | assign name _ value, _, _, _, fitting, clean, consistent => by
      obtain ⟨inner, middle, first, rest⟩ := clean.split fun _ =>
        (Binder.distance_steady _).bind fun _ => .pure _
      obtain ⟨binding, second, rfl⟩ := Binder.clean_map.1 rest
      obtain ⟨rfl, valued⟩ := bind_reword fitting first consistent.2
      obtain ⟨rfl, distant⟩ := Binder.distance_reword fitting consistent.1 second
      exact ⟨rfl, valued.bind (distant.map _)⟩
  | unary op position operand, _, _, _, fitting, clean, consistent => by
      obtain ⟨inner, first, rfl⟩ := Binder.clean_map.1 clean
      obtain ⟨rfl, again⟩ := bind_reword fitting first consistent
      exact ⟨rfl, again.map _⟩
  | binary left op position right, _, _, _, fitting, clean, consistent => by
      obtain ⟨first, middle, isFirst, rest⟩ := clean.split fun _ =>
        (bind_steady right).bind fun _ => .pure _
      obtain ⟨second, isSecond, rfl⟩ := Binder.clean_map.1 rest
      obtain ⟨rfl, before⟩ := bind_reword fitting isFirst consistent.1
      obtain ⟨rfl, behind⟩ := bind_reword fitting isSecond consistent.2
      exact ⟨rfl, before.bind (behind.map _)⟩
  | logical left op right, _, _, _, fitting, clean, consistent => by
      obtain ⟨first, middle, isFirst, rest⟩ := clean.split fun _ =>
        (bind_steady right).bind fun _ => .pure _
      obtain ⟨second, isSecond, rfl⟩ := Binder.clean_map.1 rest
      obtain ⟨rfl, before⟩ := bind_reword fitting isFirst consistent.1
      obtain ⟨rfl, behind⟩ := bind_reword fitting isSecond consistent.2
      exact ⟨rfl, before.bind (behind.map _)⟩
  | grouping inner, _, _, _, fitting, clean, consistent => by
      obtain ⟨part, first, rfl⟩ := Binder.clean_map.1 clean
      obtain ⟨rfl, again⟩ := bind_reword fitting first consistent
      exact ⟨rfl, again.map _⟩
  | call callee arguments close, _, _, _, fitting, clean, consistent => by
      obtain ⟨first, middle, isFirst, rest⟩ := clean.split fun _ =>
        (bindAll_steady arguments).bind fun _ => .pure _
      obtain ⟨second, isSecond, rfl⟩ := Binder.clean_map.1 rest
      obtain ⟨rfl, before⟩ := bind_reword fitting isFirst consistent.1
      obtain ⟨rfl, behind⟩ := bindAll_reword fitting isSecond consistent.2
      exact ⟨rfl, before.bind (behind.map _)⟩
  | get object name, _, _, _, fitting, clean, consistent => by
      obtain ⟨part, first, rfl⟩ := Binder.clean_map.1 clean
      obtain ⟨rfl, again⟩ := bind_reword fitting first consistent.1
      exact ⟨rfl, again.map _⟩
  | set object name value, _, _, _, fitting, clean, consistent => by
      obtain ⟨first, middle, isFirst, rest⟩ := clean.split fun _ =>
        (bind_steady object).bind fun _ => .pure _
      obtain ⟨second, isSecond, rfl⟩ := Binder.clean_map.1 rest
      obtain ⟨rfl, before⟩ := bind_reword fitting isFirst consistent.2.1
      obtain ⟨rfl, behind⟩ := bind_reword fitting isSecond consistent.1
      exact ⟨rfl, before.bind (behind.map _)⟩
  | receiver keyword _, _, _, _, fitting, clean, _ => by
      obtain ⟨binding, used, rfl⟩ := Binder.clean_map.1 clean
      obtain ⟨rfl, again⟩ := Binder.useReceiver_reword change fitting used
      exact ⟨rfl, again.map _⟩
  | superMethod keyword _ method, _, _, _, fitting, clean, _ => by
      obtain ⟨binding, used, rfl⟩ := Binder.clean_map.1 clean
      obtain ⟨rfl, again⟩ := Binder.useSuper_reword change fitting used
      exact ⟨rfl, again.map _⟩

theorem bindAll_reword :
    ∀ {es : List (Expr Unit)} {bound : List (Expr Distance)} {scopes after : List Scope},
      Fitting vocabulary renamings scopes → (bindAll es).Clean context scopes bound after →
      ConsistentAll vocabulary change renamings bound →
      after = scopes ∧ (bindAll (rewordAll change es)).Clean context
        (rewordScopes renamings scopes) (rewordAll change bound) (rewordScopes renamings scopes)
  | [], _, _, _, fitting, clean, _ => by
      obtain ⟨rfl, rfl⟩ := Binder.clean_pure.1 clean
      exact ⟨rfl, Binder.clean_pure.2 ⟨rfl, rfl⟩⟩
  | e :: rest, _, _, _, fitting, clean, consistent => by
      obtain ⟨first, middle, isFirst, more⟩ := clean.split fun _ =>
        (bindAll_steady rest).bind fun _ => .pure _
      obtain ⟨second, isSecond, rfl⟩ := Binder.clean_map.1 more
      obtain ⟨rfl, before⟩ := bind_reword fitting isFirst consistent.1
      obtain ⟨rfl, behind⟩ := bindAll_reword fitting isSecond consistent.2
      exact ⟨rfl, before.bind (behind.map _)⟩
end

theorem bindOpt_reword (fitting : Fitting vocabulary renamings scopes) {e : Option (Expr Unit)}
    {bound : Option (Expr Distance)} (clean : (bindOpt e).Clean context scopes bound after)
    (consistent : ConsistentOpt vocabulary change renamings bound) :
    after = scopes ∧ (bindOpt (e.map (reword change))).Clean context
      (rewordScopes renamings scopes) (bound.map (reword change))
      (rewordScopes renamings scopes) := by
  cases e with
  | none =>
      obtain ⟨rfl, rfl⟩ := Binder.clean_pure.1 clean
      exact ⟨rfl, Binder.clean_pure.2 ⟨rfl, rfl⟩⟩
  | some e =>
      obtain ⟨inner, first, rfl⟩ := Binder.clean_map.1 clean
      obtain ⟨rfl, again⟩ := bind_reword fitting first consistent
      exact ⟨rfl, again.map _⟩

end Expr

/-! ### Statements -/

namespace Stmt

variable {renamings : List Renaming}

theorem bindBody_reword {own : Renaming} {parameters : List Ident} {context : Context}
    {body : List (Stmt Unit)} {bound : List (Stmt Distance)} {scopes after : List Scope}
    (fitting : Fitting vocabulary renamings scopes) (allowed : vocabulary.allows own)
    (declares : ∀ name ∈ parameters, name.Declares vocabulary change [own])
    (inner : ∀ {scopes after : List Scope}, Fitting vocabulary (own :: renamings) scopes →
      (bindAll body).Clean context scopes bound after →
      Fitting vocabulary (own :: renamings) after ∧
        (bindAll (rewordAll change body)).Clean context (rewordScopes (own :: renamings) scopes)
          (rewordAll change bound) (rewordScopes (own :: renamings) after))
    (clean : (Binder.within .empty do
      Binder.introduceAll parameters
      bindAll body).Clean context scopes bound after) :
    Fitting vocabulary renamings after ∧
      (Binder.within .empty do
        Binder.introduceAll (parameters.map (Ident.reword change))
        bindAll (rewordAll change body)).Clean context (rewordScopes renamings scopes)
          (rewordAll change bound) (rewordScopes renamings after) := by
  obtain ⟨whole, entered, rfl⟩ := Binder.within_clean.1 clean
  obtain ⟨_, middle, introduced, rest⟩ := entered.split fun _ => bindAll_steady _
  obtain ⟨fits, first⟩ := Binder.introduceAll_reword (fitting.enter allowed) declares introduced
  obtain ⟨still, second⟩ := inner fits rest
  obtain ⟨outer, tails⟩ := still.leave
  exact ⟨outer, Binder.within_clean.2 ⟨_, first.bind second, tails.symm⟩⟩

mutual
/-- A statement with other words is bound as the statement is. -/
theorem bind_reword :
    ∀ {s : Stmt Unit} {bound : Stmt Distance} {context : Context} {renamings : List Renaming}
      {scopes after : List Scope}, Fitting vocabulary renamings scopes →
      s.bind.Clean context scopes bound after → bound.Consistent vocabulary change renamings →
      Fitting vocabulary renamings after ∧
        (s.reword change).bind.Clean context (rewordScopes renamings scopes)
          (bound.reword change) (rewordScopes renamings after)
  | expression value, _, _, _, _, _, fitting, clean, consistent => by
      obtain ⟨inner, first, rfl⟩ := Binder.clean_map.1 clean
      obtain ⟨rfl, again⟩ := Expr.bind_reword fitting first consistent
      exact ⟨fitting, again.map _⟩
  | print value, _, _, _, _, _, fitting, clean, consistent => by
      obtain ⟨inner, first, rfl⟩ := Binder.clean_map.1 clean
      obtain ⟨rfl, again⟩ := Expr.bind_reword fitting first consistent
      exact ⟨fitting, again.map _⟩
  | declare name initializer, _, _, _, _, _, fitting, clean, consistent => by
      obtain ⟨_, begun, declared, rest⟩ := clean.split fun _ =>
        (Expr.bindOpt_steady _).bind fun _ =>
          (Binder.markInnermost_steady _ _).bind fun _ => .pure _
      obtain ⟨value, middle, valued, rest⟩ := rest.split fun _ =>
        (Binder.markInnermost_steady _ _).bind fun _ => .pure _
      obtain ⟨_, defined, rfl⟩ := Binder.clean_map.1 rest
      obtain ⟨fits, first⟩ := Binder.declare_reword fitting consistent.1 declared
      obtain ⟨rfl, second⟩ := Expr.bindOpt_reword fits valued consistent.2
      obtain ⟨still, third⟩ := Binder.define_reword fits consistent.1 defined
      exact ⟨still, first.bind (second.bind (third.map _))⟩
  | block body, _, _, _, _, _, fitting, clean, consistent => by
      obtain ⟨inner, first, rfl⟩ := Binder.clean_map.1 clean
      obtain ⟨own, allowed, consistent⟩ := consistent
      obtain ⟨whole, entered, rfl⟩ := Binder.within_clean.1 first
      obtain ⟨still, again⟩ := bindAll_reword (fitting.enter allowed) entered consistent
      obtain ⟨outer, tails⟩ := still.leave
      exact ⟨outer, Binder.Clean.map (Binder.within_clean.2 ⟨_, again, tails.symm⟩) _⟩
  | branch condition thenBranch none, _, _, _, _, _, fitting, clean, consistent => by
      obtain ⟨value, middle, valued, rest⟩ := clean.split fun _ =>
        (bind_steady _).bind fun _ => .pure _
      obtain ⟨inner, taken, rfl⟩ := Binder.clean_map.1 rest
      obtain ⟨rfl, first⟩ := Expr.bind_reword fitting valued consistent.1
      obtain ⟨still, second⟩ := bind_reword fitting taken consistent.2
      exact ⟨still, first.bind (second.map _)⟩
  | branch condition thenBranch (some elseBranch), _, _, _, _, _, fitting, clean, consistent => by
      obtain ⟨value, middle, valued, rest⟩ := clean.split fun _ =>
        (bind_steady _).bind fun _ => (bind_steady _).bind fun _ => .pure _
      obtain ⟨inner, later, taken, rest⟩ := rest.split fun _ =>
        (bind_steady _).bind fun _ => .pure _
      obtain ⟨other, skipped, rfl⟩ := Binder.clean_map.1 rest
      obtain ⟨rfl, first⟩ := Expr.bind_reword fitting valued consistent.1
      obtain ⟨fits, second⟩ := bind_reword fitting taken consistent.2.1
      obtain ⟨still, third⟩ := bind_reword fits skipped consistent.2.2
      exact ⟨still, first.bind (second.bind (third.map _))⟩
  | loop condition body, _, _, _, _, _, fitting, clean, consistent => by
      obtain ⟨value, middle, valued, rest⟩ := clean.split fun _ =>
        (bind_steady _).bind fun _ => .pure _
      obtain ⟨inner, taken, rfl⟩ := Binder.clean_map.1 rest
      obtain ⟨rfl, first⟩ := Expr.bind_reword fitting valued consistent.1
      obtain ⟨still, second⟩ := bind_reword fitting taken consistent.2
      exact ⟨still, first.bind (second.map _)⟩
  | ret keyword value, _, _, renamings, _, _, fitting, clean, consistent => by
      obtain ⟨_, middle, checked, rest⟩ := clean.split fun _ =>
        (Expr.bindOpt_steady _).bind fun _ => .pure _
      obtain ⟨inner, valued, rfl⟩ := Binder.clean_map.1 rest
      obtain ⟨rfl, first⟩ := Binder.checkReturn_reword change renamings checked
      obtain ⟨rfl, second⟩ := Expr.bindOpt_reword fitting valued consistent
      rw [← Option.isSome_map (f := Expr.reword change)] at first
      exact ⟨fitting, first.bind (second.map _)⟩
  | function (.mk name parameters body), _, _, _, _, _, fitting, clean, consistent => by
      obtain ⟨middle, inner, introduced, bodied, rfl⟩ := function_clean.1 clean
      obtain ⟨introduces, isName, own, allowed, declares, inside⟩ := consistent
      obtain ⟨fits, first⟩ := Binder.introduce_reword fitting introduces.1 introduced
      obtain ⟨still, second⟩ := bindBody_reword fits allowed declares
        (fun around clean => bindAll_reword around clean inside) bodied
      exact ⟨still, function_clean.2 ⟨_, _, first, second, rfl⟩⟩
  | classDecl name none methods, _, _, _, _, _, fitting, clean, consistent => by
      obtain ⟨middle, inner, introduced, bodied, rfl⟩ := class_clean.1 clean
      obtain ⟨fits, first⟩ := Binder.introduce_reword fitting consistent.1.1 introduced
      obtain ⟨whole, entered, rfl⟩ := Binder.within_clean.1 bodied
      obtain ⟨still, again⟩ := bindMethods_reword (fits.hold vocabulary.holdsReceiver) entered
        consistent.2
      obtain ⟨outer, tails⟩ := still.leave
      have second := Binder.within_clean.2 ⟨_, again, tails.symm⟩
      exact ⟨outer, class_clean.2 ⟨_, _, first, second, rfl⟩⟩
  | classDecl name (some (superclass, _)) methods, _, _, _, _, _, fitting, clean, consistent => by
      obtain ⟨middle, binding, inner, introduced, different, used, bodied, rfl⟩ :=
        subclass_clean.1 clean
      obtain ⟨introduces, refers, inside⟩ := consistent
      obtain ⟨fits, first⟩ := Binder.introduce_reword fitting introduces.1 introduced
      have differs := Binder.superclass_differs fits introduces refers different
      obtain ⟨-, second⟩ := Binder.use_reword fits refers used
      obtain ⟨around, within', rfl⟩ := Binder.within_clean.1 bodied
      obtain ⟨whole, entered, rfl⟩ := Binder.within_clean.1 within'
      obtain ⟨still, again⟩ := bindMethods_reword
        ((fits.hold vocabulary.holdsSuperclass).hold vocabulary.holdsReceiver) entered inside
      obtain ⟨between, innerTails⟩ := still.leave
      obtain ⟨outer, tails⟩ := between.leave
      have third := Binder.within_clean.2
        ⟨_, Binder.within_clean.2 ⟨_, again, innerTails.symm⟩, tails.symm⟩
      exact ⟨outer, subclass_clean.2 ⟨_, _, _, first, differs, second, third, rfl⟩⟩

theorem bindMethods_reword :
    ∀ {methods : List (Function Unit)} {bound : List (Function Distance)} {context : Context}
      {renamings : List Renaming} {scopes after : List Scope},
      Fitting vocabulary renamings scopes → (bindMethods methods).Clean context scopes bound after →
      ConsistentMethods vocabulary change renamings bound →
      Fitting vocabulary renamings after ∧
        (bindMethods (rewordMethods change methods)).Clean context (rewordScopes renamings scopes)
          (rewordMethods change bound) (rewordScopes renamings after)
  | [], _, _, _, _, _, fitting, clean, _ => by
      obtain ⟨rfl, rfl⟩ := Binder.clean_pure.1 clean
      exact ⟨fitting, Binder.clean_pure.2 ⟨rfl, rfl⟩⟩
  | .mk name parameters body :: others, _, _, _, _, _, fitting, clean, consistent => by
      obtain ⟨middle, inner, bound, bodied, later, rfl⟩ := methods_clean.1 clean
      obtain ⟨⟨isName, own, allowed, declares, inside⟩, consistent⟩ := consistent
      obtain ⟨fits, first⟩ := bindBody_reword fitting allowed declares
        (fun around clean => bindAll_reword around clean inside) bodied
      obtain ⟨still, second⟩ := bindMethods_reword fits later consistent
      have sameKind : FunctionContext.ofMethod (name.reword change) = .ofMethod name := by
        simp only [FunctionContext.ofMethod, Ident.text_reword, isName]
      rw [← sameKind] at first
      exact ⟨still, methods_clean.2 ⟨_, _, _, first, second, rfl⟩⟩

theorem bindAll_reword :
    ∀ {ss : List (Stmt Unit)} {bound : List (Stmt Distance)} {context : Context}
      {renamings : List Renaming} {scopes after : List Scope},
      Fitting vocabulary renamings scopes → (bindAll ss).Clean context scopes bound after →
      ConsistentAll vocabulary change renamings bound →
      Fitting vocabulary renamings after ∧
        (bindAll (rewordAll change ss)).Clean context (rewordScopes renamings scopes)
          (rewordAll change bound) (rewordScopes renamings after)
  | [], _, _, _, _, _, fitting, clean, _ => by
      obtain ⟨rfl, rfl⟩ := Binder.clean_pure.1 clean
      exact ⟨fitting, Binder.clean_pure.2 ⟨rfl, rfl⟩⟩
  | s :: others, _, _, _, _, _, fitting, clean, consistent => by
      obtain ⟨bound, middle, one, rest⟩ := clean.split fun _ =>
        (bindAll_steady others).bind fun _ => .pure _
      obtain ⟨more, later, rfl⟩ := Binder.clean_map.1 rest
      obtain ⟨fits, first⟩ := bind_reword fitting one consistent.1
      obtain ⟨still, second⟩ := bindAll_reword fits later consistent.2
      exact ⟨still, first.bind (second.map _)⟩
end

end Stmt

/-! ### Programs -/

/-- If a program is bound without errors and a rewording renames its variables scope by scope, the
program with other words is bound without errors, and its references at the same distances. -/
theorem Program.bind_reword {program : Program.Plain} (clean : (Program.bind program).errors = #[])
    (consistent : Stmt.ConsistentAll vocabulary change [] (Program.bind program).program) :
    Program.bind (program.map (Stmt.reword change)) =
      { program := (Program.bind program).program.map (Stmt.reword change), errors := #[] } := by
  obtain ⟨after, isClean⟩ := Program.clean_of_bind (congrArg (Binding.mk _) clean)
  obtain ⟨-, again⟩ := Stmt.bindAll_reword .nil isClean consistent
  rw [Stmt.rewordAll_eq_map, Stmt.rewordAll_eq_map] at again
  exact Program.bind_of_clean again

end LoxLang
