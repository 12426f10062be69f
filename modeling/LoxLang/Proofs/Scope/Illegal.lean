/-
Module: LoxLang.Proofs.Scope.Illegal
Purpose: Binding reports exactly the illegal places.  While a program is walked through, the context
  and the innermost scope say what is around a place, so each step reports what there is to report
  at its place.
Main exports: Binder.Finds, Context.inside, Enclosed, Looks, Expr.bind_finds, Stmt.bind_finds,
  Program.bind_reports_exactly
-/
import LoxLang.Proofs.Scope.Binding
import LoxLang.Proofs.Scope.Composition
import LoxLang.Proofs.Scope.Spot

namespace LoxLang

/-! ### Steps and what they report -/

namespace Binder

variable {α β : Type} {context : Context} {scopes middle after : List Scope}
  {found more : List ScopeError}

/-- A step leads from scopes to scopes, comes back to what surrounds the code and reports errors on
the way. -/
def Finds (step : Binder α) (context : Context) (scopes : List Scope) (found : List ScopeError)
    (after : List Scope) : Prop :=
  ∀ errors, (step ⟨context, scopes, errors⟩).2 = ⟨context, after, errors ++ found.toArray⟩

namespace Finds

theorem pure (value : α) : (Pure.pure value : Binder α).Finds context scopes [] scopes :=
  fun _ => congrArg (BinderState.mk context scopes) Array.append_empty.symm

theorem bind {step : Binder α} {next : α → Binder β}
    (first : step.Finds context scopes found middle)
    (second : ∀ value, (next value).Finds context middle more after) :
    (step >>= next).Finds context scopes (found ++ more) after := by
  intro errors
  have result : (step >>= next) ⟨context, scopes, errors⟩ =
      next (step ⟨context, scopes, errors⟩).1 (step ⟨context, scopes, errors⟩).2 := rfl
  rw [result, first errors, second]
  simp

/-- A step after which nothing more is found. -/
theorem quietly {step : Binder α} {next : α → Binder β}
    (first : step.Finds context scopes found middle)
    (second : ∀ value, (next value).Finds context middle [] after) :
    (step >>= next).Finds context scopes found after := by
  have both := first.bind second
  rwa [List.append_nil] at both

/-- A step after which only a tree is put together. -/
theorem map {step : Binder α} {make : α → β} (first : step.Finds context scopes found after) :
    (step >>= fun value => Pure.pure (make value)).Finds context scopes found after :=
  first.quietly fun value => pure (make value)

theorem within {step : Binder α} {scope : Scope} (framed : step.Framed)
    (inside : step.Finds context (scope :: scopes) found after) :
    (Binder.within scope step).Finds context scopes found scopes := by
  intro errors
  obtain ⟨value, last, others, -, outer, result⟩ := framed context (scope :: scopes)
  have back := inside errors
  rw [result] at back
  simp only [Binder.within, result, outer, List.tail_cons]
  exact congrArg (fun state : BinderState => BinderState.mk context scopes state.errors) back

/-- What is found in a function is found where it is the function around. -/
theorem inFunction {step : Binder α} {kind : FunctionContext}
    (inside : step.Finds { context with function := kind } scopes found after) :
    (Binder.inFunction kind step).Finds context scopes found after := by
  intro errors
  have back := inside errors
  rcases run : step ⟨{ context with function := kind }, scopes, errors⟩ with ⟨value, last⟩
  rw [run] at back
  cases back
  simp only [Binder.inFunction, run]

/-- What is found in a class is found where it is the class around. -/
theorem inClass {step : Binder α} {kind : ClassContext}
    (inside : step.Finds { context with inClass := kind } scopes found after) :
    (Binder.inClass kind step).Finds context scopes found after := by
  intro errors
  have back := inside errors
  rcases run : step ⟨{ context with inClass := kind }, scopes, errors⟩ with ⟨value, last⟩
  rw [run] at back
  cases back
  simp only [Binder.inClass, run]

/-- What is done with the surroundings is done with those that there are. -/
theorem surrounded {next : Context → Binder α}
    (inside : (next context).Finds context scopes found after) :
    (surroundings >>= next).Finds context scopes found after :=
  inside

end Finds

theorem report_finds (cause : ScopeCause) (name : Ident) :
    (report cause name).Finds context scopes [⟨cause, name⟩] scopes :=
  fun errors => by simp only [report, Array.push_eq_append]

theorem distance_finds (name : String) : (distance name).Finds context scopes [] scopes :=
  fun _ => congrArg (BinderState.mk context scopes) Array.append_empty.symm

end Binder

/-! ### The state of binding at a place -/

/-- The context of what is inside of these. -/
def Context.inside (around : List Enclosure) : Context where
  function :=
    match around.find? Enclosure.isFunction with
    | none => .outside
    | some enclosure =>
        match enclosure with
        | .method name _ => if name = "init" then .initializer else .method
        | _ => .function
  inClass :=
    match around.find? Enclosure.isClass with
    | none => .outside
    | some cls => if cls.isSubclass then .subclass else .class_

theorem Context.inside_declaring (names : List String) (around : List Enclosure) :
    Context.inside (declaring names around) = Context.inside around := by
  cases around with
  | nil => rfl
  | cons innermost outer => cases innermost <;> rfl

/-- Whether the innermost scope shows the names declared before, all of them ready to be read. -/
def ShowsEarlier : List Enclosure → List Scope → Prop
  | [], [] => True
  | enclosure :: _, scope :: _ => enclosure.isScope ∧ scope.Shows enclosure.earlier none
  | _, _ => False

/-- What the scopes are like where a statement stands. -/
structure Enclosed (around : List Enclosure) (scopes : List Scope) : Prop where
  noInitializer : ∀ name, .initializer name ∉ around
  innermost : ShowsEarlier around scopes

/-- What the scopes are like where an expression stands: a name is not ready to be read exactly if
reading it here is illegal. -/
def Looks (around : List Enclosure) (scopes : List Scope) : Prop :=
  ∀ name : Ident, Binder.awaits scopes name.text =
    ScopeCause.readInOwnInitializer.applies ⟨around, .read name⟩

theorem Enclosure.isScope_declare (names : List String) (enclosure : Enclosure) :
    (enclosure.declare names).isScope = enclosure.isScope := by
  cases enclosure <;> rfl

theorem Enclosure.earlier_declare (names : List String) {enclosure : Enclosure}
    (isScope : enclosure.isScope) :
    (enclosure.declare names).earlier = enclosure.earlier ++ names := by
  cases enclosure <;> first | rfl | cases isScope

theorem declaring_declaring (first second : List String) (around : List Enclosure) :
    declaring second (declaring first around) = declaring (first ++ second) around := by
  cases around with
  | nil => rfl
  | cons innermost outer => cases innermost <;> simp [declaring, Enclosure.declare]

theorem declaring_nil (around : List Enclosure) : declaring [] around = around := by
  cases around with
  | nil => rfl
  | cons innermost outer => cases innermost <;> simp [declaring, Enclosure.declare]

namespace Enclosed

variable {around : List Enclosure} {scopes : List Scope}

theorem topLevel : Enclosed [] [] where
  noInitializer := fun _ member => nomatch member
  innermost := trivial

/-- Where a statement stands, every name can be read. -/
theorem looks (enclosed : Enclosed around scopes) : Looks around scopes := by
  intro name
  have legal : ScopeCause.readInOwnInitializer.applies ⟨around, .read name⟩ = false := by
    simp [ScopeCause.applies, enclosed.noInitializer]
  rw [legal]
  have innermost := enclosed.innermost
  cases around with
  | nil =>
      cases scopes with
      | nil => rfl
      | cons scope rest => exact innermost.elim
  | cons enclosure outer =>
      cases scopes with
      | nil => exact innermost.elim
      | cons scope rest =>
          have ready : scope.ready? name.text ≠ some false := by
            rw [innermost.2 name.text]
            split <;> simp_all
          simp [Binder.awaits, ready]

/-- Inside of a new scope. -/
theorem enter (enclosed : Enclosed around scopes) (enclosure : Enclosure)
    (isScope : enclosure.isScope) (fresh : enclosure.earlier = []) :
    Enclosed (enclosure :: around) (.empty :: scopes) where
  noInitializer := by
    intro name member
    rcases List.mem_cons.1 member with rfl | outside
    · cases isScope
    · exact enclosed.noInitializer name outside
  innermost := by
    refine ⟨isScope, fun name => ?_⟩
    rw [fresh]
    rfl

end Enclosed

/-! ### What there is to report at each kind of place -/

namespace Spot

variable {around : List Enclosure}

theorem errors_of_only {spot : Spot} {cause : ScopeCause}
    (only : spot.errors = ([cause].filter fun cause => cause.applies spot).map fun cause =>
      ⟨cause, spot.what.name⟩) :
    spot.errors = if cause.applies spot then [⟨cause, spot.what.name⟩] else [] := by
  rw [only, List.filter_singleton]
  cases cause.applies spot <;> rfl

theorem errors_read (name : Ident) :
    errors ⟨around, .read name⟩ =
      if ScopeCause.readInOwnInitializer.applies ⟨around, .read name⟩ then
        [⟨.readInOwnInitializer, name⟩] else [] :=
  errors_of_only rfl

theorem errors_declaration (name : Ident) :
    errors ⟨around, .declaration name⟩ =
      if ScopeCause.declaredTwice.applies ⟨around, .declaration name⟩ then
        [⟨.declaredTwice, name⟩] else [] :=
  errors_of_only rfl

theorem errors_superclass (cls name : Ident) :
    errors ⟨around, .superclass cls name⟩ =
      if name.text = cls.text then [⟨.inheritsFromItself, name⟩] else [] := by
  rw [errors_of_only rfl]
  simp only [ScopeCause.applies, decide_eq_true_eq]
  rfl

theorem errors_receiver (keyword : Position) :
    errors ⟨around, .receiver keyword⟩ =
      match around.find? Enclosure.isClass with
      | none => [⟨.receiverOutsideClass, ⟨"this", keyword⟩⟩]
      | some _ => [] := by
  rw [errors_of_only rfl]
  cases found : around.find? Enclosure.isClass <;>
    simp [ScopeCause.applies, class?, found, Occurrence.name]

theorem errors_superMethod (keyword : Position) :
    errors ⟨around, .superMethod keyword⟩ =
      match around.find? Enclosure.isClass with
      | none => [⟨.superOutsideClass, ⟨"super", keyword⟩⟩]
      | some cls =>
          if cls.isSubclass then [] else [⟨.superWithoutSuperclass, ⟨"super", keyword⟩⟩] := by
  have candidates : errors ⟨around, .superMethod keyword⟩ =
      ([ScopeCause.superOutsideClass, .superWithoutSuperclass].filter fun cause =>
        cause.applies ⟨around, .superMethod keyword⟩).map fun cause =>
          ⟨cause, ⟨"super", keyword⟩⟩ := rfl
  rw [candidates]
  simp only [List.filter, ScopeCause.applies, class?]
  cases around.find? Enclosure.isClass with
  | none => rfl
  | some cls => cases isSubclass : cls.isSubclass <;> simp [isSubclass]

theorem errors_ret (keyword : Position) (hasValue : Bool) :
    errors ⟨around, .ret keyword hasValue⟩ =
      match around.find? Enclosure.isFunction with
      | none => [⟨.returnAtTopLevel, ⟨"return", keyword⟩⟩]
      | some function =>
          if hasValue && function.isInitializer then
            [⟨.returnValueFromInitializer, ⟨"return", keyword⟩⟩]
          else [] := by
  have candidates : errors ⟨around, .ret keyword hasValue⟩ =
      ([ScopeCause.returnAtTopLevel, .returnValueFromInitializer].filter fun cause =>
        cause.applies ⟨around, .ret keyword hasValue⟩).map fun cause =>
          ⟨cause, ⟨"return", keyword⟩⟩ := rfl
  rw [candidates]
  simp only [List.filter, ScopeCause.applies, function?]
  cases around.find? Enclosure.isFunction with
  | none => cases hasValue <;> rfl
  | some function =>
      cases illegal : hasValue && function.isInitializer <;> simp [illegal]

end Spot

/-! ### Single steps -/

namespace Binder

variable {around : List Enclosure} {context : Context} {scopes : List Scope}

theorem use_finds (looks : Looks around scopes) (name : Ident) :
    (use name).Finds context scopes (Spot.errors ⟨around, .read name⟩) scopes := by
  intro errors
  rw [use_apply, Spot.errors_read, looks name]
  split <;> simp

theorem useReceiver_finds (keyword : Position) :
    (useReceiver keyword).Finds (.inside around) scopes
      (Spot.errors ⟨around, .receiver keyword⟩) scopes := by
  refine Finds.surrounded ?_
  rw [Spot.errors_receiver]
  simp only [Context.inside]
  cases around.find? Enclosure.isClass with
  | none => exact (report_finds _ _).map
  | some cls =>
      dsimp only
      cases cls.isSubclass <;> exact distance_finds _

theorem useSuper_finds (keyword : Position) :
    (useSuper keyword).Finds (.inside around) scopes
      (Spot.errors ⟨around, .superMethod keyword⟩) scopes := by
  refine Finds.surrounded ?_
  rw [Spot.errors_superMethod]
  simp only [Context.inside]
  cases around.find? Enclosure.isClass with
  | none => exact (report_finds _ _).bind fun _ => distance_finds _
  | some cls =>
      dsimp only
      cases cls.isSubclass with
      | true => exact distance_finds _
      | false => exact (report_finds _ _).bind fun _ => distance_finds _

theorem checkReturn_finds (keyword : Position) (hasValue : Bool) :
    (checkReturn keyword hasValue).Finds (.inside around) scopes
      (Spot.errors ⟨around, .ret keyword hasValue⟩) scopes := by
  refine Finds.surrounded ?_
  rw [Spot.errors_ret]
  simp only [Context.inside]
  cases found : around.find? Enclosure.isFunction with
  | none => exact report_finds _ _
  | some function =>
      cases function with
      | method name earlier =>
          by_cases isInit : name = "init"
          · cases hasValue with
            | true => simpa [Enclosure.isInitializer, isInit] using report_finds _ _
            | false => simpa [Enclosure.isInitializer, isInit] using Finds.pure ()
          · simpa [Enclosure.isInitializer, isInit] using Finds.pure ()
      | _ => simpa [Enclosure.isInitializer] using Finds.pure ()

theorem checkSuperclass_finds (cls superclass : Ident) :
    (checkSuperclass cls superclass).Finds context scopes
      (Spot.errors ⟨around, .superclass cls superclass⟩) scopes := by
  rw [Spot.errors_superclass]
  simp only [checkSuperclass]
  by_cases itself : superclass.text = cls.text
  · simp only [if_pos itself]
    exact report_finds _ _
  · simp only [if_neg itself]
    exact .pure ()

/-- Where a class stands, its superclass can be read. -/
theorem useSuperclass_finds (enclosed : Enclosed around scopes) (superclass : Ident) :
    (use superclass).Finds context scopes [] scopes := by
  have legal : ScopeCause.readInOwnInitializer.applies ⟨around, .read superclass⟩ = false := by
    simp [ScopeCause.applies, enclosed.noInitializer]
  have used : (use superclass).Finds context scopes (Spot.errors ⟨around, .read superclass⟩)
      scopes := use_finds enclosed.looks superclass
  rwa [Spot.errors_read, legal] at used

end Binder

/-! ### Declarations -/

namespace Enclosed

variable {around : List Enclosure} {scopes : List Scope}

/-- Where no scope is, nothing is declared. -/
theorem declare_topLevel (context : Context) (name : Ident) :
    (Binder.declare name).Finds context [] (Spot.errors ⟨[], .declaration name⟩) [] ∧
      Looks [.initializer name.text] [] ∧ (Binder.define name).Finds context [] [] [] := by
  refine ⟨fun errors => ?_, fun other => ?_, fun errors => ?_⟩
  · exact congrArg (BinderState.mk context []) Array.append_empty.symm
  · simp [ScopeCause.applies, Spot.scope?, Enclosure.isScope, Binder.awaits]
  · exact congrArg (BinderState.mk context []) Array.append_empty.symm

/-- A declaration is reported if its scope has declared the name before. -/
theorem declare_finds {enclosure : Enclosure} {outer : List Enclosure} {scope : Scope}
    {rest : List Scope} (isScope : enclosure.isScope) (showing : scope.Shows enclosure.earlier none)
    (context : Context) (name : Ident) :
    (Binder.declare name).Finds context (scope :: rest)
      (Spot.errors ⟨enclosure :: outer, .declaration name⟩)
      (scope.mark name.text false :: rest) := by
  have sameCondition : ScopeCause.declaredTwice.applies ⟨enclosure :: outer, .declaration name⟩ =
      scope.declares name.text := by
    simp [ScopeCause.applies, Spot.scope?, isScope, showing.declares]
  intro errors
  rw [Spot.errors_declaration, sameCondition]
  cases declared : scope.declares name.text <;>
    simp [Binder.declare, declared, Binder.markInnermost, Binder.report, bind, StateT.bind]

/-- Until a name is defined, it is not ready to be read. -/
theorem looks_declared {enclosure : Enclosure} {outer : List Enclosure} {scope : Scope}
    {rest : List Scope} (enclosed : Enclosed (enclosure :: outer) (scope :: rest)) (name : Ident) :
    Looks (.initializer name.text :: enclosure :: outer) (scope.mark name.text false :: rest) := by
  obtain ⟨isScope, showing⟩ := enclosed.innermost
  intro other
  have begun := showing.begin name.text other.text
  have outside := enclosed.noInitializer other.text
  simp only [Binder.awaits, ScopeCause.applies, Spot.scope?, List.head?_cons, Option.any_some,
    begun]
  by_cases same : name.text = other.text
  · simp [same, isScope]
  · have notHere : Enclosure.initializer other.text ∉
        Enclosure.initializer name.text :: enclosure :: outer := by
      intro member
      rcases List.mem_cons.1 member with isHere | isOutside
      · exact same (Enclosure.initializer.inj isHere).symm
      · exact outside isOutside
    simp only [notHere, decide_false, Bool.false_and, Option.some.injEq, same, if_false]
    split <;> simp

/-- What is declared and defined has been declared before whatever follows. -/
theorem defined {enclosure : Enclosure} {outer : List Enclosure} {scope : Scope}
    {rest : List Scope} (enclosed : Enclosed (enclosure :: outer) (scope :: rest)) (name : Ident) :
    Enclosed (declaring [name.text] (enclosure :: outer))
      ((scope.mark name.text false).mark name.text true :: rest) := by
  obtain ⟨isScope, showing⟩ := enclosed.innermost
  constructor
  · intro other member
    rcases List.mem_cons.1 member with isHere | outside
    · rw [← Enclosure.isScope_declare [name.text], ← isHere] at isScope
      cases isScope
    · exact enclosed.noInitializer other (List.mem_cons_of_mem _ outside)
  · refine ⟨by rw [Enclosure.isScope_declare]; exact isScope, fun other => ?_⟩
    have finished :=
      (showing.begin name.text).finish (fun _ same => Option.some.inj same.symm) other
    rw [finished, Enclosure.earlier_declare _ isScope]
    simp [or_comm]

/-- Declaring and defining a name, whatever is in between. -/
theorem declare (enclosed : Enclosed around scopes) (context : Context) (name : Ident) :
    ∃ middle after,
      (Binder.declare name).Finds context scopes (Spot.errors ⟨around, .declaration name⟩) middle ∧
        Looks (.initializer name.text :: around) middle ∧
        (Binder.define name).Finds context middle [] after ∧
        Enclosed (declaring [name.text] around) after := by
  have innermost := enclosed.innermost
  cases around with
  | nil =>
      cases scopes with
      | cons scope rest => exact innermost.elim
      | nil =>
          obtain ⟨declared, looks, defines⟩ := declare_topLevel context name
          exact ⟨[], [], declared, looks, defines, enclosed⟩
  | cons enclosure outer =>
      cases scopes with
      | nil => exact innermost.elim
      | cons scope rest =>
          refine ⟨_, _, declare_finds innermost.1 innermost.2 context name,
            enclosed.looks_declared name, fun errors => ?_, enclosed.defined name⟩
          exact congrArg (BinderState.mk context _) Array.append_empty.symm

theorem introduce (enclosed : Enclosed around scopes) (context : Context) (name : Ident) :
    ∃ after,
      (Binder.introduce name).Finds context scopes (Spot.errors ⟨around, .declaration name⟩) after ∧
        Enclosed (declaring [name.text] around) after := by
  obtain ⟨middle, after, declared, -, defines, next⟩ := enclosed.declare context name
  exact ⟨after, declared.quietly fun _ => defines, next⟩

theorem introduceAll (enclosed : Enclosed around scopes) (context : Context)
    (names : List Ident) :
    ∃ after,
      (Binder.introduceAll names).Finds context scopes
          ((parameterSpots around names).flatMap Spot.errors) after ∧
        Enclosed (declaring (names.map Ident.text) around) after := by
  induction names generalizing around scopes with
  | nil =>
      rw [List.map_nil, declaring_nil]
      exact ⟨scopes, .pure (), enclosed⟩
  | cons name rest ih =>
      obtain ⟨middle, introduced, next⟩ := enclosed.introduce context name
      obtain ⟨after, others, last⟩ := ih next
      rw [declaring_declaring] at last
      exact ⟨after, introduced.bind fun _ => others, last⟩

end Enclosed

/-! ### Trees -/

namespace Expr

variable {around : List Enclosure} {scopes : List Scope}

mutual
theorem bind_finds (looks : Looks around scopes) :
    ∀ e : Expr Unit, e.bind.Finds (.inside around) scopes
      ((e.spots around).flatMap Spot.errors) scopes
  | literal _ => .pure _
  | read name _ => by
      rw [spots, List.flatMap_singleton]
      exact (Binder.use_finds looks name).map
  | assign _ _ value =>
      (bind_finds looks value).quietly fun _ => (Binder.distance_finds _).map
  | unary _ _ operand => (bind_finds looks operand).map
  | binary left _ _ right => by
      rw [spots, List.flatMap_append]
      exact (bind_finds looks left).bind fun _ => (bind_finds looks right).map
  | logical left _ right => by
      rw [spots, List.flatMap_append]
      exact (bind_finds looks left).bind fun _ => (bind_finds looks right).map
  | grouping inner => (bind_finds looks inner).map
  | call callee arguments _ => by
      rw [spots, List.flatMap_append]
      exact (bind_finds looks callee).bind fun _ => (bindAll_finds looks arguments).map
  | get object _ => (bind_finds looks object).map
  | set object _ value => by
      rw [spots, List.flatMap_append]
      exact (bind_finds looks value).bind fun _ => (bind_finds looks object).map
  | receiver keyword _ => by
      rw [spots, List.flatMap_singleton]
      exact (Binder.useReceiver_finds keyword).map
  | superMethod keyword _ _ => by
      rw [spots, List.flatMap_singleton]
      exact (Binder.useSuper_finds keyword).map

theorem bindAll_finds (looks : Looks around scopes) :
    ∀ es : List (Expr Unit), (bindAll es).Finds (.inside around) scopes
      ((spotsAll around es).flatMap Spot.errors) scopes
  | [] => .pure _
  | e :: rest => by
      rw [spotsAll, List.flatMap_append]
      exact (bind_finds looks e).bind fun _ => (bindAll_finds looks rest).map
end

theorem bindOpt_finds (looks : Looks around scopes) (e : Option (Expr Unit)) :
    (bindOpt e).Finds (.inside around) scopes ((spotsOpt around e).flatMap Spot.errors) scopes := by
  cases e with
  | none => exact .pure _
  | some e => exact (bind_finds looks e).map

end Expr

namespace Stmt

theorem declaredNames_branch (condition : Expr Unit) (thenBranch elseBranch : Stmt Unit) :
    (branch condition thenBranch (some elseBranch)).declaredNames =
      thenBranch.declaredNames ++ elseBranch.declaredNames := by
  simp only [declaredNames, introduced, List.map_append]

/-- The body of a function reports what its parameters and its statements do. -/
theorem bindBody_finds (parameters : List Ident) {body : List (Stmt Unit)}
    {around : List Enclosure} {scopes : List Scope} (enclosed : Enclosed around (.empty :: scopes))
    (finds : ∀ {around : List Enclosure} {scopes : List Scope}, Enclosed around scopes →
      ∃ after, (bindAll body).Finds (.inside around) scopes
          ((spotsAll around body).flatMap Spot.errors) after ∧
        Enclosed (declaring ((introducedAll body).map Introduced.text) around) after) :
    (Binder.within .empty do
      Binder.introduceAll parameters
      bindAll body).Finds (.inside around) scopes
        ((parameterSpots around parameters ++
          spotsAll (declaring (parameters.map Ident.text) around) body).flatMap Spot.errors)
        scopes := by
  obtain ⟨middle, introduced, next⟩ := enclosed.introduceAll (.inside around) parameters
  obtain ⟨after, found, -⟩ := finds next
  rw [Context.inside_declaring] at found
  rw [List.flatMap_append]
  exact (introduced.bind fun _ => found).within
    ((Binder.framing.introduceAll parameters).bind fun _ => bindAll_framed body)

mutual
/-- What is reported in a statement, and what is declared after it.  The recursion is on the
statement; the names declared before it are carried by what is around. -/
theorem bind_finds :
    ∀ (s : Stmt Unit) {around : List Enclosure} {scopes : List Scope}, Enclosed around scopes →
      ∃ after, s.bind.Finds (.inside around) scopes ((s.spots around).flatMap Spot.errors) after ∧
        Enclosed (declaring s.declaredNames around) after
  | expression value, around, scopes, enclosed => by
      refine ⟨scopes, (value.bind_finds enclosed.looks).map, ?_⟩
      rw [declaredNames, introduced, List.map_nil, declaring_nil]
      exact enclosed
  | print value, around, scopes, enclosed => by
      refine ⟨scopes, (value.bind_finds enclosed.looks).map, ?_⟩
      rw [declaredNames, introduced, List.map_nil, declaring_nil]
      exact enclosed
  | declare name initializer, around, scopes, enclosed => by
      obtain ⟨middle, after, declared, looks, defined, next⟩ :=
        enclosed.declare (.inside around) name
      have sameContext : Context.inside (.initializer name.text :: around) =
          Context.inside around := rfl
      have read := Expr.bindOpt_finds looks initializer
      rw [sameContext] at read
      exact ⟨after, declared.bind fun _ => read.quietly fun _ => defined.map, next⟩
  | block body, around, scopes, enclosed => by
      obtain ⟨after, found, -⟩ := bindAll_finds body
        (enclosed.enter (.block []) rfl rfl)
      have sameContext : Context.inside (.block [] :: around) = Context.inside around := rfl
      rw [sameContext] at found
      refine ⟨scopes, (found.within (bindAll_framed body)).map, ?_⟩
      rw [declaredNames, introduced, List.map_nil, declaring_nil]
      exact enclosed
  | branch condition thenBranch none, around, scopes, enclosed => by
      obtain ⟨after, found, next⟩ := bind_finds thenBranch enclosed
      rw [spots, List.flatMap_append]
      exact ⟨after, (condition.bind_finds enclosed.looks).bind fun _ => found.map, next⟩
  | branch condition thenBranch (some elseBranch), around, scopes, enclosed => by
      obtain ⟨middle, found, next⟩ := bind_finds thenBranch enclosed
      obtain ⟨after, foundToo, last⟩ := bind_finds elseBranch next
      rw [Context.inside_declaring] at foundToo
      rw [declaring_declaring, ← declaredNames_branch condition] at last
      rw [spots, List.flatMap_append, List.flatMap_append, List.append_assoc]
      exact ⟨after, (condition.bind_finds enclosed.looks).bind fun _ =>
        found.bind fun _ => foundToo.map, last⟩
  | loop condition body, around, scopes, enclosed => by
      obtain ⟨after, found, next⟩ := bind_finds body enclosed
      rw [spots, List.flatMap_append]
      exact ⟨after, (condition.bind_finds enclosed.looks).bind fun _ => found.map, next⟩
  | ret keyword value, around, scopes, enclosed => by
      refine ⟨scopes, (Binder.checkReturn_finds keyword _).bind fun _ =>
        (Expr.bindOpt_finds enclosed.looks value).map, ?_⟩
      rw [declaredNames, introduced, List.map_nil, declaring_nil]
      exact enclosed
  | function (.mk name parameters body), around, scopes, enclosed => by
      obtain ⟨middle, introduced, next⟩ := enclosed.introduce (.inside around) name
      have found := bindBody_finds parameters (next.enter (.function []) rfl rfl)
        (bindAll_finds body)
      have sameContext : Context.inside (.function [] :: declaring [name.text] around) =
          { Context.inside (declaring [name.text] around) with function := .function } := rfl
      rw [sameContext, Context.inside_declaring] at found
      exact ⟨middle, introduced.bind fun _ => found.inFunction.map, next⟩
  | classDecl name none methods, around, scopes, enclosed => by
      have sameContext : Context.inside (.class_ false :: declaring [name.text] around) =
          { Context.inside (declaring [name.text] around) with inClass := .class_ } := rfl
      rw [Context.inside_declaring] at sameContext
      obtain ⟨middle, introduced, next⟩ :=
        enclosed.introduce { Context.inside around with inClass := .class_ } name
      have found := bindMethods_finds methods false (.holding "this" :: middle) next.noInitializer
      rw [sameContext] at found
      have inside := found.within (bindMethods_framed methods)
      exact ⟨middle, (introduced.bind fun _ => inside.map).inClass, next⟩
  | classDecl name (some (superclass, _)) methods, around, scopes, enclosed => by
      have sameContext : Context.inside (.class_ true :: declaring [name.text] around) =
          { Context.inside (declaring [name.text] around) with inClass := .subclass } := rfl
      rw [Context.inside_declaring] at sameContext
      obtain ⟨middle, introduced, next⟩ :=
        enclosed.introduce { Context.inside around with inClass := .class_ } name
      have found := bindMethods_finds methods true (.holding "this" :: .holding "super" :: middle)
        next.noInitializer
      rw [sameContext] at found
      have framed := bindMethods_framed methods
      have inside := (found.within framed).within (framed.within _).framed
      rw [bind_subclass]
      refine ⟨middle, (introduced.bind fun _ =>
        (Binder.checkSuperclass_finds name superclass).bind fun _ => .inClass ?_).inClass, next⟩
      exact (Binder.useSuperclass_finds next superclass).bind fun _ => inside.map

theorem bindMethods_finds :
    ∀ (methods : List (Function Unit)) (hasSuperclass : Bool) (scopes : List Scope)
      {around : List Enclosure}, (∀ name, .initializer name ∉ around) →
      (bindMethods methods).Finds (.inside (.class_ hasSuperclass :: around)) scopes
        ((spotsMethods (.class_ hasSuperclass :: around) methods).flatMap Spot.errors) scopes
  | [], _, _, _, _ => .pure _
  | .mk name parameters body :: rest, hasSuperclass, scopes, around, noInitializer => by
      have inside : Enclosed (.method name.text [] :: .class_ hasSuperclass :: around)
          (.empty :: scopes) := by
        refine ⟨fun other member => ?_, rfl, fun other => rfl⟩
        simp only [List.mem_cons, reduceCtorEq, false_or] at member
        exact noInitializer other member
      have found := bindBody_finds parameters inside (bindAll_finds body)
      have sameContext : Context.inside (.method name.text [] :: .class_ hasSuperclass :: around) =
          { Context.inside (.class_ hasSuperclass :: around) with
            function := .ofMethod name } := rfl
      rw [sameContext] at found
      have others := bindMethods_finds rest hasSuperclass scopes noInitializer
      rw [spotsMethods, List.flatMap_append]
      exact found.inFunction.bind fun _ => others.map

theorem bindAll_finds :
    ∀ (ss : List (Stmt Unit)) {around : List Enclosure} {scopes : List Scope},
      Enclosed around scopes →
      ∃ after, (bindAll ss).Finds (.inside around) scopes
          ((spotsAll around ss).flatMap Spot.errors) after ∧
        Enclosed (declaring ((introducedAll ss).map Introduced.text) around) after
  | [], around, scopes, enclosed => by
      rw [introducedAll, List.map_nil, declaring_nil]
      exact ⟨scopes, .pure _, enclosed⟩
  | s :: rest, around, scopes, enclosed => by
      obtain ⟨middle, found, next⟩ := bind_finds s enclosed
      obtain ⟨after, foundToo, last⟩ := bindAll_finds rest next
      rw [Context.inside_declaring] at foundToo
      rw [declaring_declaring, declaredNames, ← List.map_append] at last
      rw [spotsAll, List.flatMap_append]
      exact ⟨after, found.bind fun _ => foundToo.map, last⟩
end

end Stmt

/-! ### Programs -/

theorem ScopeCause.mem_all (cause : ScopeCause) : cause ∈ ScopeCause.all := by
  cases cause <;> decide

theorem Spot.mem_errors {spot : Spot} {error : ScopeError} :
    error ∈ spot.errors ↔
      ∃ cause : ScopeCause, cause.applies spot ∧ error = ⟨cause, spot.what.name⟩ := by
  simp only [Spot.errors, List.mem_map, List.mem_filter, ScopeCause.mem_all, true_and]
  constructor
  · rintro ⟨cause, applies, same⟩
    exact ⟨cause, applies, same.symm⟩
  · rintro ⟨cause, applies, same⟩
    exact ⟨cause, applies, same.symm⟩

namespace Program

/-- Binding reports exactly the illegal places.  The errors found in a program are those of its
places, in the order in which they are looked at and with multiplicity, so there is an error exactly
where a cause applies.  Where there is no block and no function around, neither a second declaration
nor a read in the own initializer is one. -/
theorem bind_reports_exactly (program : Program.Plain) :
    (bind program).errors.toList = program.spots.flatMap Spot.errors ∧
      (∀ error, error ∈ (bind program).errors.toList ↔
        ∃ spot ∈ program.spots, ∃ cause : ScopeCause, cause.applies spot ∧
          error = ⟨cause, spot.what.name⟩) ∧
      ∀ spot ∈ program.spots, spot.scope? = none →
        ScopeCause.declaredTwice.applies spot = false ∧
          ScopeCause.readInOwnInitializer.applies spot = false := by
  obtain ⟨after, found, -⟩ := Stmt.bindAll_finds program Enclosed.topLevel
  have reported : (bind program).errors.toList = program.spots.flatMap Spot.errors := by
    have last := congrArg BinderState.errors (found #[])
    have isLast : (bind program).errors = #[] ++ (program.spots.flatMap Spot.errors).toArray := last
    rw [isLast]
    simp
  refine ⟨reported, fun error => ?_, fun spot _ isGlobal => ?_⟩
  · simp only [reported, List.mem_flatMap, Spot.mem_errors]
  · constructor
    · simp only [ScopeCause.applies, isGlobal]
      split <;> rfl
    · simp only [ScopeCause.applies, isGlobal]
      split <;> simp

/-- A class that inherits from itself and whose initializer declares its parameter again, reads it
while it does so, and returns a value. -/
example :
    (spots [.classDecl ⟨"A", ⟨1, 7⟩⟩ (some (⟨"A", ⟨1, 11⟩⟩, ()))
      [.mk ⟨"init", ⟨2, 3⟩⟩ [⟨"x", ⟨2, 8⟩⟩] [
        .declare ⟨"x", ⟨3, 9⟩⟩ (some (.read ⟨"x", ⟨3, 13⟩⟩ ())),
        .ret ⟨4, 5⟩ (some (.receiver ⟨4, 12⟩ ()))]]]).flatMap Spot.errors =
      [⟨.inheritsFromItself, ⟨"A", ⟨1, 11⟩⟩⟩, ⟨.declaredTwice, ⟨"x", ⟨3, 9⟩⟩⟩,
        ⟨.readInOwnInitializer, ⟨"x", ⟨3, 13⟩⟩⟩,
        ⟨.returnValueFromInitializer, ⟨"return", ⟨4, 5⟩⟩⟩] := by
  decide

end Program

end LoxLang
