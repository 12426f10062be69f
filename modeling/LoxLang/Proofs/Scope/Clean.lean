/-
Module: LoxLang.Proofs.Scope.Clean
Purpose: Binding without errors.  Errors that have been found are never forgotten, so what is bound
  without errors is put together from parts that are bound without errors, and for each step it can
  be said when it finds none.
Main exports: Binder.Steady, Binder.Clean, Binder.Clean.split, Binder.clean_map,
  Binder.declare_clean, Binder.use_clean, Stmt.function_clean, Stmt.methods_clean,
  Stmt.class_clean, Stmt.subclass_clean, Program.clean_of_bind, Program.bind_of_clean
-/
import LoxLang.Program.Binding
import LoxLang.Proofs.Scope.Traversal

namespace LoxLang

/-! ### Steps that come back and forget nothing -/

namespace Binder

variable {α β : Type} {scopes after : List Scope}

/-- A step that comes back to the function and the class around the code, and does not forget errors
that have been found. -/
structure Steady (step : Binder α) : Prop where
  context : ∀ state, (step state).2.context = state.context
  errors : ∀ state, (step state).2.errors = #[] → state.errors = #[]

namespace Steady

theorem pure (value : α) : (Pure.pure value : Binder α).Steady where
  context := fun _ => rfl
  errors := fun _ clean => clean

theorem bind {step : Binder α} {next : α → Binder β} (first : step.Steady)
    (second : ∀ value, (next value).Steady) : (step >>= next).Steady where
  context := fun state =>
    ((second (step state).1).context (step state).2).trans (first.context state)
  errors := fun state clean =>
    first.errors state ((second (step state).1).errors (step state).2 clean)

theorem within {step : Binder α} (scope : Scope) (inner : step.Steady) :
    (within scope step).Steady where
  context := fun state => inner.context { state with scopes := scope :: state.scopes }
  errors := fun state clean => inner.errors { state with scopes := scope :: state.scopes } clean

/-- The kind of the function is put back; that of the class has been by then. -/
theorem inFunction {step : Binder α} (kind : FunctionContext) (inner : step.Steady) :
    (inFunction kind step).Steady where
  context := fun state =>
    congrArg (fun around : Context => { around with function := state.context.function })
      (inner.context { state with context := { state.context with function := kind } })
  errors := fun state clean =>
    inner.errors { state with context := { state.context with function := kind } } clean

/-- The kind of the class is put back; that of the function has been by then. -/
theorem inClass {step : Binder α} (kind : ClassContext) (inner : step.Steady) :
    (inClass kind step).Steady where
  context := fun state =>
    congrArg (fun around : Context => { around with inClass := state.context.inClass })
      (inner.context { state with context := { state.context with inClass := kind } })
  errors := fun state clean =>
    inner.errors { state with context := { state.context with inClass := kind } } clean

end Steady

theorem surroundings_steady : surroundings.Steady where
  context := fun _ => rfl
  errors := fun _ clean => clean

theorem report_steady (cause : ScopeCause) (name : Ident) : (report cause name).Steady where
  context := fun _ => rfl
  errors := by
    intro state clean
    simp [report] at clean

theorem markInnermost_steady (name : String) (ready : Bool) :
    (markInnermost name ready).Steady := by
  constructor <;> rintro ⟨context, scopes, errors⟩ <;> cases scopes
  · rfl
  · rfl
  · exact id
  · exact id

/-- What a declaration comes to. -/
theorem declare_apply (name : Ident) (state : BinderState) :
    declare name state =
      if state.scopes.head?.any (fun scope => scope.declares name.text) then
        (do report .declaredTwice name; markInnermost name.text false : Binder Unit) state
      else markInnermost name.text false state := by
  rcases state with ⟨context, scopes, errors⟩
  cases scopes with
  | nil => rfl
  | cons innermost outer => rfl

theorem declare_steady (name : Ident) : (declare name).Steady := by
  have twice : (do report .declaredTwice name; markInnermost name.text false
      : Binder Unit).Steady :=
    (report_steady _ _).bind fun _ => markInnermost_steady _ _
  have once := markInnermost_steady name.text false
  constructor <;> intro state <;> rw [declare_apply] <;> split
  · exact twice.context state
  · exact once.context state
  · exact twice.errors state
  · exact once.errors state

theorem distance_steady (name : String) : (distance name).Steady where
  context := fun _ => rfl
  errors := fun _ clean => clean

/-- Whether the innermost scope declares a name that is not ready to be read. -/
def awaits (scopes : List Scope) (name : String) : Bool :=
  scopes.head?.any fun scope => scope.ready? name = some false

/-- What a use of a name comes to. -/
theorem use_apply (name : Ident) (state : BinderState) :
    use name state =
      (state.scopes.findIdx? fun scope => scope.declares name.text,
        if awaits state.scopes name.text then
          { state with errors := state.errors.push ⟨.readInOwnInitializer, name⟩ }
        else state) := by
  rcases state with ⟨context, scopes, errors⟩
  cases scopes with
  | nil =>
      simp [use, awaits, distance, bind, StateT.bind, get, getThe, MonadStateOf.get, StateT.get,
        pure]
  | cons innermost outer =>
      by_cases pending : innermost.ready? name.text = some false <;>
        simp [use, awaits, pending, report, distance, bind, StateT.bind, get, getThe,
          MonadStateOf.get, StateT.get, pure]

theorem use_steady (name : Ident) : (use name).Steady := by
  constructor <;> intro state <;> rw [use_apply] <;> dsimp only <;> split
  · rfl
  · rfl
  · intro clean
    simp at clean
  · exact id

/-- No step of binding forgets an error, and every step comes back to what surrounds the code. -/
theorem steadiness : Traversal .keep (fun _ step _ => step.Steady) fun _ step _ => step.Steady where
  words := fun _ => rfl
  ofLook := id
  pure := fun _ => .pure _
  lookThen := Steady.bind
  actThen := Steady.bind
  within := Steady.within
  inFunction := Steady.inFunction
  inClass := Steady.inClass
  surroundings := surroundings_steady
  declare := declare_steady
  define := fun name => markInnermost_steady name.text true
  report := report_steady
  distance := distance_steady
  use := use_steady

theorem checkSuperclass_steady (name superclass : Ident) :
    (checkSuperclass name superclass).Steady :=
  steadiness.checkSuperclass name superclass

theorem introduce_steady (name : Ident) : (introduce name).Steady :=
  steadiness.introduce name

theorem introduceAll_steady (names : List Ident) : (introduceAll names).Steady :=
  steadiness.introduceAll names

end Binder

namespace Expr

theorem bind_steady (e : Expr Unit) : e.bind.Steady :=
  Binder.steadiness.expression e

theorem bindAll_steady (es : List (Expr Unit)) : (bindAll es).Steady :=
  Binder.steadiness.expressions es

theorem bindOpt_steady (e : Option (Expr Unit)) : (bindOpt e).Steady :=
  Binder.steadiness.optional e

end Expr

namespace Stmt

theorem bind_steady (s : Stmt Unit) : s.bind.Steady :=
  Binder.steadiness.statement s

theorem bindMethods_steady (methods : List (Function Unit)) : (bindMethods methods).Steady :=
  Binder.steadiness.methodsOf methods

theorem bindAll_steady (ss : List (Stmt Unit)) : (bindAll ss).Steady :=
  Binder.steadiness.statements ss

/-- The parameters and the statements of a function. -/
theorem bindBody_steady (parameters : List Ident) (body : List (Stmt Unit)) :
    (Binder.within .empty do
      Binder.introduceAll parameters
      bindAll body).Steady :=
  ((Binder.introduceAll_steady parameters).bind fun _ => bindAll_steady body).within _

end Stmt

/-! ### Steps that find no error -/

namespace Binder

variable {α β : Type} {scopes after : List Scope} {name : Ident} {binding : Distance}
  {context : Context} {keyword : Position}

/-- A step that was begun without errors yields a value, finds no error and comes back to what
surrounds the code. -/
def Clean (step : Binder α) (context : Context) (scopes : List Scope) (value : α)
    (after : List Scope) : Prop :=
  step { context := context, scopes := scopes, errors := #[] } =
    (value, { context := context, scopes := after, errors := #[] })

/-- What a step comes to says whether it finds an error. -/
theorem clean_iff {step : Binder α} {value result : α} {final : List Scope}
    {errors : Array ScopeError}
    (run : step { context := context, scopes := scopes, errors := #[] } =
      (result, { context := context, scopes := final, errors := errors })) :
    step.Clean context scopes value after ↔ value = result ∧ after = final ∧ errors = #[] := by
  rw [Clean, run]
  constructor
  · intro same
    cases same
    exact ⟨rfl, rfl, rfl⟩
  · rintro ⟨rfl, rfl, rfl⟩
    rfl

theorem clean_pure {value result : α} :
    (Pure.pure value : Binder α).Clean context scopes result after ↔
      result = value ∧ after = scopes :=
  (clean_iff rfl).trans (by simp)

theorem Clean.bind {step : Binder α} {next : α → Binder β} {value : α} {result : β}
    {middle : List Scope} (first : step.Clean context scopes value middle)
    (second : (next value).Clean context middle result after) :
    (step >>= next).Clean context scopes result after := by
  simp only [Clean, Bind.bind, StateT.bind] at first second ⊢
  rw [first]
  exact second

/-- If two steps find no error, neither of them does. -/
theorem Clean.split {step : Binder α} {next : α → Binder β} {result : β}
    (clean : (step >>= next).Clean context scopes result after)
    (steady : ∀ value, (next value).Steady) :
    ∃ value middle, step.Clean context scopes value middle ∧
      (next value).Clean context middle result after := by
  simp only [Clean, Bind.bind, StateT.bind] at clean
  rcases first : step { context := context, scopes := scopes, errors := #[] } with
    ⟨value, around, middle, errors⟩
  rw [first] at clean
  have second : next value { context := around, scopes := middle, errors := errors } =
      (result, { context := context, scopes := after, errors := #[] }) := clean
  have none : errors = #[] := (steady value).errors ⟨around, middle, errors⟩ (by rw [second])
  have same := (steady value).context ⟨around, middle, errors⟩
  rw [second] at same
  cases same
  subst none
  exact ⟨value, middle, first, second⟩

theorem Clean.map {step : Binder α} {value : α} (first : step.Clean context scopes value after)
    (make : α → β) :
    (step >>= fun value => Pure.pure (make value)).Clean context scopes (make value) after :=
  first.bind (clean_pure.2 ⟨rfl, rfl⟩)

/-- A step whose value is put into a tree finds an error exactly if it does so alone. -/
theorem clean_map {step : Binder α} {make : α → β} {result : β} :
    (step >>= fun value => Pure.pure (make value)).Clean context scopes result after ↔
      ∃ value, step.Clean context scopes value after ∧ result = make value := by
  constructor
  · intro clean
    obtain ⟨value, middle, first, rest⟩ := clean.split fun _ => .pure _
    obtain ⟨rfl, rfl⟩ := clean_pure.1 rest
    exact ⟨value, first, rfl⟩
  · rintro ⟨value, first, rfl⟩
    exact first.map make

theorem within_clean {scope : Scope} {step : Binder α} {value : α} :
    (within scope step).Clean context scopes value after ↔
      ∃ inner, step.Clean context (scope :: scopes) value inner ∧ after = inner.tail := by
  rcases run : step { context := context, scopes := scope :: scopes, errors := #[] } with
    ⟨result, around, inner, errors⟩
  have reached : within scope step { context := context, scopes := scopes, errors := #[] } =
      (result, { context := around, scopes := inner.tail, errors := errors }) := by
    simp only [within, run]
  rw [Clean, reached]
  constructor
  · intro same
    cases same
    exact ⟨inner, run, rfl⟩
  · rintro ⟨other, clean, rfl⟩
    rw [Clean, run] at clean
    cases clean
    rfl

/-- What comes of looking at a function comes of its code where it is the function around. -/
theorem inFunction_clean {kind : FunctionContext} {step : Binder α} {value : α}
    (steady : step.Steady) :
    (inFunction kind step).Clean context scopes value after ↔
      step.Clean { context with function := kind } scopes value after := by
  have restored := steady.context ⟨{ context with function := kind }, scopes, #[]⟩
  rcases run : step ⟨{ context with function := kind }, scopes, #[]⟩ with
    ⟨result, around, final, errors⟩
  rw [run] at restored
  cases restored
  have reached : inFunction kind step { context := context, scopes := scopes, errors := #[] } =
      (result, { context := context, scopes := final, errors := errors }) := by
    simp only [inFunction, run]
  rw [clean_iff reached, clean_iff run]

/-- What comes of looking at a class comes of its code where it is the class around. -/
theorem inClass_clean {kind : ClassContext} {step : Binder α} {value : α} (steady : step.Steady) :
    (inClass kind step).Clean context scopes value after ↔
      step.Clean { context with inClass := kind } scopes value after := by
  have restored := steady.context ⟨{ context with inClass := kind }, scopes, #[]⟩
  rcases run : step ⟨{ context with inClass := kind }, scopes, #[]⟩ with
    ⟨result, around, final, errors⟩
  rw [run] at restored
  cases restored
  have reached : inClass kind step { context := context, scopes := scopes, errors := #[] } =
      (result, { context := context, scopes := final, errors := errors }) := by
    simp only [inClass, run]
  rw [clean_iff reached, clean_iff run]

/-- The scopes with a name marked in the innermost one. -/
def markIn (name : String) (ready : Bool) : List Scope → List Scope
  | [] => []
  | innermost :: outer => innermost.mark name ready :: outer

theorem markInnermost_clean {name : String} {ready : Bool} {done : Unit} :
    (markInnermost name ready).Clean context scopes done after ↔
      after = markIn name ready scopes := by
  cases scopes <;> exact (clean_iff rfl).trans (by simp [markIn])

theorem define_clean {done : Unit} :
    (define name).Clean context scopes done after ↔ after = markIn name.text true scopes :=
  markInnermost_clean

theorem report_clean {cause : ScopeCause} {done : Unit} :
    ¬(report cause name).Clean context scopes done after := by
  intro clean
  have found : (report cause name ⟨context, scopes, #[]⟩).2.errors = #[] := by rw [clean]
  simp [report] at found

/-- A name is declared without an error unless the innermost scope declares it already. -/
theorem declare_clean {done : Unit} :
    (declare name).Clean context scopes done after ↔
      (scopes.head?.any fun scope => scope.declares name.text) = false ∧
        after = markIn name.text false scopes := by
  rw [Clean, declare_apply]
  cases isDeclared : scopes.head?.any fun scope => scope.declares name.text with
  | true =>
      simp only [↓reduceIte, reduceCtorEq, false_and, iff_false]
      intro clean
      have twice : (do report .declaredTwice name; markInnermost name.text false
          : Binder Unit).Clean context scopes done after := clean
      obtain ⟨_, middle, impossible, -⟩ := twice.split fun _ => markInnermost_steady _ _
      exact absurd impossible report_clean
  | false =>
      simp only [Bool.false_eq_true, ↓reduceIte, true_and]
      exact markInnermost_clean

/-- What is done with the surroundings is done with those that there are. -/
theorem surrounded_clean {next : Context → Binder α} {value : α} :
    (surroundings >>= next).Clean context scopes value after ↔
      (next context).Clean context scopes value after :=
  Iff.rfl

theorem distance_clean {name : String} :
    (distance name).Clean context scopes binding after ↔
      binding = (scopes.findIdx? fun scope => scope.declares name) ∧ after = scopes :=
  (clean_iff rfl).trans (by simp)

theorem use_clean :
    (use name).Clean context scopes binding after ↔
      awaits scopes name.text = false ∧
        binding = (scopes.findIdx? fun scope => scope.declares name.text) ∧ after = scopes := by
  have run := use_apply name { context := context, scopes := scopes, errors := #[] }
  cases isAwaited : awaits scopes name.text with
  | true =>
      simp only [isAwaited, ↓reduceIte] at run
      simp [clean_iff run]
  | false =>
      simp only [isAwaited, Bool.false_eq_true, ↓reduceIte] at run
      simp [clean_iff run]

theorem useReceiver_clean :
    (useReceiver keyword).Clean context scopes binding after ↔
      context.inClass ≠ .outside ∧
        binding = (scopes.findIdx? fun scope => scope.declares "this") ∧ after = scopes := by
  refine surrounded_clean.trans ?_
  cases isClass : context.inClass with
  | outside =>
      simp only [ne_eq, not_true_eq_false, false_and, iff_false]
      intro clean
      obtain ⟨_, middle, impossible, -⟩ := clean.split fun _ => .pure _
      exact absurd impossible report_clean
  | class_ => simpa using distance_clean
  | subclass => simpa using distance_clean

theorem useSuper_clean :
    (useSuper keyword).Clean context scopes binding after ↔
      context.inClass = .subclass ∧
        binding = (scopes.findIdx? fun scope => scope.declares "super") ∧ after = scopes := by
  refine surrounded_clean.trans ?_
  cases isClass : context.inClass with
  | subclass =>
      simp only [true_and]
      exact distance_clean
  | _ =>
      simp only [reduceCtorEq, false_and, iff_false]
      intro clean
      obtain ⟨_, middle, impossible, -⟩ := clean.split fun _ => distance_steady _
      exact absurd impossible report_clean

/-- Whether a `return` may stand in a context, with a value or without. -/
def mayReturn (context : Context) (hasValue : Bool) : Prop :=
  match context.function with
  | .outside => False
  | .initializer => hasValue = false
  | _ => True

theorem checkReturn_clean {hasValue : Bool} {done : Unit} :
    (checkReturn keyword hasValue).Clean context scopes done after ↔
      mayReturn context hasValue ∧ after = scopes := by
  refine surrounded_clean.trans ?_
  unfold mayReturn
  cases context.function with
  | outside => simpa using report_clean
  | initializer =>
      cases hasValue with
      | true => simpa using report_clean
      | false => simp [clean_pure]
  | _ => simp [clean_pure]

theorem checkSuperclass_clean {superclass : Ident} {done : Unit} :
    (checkSuperclass name superclass).Clean context scopes done after ↔
      superclass.text ≠ name.text ∧ after = scopes := by
  unfold checkSuperclass
  by_cases same : superclass.text = name.text
  · simpa [same] using report_clean
  · simp [same, clean_pure]

end Binder

/-! ### Functions and classes -/

namespace Stmt

open Binder

variable {context : Context} {scopes after : List Scope} {name superclass : Ident}
  {methods : List (Function Unit)} {bound : Stmt Distance}

/-- The parameters and the statements of a function are bound where it is the function around. -/
theorem function_clean {parameters : List Ident} {body : List (Stmt Unit)} :
    (function (.mk name parameters body)).bind.Clean context scopes bound after ↔
      ∃ middle inner, (introduce name).Clean context scopes () middle ∧
        (Binder.within .empty do
          introduceAll parameters
          bindAll body).Clean { context with function := .function } middle inner after ∧
        bound = function (.mk name parameters inner) := by
  have steady := bindBody_steady parameters body
  constructor
  · intro clean
    obtain ⟨_, middle, introduced, rest⟩ := clean.split fun _ =>
      (steady.inFunction .function).bind fun _ => .pure _
    obtain ⟨inner, bodied, rfl⟩ := clean_map.1 rest
    exact ⟨middle, inner, introduced, (inFunction_clean steady).1 bodied, rfl⟩
  · rintro ⟨middle, inner, introduced, bodied, rfl⟩
    exact introduced.bind (((inFunction_clean steady).2 bodied).map _)

/-- A method is bound where it is the function around, and then the methods after it are. -/
theorem methods_clean {parameters : List Ident} {body : List (Stmt Unit)}
    {results : List (Function Distance)} :
    (bindMethods (.mk name parameters body :: methods)).Clean context scopes results after ↔
      ∃ middle inner rest,
        (Binder.within .empty do
          introduceAll parameters
          bindAll body).Clean { context with function := .ofMethod name } scopes inner middle ∧
        (bindMethods methods).Clean context middle rest after ∧
        results = .mk name parameters inner :: rest := by
  have steady := bindBody_steady parameters body
  constructor
  · intro clean
    obtain ⟨inner, middle, bodied, others⟩ := clean.split fun _ =>
      (bindMethods_steady methods).bind fun _ => .pure _
    obtain ⟨rest, bound, rfl⟩ := clean_map.1 others
    exact ⟨middle, inner, rest, (inFunction_clean steady).1 bodied, bound, rfl⟩
  · rintro ⟨middle, inner, rest, bodied, bound, rfl⟩
    exact ((inFunction_clean steady).2 bodied).bind (bound.map _)

/-- The methods of a class are bound where it is the class around. -/
theorem class_clean :
    (classDecl name none methods).bind.Clean context scopes bound after ↔
      ∃ middle inner, (introduce name).Clean { context with inClass := .class_ } scopes () middle ∧
        (Binder.within (.holding "this") (bindMethods methods)).Clean
          { context with inClass := .class_ } middle inner after ∧
        bound = classDecl name none inner := by
  have steady := (bindMethods_steady methods).within (.holding "this")
  have whole := (introduce_steady name).bind fun _ => steady.bind fun inner =>
    .pure (classDecl name none inner)
  refine (inClass_clean whole).trans ?_
  constructor
  · intro clean
    obtain ⟨_, middle, introduced, rest⟩ := clean.split fun _ => steady.bind fun _ => .pure _
    obtain ⟨inner, bodied, rfl⟩ := clean_map.1 rest
    exact ⟨middle, inner, introduced, bodied, rfl⟩
  · rintro ⟨middle, inner, introduced, bodied, rfl⟩
    exact introduced.bind (bodied.map _)

/-- A superclass is used, and the methods are bound, where a class that inherits is around. -/
theorem subclass_clean {binding : Unit} :
    (classDecl name (some (superclass, binding)) methods).bind.Clean context scopes bound after ↔
      ∃ middle distance inner,
        (introduce name).Clean { context with inClass := .class_ } scopes () middle ∧
        superclass.text ≠ name.text ∧
        (use superclass).Clean { context with inClass := .subclass } middle distance middle ∧
        (Binder.within (.holding "super") (Binder.within (.holding "this")
          (bindMethods methods))).Clean { context with inClass := .subclass } middle inner after ∧
        bound = classDecl name (some (superclass, distance)) inner := by
  have steady := ((bindMethods_steady methods).within (.holding "this")).within (.holding "super")
  have inside := (use_steady superclass).bind fun distance => steady.bind fun inner =>
    .pure (classDecl name (some (superclass, distance)) inner)
  have checked := (checkSuperclass_steady name superclass).bind fun _ => inside.inClass .subclass
  rw [bind_subclass, inClass_clean ((introduce_steady name).bind fun _ => checked)]
  constructor
  · intro clean
    obtain ⟨_, middle, introduced, others⟩ := clean.split fun _ => checked
    obtain ⟨_, same, different, nested⟩ := others.split fun _ => inside.inClass .subclass
    obtain ⟨differ, rfl⟩ := checkSuperclass_clean.1 different
    have heritage := (inClass_clean inside).1 nested
    obtain ⟨distance, _, used, rest⟩ := heritage.split fun _ => steady.bind fun _ => .pure _
    obtain ⟨-, -, rfl⟩ := use_clean.1 used
    obtain ⟨inner, bodied, rfl⟩ := clean_map.1 rest
    exact ⟨_, distance, inner, introduced, differ, used, bodied, rfl⟩
  · rintro ⟨middle, distance, inner, introduced, differ, used, bodied, rfl⟩
    have different : (checkSuperclass name superclass).Clean { context with inClass := .class_ }
        middle () middle := checkSuperclass_clean.2 ⟨differ, rfl⟩
    exact introduced.bind (different.bind ((inClass_clean inside).2 (used.bind (bodied.map _))))

end Stmt

/-! ### Programs -/

namespace Program

variable {plain : Program.Plain} {program : Program Distance} {after : List Scope}

theorem clean_of_bind (bound : bind plain = { program := program, errors := #[] }) :
    ∃ after, (Stmt.bindAll plain).Clean .topLevel [] program after := by
  have restored := (Stmt.bindAll_steady plain).context ⟨.topLevel, [], #[]⟩
  rcases result : Stmt.bindAll plain { context := .topLevel, scopes := [], errors := #[] } with
    ⟨found, around, after, errors⟩
  rw [bind, result] at bound
  rw [result] at restored
  obtain ⟨rfl, rfl⟩ := Binding.mk.inj bound
  cases restored
  exact ⟨after, result⟩

theorem bind_of_clean (clean : (Stmt.bindAll plain).Clean .topLevel [] program after) :
    bind plain = { program := program, errors := #[] } := by
  have run : Stmt.bindAll plain { context := .topLevel, scopes := [], errors := #[] } = _ := clean
  rw [bind, run]

end Program

end LoxLang
