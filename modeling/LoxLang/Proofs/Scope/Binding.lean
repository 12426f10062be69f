/-
Module: LoxLang.Proofs.Scope.Binding
Purpose: Binding is right.  While names are bound, the scopes kept along the way show the scopes
  around the place that is being looked at; so if no error is found, every reference of the bound
  program is bound as the scopes around it say.
Main exports: Shown, Binder.Yields, Context.Fits, Expr.bind_yields, Stmt.bindAll_yields,
  Program.bind_right
-/
import LoxLang.Proofs.Scope.Clean
import LoxLang.Proofs.Scope.Tidy

namespace LoxLang

/-! ### Distances -/

theorem distanceIn_cons (layer : Layer) (layers : List Layer) (name : String) :
    distanceIn (layer :: layers) name =
      if layer.declares name then some 0 else (distanceIn layers name).map (· + 1) := by
  simp only [distanceIn, List.findIdx?_cons]

theorem distanceIn_declareInnermost {layers : List Layer} {name other : String}
    (different : other ≠ name) :
    distanceIn (declareInnermost name layers) other = distanceIn layers other := by
  cases layers with
  | nil => rfl
  | cons innermost outer =>
      simp only [declareInnermost, distanceIn_cons, Layer.declares_declare, different,
        decide_false, Bool.false_or]

/-! ### Scopes that show layers -/

theorem Scope.ready?_mark (scope : Scope) (name other : String) (ready : Bool) :
    (scope.mark name ready).ready? other =
      if other = name then some ready else scope.ready? other := by
  have others : ∀ {entries : List (String × Bool)}, other ≠ name →
      (entries.filter (·.1 ≠ name)).lookup other = entries.lookup other := by
    intro entries different
    induction entries with
    | nil => rfl
    | cons entry rest ih =>
        rcases entry with ⟨key, value⟩
        by_cases same : key = name
        · subst same
          have skipped : (other == key) = false := by simpa using different
          simp only [List.filter_cons, List.lookup_cons, skipped, ne_eq, not_true_eq_false,
            decide_false, Bool.false_eq_true, ↓reduceIte]
          exact ih
        · simp only [List.filter_cons, List.lookup_cons, ne_eq, same, not_false_eq_true,
            decide_true, ↓reduceIte]
          rw [ih]
  by_cases same : other = name
  · simp [mark, ready?, same]
  · have skipped : (other == name) = false := by simpa using same
    simp only [mark, ready?, List.lookup_cons, skipped, same, ↓reduceIte]
    exact others same

/-- Whether a scope holds these names ready to be read and perhaps one more that is not. -/
def Scope.Shows (scope : Scope) (names : List String) (pending : Option String) : Prop :=
  ∀ name, scope.ready? name =
    if pending = some name then some false else if name ∈ names then some true else none

namespace Scope.Shows

variable {scope : Scope} {names : List String} {pending : Option String}

theorem declares (shows' : scope.Shows names pending) (name : String) :
    scope.declares name = (decide (pending = some name) || decide (name ∈ names)) := by
  rw [Scope.declares, shows' name]
  by_cases isPending : pending = some name
  · simp [isPending]
  · by_cases isDeclared : name ∈ names <;> simp [isPending, isDeclared]

/-- Declaring a name makes it the one that is not ready. -/
theorem begin (shows' : scope.Shows names none) (name : String) :
    (scope.mark name false).Shows names (some name) := by
  intro other
  rw [Scope.ready?_mark, shows' other]
  by_cases same : other = name
  · simp [same]
  · simp [same, Ne.symm same]

/-- Defining a name makes it ready. -/
theorem finish {name : String} (shows' : scope.Shows names pending)
    (own : ∀ other, pending = some other → other = name) :
    (scope.mark name true).Shows (name :: names) none := by
  intro other
  rw [Scope.ready?_mark, shows' other]
  by_cases same : other = name
  · simp [same]
  · have notPending : pending ≠ some other := fun isPending => same (own other isPending)
    simp [same, notPending]

end Scope.Shows

/-- Whether scopes show the layers around a place; only the innermost can hold a name that is not
ready. -/
def Shown : Option String → List Scope → List Layer → Prop
  | _, [], [] => True
  | pending, scope :: scopes, layer :: layers =>
      scope.Shows layer.names pending ∧ Shown none scopes layers
  | _, _, _ => False

/-- What is kept while names are bound gives the distances that the layers give. -/
theorem Shown.distance {scopes : List Scope} {sight : Sight}
    (shown : Shown sight.pending scopes sight.layers) (name : String) :
    (scopes.findIdx? fun scope => scope.declares name) = sight.distance? name := by
  have settled : ∀ {scopes : List Scope} {layers : List Layer}, Shown none scopes layers →
      (scopes.findIdx? fun scope => scope.declares name) = distanceIn layers name := by
    intro scopes layers shown
    induction scopes generalizing layers with
    | nil =>
        cases layers with
        | nil => rfl
        | cons layer layers => exact shown.elim
    | cons scope scopes ih =>
        cases layers with
        | nil => exact shown.elim
        | cons layer layers =>
            rw [List.findIdx?_cons, distanceIn_cons, shown.1.declares name, ih shown.2]
            simp [Layer.declares]
  rcases sight with ⟨layers, pending⟩
  cases scopes with
  | nil =>
      cases layers with
      | nil => cases pending <;> rfl
      | cons layer layers => exact shown.elim
  | cons scope scopes =>
      cases layers with
      | nil => exact shown.elim
      | cons layer layers =>
          rw [List.findIdx?_cons, settled shown.2, shown.1.declares name]
          cases pending with
          | none => simp [Sight.distance?, Sight.scopes, distanceIn_cons, Layer.declares]
          | some awaited =>
              by_cases same : name = awaited
              · simp [same, Sight.distance?, Sight.scopes, declareInnermost, distanceIn_cons]
              · simp [same, Ne.symm same, Sight.distance?, Sight.scopes, declareInnermost,
                  distanceIn_cons, Layer.declares, Layer.declare]

/-! ### What a step of binding yields -/

/-- A step started in the given surroundings and scopes comes back to these surroundings and leaves
scopes of which `after` holds; and if there are no errors after it, there were none before it and
`good` holds of its result. -/
def Binder.Yields {α : Type} (step : Binder α) (context : Context) (scopes : List Scope)
    (after : List Scope → Prop) (good : α → Prop) : Prop :=
  ∀ errors, ∃ result following found,
    step { context := context, scopes := scopes, errors := errors } =
        (result, { context := context, scopes := following, errors := found }) ∧
      after following ∧ (found = #[] → errors = #[] ∧ good result)

namespace Binder

variable {α β : Type} {context : Context} {scopes : List Scope} {after middle : List Scope → Prop}
  {good goal : α → Prop}

theorem Yields.pure {value : α} (reached : after scopes) (holds : good value) :
    (Pure.pure value : Binder α).Yields context scopes after good :=
  fun errors => ⟨value, scopes, errors, rfl, reached, fun clean => ⟨clean, holds⟩⟩

theorem Yields.bind {step : Binder α} {next : α → Binder β} {goal : β → Prop}
    (first : step.Yields context scopes middle good)
    (second : ∀ value following, middle following →
      (next value).Yields context following after fun result => good value → goal result) :
    (step >>= next).Yields context scopes after goal := by
  intro errors
  obtain ⟨value, following, found, run, reached, holds⟩ := first errors
  obtain ⟨result, last, more, runToo, reachedToo, holdsToo⟩ := second value following reached found
  refine ⟨result, last, more, ?_, reachedToo, fun clean => ?_⟩
  · simp only [Bind.bind, StateT.bind, run, runToo]
  · obtain ⟨cleanBefore, goalHolds⟩ := holdsToo clean
    obtain ⟨cleanFirst, goodHolds⟩ := holds cleanBefore
    exact ⟨cleanFirst, goalHolds goodHolds⟩

theorem Yields.mono {step : Binder α} (yields : step.Yields context scopes middle good)
    (weaker : ∀ following, middle following → after following)
    (implies : ∀ value, good value → goal value) : step.Yields context scopes after goal := by
  intro errors
  obtain ⟨result, following, found, run, reached, holds⟩ := yields errors
  exact ⟨result, following, found, run, weaker _ reached, fun clean =>
    ⟨(holds clean).1, implies _ (holds clean).2⟩⟩

/-- What holds of the result however something is chosen holds of it for every choice. -/
theorem Yields.forall {ι : Type} [Inhabited ι] {step : Binder α} {good : ι → α → Prop}
    (yields : ∀ choice, step.Yields context scopes after (good choice)) :
    step.Yields context scopes after fun value => ∀ choice, good choice value := by
  intro errors
  obtain ⟨result, following, found, run, reached, holds⟩ := yields default errors
  refine ⟨result, following, found, run, reached, fun clean => ⟨(holds clean).1, fun choice => ?_⟩⟩
  obtain ⟨_, _, _, runToo, -, holdsToo⟩ := yields choice errors
  cases run.symm.trans runToo
  exact (holdsToo clean).2

/-- What is done with the surroundings is done with those that there are. -/
theorem surrounded_yields {next : Context → Binder α}
    (yields : (next context).Yields context scopes after good) :
    (surroundings >>= next).Yields context scopes after good :=
  yields

/-- An error that has been reported stays. -/
theorem report_yields (cause : ScopeCause) (name : Ident) :
    (report cause name).Yields context scopes (· = scopes) fun _ => False :=
  fun errors => ⟨(), scopes, errors.push ⟨cause, name⟩, rfl, rfl, fun clean => by simp at clean⟩

theorem within_yields {scope : Scope} {step : Binder α} {layers : List Layer}
    (inner : step.Yields context (scope :: scopes) (fun following => ∃ layer,
      Shown none following (layer :: layers)) good) :
    (within scope step).Yields context scopes (Shown none · layers) good := by
  intro errors
  obtain ⟨result, following, found, run, ⟨layer, shown⟩, holds⟩ := inner errors
  refine ⟨result, following.tail, found, by simp only [within, run], ?_, holds⟩
  cases following with
  | nil => exact shown.elim
  | cons innermost outer => exact shown.2

theorem inFunction_yields {kind : FunctionContext} {step : Binder α}
    (inner : step.Yields { context with function := kind } scopes after good) :
    (inFunction kind step).Yields context scopes after good := by
  intro errors
  obtain ⟨result, following, found, run, reached, holds⟩ := inner errors
  exact ⟨result, following, found, by simp only [inFunction, run], reached, holds⟩

theorem inClass_yields {kind : ClassContext} {step : Binder α}
    (inner : step.Yields { context with inClass := kind } scopes after good) :
    (inClass kind step).Yields context scopes after good := by
  intro errors
  obtain ⟨result, following, found, run, reached, holds⟩ := inner errors
  exact ⟨result, following, found, by simp only [inClass, run], reached, holds⟩

/-! ### Declarations -/

variable {layers : List Layer} {pending : Option String}

theorem markInnermost_yields {name : String} {ready : Bool} {marked : List Layer}
    (kept : ∀ {innermost : Scope} {outer : List Scope}, scopes = innermost :: outer →
      Shown pending (innermost.mark name ready :: outer) marked)
    (none : scopes = [] → Shown pending [] marked) :
    (markInnermost name ready).Yields context scopes (Shown pending · marked) fun _ => True := by
  intro errors
  cases scopes with
  | nil => exact ⟨(), [], errors, rfl, none rfl, fun clean => ⟨clean, trivial⟩⟩
  | cons innermost outer => exact ⟨(), _, errors, rfl, kept rfl, fun clean => ⟨clean, trivial⟩⟩

theorem declare_yields (shown : Shown none scopes layers) (name : Ident) :
    (declare name).Yields context scopes (Shown (some name.text) · layers) fun _ => True := by
  have marked : (markInnermost name.text false).Yields context scopes
      (Shown (some name.text) · layers) fun _ => True := by
    apply markInnermost_yields
    · intro innermost outer same
      subst same
      cases layers with
      | nil => exact shown.elim
      | cons layer layers => exact ⟨shown.1.begin name.text, shown.2⟩
    · intro same
      subst same
      cases layers with
      | nil => trivial
      | cons layer layers => exact shown.elim
  have again : (do report .declaredTwice name; markInnermost name.text false : Binder Unit).Yields
      context scopes (Shown (some name.text) · layers) fun _ => True := by
    apply (report_yields .declaredTwice name).bind
    intro _ following same
    subst same
    exact marked.mono (fun _ reached => reached) fun _ _ _ => trivial
  cases scopes with
  | nil => exact marked
  | cons innermost outer =>
      intro errors
      by_cases isDeclared : innermost.declares name.text = true
      · simp only [declare, isDeclared, ↓reduceIte]
        exact again errors
      · simp only [declare, isDeclared]
        exact marked errors

theorem define_yields {name : Ident} (shown : Shown pending scopes layers)
    (own : ∀ other, pending = some other → other = name.text) :
    (define name).Yields context scopes (Shown none · (declareInnermost name.text layers))
      fun _ => True := by
  apply markInnermost_yields
  · intro innermost outer same
    subst same
    cases layers with
    | nil => exact shown.elim
    | cons layer layers => exact ⟨shown.1.finish own, shown.2⟩
  · intro same
    subst same
    cases layers with
    | nil => trivial
    | cons layer layers => exact shown.elim

theorem introduce_yields (shown : Shown none scopes layers) (name : Ident) :
    (introduce name).Yields context scopes (Shown none · (declareInnermost name.text layers))
      fun _ => True := by
  apply (declare_yields shown name).bind
  intro _ following declared
  refine (define_yields declared ?_).mono (fun _ reached => reached) fun _ _ _ => trivial
  intro other same
  exact (Option.some.inj same).symm

/-- Parameters are declared one after the other; in what order does not matter. -/
theorem introduceAll_yields {layer : Layer} {outer : List Layer} (declared : Layer)
    (names : List Ident) (shown : Shown none scopes (layer :: outer))
    (declares : ∀ name, name ∈ declared.names ↔
      name ∈ names.map (·.text) ∨ name ∈ layer.names) :
    (introduceAll names).Yields context scopes (Shown none · (declared :: outer)) fun _ => True := by
  induction names generalizing scopes layer with
  | nil =>
      cases scopes with
      | nil => exact shown.elim
      | cons innermost scopes =>
          apply Yields.pure
          · refine ⟨fun name => ?_, shown.2⟩
            rw [shown.1 name]
            simp [declares name]
          · trivial
  | cons first rest ih =>
      apply (introduce_yields shown first).bind
      intro _ following introduced
      refine (ih introduced fun name => ?_).mono (fun _ reached => reached) fun _ _ _ => trivial
      rw [declares name]
      simp only [List.map_cons, List.mem_cons, Layer.declare]
      constructor
      · rintro ((same | later) | older)
        · exact .inr (.inl same)
        · exact .inl later
        · exact .inr (.inr older)
      · rintro (later | same | older)
        · exact .inl (.inr later)
        · exact .inl (.inl same)
        · exact .inr older

end Binder

/-! ### Context -/

/-- Whether what is known about the surrounding class agrees with the layers: inside a class
`this` is declared, and inside one with a superclass `super` is declared one layer further out. -/
def Context.Fits (context : Context) (layers : List Layer) : Prop :=
  match context.inClass with
  | .outside => True
  | .class_ => ∃ distance, distanceIn layers "this" = some distance
  | .subclass =>
      ∃ distance, distanceIn layers "this" = some distance ∧
        distanceIn layers "super" = some (distance + 1)

namespace Context.Fits

variable {context : Context} {layers : List Layer}

theorem declare (fits : context.Fits layers) {name : Ident} (unreserved : name.Unreserved) :
    context.Fits (declareInnermost name.text layers) := by
  unfold Context.Fits at *
  rw [distanceIn_declareInnermost unreserved.1.symm, distanceIn_declareInnermost unreserved.2.symm]
  exact fits

theorem push (fits : context.Fits layers) {layer : Layer}
    (noReceiver : layer.declares "this" = false) (noSuper : layer.declares "super" = false) :
    context.Fits (layer :: layers) := by
  unfold Context.Fits at *
  simp only [distanceIn_cons, noReceiver, noSuper, Bool.false_eq_true, ↓reduceIte]
  cases kind : context.inClass with
  | outside => trivial
  | class_ =>
      simp only [kind] at fits
      rcases fits with ⟨distance, found⟩
      exact ⟨distance + 1, by rw [found]; rfl⟩
  | subclass =>
      simp only [kind] at fits
      rcases fits with ⟨distance, found, above⟩
      exact ⟨distance + 1, by rw [found]; rfl, by rw [above]; rfl⟩

theorem inClass (kind : FunctionContext) (site : Site) (layers : List Layer) :
    Context.Fits { function := kind, inClass := .class_ }
      ({ site := site, names := ["this"] } :: layers) :=
  ⟨0, rfl⟩

theorem inSubclass (kind : FunctionContext) (site outer : Site) (layers : List Layer) :
    Context.Fits { function := kind, inClass := .subclass }
      ({ site := site, names := ["this"] } :: { site := outer, names := ["super"] } :: layers) :=
  ⟨0, rfl, rfl⟩

end Context.Fits

/-! ### Uses -/

namespace Binder

variable {context : Context} {scopes : List Scope} {sight : Sight}

theorem distance_yields (shown : Shown sight.pending scopes sight.layers) (name : String) :
    (distance name).Yields context scopes (Shown sight.pending · sight.layers)
      fun binding => binding = sight.distance? name :=
  fun errors => ⟨_, scopes, errors, rfl, shown, fun clean => ⟨clean, shown.distance name⟩⟩

/-- A name that is not awaited is not the one that is pending. -/
theorem Shown.ready (shown : Shown sight.pending scopes sight.layers) {name : String}
    (ready : awaits scopes name = false) (bound : sight.distance? name ≠ none) :
    sight.pending ≠ some name := by
  rcases sight with ⟨layers, pending⟩
  rintro isPending
  cases scopes with
  | nil =>
      rw [← shown.distance name] at bound
      exact bound rfl
  | cons innermost outer =>
      cases layers with
      | nil => exact shown.elim
      | cons layer layers =>
          have unready := shown.1 name
          rw [if_pos isPending] at unready
          simp [awaits, unready] at ready

/-- A use that is no error is bound rightly. -/
theorem use_yields (shown : Shown sight.pending scopes sight.layers) (name : Ident) :
    (use name).Yields context scopes (Shown sight.pending · sight.layers) fun binding =>
      Reference.Right sight { kind := .read, name := name, binding := binding } := by
  intro errors
  rw [use_apply]
  cases isAwaited : awaits scopes name.text with
  | true => exact ⟨_, _, _, rfl, shown, fun clean => by simp at clean⟩
  | false =>
      refine ⟨_, _, _, rfl, shown, fun clean => ⟨clean, shown.distance name.text, fun bound => ?_⟩⟩
      rw [shown.distance name.text] at bound
      exact Shown.ready shown isAwaited bound

theorem useReceiver_yields (shown : Shown sight.pending scopes sight.layers)
    (fits : context.Fits sight.scopes) (keyword : Position) (name : Ident) :
    (useReceiver keyword).Yields context scopes (Shown sight.pending · sight.layers)
      fun binding =>
        Reference.Right sight { kind := .receiver, name := name, binding := binding } := by
  have inside : (∃ distance, distanceIn sight.scopes "this" = some distance) →
      (distance "this").Yields context scopes (Shown sight.pending · sight.layers) fun binding =>
        Reference.Right sight { kind := .receiver, name := name, binding := binding } := by
    intro declared
    rcases declared with ⟨distance, found⟩
    apply (distance_yields shown "this").mono (fun _ reached => reached)
    intro binding isBinding
    exact ⟨distance, isBinding.trans found, found⟩
  apply surrounded_yields
  unfold Context.Fits at fits
  cases kind : context.inClass with
  | outside =>
      apply (report_yields _ _).bind
      intro _ following same
      subst same
      exact Yields.pure shown fun impossible => impossible.elim
  | class_ =>
      simp only [kind] at fits
      exact inside fits
  | subclass =>
      simp only [kind] at fits
      rcases fits with ⟨distance, found, -⟩
      exact inside ⟨distance, found⟩

theorem useSuper_yields (shown : Shown sight.pending scopes sight.layers)
    (fits : context.Fits sight.scopes) (keyword : Position) (name : Ident) :
    (useSuper keyword).Yields context scopes (Shown sight.pending · sight.layers)
      fun binding =>
        Reference.Right sight { kind := .superMethod, name := name, binding := binding } := by
  have reported : ∀ cause : ScopeCause,
      (do report cause { text := "super", position := keyword }; distance "super"
        : Binder Distance).Yields context scopes (Shown sight.pending · sight.layers) fun binding =>
          Reference.Right sight { kind := .superMethod, name := name, binding := binding } := by
    intro cause
    apply (report_yields _ _).bind
    intro _ following same
    subst same
    exact (distance_yields shown "super").mono (fun _ reached => reached)
      fun _ _ impossible => impossible.elim
  apply surrounded_yields
  unfold Context.Fits at fits
  cases kind : context.inClass with
  | outside => exact reported .superOutsideClass
  | class_ => exact reported .superWithoutSuperclass
  | subclass =>
      simp only [kind] at fits
      rcases fits with ⟨distance, receiver, found⟩
      apply (distance_yields shown "super").mono (fun _ reached => reached)
      intro binding isBinding
      exact ⟨distance, isBinding.trans found, found, receiver⟩

theorem checkReturn_yields {layers : List Layer} (shown : Shown none scopes layers)
    (keyword : Position) (hasValue : Bool) :
    (checkReturn keyword hasValue).Yields context scopes (Shown none · layers)
      fun _ => True := by
  have reported : ∀ (cause : ScopeCause) (name : Ident),
      (report cause name).Yields context scopes (Shown none · layers) fun _ => True := by
    intro cause name
    apply (report_yields cause name).mono
    · intro following same
      subst same
      exact shown
    · intro _ _
      trivial
  apply surrounded_yields
  cases context.function with
  | outside => exact reported _ _
  | initializer =>
      cases hasValue with
      | false => exact Yields.pure shown trivial
      | true => exact reported _ _
  | function => exact Yields.pure shown trivial
  | method => exact Yields.pure shown trivial

/-- A superclass is looked up where the class itself has been declared already, but it is never
found to be the class. -/
theorem checkSuperclass_yields {layers : List Layer} (shown : Shown none scopes layers)
    (name superclass : Ident) :
    (checkSuperclass name superclass).Yields context scopes (Shown none · layers) fun _ =>
      superclass.text ≠ name.text := by
  unfold checkSuperclass
  by_cases same : superclass.text = name.text
  · simp only [same, ↓reduceIte]
    apply (report_yields _ _).mono
    · intro following unchanged
      subst unchanged
      exact shown
    · intro _ impossible
      exact impossible.elim
  · simp only [same, ↓reduceIte]
    exact Yields.pure shown same

theorem useSuperclass_yields {layers : List Layer} {name superclass : Ident}
    (shown : Shown none scopes (declareInnermost name.text layers)) :
    (use superclass).Yields context scopes
      (Shown none · (declareInnermost name.text layers)) fun binding =>
        superclass.text ≠ name.text →
        Reference.Right { layers := layers, pending := some name.text }
          { kind := .read, name := superclass, binding := binding } := by
  have declared : Shown (Sight.mk (declareInnermost name.text layers) none).pending scopes
      (Sight.mk (declareInnermost name.text layers) none).layers := shown
  apply (use_yields declared superclass).mono (fun _ reached => reached)
  intro binding right different
  refine ⟨right.1, fun _ isName => ?_⟩
  exact different (Option.some.inj isName).symm

end Binder

/-! ### Expressions -/

namespace Expr

open Binder (Yields)

mutual
/-- Binding an expression leaves the scopes as they are and binds every reference rightly. -/
theorem bind_yields {context : Context} {sight : Sight} (fits : context.Fits sight.scopes) :
    ∀ (e : Expr Unit) {scopes : List Scope}, e.Tidy →
      Shown sight.pending scopes sight.layers →
      e.bind.Yields context scopes (Shown sight.pending · sight.layers) fun bound =>
        Throughout Place.Right (bound.places sight)
  | literal value, _, _, shown => Yields.pure shown throughout_nil
  | read name _, _, _, shown => by
      apply (Binder.use_yields shown name).bind
      intro binding following reached
      exact Yields.pure reached fun right => throughout_cons.2 ⟨right, throughout_nil⟩
  | assign name _ value, _, tidy, shown => by
      apply (bind_yields fits value tidy.2 shown).bind
      intro bound following reached
      apply (Binder.distance_yields reached name.text).bind
      intro binding rest again
      apply Yields.pure again
      intro isBinding right
      exact throughout_cons.2 ⟨⟨isBinding, tidy.1⟩, right⟩
  | unary op position operand, _, tidy, shown => by
      apply (bind_yields fits operand tidy shown).bind
      intro bound following reached
      exact Yields.pure reached fun right => right
  | binary left op position right, _, tidy, shown => by
      apply (bind_yields fits left tidy.1 shown).bind
      intro boundLeft following reached
      apply (bind_yields fits right tidy.2 reached).bind
      intro boundRight rest again
      exact Yields.pure again fun second first => throughout_append.2 ⟨first, second⟩
  | logical left op right, _, tidy, shown => by
      apply (bind_yields fits left tidy.1 shown).bind
      intro boundLeft following reached
      apply (bind_yields fits right tidy.2 reached).bind
      intro boundRight rest again
      exact Yields.pure again fun second first => throughout_append.2 ⟨first, second⟩
  | grouping inner, _, tidy, shown => by
      apply (bind_yields fits inner tidy shown).bind
      intro bound following reached
      exact Yields.pure reached fun right => right
  | call callee arguments close, _, tidy, shown => by
      apply (bind_yields fits callee tidy.1 shown).bind
      intro boundCallee following reached
      apply (bindAll_yields fits arguments tidy.2 reached).bind
      intro boundArguments rest again
      exact Yields.pure again fun second first => throughout_append.2 ⟨first, second⟩
  | get object name, _, tidy, shown => by
      apply (bind_yields fits object tidy shown).bind
      intro bound following reached
      exact Yields.pure reached fun right => right
  | set object name value, _, tidy, shown => by
      apply (bind_yields fits value tidy.2 shown).bind
      intro boundValue following reached
      apply (bind_yields fits object tidy.1 reached).bind
      intro boundObject rest again
      exact Yields.pure again fun second first => throughout_append.2 ⟨second, first⟩
  | receiver keyword _, _, _, shown => by
      apply (Binder.useReceiver_yields shown fits keyword _).bind
      intro binding following reached
      exact Yields.pure reached fun right => throughout_cons.2 ⟨right, throughout_nil⟩
  | superMethod keyword _ method, _, _, shown => by
      apply (Binder.useSuper_yields shown fits keyword _).bind
      intro binding following reached
      exact Yields.pure reached fun right => throughout_cons.2 ⟨right, throughout_nil⟩

theorem bindAll_yields {context : Context} {sight : Sight} (fits : context.Fits sight.scopes) :
    ∀ (es : List (Expr Unit)) {scopes : List Scope}, TidyAll es →
      Shown sight.pending scopes sight.layers →
      (bindAll es).Yields context scopes (Shown sight.pending · sight.layers) fun bound =>
        Throughout Place.Right (placesAll sight bound)
  | [], _, _, shown => Yields.pure shown throughout_nil
  | e :: rest, _, tidy, shown => by
      apply (bind_yields fits e tidy.1 shown).bind
      intro bound following reached
      apply (bindAll_yields fits rest tidy.2 reached).bind
      intro boundRest after again
      exact Yields.pure again fun second first => throughout_append.2 ⟨first, second⟩
end

theorem bindOpt_yields {context : Context} {sight : Sight} {scopes : List Scope}
    (fits : context.Fits sight.scopes) (value : Option (Expr Unit)) (tidy : TidyOpt value)
    (shown : Shown sight.pending scopes sight.layers) :
    (bindOpt value).Yields context scopes (Shown sight.pending · sight.layers) fun bound =>
      Throughout Place.Right (placesOpt sight bound) := by
  cases value with
  | none => exact Yields.pure shown throughout_nil
  | some e =>
      apply (bind_yields fits e tidy shown).bind
      intro bound following reached
      exact Yields.pure reached fun right => right

end Expr

/-! ### Statements -/

namespace Stmt

open Binder (Yields)

variable {ρ : Type}

theorem extend_of_declared?_eq_none {s : Stmt ρ} (statement : s.declared? = none)
    (layers : List Layer) : s.extend layers = layers := by
  rw [extend, statement]

theorem extend_of_declared?_eq_some {s : Stmt ρ} {name : Ident}
    (declares : s.declared? = some name) (layers : List Layer) :
    s.extend layers = declareInnermost name.text layers := by
  rw [extend, declares]

/-- Statements declare names in the innermost scope only. -/
theorem foldl_extend_cons (body : List (Stmt ρ)) (layer : Layer) (outer : List Layer) :
    ∃ declared, body.foldl extend (layer :: outer) = declared :: outer := by
  induction body generalizing layer with
  | nil => exact ⟨layer, rfl⟩
  | cons s rest ih =>
      rw [List.foldl_cons, extend]
      cases s.declared? with
      | none => exact ih layer
      | some name => exact ih (layer.declare name.text)

theorem fits_parameters {context : Context} {layers : List Layer} {parameters : List Ident}
    (fits : context.Fits layers) (unreserved : ∀ name ∈ parameters, name.Unreserved)
    (site : Site) :
    context.Fits ({ site := site, names := parameters.map (·.text) } :: layers) := by
  have undeclared : ∀ word : String, (∀ name ∈ parameters, name.text ≠ word) →
      (Layer.mk site (parameters.map (·.text))).declares word = false := by
    intro word different
    simp only [Layer.declares, List.mem_map, decide_eq_false_iff_not, not_exists, not_and]
    exact different
  exact fits.push (undeclared "this" fun name member => (unreserved name member).1)
    (undeclared "super" fun name member => (unreserved name member).2)

/-- The body of a function is bound with its parameters declared in a scope of its own. -/
theorem function_yields {context : Context} {layers : List Layer} {scopes : List Scope}
    {body : List (Stmt Unit)} (name : Ident) (parameters : List Ident)
    (shown : Shown none scopes layers)
    (inner : ∀ (site : Site) {following : List Scope},
      Shown none following ({ site := site, names := parameters.map (·.text) } :: layers) →
      (bindAll body).Yields context following
        (Shown none · (body.foldl extend
          ({ site := site, names := parameters.map (·.text) } :: layers)))
        fun bound => Throughout Place.Right (placesAll
          ({ site := site, names := parameters.map (·.text) } :: layers) bound))
    (unreserved : ∀ parameter ∈ parameters, parameter.Unreserved) :
    (Binder.within .empty do
      Binder.introduceAll parameters
      bindAll body).Yields context scopes (Shown none · layers) fun bound =>
        Throughout Place.Right (placesFunction layers (.mk name parameters bound)) := by
  -- the scope belongs to the bound function, so its site is chosen once the body has been bound
  have chosen : (Binder.within .empty do
      Binder.introduceAll parameters
      bindAll body).Yields context scopes (Shown none · layers) fun bound => ∀ site,
        Throughout Place.Right (placesAll
          ({ site := site, names := parameters.map (·.text) } :: layers) bound) := by
    apply Yields.forall
    intro site
    apply Binder.within_yields
    have opened : Shown none (Scope.empty :: scopes)
        (({ site := site, names := [] } : Layer) :: layers) :=
      ⟨fun _ => rfl, shown⟩
    have declares : ∀ word : String, word ∈ parameters.map (·.text) ↔
        word ∈ parameters.map (·.text) ∨ word ∈ ([] : List String) := by
      intro word
      simp
    apply (Binder.introduceAll_yields { site := site, names := parameters.map (·.text) }
      parameters opened declares).bind
    intro _ following introduced
    apply (inner site introduced).mono
    · intro rest reached
      obtain ⟨declared, same⟩ := foldl_extend_cons body
        { site := site, names := parameters.map (·.text) } layers
      rw [same] at reached
      exact ⟨declared, reached⟩
    · intro bound right _
      exact right
  apply chosen.mono (fun _ reached => reached)
  intro bound right
  refine throughout_append.2 ⟨?_, right (.function (.mk name parameters bound))⟩
  intro place member
  obtain ⟨parameter, isParameter, same⟩ := List.mem_map.1 member
  subst same
  exact unreserved parameter isParameter

theorem sightOf {context : Context} {layers : List Layer} (fits : context.Fits layers) :
    context.Fits (Sight.mk layers none).scopes :=
  fits

theorem shown_holding {scopes : List Scope} {layers : List Layer} {word : String}
    (shown : Shown none scopes layers) (site : Site) :
    Shown none (.holding word :: scopes) ({ site := site, names := [word] } :: layers) := by
  refine ⟨fun name => ?_, shown⟩
  by_cases same : name = word
  · simp [Scope.holding, Scope.ready?, same]
  · have skipped : (name == word) = false := by simpa using same
    simp [Scope.holding, Scope.ready?, List.lookup_cons, skipped, same]

/-- The methods of a class are bound with `this` declared in a scope of its own. -/
theorem methods_yields {context : Context} {layers : List Layer} {scopes : List Scope}
    {methods : List (Function Unit)} (shown : Shown none scopes layers)
    (inner : ∀ (site : Site),
      Shown none (.holding "this" :: scopes) ({ site := site, names := ["this"] } :: layers) →
      (bindMethods methods).Yields context (.holding "this" :: scopes)
        (Shown none · ({ site := site, names := ["this"] } :: layers)) fun bound =>
          Throughout Place.Right
            (placesMethods ({ site := site, names := ["this"] } :: layers) bound)) :
    (Binder.within (.holding "this") (bindMethods methods)).Yields context scopes
      (Shown none · layers) fun bound => ∀ site,
        Throughout Place.Right
          (placesMethods ({ site := site, names := ["this"] } :: layers) bound) := by
  apply Yields.forall
  intro site
  apply Binder.within_yields
  exact (inner site (shown_holding shown site)).mono (fun _ reached => ⟨_, reached⟩)
    fun _ right => right

theorem fits_extend {context : Context} {layers : List Layer} {s : Stmt Unit}
    (fits : context.Fits layers) (tidy : s.Tidy) : context.Fits (s.extend layers) := by
  cases s with
  | declare name initializer => exact fits.declare tidy.1
  | function declaration => exact fits.declare tidy.1
  | classDecl name superclass methods => exact fits.declare tidy.1
  | _ => exact fits

mutual
/-- Binding a statement declares what it declares in the innermost scope and binds every reference
rightly. -/
theorem bind_yields :
    ∀ (s : Stmt Unit) {context : Context} {layers : List Layer} {scopes : List Scope},
      s.Tidy → context.Fits layers → Shown none scopes layers →
      s.bind.Yields context scopes (Shown none · (s.extend layers)) fun bound =>
        bound.declared? = s.declared? ∧ Throughout Place.Right (bound.places layers)
  | expression value, context, layers, _, tidy, fits, shown => by
      have bound := Expr.bind_yields (sightOf fits) value tidy shown
      apply bound.bind
      intro value following reached
      exact Yields.pure reached fun right => ⟨rfl, right⟩
  | print value, context, layers, _, tidy, fits, shown => by
      apply (Expr.bind_yields (sightOf fits) value tidy shown).bind
      intro bound following reached
      exact Yields.pure reached fun right => ⟨rfl, right⟩
  | declare name initializer, context, layers, _, tidy, fits, shown => by
      apply (Binder.declare_yields shown name).bind
      intro _ following declared
      have fitsInside : context.Fits (Sight.mk layers (some name.text)).scopes :=
        fits.declare tidy.1
      apply (Expr.bindOpt_yields fitsInside initializer tidy.2 declared).bind
      intro bound rest reached
      apply (Binder.define_yields reached fun other same => (Option.some.inj same).symm).bind
      intro _ after defined
      exact Yields.pure defined fun _ right _ => ⟨rfl, throughout_cons.2 ⟨tidy.1, right⟩⟩
  | block body, context, layers, scopes, tidy, fits, shown => by
      have chosen : (Binder.within .empty (bindAll body)).Yields context scopes
          (Shown none · layers) fun bound => ∀ site,
            Throughout Place.Right (placesAll ({ site := site, names := [] } :: layers) bound) := by
        apply Yields.forall
        intro site
        apply Binder.within_yields
        have opened : Shown none (Scope.empty :: scopes)
            (({ site := site, names := [] } : Layer) :: layers) :=
          ⟨fun _ => rfl, shown⟩
        apply (bindAll_yields body tidy (fits.push rfl rfl) opened).mono
        · intro rest reached
          obtain ⟨declared, same⟩ := foldl_extend_cons body { site := site, names := [] } layers
          rw [same] at reached
          exact ⟨declared, reached⟩
        · intro bound right
          exact right
      apply chosen.bind
      intro bound following reached
      exact Yields.pure reached fun right => ⟨rfl, right (.block bound)⟩
  | branch condition thenBranch none, context, layers, _, tidy, fits, shown => by
      apply (Expr.bind_yields (sightOf fits) condition tidy.1 shown).bind
      intro boundCondition following reached
      apply (bind_yields thenBranch tidy.2.1 fits reached).bind
      intro boundThen rest again
      rw [extend_of_declared?_eq_none tidy.2.2] at again
      exact Yields.pure again fun second first => ⟨rfl, throughout_append.2 ⟨first, second.2⟩⟩
  | branch condition thenBranch (some elseBranch), context, layers, _, tidy, fits, shown => by
      rcases tidy with ⟨tidyCondition, tidyThen, noThen, tidyElse, noElse⟩
      apply (Expr.bind_yields (sightOf fits) condition tidyCondition shown).bind
      intro boundCondition following reached
      apply (bind_yields thenBranch tidyThen fits reached).bind
      intro boundThen rest again
      rw [extend_of_declared?_eq_none noThen] at again
      apply (bind_yields elseBranch tidyElse fits again).bind
      intro boundElse after final
      rw [extend_of_declared?_eq_none noElse] at final
      apply Yields.pure final
      intro third second first
      exact ⟨rfl, throughout_append.2 ⟨throughout_append.2 ⟨first, second.2⟩, third.2⟩⟩
  | loop condition body, context, layers, _, tidy, fits, shown => by
      apply (Expr.bind_yields (sightOf fits) condition tidy.1 shown).bind
      intro boundCondition following reached
      apply (bind_yields body tidy.2.1 fits reached).bind
      intro boundBody rest again
      rw [extend_of_declared?_eq_none tidy.2.2] at again
      exact Yields.pure again fun second first => ⟨rfl, throughout_append.2 ⟨first, second.2⟩⟩
  | ret keyword value, context, layers, _, tidy, fits, shown => by
      apply (Binder.checkReturn_yields shown keyword value.isSome).bind
      intro _ following reached
      apply (Expr.bindOpt_yields (sightOf fits) value tidy reached).bind
      intro bound rest again
      exact Yields.pure again fun right _ => ⟨rfl, right⟩
  | function (.mk name parameters body), context, layers, _, tidy, fits, shown => by
      rcases tidy with ⟨unreservedName, unreserved, tidyBody⟩
      apply (Binder.introduce_yields shown name).bind
      intro _ following introduced
      have fitsInside : Context.Fits { context with function := .function }
          (declareInnermost name.text layers) :=
        fits.declare unreservedName
      apply (Binder.inFunction_yields (function_yields name parameters introduced
        (fun site _ opened =>
          bindAll_yields body tidyBody (fits_parameters fitsInside unreserved site) opened)
        unreserved)).bind
      intro bound rest reached
      exact Yields.pure reached fun right _ => ⟨rfl, throughout_cons.2 ⟨unreservedName, right⟩⟩
  | classDecl name none methods, context, layers, _, tidy, fits, shown => by
      apply Binder.inClass_yields
      apply (Binder.introduce_yields shown name).bind
      intro _ following introduced
      apply (methods_yields introduced fun site opened =>
        bindMethods_yields methods tidy.2 (.inClass _ site _) opened).bind
      intro bound rest reached
      exact Yields.pure reached fun right _ =>
        ⟨rfl, throughout_cons.2 ⟨tidy.1, right (.receiver name bound)⟩⟩
  | classDecl name (some (superclass, _)) methods, context, layers, _, tidy, fits, shown => by
      rw [bind_subclass]
      apply Binder.inClass_yields
      apply (Binder.introduce_yields shown name).bind
      intro _ following introduced
      apply (Binder.checkSuperclass_yields introduced name superclass).bind
      intro _ checked stillIntroduced
      apply Binder.inClass_yields
      apply (Binder.useSuperclass_yields stillIntroduced).bind
      intro binding rest used
      have chosen : (Binder.within (.holding "super")
          (Binder.within (.holding "this") (bindMethods methods))).Yields
          { context with inClass := .subclass } rest
          (Shown none · (declareInnermost name.text layers)) fun bound =>
            ∀ outer site, Throughout Place.Right (placesMethods
              ({ site := site, names := ["this"] } :: { site := outer, names := ["super"] }
                :: declareInnermost name.text layers) bound) := by
        apply Yields.forall
        intro outer
        apply Binder.within_yields
        exact (methods_yields (shown_holding used outer) fun site opened =>
          bindMethods_yields methods tidy.2 (.inSubclass _ site outer _) opened).mono
            (fun _ reached => ⟨_, reached⟩) fun _ right => right
      apply chosen.bind
      intro bound after reached
      exact Yields.pure reached fun right read different _ =>
        ⟨rfl, throughout_cons.2 ⟨tidy.1, throughout_cons.2
          ⟨read different, right (.superclass name bound) (.receiver name bound)⟩⟩⟩

theorem bindMethods_yields :
    ∀ (methods : List (Function Unit)) {context : Context} {layers : List Layer}
      {scopes : List Scope}, TidyMethods methods → context.Fits layers → Shown none scopes layers →
      (bindMethods methods).Yields context scopes (Shown none · layers) fun bound =>
        Throughout Place.Right (placesMethods layers bound)
  | [], _, _, _, _, _, shown => Yields.pure shown throughout_nil
  | .mk name parameters body :: rest, context, layers, _, tidy, fits, shown => by
      rcases tidy with ⟨⟨unreserved, tidyBody⟩, tidyRest⟩
      have fitsInside : Context.Fits { context with function := .ofMethod name } layers := fits
      apply (Binder.inFunction_yields (function_yields name parameters shown
        (fun site _ opened =>
          bindAll_yields body tidyBody (fits_parameters fitsInside unreserved site) opened)
        unreserved)).bind
      intro bound following reached
      apply (bindMethods_yields rest tidyRest fits reached).bind
      intro boundRest after again
      exact Yields.pure again fun second first => throughout_append.2 ⟨first, second⟩

/-- Statements are bound in order, each with what those before it declare. -/
theorem bindAll_yields :
    ∀ (body : List (Stmt Unit)) {context : Context} {layers : List Layer} {scopes : List Scope},
      TidyAll body → context.Fits layers → Shown none scopes layers →
      (bindAll body).Yields context scopes (Shown none · (body.foldl extend layers)) fun bound =>
        Throughout Place.Right (placesAll layers bound)
  | [], _, _, _, _, _, shown => Yields.pure shown throughout_nil
  | s :: rest, context, layers, _, tidy, fits, shown => by
      apply (bind_yields s tidy.1 fits shown).bind
      intro bound following reached
      apply (bindAll_yields rest tidy.2 (fits_extend fits tidy.1) reached).bind
      intro boundRest after again
      apply Yields.pure again
      intro second first
      have same : bound.extend layers = s.extend layers := by
        rw [extend, extend, first.1]
      rw [placesAll, same]
      exact throughout_append.2 ⟨first.2, second⟩
end

end Stmt

/-- If no error is found while the names of a tidy program are bound, every reference is bound as
the scopes around it say. -/
theorem Program.bind_right {program : Program.Plain} (tidy : Stmt.TidyAll program)
    (clean : (Program.bind program).errors = #[]) :
    Throughout Place.Right (Program.bind program).program.places := by
  have outside : Context.topLevel.Fits [] := trivial
  have none : Shown none [] [] := trivial
  obtain ⟨bound, scopes, errors, run, -, right⟩ :=
    Stmt.bindAll_yields program tidy outside none #[]
  rw [bind, run] at clean ⊢
  exact (right clean).2

end LoxLang
