/-
Module: LoxLang.Proofs.Scope.Composition
Purpose: Binding one statement after the other.  Whatever a step of binding finds, it leaves the
  scopes around the innermost one alone and comes back to the function and the class around it, and
  errors found before make no difference to it, so the parts of a program are bound as they are
  alone.
Main exports: Binder.Neutral, Binder.Framed, Expr.bind_neutral, Stmt.bind_framed,
  Stmt.bindAll_concat, Program.bind_compositional
-/
import LoxLang.Proofs.Scope.Clean
import LoxLang.Proofs.Scope.Traversal
import Mathlib.Data.List.Basic

namespace LoxLang

/-! ### Steps that keep to their scope -/

namespace Binder

variable {α β : Type}

/-- A step that leaves all scopes and what surrounds the code as they are and adds what it finds to
the errors. -/
def Neutral (step : Binder α) : Prop :=
  ∀ context scopes, ∃ value found, ∀ errors,
    step ⟨context, scopes, errors⟩ = (value, ⟨context, scopes, errors ++ found⟩)

/-- A step that leaves all scopes but the innermost and what surrounds the code as they are and adds
what it finds to the errors. -/
def Framed (step : Binder α) : Prop :=
  ∀ context scopes, ∃ value after found, after.length = scopes.length ∧ after.tail = scopes.tail ∧
    ∀ errors, step ⟨context, scopes, errors⟩ = (value, ⟨context, after, errors ++ found⟩)

theorem Neutral.framed {step : Binder α} (neutral : step.Neutral) : step.Framed := by
  intro context scopes
  obtain ⟨value, found, result⟩ := neutral context scopes
  exact ⟨value, scopes, found, rfl, rfl, result⟩

theorem Neutral.pure (value : α) : (Pure.pure value : Binder α).Neutral :=
  fun _ _ => ⟨value, #[], fun errors => by rw [Array.append_empty]; rfl⟩

theorem Neutral.bind {step : Binder α} {next : α → Binder β} (first : step.Neutral)
    (second : ∀ value, (next value).Neutral) : (step >>= next).Neutral := by
  intro context scopes
  obtain ⟨value, found, result⟩ := first context scopes
  obtain ⟨last, more, resultToo⟩ := second value context scopes
  refine ⟨last, found ++ more, fun errors => ?_⟩
  simp only [Bind.bind, StateT.bind, result, resultToo, Array.append_assoc]

theorem Framed.bind {step : Binder α} {next : α → Binder β} (first : step.Framed)
    (second : ∀ value, (next value).Framed) : (step >>= next).Framed := by
  intro context scopes
  obtain ⟨value, middle, found, height, outer, result⟩ := first context scopes
  obtain ⟨last, after, more, heightToo, outerToo, resultToo⟩ := second value context middle
  refine ⟨last, after, found ++ more, heightToo.trans height, outerToo.trans outer, ?_⟩
  intro errors
  simp only [Bind.bind, StateT.bind, result, resultToo, Array.append_assoc]

/-- What is bound in a new innermost scope leaves no trace in the others. -/
theorem Framed.within {step : Binder α} (scope : Scope) (framed : step.Framed) :
    (within scope step).Neutral := by
  intro context scopes
  obtain ⟨value, after, found, -, outer, result⟩ := framed context (scope :: scopes)
  refine ⟨value, found, fun errors => ?_⟩
  simp only [Binder.within, result, outer, List.tail_cons]

/-- The kind of the function that is put back is the kind there was; everything else about the
surroundings has been left alone by the code of the function. -/
theorem Neutral.inFunction {step : Binder α} (kind : FunctionContext) (neutral : step.Neutral) :
    (inFunction kind step).Neutral := by
  intro context scopes
  obtain ⟨value, found, result⟩ := neutral { context with function := kind } scopes
  refine ⟨value, found, fun errors => ?_⟩
  simp only [Binder.inFunction, result]

theorem Framed.inClass {step : Binder α} (kind : ClassContext) (framed : step.Framed) :
    (inClass kind step).Framed := by
  intro context scopes
  obtain ⟨value, after, found, height, outer, result⟩ :=
    framed { context with inClass := kind } scopes
  refine ⟨value, after, found, height, outer, fun errors => ?_⟩
  simp only [Binder.inClass, result]

/-! ### Single steps -/

theorem report_neutral (cause : ScopeCause) (name : Ident) : (report cause name).Neutral :=
  fun _ _ => ⟨(), #[⟨cause, name⟩], fun errors => by simp only [report, Array.push_eq_append]⟩

theorem markInnermost_framed (name : String) (ready : Bool) :
    (markInnermost name ready).Framed := by
  intro context scopes
  cases scopes with
  | nil => exact ⟨(), [], #[], rfl, rfl, fun errors => by rw [Array.append_empty]; rfl⟩
  | cons innermost outer =>
      exact ⟨(), innermost.mark name ready :: outer, #[], rfl, rfl,
        fun errors => by rw [Array.append_empty]; rfl⟩

theorem declare_framed (name : Ident) : (declare name).Framed := by
  intro context scopes
  cases scopes with
  | nil => exact (Neutral.pure ()).framed context []
  | cons innermost outer =>
      by_cases declared : innermost.declares name.text
      · have twice := (report_neutral .declaredTwice name).framed.bind fun _ =>
          markInnermost_framed name.text false
        simpa only [declare, if_pos declared] using twice context (innermost :: outer)
      · simpa only [declare, if_neg declared] using
          markInnermost_framed name.text false context (innermost :: outer)

theorem surroundings_neutral : surroundings.Neutral :=
  fun _ _ => ⟨_, #[], fun errors => by rw [Array.append_empty]; rfl⟩

theorem distance_neutral (name : String) : (distance name).Neutral :=
  fun _ _ => ⟨_, #[], fun errors => by rw [Array.append_empty]; rfl⟩

theorem use_neutral (name : Ident) : (use name).Neutral := by
  intro context scopes
  simp only [use_apply]
  cases awaits scopes name.text with
  | true =>
      refine ⟨_, #[⟨.readInOwnInitializer, name⟩], fun errors => Prod.ext rfl ?_⟩
      simp only [↓reduceIte, Array.push_eq_append]
  | false =>
      refine ⟨_, #[], fun errors => Prod.ext rfl ?_⟩
      simp only [Bool.false_eq_true, ↓reduceIte, Array.append_empty]

/-- Expressions are neutral and statements are framed. -/
theorem framing : Traversal .keep (fun _ step _ => step.Neutral) fun _ step _ => step.Framed where
  words := fun _ => rfl
  ofLook := Neutral.framed
  pure := fun _ => .pure _
  lookThen := Neutral.bind
  actThen := Framed.bind
  within := Framed.within
  inFunction := Neutral.inFunction
  inClass := Framed.inClass
  surroundings := surroundings_neutral
  declare := declare_framed
  define := fun name => markInnermost_framed name.text true
  report := report_neutral
  distance := distance_neutral
  use := use_neutral

end Binder

theorem Expr.bind_neutral (e : Expr Unit) : e.bind.Neutral :=
  Binder.framing.expression e

theorem Stmt.bind_framed (s : Stmt Unit) : s.bind.Framed :=
  Binder.framing.statement s

theorem Stmt.bindMethods_framed (methods : List (Function Unit)) :
    (bindMethods methods).Framed :=
  (Binder.framing.methodsOf methods).framed

theorem Stmt.bindAll_framed (ss : List (Stmt Unit)) : (bindAll ss).Framed :=
  Binder.framing.statements ss

/-! ### References -/

/-- What a reference is, apart from where it is bound. -/
def Reference.node {ρ : Type} (reference : Reference ρ) : ReferenceKind × Ident :=
  (reference.kind, reference.name)

/-- References that differ only in where they are bound. -/
def SameNodes (bound : List (Reference Distance)) (plain : List (Reference Unit)) : Prop :=
  bound.map Reference.node = plain.map Reference.node

theorem SameNodes.append {bound boundToo : List (Reference Distance)}
    {plain plainToo : List (Reference Unit)} (first : SameNodes bound plain)
    (second : SameNodes boundToo plainToo) : SameNodes (bound ++ boundToo) (plain ++ plainToo) := by
  rw [SameNodes, List.map_append, List.map_append, first, second]

theorem SameNodes.cons {kind : ReferenceKind} {name : Ident} {binding : Distance}
    {bound : List (Reference Distance)} {plain : List (Reference Unit)}
    (rest : SameNodes bound plain) :
    SameNodes (⟨kind, name, binding⟩ :: bound) (⟨kind, name, ()⟩ :: plain) :=
  congrArg ((kind, name) :: ·) rest

namespace Binder

variable {α β : Type}

/-- What holds of the value of a step, wherever it is taken. -/
def Always (good : α → Prop) (step : Binder α) : Prop :=
  ∀ state, good (step state).1

namespace Always

theorem pure {good : α → Prop} {value : α} (holds : good value) :
    (Pure.pure value : Binder α).Always good :=
  fun _ => holds

theorem bind {step : Binder α} {next : α → Binder β} {good : α → Prop} {goal : β → Prop}
    (first : step.Always good) (second : ∀ value, good value → (next value).Always goal) :
    (step >>= next).Always goal :=
  fun state => second _ (first state) (step state).2

/-- A step whose value does not matter. -/
theorem after {step : Binder α} {next : α → Binder β} {goal : β → Prop}
    (second : ∀ value, (next value).Always goal) : (step >>= next).Always goal :=
  fun state => second _ (step state).2

theorem within {step : Binder α} {good : α → Prop} (scope : Scope) (always : step.Always good) :
    (Binder.within scope step).Always good :=
  fun state => always { state with scopes := scope :: state.scopes }

theorem inFunction {step : Binder α} {good : α → Prop} (kind : FunctionContext)
    (always : step.Always good) : (Binder.inFunction kind step).Always good :=
  fun state => always { state with context := { state.context with function := kind } }

theorem inClass {step : Binder α} {good : α → Prop} (kind : ClassContext)
    (always : step.Always good) : (Binder.inClass kind step).Always good :=
  fun state => always { state with context := { state.context with inClass := kind } }

end Always

end Binder

namespace Expr

open Binder (Always)

mutual
theorem bind_nodes :
    ∀ e : Expr Unit, e.bind.Always fun bound => SameNodes bound.references e.references
  | literal _ => .pure rfl
  | read _ _ => .after fun _ => .pure rfl
  | assign _ _ value =>
      (bind_nodes value).bind fun _ inside => .after fun _ => .pure inside.cons
  | unary _ _ operand => (bind_nodes operand).bind fun _ inside => .pure inside
  | binary left _ _ right =>
      (bind_nodes left).bind fun _ first =>
        (bind_nodes right).bind fun _ second => .pure (first.append second)
  | logical left _ right =>
      (bind_nodes left).bind fun _ first =>
        (bind_nodes right).bind fun _ second => .pure (first.append second)
  | grouping inner => (bind_nodes inner).bind fun _ inside => .pure inside
  | call callee arguments _ =>
      (bind_nodes callee).bind fun _ first =>
        (bindAll_nodes arguments).bind fun _ second => .pure (first.append second)
  | get object _ => (bind_nodes object).bind fun _ inside => .pure inside
  | set object _ value =>
      (bind_nodes value).bind fun _ second =>
        (bind_nodes object).bind fun _ first => .pure (first.append second)
  | receiver _ _ => .after fun _ => .pure rfl
  | superMethod _ _ _ => .after fun _ => .pure rfl

theorem bindAll_nodes :
    ∀ es : List (Expr Unit), (bindAll es).Always fun bound =>
      SameNodes (referencesAll bound) (referencesAll es)
  | [] => .pure rfl
  | e :: rest =>
      (bind_nodes e).bind fun _ first =>
        (bindAll_nodes rest).bind fun _ second => .pure (first.append second)
end

theorem bindOpt_nodes (e : Option (Expr Unit)) :
    (bindOpt e).Always fun bound => SameNodes (referencesOpt bound) (referencesOpt e) := by
  cases e with
  | none => exact .pure rfl
  | some e => exact (bind_nodes e).bind fun _ inside => .pure inside

end Expr

namespace Stmt

open Binder (Always)

mutual
theorem bind_nodes :
    ∀ s : Stmt Unit, s.bind.Always fun bound => SameNodes bound.references s.references
  | expression value => (value.bind_nodes).bind fun _ inside => .pure inside
  | print value => (value.bind_nodes).bind fun _ inside => .pure inside
  | declare _ initializer =>
      .after fun _ => (Expr.bindOpt_nodes initializer).bind fun _ inside =>
        .after fun _ => .pure inside
  | block body =>
      ((bindAll_nodes body).within _).bind fun _ inside => .pure inside
  | branch condition thenBranch none =>
      (condition.bind_nodes).bind fun _ first =>
        (bind_nodes thenBranch).bind fun _ second => .pure (first.append second)
  | branch condition thenBranch (some elseBranch) =>
      (condition.bind_nodes).bind fun _ first =>
        (bind_nodes thenBranch).bind fun _ second =>
          (bind_nodes elseBranch).bind fun _ third =>
            .pure ((first.append second).append third)
  | loop condition body =>
      (condition.bind_nodes).bind fun _ first =>
        (bind_nodes body).bind fun _ second => .pure (first.append second)
  | ret _ value =>
      .after fun _ => (Expr.bindOpt_nodes value).bind fun _ inside => .pure inside
  | function (.mk _ _ body) =>
      .after fun _ => (((Always.after fun _ => bindAll_nodes body).within _).inFunction _).bind
        fun _ inside => .pure inside
  | classDecl _ none methods =>
      .inClass _ (.after fun _ => ((bindMethods_nodes methods).within _).bind
        fun _ inside => .pure inside)
  | classDecl _ (some (_, _)) methods =>
      .inClass _ (.after fun _ => .after fun _ => .after fun _ => .after fun _ =>
        (((bindMethods_nodes methods).within _).within _).bind fun _ inside => .pure inside.cons)

theorem bindMethods_nodes :
    ∀ methods : List (Function Unit), (bindMethods methods).Always fun bound =>
      SameNodes (referencesMethods bound) (referencesMethods methods)
  | [] => .pure rfl
  | .mk _ _ body :: rest =>
      (((Always.after fun _ => bindAll_nodes body).within _).inFunction _).bind fun _ first =>
        (bindMethods_nodes rest).bind fun _ second => .pure (first.append second)

theorem bindAll_nodes :
    ∀ ss : List (Stmt Unit), (bindAll ss).Always fun bound =>
      SameNodes (referencesAll bound) (referencesAll ss)
  | [] => .pure rfl
  | s :: rest =>
      (bind_nodes s).bind fun _ first =>
        (bindAll_nodes rest).bind fun _ second => .pure (first.append second)
end

end Stmt

/-! ### Programs -/

/-- Statements that follow others are bound from where the others end. -/
theorem Stmt.bindAll_concat (first second : List (Stmt Unit)) :
    bindAll (first ++ second) = do
      let bound ← bindAll first
      let others ← bindAll second
      return bound ++ others := by
  induction first with
  | nil => simp [bindAll]
  | cons s rest ih => simp [bindAll, ih]

namespace Program

theorem references_append {ρ : Type} (first second : Program ρ) :
    references (first ++ second) = first.references ++ second.references := by
  induction first with
  | nil => rfl
  | cons s rest ih =>
      have inside : Stmt.referencesAll (rest ++ second) = _ := ih
      simp only [references, List.cons_append, Stmt.referencesAll, inside, List.append_assoc]

/-- The references that are bound locally are some of those of the program. -/
theorem exists_of_mem_localReferences {program : Program.Plain} {reference : Reference Nat}
    (isLocal : reference ∈ localReferences (bind program).program) :
    ∃ plain ∈ program.references, plain.node = reference.node := by
  obtain ⟨bound, member, isBound⟩ := List.mem_filterMap.1 isLocal
  have same : SameNodes (bind program).program.references program.references :=
    Stmt.bindAll_nodes program _
  have node : bound.node ∈ program.references.map Reference.node := by
    rw [← same]
    exact List.mem_map_of_mem member
  obtain ⟨plain, isPlain, sameNode⟩ := List.mem_map.1 node
  obtain ⟨distance, -, rfl⟩ := Option.map_eq_some_iff.1 isBound
  exact ⟨plain, isPlain, sameNode⟩

/-- Two programs one after the other are bound as they are alone, and the errors of the second
follow those of the first. -/
theorem bind_concat (first second : Program.Plain) :
    bind (first ++ second) =
      { program := (bind first).program ++ (bind second).program
        errors := (bind first).errors ++ (bind second).errors } := by
  obtain ⟨bound, after, found, height, -, result⟩ := Stmt.bindAll_framed first .topLevel []
  obtain ⟨others, last, more, -, -, resultToo⟩ := Stmt.bindAll_framed second .topLevel []
  cases List.eq_nil_of_length_eq_zero height
  simp only [bind, Stmt.bindAll_concat, Bind.bind, StateT.bind, result, resultToo,
    Array.empty_append]
  rfl

/-- Binding is compositional.  Two programs one after the other are bound as they are alone: their
local references are those of the first and those of the second, which have no node in common if
the programs have none, and the errors of the second follow those of the first.  Wherever a
statement stands and whether or not errors are found in it, it leaves the number of scopes, all
scopes but the innermost, and the kinds of the function and of the class around it as they are; an
expression leaves all scopes and both kinds as they are. -/
theorem bind_compositional :
    (∀ first second : Program.Plain,
      (bind (first ++ second)).program = (bind first).program ++ (bind second).program ∧
        (bind (first ++ second)).errors = (bind first).errors ++ (bind second).errors ∧
        localReferences (bind (first ++ second)).program =
          localReferences (bind first).program ++ localReferences (bind second).program ∧
        (List.Disjoint (first.references.map Reference.node)
            (second.references.map Reference.node) →
          List.Disjoint ((localReferences (bind first).program).map Reference.node)
            ((localReferences (bind second).program).map Reference.node))) ∧
      (∀ (s : Stmt Unit) (state : BinderState),
        (s.bind state).2.scopes.length = state.scopes.length ∧
          (s.bind state).2.scopes.tail = state.scopes.tail ∧
          (s.bind state).2.context.function = state.context.function ∧
          (s.bind state).2.context.inClass = state.context.inClass) ∧
      (∀ first second : List (Stmt Unit),
        Stmt.bindAll (first ++ second) = do
          let bound ← Stmt.bindAll first
          let others ← Stmt.bindAll second
          return bound ++ others) ∧
      ∀ (e : Expr Unit) (state : BinderState),
        (e.bind state).2.scopes = state.scopes ∧
          (e.bind state).2.context.function = state.context.function ∧
          (e.bind state).2.context.inClass = state.context.inClass := by
  refine ⟨fun first second => ?_, fun s state => ?_, Stmt.bindAll_concat, fun e state => ?_⟩
  · rw [bind_concat]
    refine ⟨rfl, rfl, ?_, fun apart node isFirst isSecond => ?_⟩
    · rw [localReferences, references_append, List.filterMap_append, ← localReferences,
        ← localReferences]
    · obtain ⟨reference, isLocal, rfl⟩ := List.mem_map.1 isFirst
      obtain ⟨other, isLocalToo, sameNode⟩ := List.mem_map.1 isSecond
      obtain ⟨plain, isPlain, isNode⟩ := exists_of_mem_localReferences isLocal
      obtain ⟨plainToo, isPlainToo, isNodeToo⟩ := exists_of_mem_localReferences isLocalToo
      refine apart (List.mem_map_of_mem isPlain) ?_
      rw [isNode, ← sameNode, ← isNodeToo]
      exact List.mem_map_of_mem isPlainToo
  · obtain ⟨bound, after, found, height, outer, result⟩ :=
      s.bind_framed state.context state.scopes
    rw [result state.errors]
    exact ⟨height, outer, rfl, rfl⟩
  · obtain ⟨bound, found, result⟩ := e.bind_neutral state.context state.scopes
    rw [result state.errors]
    exact ⟨rfl, rfl, rfl⟩

/-- A block that prints its variable. -/
def sampleUse : Program.Plain :=
  [.block [.declare ⟨"a", ⟨1, 7⟩⟩ none, .print (.read ⟨"a", ⟨1, 16⟩⟩ ())]]

/-- A block that declares its variable twice. -/
def sampleTwice : Program.Plain :=
  [.block [.declare ⟨"a", ⟨2, 7⟩⟩ none, .declare ⟨"a", ⟨2, 14⟩⟩ none,
    .print (.read ⟨"a", ⟨2, 23⟩⟩ ())]]

/-- A class that inherits from itself, whose initializer returns a value. -/
def sampleStray : Stmt Unit :=
  .classDecl ⟨"C", ⟨3, 7⟩⟩ (some (⟨"C", ⟨3, 11⟩⟩, ()))
    [.mk ⟨"init", ⟨3, 15⟩⟩ [] [.ret ⟨3, 24⟩ (some (.receiver ⟨3, 31⟩ ()))]]

/-- What is known in a method of a class, two scopes deep. -/
def sampleSurroundings : BinderState where
  context := ⟨.method, .class_⟩
  scopes := [⟨[("b", true)]⟩, ⟨[("this", true)]⟩]
  errors := #[]

theorem bind_compositional_sample :
    ((bind (sampleUse ++ sampleTwice)).errors =
        (bind sampleUse).errors ++ (bind sampleTwice).errors ∧
      (bind sampleTwice).errors = #[⟨.declaredTwice, ⟨"a", ⟨2, 14⟩⟩⟩] ∧
      List.Disjoint (sampleUse.references.map Reference.node)
        (sampleTwice.references.map Reference.node) ∧
      List.Disjoint ((localReferences (bind sampleUse).program).map Reference.node)
        ((localReferences (bind sampleTwice).program).map Reference.node)) ∧
    (sampleStray.bind sampleSurroundings).2.errors.size = 2 ∧
      (sampleStray.bind sampleSurroundings).2.scopes.length = 2 ∧
      (sampleStray.bind sampleSurroundings).2.scopes.tail = [⟨[("this", true)]⟩] ∧
      (sampleStray.bind sampleSurroundings).2.context.function = .method ∧
      (sampleStray.bind sampleSurroundings).2.context.inClass = .class_ := by
  have apart : List.Disjoint (sampleUse.references.map Reference.node)
      (sampleTwice.references.map Reference.node) :=
    List.disjoint_left.2 (by decide)
  obtain ⟨-, errors, -, disjoint⟩ := bind_compositional.1 sampleUse sampleTwice
  exact ⟨⟨errors, by decide, apart, disjoint apart⟩, by decide,
    bind_compositional.2.1 sampleStray sampleSurroundings⟩

end Program

end LoxLang
