/-
Module: LoxLang.Proofs.Rewording.Running
Purpose: A program and its rewording do the same.  On machines that are alike they take the same
  steps: they yield values that are alike and leave machines behind that are alike, or they stop
  for the same reason on lines that correspond.
Main exports: Stop.Alike, Running, Agrees, EvaluatesAlike, ExecutesAlike, eval_and_exec_alike,
  execProgram_agrees
-/
import LoxLang.Proofs.Rewording.Heap
import LoxLang.Proofs.Run.Unfolding
import Mathlib.Data.List.Forall2

namespace LoxLang

/-! ### Results that agree -/

/-- Stops for the same reason, on lines that correspond. -/
inductive Stop.Alike (lines : Nat → Nat → Prop) : Stop → Stop → Prop where
  | error (cause : RuntimeCause) {line other : Nat} (moved : lines line other) :
      Alike lines (.error ⟨cause, line⟩) (.error ⟨cause, other⟩)
  | overflow : Alike lines .overflow .overflow
  | unfinished : Alike lines .unfinished .unfinished
  | fault (first second : AccessFault) : Alike lines (.fault first) (.fault second)

/-- Machines that are alike, and the scopes around the code that is running. -/
structure Running (lines : Nat → Nat → Prop) (printed : Array String) (wording : Wording)
    (scopes : List Renaming) (machine twin : Machine) : Prop
    extends machine.Alike lines printed wording twin where
  here : wording[machine.frame]? = some scopes

/-- Results of the same kind.  Whatever has been created on the way, the machines are alike and run
code of the same place. -/
inductive Agrees {α β : Type} (lines : Nat → Nat → Prop) (printed : Array String)
    (wording : Wording) (scopes : List Renaming) (good : Wording → α → β → Prop) :
    EStateM.Result Stop Machine α → EStateM.Result Stop Machine β → Prop where
  | ok {later : Wording} {value : α} {other : β} {machine twin : Machine}
      (grows : wording <+: later) (running : Running lines printed later scopes machine twin)
      (alike : good later value other) :
      Agrees lines printed wording scopes good (.ok value machine) (.ok other twin)
  | stopped {later : Wording} {stop other : Stop} {machine twin : Machine}
      (grows : wording <+: later) (running : Running lines printed later scopes machine twin)
      (alike : stop.Alike lines other) :
      Agrees lines printed wording scopes good (.error stop machine) (.error other twin)

/-- Ways for a statement to end that a program and its rewording cannot tell apart. -/
abbrev Completion.Alike (lines : Nat → Nat → Prop) (wording : Wording) :
    Completion → Completion → Prop :=
  Completion.Like (rewordings lines wording)

section Agreement

variable {lines : Nat → Nat → Prop} {printed : Array String} {wording later : Wording}
  {scopes inner : List Renaming} {machine twin : Machine} {vocabulary : Vocabulary}
  {change : Rewording}

theorem Machine.Alike.running (similar : machine.Alike lines printed wording twin)
    (here : wording[machine.frame]? = some scopes) :
    Running lines printed wording scopes machine twin :=
  { similar with here := here }

namespace Agrees

variable {α β γ δ : Type} {good : Wording → α → β → Prop} {goal : Wording → γ → δ → Prop}

/-- A step that changes nothing. -/
theorem pure (running : Running lines printed wording scopes machine twin) {value : α} {other : β}
    (alike : good wording value other) :
    Agrees lines printed wording scopes good (.ok value machine) (.ok other twin) :=
  .ok (List.prefix_refl _) running alike

theorem fail (running : Running lines printed wording scopes machine twin) (cause : RuntimeCause)
    {line other : Nat} (moved : lines line other) :
    Agrees lines printed wording scopes good (Run.fail cause line machine)
      (Run.fail cause other twin) :=
  .stopped (List.prefix_refl _) running (.error cause moved)

theorem after {result : EStateM.Result Stop Machine α} {other : EStateM.Result Stop Machine β}
    (agrees : Agrees lines printed later scopes good result other) (grows : wording <+: later) :
    Agrees lines printed wording scopes good result other := by
  cases agrees with
  | ok grown running alike => exact .ok (grows.trans grown) running alike
  | stopped grown running alike => exact .stopped (grows.trans grown) running alike

/-- Steps one after the other. -/
theorem bind {first : Run α} {firstTwin : Run β} {next : α → Run γ} {nextTwin : β → Run δ}
    (agrees : Agrees lines printed wording scopes good (first machine) (firstTwin twin))
    (goesOn : ∀ {later value other following followingTwin}, wording <+: later →
      Running lines printed later scopes following followingTwin → good later value other →
      Agrees lines printed later scopes goal (next value following)
        (nextTwin other followingTwin)) :
    Agrees lines printed wording scopes goal ((first >>= next) machine)
      ((firstTwin >>= nextTwin) twin) := by
  simp only [Bind.bind, EStateM.bind]
  match first machine, firstTwin twin, agrees with
  | _, _, .stopped grows running alike => exact .stopped grows running alike
  | _, _, .ok grows running alike => exact (goesOn grows running alike).after grows

/-- Code of another frame comes back to where it was entered. -/
theorem comeBack {result : EStateM.Result Stop Machine α} {other : EStateM.Result Stop Machine β}
    {frame : FrameId} (agrees : Agrees lines printed later inner good result other)
    (grows : wording <+: later) (here : wording[frame]? = some scopes) :
    Agrees lines printed wording scopes good (Run.cameBack frame result)
      (Run.cameBack frame other) := by
  cases agrees with
  | ok grown running alike =>
      have same := Wording.keeps (grows.trans grown) here
      exact .ok (grows.trans grown) ((running.toAlike.inFrame frame).running same) alike
  | stopped grown running alike =>
      have same := Wording.keeps (grows.trans grown) here
      exact .stopped (grows.trans grown) ((running.toAlike.inFrame frame).running same) alike

end Agrees

/-! ### Variables -/

theorem innermost_drop (scopes : List Renaming) (distance : Nat) :
    innermost (scopes.drop distance) = scopes.getD distance .keep := by
  rw [innermost, List.headD_eq_head?_getD, List.head?_drop, List.getD_eq_getElem?_getD]

theorem readFrom_agrees {frame : FrameId} {around : List Renaming}
    (running : Running lines printed wording scopes machine twin)
    (there : wording[frame]? = some around) (distance : Nat) (name : String) :
    Agrees lines printed wording scopes (Value.Alike lines)
      (Run.readFrom frame distance name machine)
      (Run.readFrom frame distance (renamed around (some distance) name) twin) := by
  obtain ⟨same, found⟩ := running.toAlike.frameAt there distance
  simp only [Run.readFrom, Forest.getAt, same]
  cases reached : machine.frames.frameAt frame distance with
  | error fault => exact .stopped (List.prefix_refl _) running (.fault fault fault)
  | ok owner =>
      have values := running.toAlike.local? (found owner reached) name
      rw [innermost_drop] at values
      simp only [renamed]
      rcases both_or_neither values with ⟨missing, alsoMissing⟩ |
        ⟨value, other, isBound, alsoBound, alike⟩
      · simp only [missing, alsoMissing]
        exact .stopped (List.prefix_refl _) running (.fault _ _)
      · simp only [isBound, alsoBound]
        exact .pure running alike

/-- Keywords that scopes hold are found under their own names. -/
theorem readKeyword_agrees {frame : FrameId} {around : List Renaming}
    (running : Running lines printed wording scopes machine twin)
    (there : wording[frame]? = some around) (distance : Nat) {keyword : String}
    (kept : ∀ own : Renaming, own.rename keyword = keyword) :
    Agrees lines printed wording scopes (Value.Alike lines)
      (Run.readFrom frame distance keyword machine)
      (Run.readFrom frame distance keyword twin) := by
  have agrees := readFrom_agrees running there distance keyword
  rw [renamed, kept] at agrees
  exact agrees

theorem readAt_agrees (running : Running lines printed wording scopes machine twin)
    (distance : Nat) {keyword : String} (kept : ∀ own : Renaming, own.rename keyword = keyword) :
    Agrees lines printed wording scopes (Value.Alike lines) (Run.readAt distance keyword machine)
      (Run.readAt distance keyword twin) := by
  simp only [Run.readAt, running.frame]
  exact readKeyword_agrees running running.here distance kept

theorem readGlobal_agrees {name other : Ident} (sameText : other.text = name.text)
    (moved : lines name.line other.line)
    (running : Running lines printed wording scopes machine twin) :
    Agrees lines printed wording scopes (Value.Alike lines) (Run.readGlobal name machine)
      (Run.readGlobal other twin) := by
  simp only [Run.readGlobal, sameText]
  rcases both_or_neither (running.toAlike.global? name.text) with ⟨missing, alsoMissing⟩ |
    ⟨value, valueTwin, isBound, alsoBound, alike⟩
  · rw [missing, alsoMissing]
    exact .fail running _ moved
  · rw [isBound, alsoBound]
    exact .pure running alike

theorem readName_agrees {name : Ident} {binding : Distance} (follows : change.Follows lines)
    (refers : name.Refers vocabulary change scopes binding)
    (running : Running lines printed wording scopes machine twin) :
    Agrees lines printed wording scopes (Value.Alike lines) (Run.readName name binding machine)
      (Run.readName (name.reword change) binding twin) := by
  cases binding with
  | none => exact readGlobal_agrees refers.2 (follows name.position) running
  | some distance =>
      have agrees := readFrom_agrees running running.here distance name.text
      rw [← refers.2] at agrees
      simp only [Run.readName, Run.readAt, running.frame, Ident.text_reword]
      exact agrees

theorem writeName_agrees {name : Ident} {binding : Distance} {value other : Value}
    (follows : change.Follows lines) (refers : name.Refers vocabulary change scopes binding)
    (alike : value.Alike lines wording other)
    (running : Running lines printed wording scopes machine twin) :
    Agrees lines printed wording scopes (fun _ _ _ => True)
      (Run.writeName name value binding machine)
      (Run.writeName (name.reword change) other binding twin) := by
  cases binding with
  | none =>
      have sameText : change.word name = name.text := refers.2
      simp only [Run.writeName, Run.writeGlobal, Ident.text_reword, sameText,
        running.toAlike.find?]
      cases found : machine.frames.find? name.text Machine.globalFrame with
      | none => exact .fail running _ (follows name.position)
      | some owner =>
          rw [Forest.find?_of_parent?_eq_none running.outermost] at found
          split at found <;> cases found
          exact .pure ((running.toAlike.defining running.globals name.text alike).running
            running.here) trivial
  | some distance =>
      obtain ⟨same, found⟩ := running.toAlike.frameAt running.here distance
      simp only [Run.writeName, Run.writeAt, running.frame, Ident.text_reword, refers.2, same]
      cases reached : machine.frames.frameAt machine.frame distance with
      | error fault => exact .stopped (List.prefix_refl _) running (.fault fault fault)
      | ok owner =>
          have defined := running.toAlike.defining (found owner reached) name.text alike
          rw [innermost_drop] at defined
          exact .pure (defined.running running.here) trivial

theorem define_agrees {name : Ident} {value other : Value}
    (declares : name.Declares vocabulary change scopes)
    (alike : value.Alike lines wording other)
    (running : Running lines printed wording scopes machine twin) :
    Agrees lines printed wording scopes (fun _ _ _ => True) (Run.define name.text value machine)
      (Run.define (name.reword change).text other twin) := by
  have defined := running.toAlike.defining running.here name.text alike
  rw [← declares.2] at defined
  simp only [Run.define, running.frame]
  exact .pure (defined.running running.here) trivial

theorem ofExcept_agrees {line other : Nat} {result resultTwin : Except RuntimeCause Value}
    (moved : lines line other) (alike : ResultLike (rewordings lines wording) result resultTwin)
    (running : Running lines printed wording scopes machine twin) :
    Agrees lines printed wording scopes (Value.Alike lines) (Run.ofExcept line result machine)
      (Run.ofExcept other resultTwin twin) := by
  cases alike with
  | error cause => exact .fail running cause moved
  | ok alike => exact .pure running alike

/-! ### Functions, classes and objects -/

theorem newFunction_alike {declaration : Function Distance} (follows : change.Follows lines)
    (consistent : Stmt.ConsistentFunction vocabulary change scopes declaration)
    (running : Running lines printed wording scopes machine twin) :
    (machine.newFunction declaration).Alike lines wording []
      (twin.newFunction (Stmt.rewordFunction change declaration)) where
  identity := running.identities
  frame := running.frame
  isInitializer := rfl
  declaration := ⟨scopes, running.here, vocabulary, change, follows, consistent, rfl⟩

/-- A method that is bound to an object sees it in a new frame. -/
theorem bindMethod_agrees {method other : Closure} {receiver receiverTwin : Value}
    (methods : method.Alike lines wording [.keep] other)
    (alike : receiver.Alike lines wording receiverTwin)
    (running : Running lines printed wording scopes machine twin) :
    Agrees lines printed wording scopes (fun later => Closure.Alike lines later [])
      (Run.bindMethod method receiver machine) (Run.bindMethod other receiverTwin twin) := by
  obtain ⟨around, there, declaration⟩ := methods.declaration
  have grows : wording <+: wording ++ [.keep :: around] := List.prefix_append ..
  have atFresh : (wording ++ [.keep :: around])[machine.fresh]? = some (.keep :: around) := by
    rw [Wording.getElem?_concat, Machine.fresh, running.size, if_pos rfl]
  have kept : (innermost (.keep :: around)).rename "this" = "this" := rfl
  have opened := (running.toAlike.nest there .keep).definingKept atFresh kept (alike.mono grows)
  have same := Wording.keeps grows running.here
  rw [Run.bindMethod_eq, Run.bindMethod_eq]
  simp only [Machine.withReceiver, methods.frame, running.toAlike.fresh]
  refine .ok grows (opened.counting.running same) ?_
  exact
    { identity := running.identities
      frame := running.toAlike.fresh
      isInitializer := methods.isInitializer
      declaration := ⟨.keep :: around, atFresh, declaration⟩ }

theorem function_bindMethod_agrees {method other : Closure} {receiver receiverTwin : Value}
    (methods : method.Alike lines wording [.keep] other)
    (alike : receiver.Alike lines wording receiverTwin)
    (running : Running lines printed wording scopes machine twin) :
    Agrees lines printed wording scopes (Value.Alike lines)
      ((Value.function <$> Run.bindMethod method receiver) machine)
      ((Value.function <$> Run.bindMethod other receiverTwin) twin) := by
  simp only [Functor.map, EStateM.map]
  match Run.bindMethod method receiver machine, Run.bindMethod other receiverTwin twin,
    bindMethod_agrees methods alike running with
  | _, _, .stopped grows running alike => exact .stopped grows running alike
  | _, _, .ok grows running similar => exact .ok grows running (.function similar)

theorem getProperty_agrees {object other : Value} (name : String) {line lineTwin : Nat}
    (moved : lines line lineTwin) (alike : object.Alike lines wording other)
    (running : Running lines printed wording scopes machine twin) :
    Agrees lines printed wording scopes (Value.Alike lines)
      (Run.getProperty object name line machine)
      (Run.getProperty other name lineTwin twin) := by
  cases alike with
  | object id similar =>
      simp only [Run.getProperty]
      rcases both_or_neither ((running.fields id).values name) with ⟨missing, alsoMissing⟩ |
        ⟨value, valueTwin, isField, alsoField, alike⟩
      · have missingTwin : (twin.fields id).get? name = none := alsoMissing
        rw [missing, missingTwin]
        rcases both_or_neither (similar.methods name) with ⟨noMethod, alsoNone⟩ |
          ⟨method, methodTwin, found, alsoFound, methods⟩
        · rw [noMethod, alsoNone]
          exact .fail running _ moved
        · rw [found, alsoFound]
          exact function_bindMethod_agrees methods (.object id similar) running
      · have fieldTwin : (twin.fields id).get? name = some valueTwin := alsoField
        rw [isField, fieldTwin]
        exact .pure running alike
  | _ => exact .fail running _ moved

theorem setField_agrees {object other value valueTwin : Value} (name : String)
    {line lineTwin : Nat} (moved : lines line lineTwin)
    (alike : object.Alike lines wording other) (alikeToo : value.Alike lines wording valueTwin)
    (running : Running lines printed wording scopes machine twin) :
    Agrees lines printed wording scopes (fun _ _ _ => True)
      (Run.setField object name line value machine)
      (Run.setField other name lineTwin valueTwin twin) := by
  cases alike with
  | object id similar =>
      exact .pure ((running.toAlike.settingField id name alikeToo).running running.here) trivial
  | _ => exact .fail running _ moved

theorem superMethod_agrees {method : Ident} {binding : Distance} (follows : change.Follows lines)
    (kept : change.word method = method.text)
    (running : Running lines printed wording scopes machine twin) :
    Agrees lines printed wording scopes (Value.Alike lines)
      (Run.superMethod method binding machine)
      (Run.superMethod (method.reword change) binding twin) := by
  cases binding with
  | none => exact .stopped (List.prefix_refl _) running (.fault _ _)
  | some distance =>
      refine Agrees.bind (readAt_agrees running distance Renaming.superclass) ?_
      intro later superclass other following followingTwin grows running alike
      refine Agrees.bind (readAt_agrees running (distance - 1) Renaming.receiver) ?_
      intro final receiver receiverTwin last lastTwin grown running alikeToo
      cases alike.mono grown with
      | class_ similar =>
          simp only [Ident.text_reword, kept]
          rcases both_or_neither (similar.methods method.text) with ⟨missing, alsoMissing⟩ |
            ⟨found, foundTwin, isMethod, alsoMethod, methods⟩
          · rw [missing, alsoMissing]
            exact .fail running _ (follows method.position)
          · rw [isMethod, alsoMethod]
            exact function_bindMethod_agrees methods alikeToo running
      | _ => exact .stopped (List.prefix_refl _) running (.fault _ _)

/-- The methods of a class are created in the same frame and have declarations alike. -/
theorem newMethods_agrees {frame : FrameId} {around : List Renaming}
    {methods : List (Function Distance)} {seen seenTwin : Bindings Closure}
    (follows : change.Follows lines)
    (consistent : Stmt.ConsistentMethods vocabulary change (.keep :: around) methods)
    (there : wording[frame]? = some around)
    (similar : ∀ word, Option.Rel (Closure.Alike lines wording [.keep]) (seen.get? word)
      (seenTwin.get? word))
    (running : Running lines printed wording scopes machine twin) :
    Agrees lines printed wording scopes
      (fun later table other => ∀ word,
        Option.Rel (Closure.Alike lines later [.keep]) (table.get? word) (other.get? word))
      (Run.newMethods frame seen methods machine)
      (Run.newMethods frame seenTwin (Stmt.rewordMethods change methods) twin) := by
  induction methods generalizing seen seenTwin machine twin with
  | nil => exact .pure running similar
  | cons method rest ih =>
      obtain ⟨first, others⟩ := consistent
      have sameName : (Stmt.rewordFunction change method).name.text = method.name.text :=
        Function.Alike.name ⟨vocabulary, change, follows, first, rfl⟩
      simp only [Run.newMethods, Stmt.rewordMethods, Declaration.name_function, sameName]
      refine ih others ?_ (running.toAlike.counting.running running.here)
      intro word
      rw [Bindings.get?_set, Bindings.get?_set]
      split
      · exact .some
          { identity := running.identities
            frame := rfl
            isInitializer := rfl
            declaration := ⟨around, there, vocabulary, change, follows, first, rfl⟩ }
      · exact similar word

/-- The class of a declaration is bound in the frame that declares it. -/
theorem defineClass_agrees {frame : FrameId} {name : Ident} {superclass other : Option Class}
    {table tableTwin : Bindings Closure} (there : wording[frame]? = some scopes)
    (introduces : name.Introduces vocabulary change scopes)
    (inherited : Option.Rel (Class.Alike lines wording) superclass other)
    (own : ∀ word, Option.Rel (Closure.Alike lines wording [.keep]) (table.get? word)
      (tableTwin.get? word))
    (running : Running lines printed wording scopes machine twin) :
    Agrees lines printed wording scopes (fun _ _ _ => True)
      ((do
        let identity ← Run.freshIdentity
        Run.defineIn frame name.text (.class_ (.mk identity name.text superclass table))) machine)
      ((do
        let identity ← Run.freshIdentity
        Run.defineIn frame (name.reword change).text
          (.class_ (.mk identity (name.reword change).text other tableTwin))) twin) := by
  have kept : (innermost scopes).rename name.text = name.text :=
    introduces.1.2.symm.trans introduces.2
  rw [Ident.text_reword, introduces.2]
  have similar := Class.like_mk running.identities (Eq.refl name.text) inherited own
  have defined := running.toAlike.counting.definingKept there kept (.class_ similar)
  exact .pure (defined.running running.here) trivial

/-- The scopes around the methods of a class, that of `this` apart. -/
def methodScopes (superclass : Option Class) (scopes : List Renaming) : List Renaming :=
  match superclass with
  | none => scopes
  | some _ => .keep :: scopes

/-- The frame in which methods are created stands for the scope of `super`, if there is one. -/
theorem methodSpace_alike {superclass other : Option Class}
    (inherited : Option.Rel (Class.Alike lines wording) superclass other)
    (running : Running lines printed wording scopes machine twin) :
    ∃ later, wording <+: later ∧
      Running lines printed later scopes (machine.methodSpace superclass)
        (twin.methodSpace other) ∧
      twin.methodFrame other = machine.methodFrame superclass ∧
      later[machine.methodFrame superclass]? = some (methodScopes superclass scopes) := by
  cases inherited with
  | none => exact ⟨wording, List.prefix_refl _, running, running.frame, running.here⟩
  | some similar =>
      have grows : wording <+: wording ++ [.keep :: scopes] := List.prefix_append ..
      have atFresh : (wording ++ [.keep :: scopes])[machine.fresh]? =
          some (.keep :: scopes) := by
        rw [Wording.getElem?_concat, Machine.fresh, running.size, if_pos rfl]
      have kept : (innermost (.keep :: scopes)).rename "super" = "super" := rfl
      have opened := (running.toAlike.nest running.here .keep).definingKept atFresh kept
        (.class_ (similar.mono grows))
      refine ⟨_, grows, ?_, running.toAlike.fresh, atFresh⟩
      simp only [Machine.methodSpace, running.frame, running.toAlike.fresh]
      exact opened.running (Wording.keeps grows running.here)

theorem newClass_eq (name : Ident) (superclass : Option Class)
    (methods : List (Function Distance)) (machine : Machine) :
    Run.newClass name superclass methods machine =
      (do
        let table ← Run.newMethods (machine.methodFrame superclass) .empty methods
        let identity ← Run.freshIdentity
        Run.defineIn machine.frame name.text
          (.class_ (.mk identity name.text superclass table)) : Run Unit)
        (machine.methodSpace superclass) := by
  cases superclass <;> rfl

theorem newClass_agrees {name : Ident} {superclass other : Option Class}
    {methods : List (Function Distance)} (follows : change.Follows lines)
    (introduces : name.Introduces vocabulary change scopes)
    (inherited : Option.Rel (Class.Alike lines wording) superclass other)
    (consistent : Stmt.ConsistentMethods vocabulary change
      (.keep :: methodScopes superclass scopes) methods)
    (running : Running lines printed wording scopes machine twin) :
    Agrees lines printed wording scopes (fun _ _ _ => True)
      (Run.newClass name superclass methods machine)
      (Run.newClass (name.reword change) other (Stmt.rewordMethods change methods) twin) := by
  obtain ⟨later, grows, inSpace, sameFrame, there⟩ := methodSpace_alike inherited running
  have noMethods : ∀ word : String, Option.Rel (Closure.Alike lines later [.keep])
      (Bindings.empty.get? word) (Bindings.empty.get? word) := fun _ => .none
  have here := Wording.keeps grows running.here
  rw [newClass_eq, newClass_eq, sameFrame, running.frame]
  refine Agrees.after (.bind (newMethods_agrees follows consistent there noMethods inSpace) ?_)
    grows
  intro last table tableTwin following followingTwin grown running own
  have inheritedThen : Option.Rel (Class.Alike lines last) superclass other := by
    cases inherited with
    | none => exact .none
    | some similar => exact .some (similar.mono (grows.trans grown))
  exact defineClass_agrees (Wording.keeps grown here) introduces inheritedThen own running

/-- Whether a class declaration names a superclass, the class that it inherits from is looked up
under its new name. -/
theorem evalSuperclass_agrees {superclass : Option (Ident × Distance)}
    (follows : change.Follows lines)
    (refers : ∀ parent ∈ superclass, parent.1.Refers vocabulary change scopes parent.2)
    (running : Running lines printed wording scopes machine twin) :
    Agrees lines printed wording scopes
      (fun later cls other => Option.Rel (Class.Alike lines later) cls other ∧
        cls.isSome = superclass.isSome)
      (evalSuperclass superclass machine)
      (evalSuperclass (superclass.map fun parent => (parent.1.reword change, parent.2)) twin) := by
  cases superclass with
  | none => exact .pure running ⟨.none, rfl⟩
  | some parent =>
      obtain ⟨name, binding⟩ := parent
      refine Agrees.bind (readName_agrees follows (refers _ rfl) running) ?_
      intro later value other following followingTwin grows running alike
      cases alike with
      | class_ similar => exact .pure running ⟨.some similar, rfl⟩
      | _ => exact .fail running _ (follows name.position)

/-! ### Calls -/

/-- Evaluating an expression and its rewording agree wherever the rewording is consistent. -/
def EvaluatesAlike (lines : Nat → Nat → Prop) (printed : Array String)
    (evaluate : Expr Distance → Run Value) : Prop :=
  ∀ {vocabulary : Vocabulary} {change : Rewording} {expression : Expr Distance}
    {wording : Wording} {scopes : List Renaming} {machine twin : Machine},
    change.Follows lines → expression.Consistent vocabulary change scopes →
    Running lines printed wording scopes machine twin →
    Agrees lines printed wording scopes (Value.Alike lines) (evaluate expression machine)
      (evaluate (expression.reword change) twin)

/-- Executing a statement and its rewording agree wherever the rewording is consistent. -/
def ExecutesAlike (lines : Nat → Nat → Prop) (printed : Array String)
    (execute : Stmt Distance → Run Completion) : Prop :=
  ∀ {vocabulary : Vocabulary} {change : Rewording} {statement : Stmt Distance}
    {wording : Wording} {scopes : List Renaming} {machine twin : Machine},
    change.Follows lines → statement.Consistent vocabulary change scopes →
    Running lines printed wording scopes machine twin →
    Agrees lines printed wording scopes (Completion.Alike lines) (execute statement machine)
      (execute (statement.reword change) twin)

section Calls

variable {execute : Stmt Distance → Run Completion}

theorem unlessReturning_agrees {next nextTwin : Run Completion} {completion other : Completion}
    (alike : completion.Alike lines wording other)
    (running : Running lines printed wording scopes machine twin)
    (goesOn : Agrees lines printed wording scopes (Completion.Alike lines) (next machine)
      (nextTwin twin)) :
    Agrees lines printed wording scopes (Completion.Alike lines)
      (unlessReturning next completion machine) (unlessReturning nextTwin other twin) := by
  cases alike with
  | normal => exact goesOn
  | returning alike => exact .pure running (.returning alike)

theorem execAll_agrees (executes : ExecutesAlike lines printed execute)
    {body : List (Stmt Distance)} (follows : change.Follows lines)
    (consistent : Stmt.ConsistentAll vocabulary change scopes body)
    (running : Running lines printed wording scopes machine twin) :
    Agrees lines printed wording scopes (Completion.Alike lines) (execAll execute body machine)
      (execAll execute (Stmt.rewordAll change body) twin) := by
  induction body generalizing wording machine twin with
  | nil => exact .pure running .normal
  | cons statement rest ih =>
      obtain ⟨first, others⟩ := consistent
      rw [Stmt.rewordAll, execAll_cons, execAll_cons]
      refine Agrees.bind (executes follows first running) fun grows running alike => ?_
      exact unlessReturning_agrees alike running (ih others running)

/-- The body of a function begins in a frame that stands for its scope. -/
theorem entering_alike {closure other : Closure} {arguments argumentsTwin : List Value}
    (similar : closure.Alike lines wording [] other)
    (alike : List.Forall₂ (Value.Alike lines wording) arguments argumentsTwin)
    (running : Running lines printed wording scopes machine twin) :
    ∃ later vocabulary change inner, wording <+: later ∧ change.Follows lines ∧
      other.declaration.body = Stmt.rewordAll change closure.declaration.body ∧
      Stmt.ConsistentAll vocabulary change inner closure.declaration.body ∧
      Running lines printed later inner (machine.entering closure arguments)
        (twin.entering other argumentsTwin) := by
  obtain ⟨around, there, vocabulary, change, follows, consistent, isTwin⟩ := similar.declaration
  cases isFunction : closure.declaration with
  | mk name parameters body =>
      rw [isFunction] at consistent isTwin
      obtain ⟨-, own, -, declares, inBody⟩ := consistent
      have grows : wording <+: wording ++ [own :: around] := List.prefix_append ..
      have atFresh : (wording ++ [own :: around])[machine.fresh]? = some (own :: around) := by
        rw [Wording.getElem?_concat, Machine.fresh, running.size, if_pos rfl]
      have opened := (running.toAlike.nest there own).definingAll atFresh declares
        (alike.imp fun _ _ similar => similar.mono grows)
      refine ⟨_, vocabulary, change, own :: around, grows, follows, by rw [isTwin]; rfl, inBody,
        ?_⟩
      simp only [Machine.entering, isFunction, isTwin, similar.frame, running.toAlike.fresh]
      exact (opened.inFrame machine.fresh).running atFresh

theorem invokeWith_agrees (executes : ExecutesAlike lines printed execute)
    {closure other : Closure} {arguments argumentsTwin : List Value}
    (similar : closure.Alike lines wording [] other)
    (alike : List.Forall₂ (Value.Alike lines wording) arguments argumentsTwin)
    (running : Running lines printed wording scopes machine twin) :
    Agrees lines printed wording scopes (Value.Alike lines)
      (invokeWith execute closure arguments machine)
      (invokeWith execute other argumentsTwin twin) := by
  obtain ⟨around, there, -⟩ := similar.declaration
  obtain ⟨later, vocabulary, change, inner, grows, follows, isBody, consistent, entered⟩ :=
    entering_alike similar alike running
  have inBody := execAll_agrees executes follows consistent entered
  have cameBack := inBody.comeBack grows running.here
  rw [invokeWith_eq, invokeWith_eq, Declaration.body_function, Declaration.body_function, isBody,
    running.frame, similar.isInitializer, similar.frame]
  match Run.cameBack machine.frame (execAll execute closure.declaration.body
      (machine.entering closure arguments)),
    Run.cameBack machine.frame (execAll execute (Stmt.rewordAll change closure.declaration.body)
      (twin.entering other argumentsTwin)), cameBack with
  | _, _, .stopped grows running alike => exact .stopped grows running alike
  | _, _, .ok grows running alike =>
      dsimp only
      split
      · exact (readKeyword_agrees running (Wording.keeps grows there) 0
          Renaming.receiver).after grows
      · exact .ok grows running alike.value

theorem construct_agrees (executes : ExecutesAlike lines printed execute) {cls other : Class}
    {arguments argumentsTwin : List Value} (similar : cls.Alike lines wording other)
    (alike : List.Forall₂ (Value.Alike lines wording) arguments argumentsTwin)
    (running : Running lines printed wording scopes machine twin) :
    Agrees lines printed wording scopes (Value.Alike lines)
      (construct execute cls arguments machine) (construct execute other argumentsTwin twin) := by
  have created := running.toAlike.withObject.running running.here
  rw [construct_eq, construct_eq, Class.initializer?, Class.initializer?, running.objects]
  rcases both_or_neither (similar.methods "init") with ⟨missing, alsoMissing⟩ |
    ⟨initializer, initializerTwin, found, alsoFound, methods⟩
  · rw [missing, alsoMissing]
    exact .pure created (.object _ similar)
  · rw [found, alsoFound]
    have bound := bindMethod_agrees methods (.object machine.objects.size similar) created
    rw [Run.bindMethod_eq, Run.bindMethod_eq] at bound
    cases bound with
    | ok grows bound isMethod =>
        have invoked := invokeWith_agrees executes isMethod
          (alike.imp fun _ _ similar => similar.mono grows) bound
        dsimp only
        revert invoked
        generalize invokeWith execute (machine.withObject.boundMethod initializer) arguments
          (machine.withObject.withReceiver initializer (.object machine.objects.size cls)) = result
        generalize invokeWith execute (twin.withObject.boundMethod initializerTwin) argumentsTwin
          (twin.withObject.withReceiver initializerTwin (.object machine.objects.size other)) =
          resultTwin
        intro invoked
        cases invoked with
        | stopped grown running alike => exact .stopped (grows.trans grown) running alike
        | ok grown running _ =>
            exact .ok (grows.trans grown) running
              (.object _ (similar.mono (grows.trans grown)))

theorem invoke_agrees (executes : ExecutesAlike lines printed execute) {callee other : Value}
    {arguments argumentsTwin : List Value} {line lineTwin : Nat} (moved : lines line lineTwin)
    (similar : callee.Alike lines wording other)
    (alike : List.Forall₂ (Value.Alike lines wording) arguments argumentsTwin)
    (running : Running lines printed wording scopes machine twin) :
    Agrees lines printed wording scopes (Value.Alike lines)
      (invoke execute callee arguments line machine)
      (invoke execute other argumentsTwin lineTwin twin) := by
  simp only [invoke, similar.arity?, ← alike.length_eq]
  cases callee.arity? with
  | none => exact .fail running _ moved
  | some arity =>
      by_cases enough : arguments.length = arity
      · simp only [enough, ↓reduceIte]
        cases similar with
        | native builtIn =>
            cases builtIn with
            | clock =>
                have shown : twin.clock twin.readings = machine.clock machine.readings := by
                  rw [running.clock, running.readings]
                simp only [Run.readClock, shown]
                exact .pure (running.toAlike.readingClock.running running.here) (.number _)
        | function similar => exact invokeWith_agrees executes similar alike running
        | class_ similar => exact construct_agrees executes similar alike running
        | _ => exact .fail running _ moved
      · simp only [enough, ↓reduceIte]
        exact .fail running _ moved

end Calls

/-! ### Evaluation -/

section Evaluation

variable {evaluate : Expr Distance → Run Value} {steps room : Nat}

theorem evalAll_agrees (evaluates : EvaluatesAlike lines printed evaluate)
    {expressions : List (Expr Distance)} (follows : change.Follows lines)
    (consistent : Expr.ConsistentAll vocabulary change scopes expressions)
    (running : Running lines printed wording scopes machine twin) :
    Agrees lines printed wording scopes
      (fun later => List.Forall₂ (Value.Alike lines later)) (evalAll evaluate expressions machine)
      (evalAll evaluate (Expr.rewordAll change expressions) twin) := by
  induction expressions generalizing wording machine twin with
  | nil => exact .pure running .nil
  | cons expression rest ih =>
      obtain ⟨first, others⟩ := consistent
      refine Agrees.bind (evaluates follows first running) ?_
      intro later value other following followingTwin grows running alike
      refine Agrees.bind (ih others running) ?_
      intro last values othersTwin final finalTwin grown running alikeAll
      exact .pure running (.cons (alike.mono grown) alikeAll)

theorem evalOpt_agrees (evaluates : EvaluatesAlike lines printed evaluate)
    {expression : Option (Expr Distance)} (follows : change.Follows lines)
    (consistent : Expr.ConsistentOpt vocabulary change scopes expression)
    (running : Running lines printed wording scopes machine twin) :
    Agrees lines printed wording scopes (Value.Alike lines) (evalOpt evaluate expression machine)
      (evalOpt evaluate (expression.map (Expr.reword change)) twin) := by
  cases expression with
  | none => exact .pure running .nil
  | some expression => exact evaluates follows consistent running

/-- An expression agrees if its parts do. -/
theorem eval_succ_alike (evaluates : EvaluatesAlike lines printed (eval steps room))
    (executes : ExecutesAlike lines printed (exec steps room)) :
    EvaluatesAlike lines printed (eval (steps + 1) (room + 1)) := by
  intro vocabulary change expression wording scopes machine twin follows consistent running
  rw [eval_succ, eval_succ]
  cases expression with
  | literal value => exact .pure running (Value.Like.ofLiteral value)
  | read name binding => exact readName_agrees follows consistent running
  | assign name binding value =>
      obtain ⟨refers, inValue⟩ := consistent
      refine Agrees.bind (evaluates follows inValue running) fun grows running alike => ?_
      refine Agrees.bind (writeName_agrees follows refers alike running) fun grown running _ => ?_
      exact .pure running (alike.mono grown)
  | unary op position operand =>
      have inOperand : operand.Consistent vocabulary change scopes := consistent
      refine Agrees.bind (evaluates follows inOperand running) fun grows running alike => ?_
      exact ofExcept_agrees (follows position) (op.apply_like alike) running
  | binary left op position right =>
      obtain ⟨inLeft, inRight⟩ := consistent
      refine Agrees.bind (evaluates follows inLeft running) fun grows running alike => ?_
      refine Agrees.bind (evaluates follows inRight running) fun grown running alikeToo => ?_
      exact ofExcept_agrees (follows position) (op.apply_like (alike.mono grown) alikeToo) running
  | logical left op right =>
      obtain ⟨inLeft, inRight⟩ := consistent
      refine Agrees.bind (evaluates follows inLeft running) fun grows running alike => ?_
      rw [op.decides_like alike]
      split
      · exact .pure running alike
      · exact evaluates follows inRight running
  | grouping inner =>
      have inInner : inner.Consistent vocabulary change scopes := consistent
      exact evaluates follows inInner running
  | call callee arguments close =>
      obtain ⟨inCallee, inArguments⟩ := consistent
      refine Agrees.bind (evaluates follows inCallee running) fun grows running alike => ?_
      refine Agrees.bind (evalAll_agrees evaluates follows inArguments running)
        fun grown running alikeAll => ?_
      exact invoke_agrees executes (follows close) (alike.mono grown) alikeAll running
  | get object name =>
      obtain ⟨inObject, kept⟩ := consistent
      simp only [Expr.reword, Expr.evaluating, Ident.text_reword, kept]
      refine Agrees.bind (evaluates follows inObject running) fun grows running alike => ?_
      exact getProperty_agrees name.text (follows name.position) alike running
  | set object name value =>
      obtain ⟨inObject, inValue, kept⟩ := consistent
      simp only [Expr.reword, Expr.evaluating, Ident.text_reword, kept]
      refine Agrees.bind (evaluates follows inObject running) fun grows running alike => ?_
      cases alike with
      | object id similar =>
          refine Agrees.bind (evaluates follows inValue running) fun grown running alike => ?_
          refine Agrees.bind (setField_agrees name.text (follows name.position)
            (.object id (similar.mono (rewordings_within grown))) alike running)
            fun more running _ => ?_
          exact .pure running (alike.mono more)
      | _ => exact .fail running _ (follows name.position)
  | receiver keyword binding =>
      cases binding with
      | none => exact readGlobal_agrees rfl (follows keyword) running
      | some distance => exact readAt_agrees running distance Renaming.receiver
  | superMethod keyword binding method => exact superMethod_agrees follows consistent running

/-! ### Execution -/

theorem completing_agrees {step stepTwin : Run Unit}
    (agrees : Agrees lines printed wording scopes (fun _ _ _ => True) (step machine)
      (stepTwin twin)) :
    Agrees lines printed wording scopes (Completion.Alike lines) (completing step machine)
      (completing stepTwin twin) := by
  simp only [completing]
  match step machine, stepTwin twin, agrees with
  | _, _, .stopped grows running alike => exact .stopped grows running alike
  | _, _, .ok grows running _ => exact .ok grows running .normal

/-- A block begins in a frame that stands for its scope. -/
theorem block_running (own : Renaming)
    (running : Running lines printed wording scopes machine twin) :
    wording <+: wording ++ [own :: scopes] ∧
      Running lines printed (wording ++ [own :: scopes]) (own :: scopes)
        ((machine.nest machine.frame).inFrame machine.fresh)
        ((twin.nest twin.frame).inFrame twin.fresh) := by
  have atFresh : (wording ++ [own :: scopes])[machine.fresh]? = some (own :: scopes) := by
    rw [Wording.getElem?_concat, Machine.fresh, running.size, if_pos rfl]
  refine ⟨List.prefix_append .., ?_⟩
  rw [running.frame, running.toAlike.fresh]
  exact ((running.toAlike.nest running.here own).inFrame machine.fresh).running atFresh

theorem classDecl_agrees {execute : Stmt Distance → Run Completion}
    {repeatWhile : Expr Distance → Stmt Distance → Run Completion} {name : Ident}
    {superclass : Option (Ident × Distance)} {methods : List (Function Distance)}
    (follows : change.Follows lines)
    (consistent : (Stmt.classDecl name superclass methods).Consistent vocabulary change scopes)
    (running : Running lines printed wording scopes machine twin) :
    Agrees lines printed wording scopes (Completion.Alike lines)
      ((Stmt.classDecl name superclass methods).executing evaluate execute repeatWhile machine)
      (((Stmt.classDecl name superclass methods).reword change).executing evaluate execute
        repeatWhile twin) := by
  have parts : name.Introduces vocabulary change scopes ∧
      (∀ parent ∈ superclass, parent.1.Refers vocabulary change scopes parent.2) ∧
      ∀ cls : Option Class, cls.isSome = superclass.isSome →
        Stmt.ConsistentMethods vocabulary change (.keep :: methodScopes cls scopes) methods := by
    cases superclass with
    | none =>
        refine ⟨consistent.1, nofun, ?_⟩
        intro cls sameSome
        cases cls with
        | none => exact consistent.2
        | some cls => cases sameSome
    | some parent =>
        obtain ⟨introduces, refers, inMethods⟩ := consistent
        refine ⟨introduces, ?_, ?_⟩
        · rintro _ ⟨⟩
          exact refers
        · intro cls sameSome
          cases cls with
          | none => cases sameSome
          | some cls => exact inMethods
  obtain ⟨introduces, refers, inMethods⟩ := parts
  rw [Stmt.reword]
  refine Agrees.bind (evalSuperclass_agrees follows refers running) fun grows running found => ?_
  obtain ⟨inherited, sameSome⟩ := found
  exact completing_agrees (newClass_agrees follows introduces inherited (inMethods _ sameSome)
    running)

/-- A statement agrees if its parts do. -/
theorem exec_succ_alike (evaluates : EvaluatesAlike lines printed (eval steps room))
    (executes : ExecutesAlike lines printed (exec steps room))
    (repeats : ∀ {vocabulary : Vocabulary} {change : Rewording} {condition : Expr Distance}
      {body : Stmt Distance} {wording : Wording} {scopes : List Renaming}
      {machine twin : Machine}, change.Follows lines →
      condition.Consistent vocabulary change scopes → body.Consistent vocabulary change scopes →
      Running lines printed wording scopes machine twin →
      Agrees lines printed wording scopes (Completion.Alike lines)
        (execLoop steps room condition body machine)
        (execLoop steps room (condition.reword change) (body.reword change) twin)) :
    ExecutesAlike lines printed (exec (steps + 1) (room + 1)) := by
  intro vocabulary change statement wording scopes machine twin follows consistent running
  rw [exec_succ, exec_succ]
  cases statement with
  | expression value =>
      have inValue : value.Consistent vocabulary change scopes := consistent
      refine Agrees.bind (evaluates follows inValue running) fun grows running _ => ?_
      exact .pure running .normal
  | print value =>
      have inValue : value.Consistent vocabulary change scopes := consistent
      refine Agrees.bind (evaluates follows inValue running) fun grows running alike => ?_
      rw [alike.text]
      exact .pure ((running.toAlike.printing _).running running.here) .normal
  | declare name initializer =>
      obtain ⟨declares, inInitializer⟩ := consistent
      refine Agrees.bind (evalOpt_agrees evaluates follows inInitializer running)
        fun grows running alike => ?_
      exact completing_agrees (define_agrees declares alike running)
  | block body =>
      obtain ⟨own, -, inBody⟩ := consistent
      obtain ⟨grows, entered⟩ := block_running own running
      have cameBack := (execAll_agrees executes follows inBody entered).comeBack grows running.here
      simp only [Stmt.reword, Stmt.executing, Run.within_newFrame_eq]
      rw [running.frame] at cameBack ⊢
      exact cameBack
  | branch condition thenBranch elseBranch =>
      have parts : condition.Consistent vocabulary change scopes ∧
          thenBranch.Consistent vocabulary change scopes ∧
          ∀ branch ∈ elseBranch, branch.Consistent vocabulary change scopes := by
        cases elseBranch with
        | none => exact ⟨consistent.1, consistent.2, fun _ impossible => by cases impossible⟩
        | some branch => exact ⟨consistent.1, consistent.2.1, fun _ same => by
            cases same
            exact consistent.2.2⟩
      obtain ⟨inCondition, inThen, inElse⟩ := parts
      have reworded : (Stmt.branch condition thenBranch elseBranch).reword change =
          .branch (condition.reword change) (thenBranch.reword change)
            (elseBranch.map (Stmt.reword change)) := by
        cases elseBranch <;> rfl
      rw [reworded]
      refine Agrees.bind (evaluates follows inCondition running) fun grows running alike => ?_
      rw [alike.isTrue]
      split
      · exact executes follows inThen running
      · cases elseBranch with
        | none => exact .pure running .normal
        | some branch => exact executes follows (inElse branch rfl) running
  | loop condition body => exact repeats follows consistent.1 consistent.2 running
  | ret keyword value =>
      refine Agrees.bind (evalOpt_agrees evaluates follows consistent running)
        fun grows running alike => ?_
      exact .pure running (.returning alike)
  | function declaration =>
      obtain ⟨introduces, inFunction⟩ := consistent
      have created := newFunction_alike follows inFunction running
      have sameName : (Stmt.rewordFunction change declaration).name =
          declaration.name.reword change := by
        cases declaration
        rfl
      have counted := running.toAlike.counting.running running.here
      have defined := define_agrees introduces.1 (.function created) counted
      rw [← sameName] at defined
      exact completing_agrees defined
  | classDecl name superclass methods => exact classDecl_agrees follows consistent running

/-- A loop agrees if its parts do. -/
theorem execLoop_succ_alike (evaluates : EvaluatesAlike lines printed (eval steps room))
    (executes : ExecutesAlike lines printed (exec steps room))
    {condition : Expr Distance} {body : Stmt Distance} (follows : change.Follows lines)
    (inCondition : condition.Consistent vocabulary change scopes)
    (inBody : body.Consistent vocabulary change scopes)
    (repeats : ∀ {wording : Wording} {machine twin : Machine},
      Running lines printed wording scopes machine twin →
      Agrees lines printed wording scopes (Completion.Alike lines)
        (execLoop steps room condition body machine)
        (execLoop steps room (condition.reword change) (body.reword change) twin))
    (running : Running lines printed wording scopes machine twin) :
    Agrees lines printed wording scopes (Completion.Alike lines)
      (execLoop (steps + 1) room condition body machine)
      (execLoop (steps + 1) room (condition.reword change) (body.reword change) twin) := by
  rw [execLoop_succ, execLoop_succ]
  refine Agrees.bind (evaluates follows inCondition running) fun grows running alike => ?_
  rw [alike.isTrue]
  split
  · refine Agrees.bind (executes follows inBody running) fun grown running completed => ?_
    exact unlessReturning_agrees completed running (repeats running)
  · exact .pure running .normal

end Evaluation

/-- Whatever allowance of steps and levels there is, a rewording changes nothing about a run. -/
theorem eval_and_exec_alike (steps : Nat) :
    (∀ room, EvaluatesAlike lines printed (eval steps room)) ∧
    (∀ room, ExecutesAlike lines printed (exec steps room)) ∧
    ∀ room {vocabulary : Vocabulary} {change : Rewording} {condition : Expr Distance}
      {body : Stmt Distance} {wording : Wording} {scopes : List Renaming}
      {machine twin : Machine}, change.Follows lines →
      condition.Consistent vocabulary change scopes → body.Consistent vocabulary change scopes →
      Running lines printed wording scopes machine twin →
      Agrees lines printed wording scopes (Completion.Alike lines)
        (execLoop steps room condition body machine)
        (execLoop steps room (condition.reword change) (body.reword change) twin) := by
  induction steps with
  | zero =>
      have unfinished : ∀ {α β : Type} {good : Wording → α → β → Prop} {wording : Wording}
          {scopes : List Renaming} {machine twin : Machine},
          Running lines printed wording scopes machine twin →
          Agrees lines printed wording scopes good (.error .unfinished machine)
            (.error .unfinished twin) :=
        fun running => .stopped (List.prefix_refl _) running .unfinished
      refine ⟨?_, ?_, ?_⟩
      · intro room _ _ expression _ _ _ _ _ _ running
        simp only [eval]
        exact unfinished running
      · intro room _ _ statement _ _ _ _ _ _ running
        simp only [exec]
        exact unfinished running
      · intro room _ _ condition body _ _ _ _ _ _ _ running
        simp only [execLoop]
        exact unfinished running
  | succ steps ih =>
      obtain ⟨evaluates, executes, repeats⟩ := ih
      refine ⟨?_, ?_, ?_⟩
      · intro room
        cases room with
        | zero =>
            intro _ _ expression _ _ _ _ _ _ running
            simp only [eval]
            exact .stopped (List.prefix_refl _) running .overflow
        | succ room => exact eval_succ_alike (evaluates room) (executes room)
      · intro room
        cases room with
        | zero =>
            intro _ _ statement _ _ _ _ _ _ running
            simp only [exec]
            exact .stopped (List.prefix_refl _) running .overflow
        | succ room => exact exec_succ_alike (evaluates room) (executes room) (repeats room)
      · intro room _ _ condition body _ _ _ _ follows inCondition inBody running
        exact execLoop_succ_alike (evaluates room) (executes room) follows inCondition inBody
          (repeats room follows inCondition inBody) running

/-- A program and its rewording agree from beginning to end. -/
theorem execProgram_agrees {execute : Stmt Distance → Run Completion}
    (executes : ExecutesAlike lines printed execute) {program : Program Distance}
    (follows : change.Follows lines)
    (consistent : Stmt.ConsistentAll vocabulary change scopes program)
    (running : Running lines printed wording scopes machine twin) :
    Agrees lines printed wording scopes (fun _ _ _ => True) (execProgram execute program machine)
      (execProgram execute (program.map (Stmt.reword change)) twin) := by
  induction program generalizing wording machine twin with
  | nil => exact .pure running trivial
  | cons statement rest ih =>
      obtain ⟨first, others⟩ := consistent
      rw [List.map_cons, execProgram_cons, execProgram_cons]
      exact Agrees.bind (executes follows first running) fun grows running _ => ih others running

end Agreement

end LoxLang
