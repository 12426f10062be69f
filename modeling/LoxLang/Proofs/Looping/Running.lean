/-
Module: LoxLang.Proofs.Looping.Running
Purpose: A program with `for` loops and what it stands for do the same.  On machines that look alike
  they take the same steps: they yield values that are alike and leave machines behind that look
  alike, or they stop for the same reason.  A turn of a loop has a frame of its own in one of them
  only, which nobody can tell.
Main exports: Running, Ends, Agrees, Agrees.bind, Agrees.within, Agrees.withinTurn, EvaluatesAlike,
  ExecutesAlike, eval_and_exec_alike, execProgram_agrees
-/
import LoxLang.Proofs.Looping.Likeness
import LoxLang.Proofs.Run.Unfolding

namespace LoxLang.Looping

/-! ### Results that agree -/

/-- Machines that look alike and run code of places that correspond. -/
structure Running (world : World) (site : Site) (machine : Machine) (twin : LoxLang.Machine) :
    Prop extends machine.Alike world twin where
  frame : machine.frame = site.frame
  here : world[twin.frame]? = some site

/-- Results of the same kind.  Whatever has been created on the way, the machines look alike and run
code of the same place. -/
inductive Ends {α β : Type} (world : World) (site : Site) (good : World → α → β → Prop) :
    EStateM.Result Stop Machine α → EStateM.Result Stop LoxLang.Machine β → Prop where
  | ok {later : World} {value : α} {other : β} {machine : Machine} {twin : LoxLang.Machine}
      (grows : world <+: later) (running : Running later site machine twin)
      (alike : good later value other) :
      Ends world site good (.ok value machine) (.ok other twin)
  | stopped {later : World} {machine : Machine} {twin : LoxLang.Machine} (stop : Stop)
      (grows : world <+: later) (running : Running later site machine twin) :
      Ends world site good (.error stop machine) (.error stop twin)

/-- Steps that end alike whenever they begin alike, from a certain time on. -/
def Agrees {α β : Type} (world : World) (site : Site) (good : World → α → β → Prop)
    (step : Run α) (twin : LoxLang.Run β) : Prop :=
  ∀ (later : World) (machine : Machine) (machineTwin : LoxLang.Machine), world <+: later →
    Running later site machine machineTwin → Ends later site good (step machine) (twin machineTwin)

/-- Nothing that matters about a result. -/
abbrev Anything {α β : Type} (_ : World) (_ : α) (_ : β) : Prop :=
  True

variable {world : World} {site : Site}

theorem Ends.after {later : World} {α β : Type} {good : World → α → β → Prop}
    {result : EStateM.Result Stop Machine α} {other : EStateM.Result Stop LoxLang.Machine β}
    (ends : Ends later site good result other) (grows : world <+: later) :
    Ends world site good result other := by
  cases ends with
  | ok grown running alike => exact .ok (grows.trans grown) running alike
  | stopped stop grown running => exact .stopped stop (grows.trans grown) running

namespace Agrees

variable {α β γ δ : Type} {good : World → α → β → Prop} {goal : World → γ → δ → Prop}

/-- A step that changes nothing. -/
theorem pure {value : α} {other : β} (alike : ∀ later, world <+: later → good later value other) :
    Agrees world site good (Pure.pure value) (Pure.pure other) :=
  fun _ _ _ grown running => .ok (List.prefix_refl _) running (alike _ grown)

/-- Both stop for the same reason. -/
theorem stop (reason : Stop) : Agrees world site good (throw reason) (throw reason) :=
  fun _ _ _ _ running => .stopped reason (List.prefix_refl _) running

theorem fail (cause : RuntimeCause) (line : Nat) :
    Agrees world site good (Run.fail cause line) (Run.fail cause line) :=
  fun _ _ _ _ running => .stopped _ (List.prefix_refl _) running

/-- Steps one after the other. -/
theorem bind {step : Run α} {twin : LoxLang.Run β} {next : α → Run γ} {nextTwin : β → LoxLang.Run δ}
    (first : Agrees world site good step twin)
    (second : ∀ later value other, world <+: later → good later value other →
      Agrees later site goal (next value) (nextTwin other)) :
    Agrees world site goal (step >>= next) (twin >>= nextTwin) := by
  intro later machine machineTwin grows running
  have ends := first _ _ _ grows running
  simp only [Bind.bind, EStateM.bind]
  generalize step machine = result at ends ⊢
  generalize twin machineTwin = other at ends ⊢
  cases ends with
  | stopped stop grown running => exact .stopped stop grown running
  | ok grown running alike =>
      exact (second _ _ _ (grows.trans grown) alike _ _ _ (List.prefix_refl _) running).after grown

/-- A step after which only a value is put together. -/
theorem map {step : Run α} {twin : LoxLang.Run β} {make : α → γ} {makeTwin : β → δ}
    (first : Agrees world site good step twin)
    (alike : ∀ later value other, good later value other →
      goal later (make value) (makeTwin other)) :
    Agrees world site goal (make <$> step) (makeTwin <$> twin) := by
  intro later machine machineTwin grows running
  have ends := first _ _ _ grows running
  simp only [Functor.map, EStateM.map]
  generalize step machine = result at ends ⊢
  generalize twin machineTwin = other at ends ⊢
  cases ends with
  | stopped stop grown running => exact .stopped stop grown running
  | ok grown running related => exact .ok grown running (alike _ _ _ related)

end Agrees

/-! ### Frames -/

section Frames

variable {α β : Type} {good : World → α → β → Prop} {frame frameTwin : FrameId} {shape : Shape}

theorem currentFrame_agrees :
    Agrees world site (fun later frame twin => later[twin]? = some site ∧ frame = site.frame)
      Run.currentFrame Run.currentFrame :=
  fun _ _ _ _ running => .ok (List.prefix_refl _) running ⟨running.here, running.frame⟩

/-- A new frame in both machines. -/
theorem newFrame_agrees (there : world[frameTwin]? = some ⟨frame, shape⟩) :
    Agrees world site (fun later id twin => later[twin]? = some ⟨id, .own :: shape⟩)
      (Run.newFrame frame) (Run.newFrame frameTwin) := by
  intro later machine machineTwin grows running
  have nested := running.toAlike.nest (World.keeps grows there)
  refine .ok (List.prefix_append ..)
    { nested with frame := running.frame, here := World.keeps (List.prefix_append ..) running.here }
    ?_
  rw [running.size, List.getElem?_concat_length]
  rfl

theorem defineIn_agrees (there : world[frameTwin]? = some ⟨frame, shape⟩) (solid : shape.Solid)
    (name : String) {value : Value} {other : LoxLang.Value} (alike : value.Alike world other) :
    Agrees world site Anything (Run.defineIn frame name value)
      (Run.defineIn frameTwin name other) := by
  intro later machine machineTwin grows running
  have defined := running.toAlike.defining (World.keeps grows there) solid name (alike.mono grows)
  exact .ok (List.prefix_refl _) { defined with frame := running.frame, here := running.here }
    trivial

theorem define_agrees (solid : site.shape.Solid) (name : String) {value : Value}
    {other : LoxLang.Value} (alike : value.Alike world other) :
    Agrees world site Anything (Run.define name value) (Run.define name other) := by
  rw [Run.define_eq, Run.define_eq]
  refine currentFrame_agrees.bind fun later frame frameTwin grows ⟨there, isFrame⟩ => ?_
  rw [isFrame]
  exact defineIn_agrees there solid name (alike.mono grows)

/-- The parameters of a function get values. -/
theorem defineAll_agrees {names : List Ident} {values : List Value} {others : List LoxLang.Value}
    (there : world[frameTwin]? = some ⟨frame, shape⟩) (solid : shape.Solid)
    (alike : List.Forall₂ (Value.Alike world) values others) :
    Agrees world site Anything (Run.defineAll frame names values)
      (Run.defineAll frameTwin names others) := by
  induction names generalizing world values others with
  | nil => exact .pure fun _ _ => trivial
  | cons name names ih =>
      cases alike with
      | nil => exact .pure fun _ _ => trivial
      | cons first rest =>
          refine (defineIn_agrees there solid name.text first).bind fun later _ _ grows _ => ?_
          exact ih (World.keeps grows there) (rest.imp fun _ _ similar => similar.mono grows)

/-- Code of frames that correspond. -/
theorem Agrees.within {step : Run α} {twin : LoxLang.Run β}
    (there : world[frameTwin]? = some ⟨frame, shape⟩)
    (agrees : Agrees world ⟨frame, shape⟩ good step twin) :
    Agrees world site good (Run.within frame step) (Run.within frameTwin twin) := by
  intro later machine machineTwin grows running
  have entered : Running later ⟨frame, shape⟩ { machine with frame := frame }
      { machineTwin with frame := frameTwin } :=
    { running.toAlike with frame := rfl, here := World.keeps grows there }
  have ends := agrees _ _ _ grows entered
  simp only [Run.within]
  generalize step { machine with frame := frame } = result at ends ⊢
  generalize twin { machineTwin with frame := frameTwin } = other at ends ⊢
  cases ends with
  | stopped stop grown inside =>
      exact .stopped stop grown
        { inside.toAlike with frame := running.frame, here := World.keeps grown running.here }
  | ok grown inside alike =>
      exact .ok grown
        { inside.toAlike with frame := running.frame, here := World.keeps grown running.here } alike

/-- Code that has a frame of its own in the second machine only. -/
theorem Agrees.withinTurn {step : Run α} {twin : LoxLang.Run β}
    (agrees : Agrees world ⟨site.frame, .extra :: site.shape⟩ good step twin) :
    Agrees world site good step (do
      let frame ← Run.currentFrame >>= Run.newFrame
      Run.within frame twin) := by
  intro later machine machineTwin grows running
  have grown : later <+: later ++ [⟨site.frame, .extra :: site.shape⟩] := List.prefix_append ..
  have entered : Running (later ++ [⟨site.frame, .extra :: site.shape⟩])
      ⟨site.frame, .extra :: site.shape⟩ machine
      ((machineTwin.nest machineTwin.frame).inFrame machineTwin.fresh) :=
    { running.toAlike.turn running.here with
      frame := running.frame
      here := by
        rw [Machine.inFrame, Machine.fresh, running.size, List.getElem?_concat_length] }
  have ends := agrees _ _ _ (grows.trans grown) entered
  rw [Run.within_newFrame_eq]
  generalize step machine = result at ends ⊢
  generalize twin ((machineTwin.nest machineTwin.frame).inFrame machineTwin.fresh) = other
    at ends ⊢
  cases ends with
  | stopped stop more inside =>
      exact .stopped stop (grown.trans more)
        { inside.toAlike with
          frame := inside.frame, here := World.keeps (grown.trans more) running.here }
  | ok more inside alike =>
      exact .ok (grown.trans more)
        { inside.toAlike with
          frame := inside.frame, here := World.keeps (grown.trans more) running.here } alike

end Frames

/-! ### Variables -/

/-- Where declarations can stand, the innermost scope is the same. -/
theorem Shape.Solid.shift_zero {shape : Shape} (solid : shape.Solid) : shape.shift 0 = 0 := by
  cases shape with
  | nil => rfl
  | cons layer shape =>
      cases layer with
      | own => rfl
      | extra => exact solid.elim

theorem readFrom_agrees {frame frameTwin : FrameId} {shape : Shape}
    (there : world[frameTwin]? = some ⟨frame, shape⟩) (distance : Nat) (name : String) :
    Agrees world site Value.Alike (Run.readFrom frame distance name)
      (Run.readFrom frameTwin (shape.shift distance) name) := by
  intro later machine machineTwin grows running
  simp only [Run.readFrom, Forest.getAt]
  rcases running.toAlike.frameAt (World.keeps grows there) distance with
    ⟨fault, failed, failedTwin⟩ | ⟨owner, ownerTwin, shape, found, foundTwin, isSite, solid⟩
  · rw [failed, failedTwin]
    exact .stopped _ (List.prefix_refl _) running
  · rw [found, foundTwin]
    dsimp only
    rcases both_or_neither (running.toAlike.local? isSite solid name) with
      ⟨missing, alsoMissing⟩ | ⟨value, other, bound, alsoBound, alike⟩
    · rw [missing, alsoMissing]
      exact .stopped _ (List.prefix_refl _) running
    · rw [bound, alsoBound]
      exact .ok (List.prefix_refl _) running alike

theorem readAt_agrees (distance : Nat) (name : String) :
    Agrees world site Value.Alike (Run.readAt distance name)
      (Run.readAt (site.shape.shift distance) name) := by
  rw [Run.readAt_eq, Run.readAt_eq]
  refine currentFrame_agrees.bind fun later frame frameTwin grows ⟨there, isFrame⟩ => ?_
  rw [isFrame]
  exact readFrom_agrees there distance name

theorem readGlobal_agrees (name : Ident) :
    Agrees world site Value.Alike (Run.readGlobal name) (Run.readGlobal name) := by
  intro later machine machineTwin grows running
  simp only [Run.readGlobal]
  rcases both_or_neither (running.toAlike.global? name.text) with ⟨missing, alsoMissing⟩ |
    ⟨value, other, bound, alsoBound, alike⟩
  · rw [missing, alsoMissing]
    exact .stopped _ (List.prefix_refl _) running
  · rw [bound, alsoBound]
    exact .ok (List.prefix_refl _) running alike

theorem readName_agrees (name : Ident) (binding : Distance) :
    Agrees world site Value.Alike (Run.readName name binding)
      (Run.readName name (binding.map site.shape.shift)) := by
  cases binding with
  | none => exact readGlobal_agrees name
  | some distance => exact readAt_agrees distance name.text

theorem writeName_agrees (name : Ident) (binding : Distance) {value : Value}
    {other : LoxLang.Value} (alike : value.Alike world other) :
    Agrees world site Anything (Run.writeName name value binding)
      (Run.writeName name other (binding.map site.shape.shift)) := by
  intro later machine machineTwin grows running
  cases binding with
  | none =>
      simp only [Run.writeName, Option.map_none, Run.writeGlobal, running.toAlike.find?]
      cases found : machine.frames.find? name.text Machine.globalFrame with
      | none => exact .stopped _ (List.prefix_refl _) running
      | some owner =>
          rw [Forest.find?_of_parent?_eq_none running.toAlike.outermost.1] at found
          split at found <;> cases found
          exact defineIn_agrees running.globals trivial name.text (alike.mono grows) _ _ _
            (List.prefix_refl _) running
  | some distance =>
      simp only [Run.writeName, Option.map_some, Run.writeAt, running.frame]
      rcases running.toAlike.frameAt running.here distance with
        ⟨fault, failed, failedTwin⟩ | ⟨owner, ownerTwin, shape, found, foundTwin, isSite, solid⟩
      · rw [failed, failedTwin]
        exact .stopped _ (List.prefix_refl _) running
      · rw [found, foundTwin]
        exact defineIn_agrees isSite solid name.text (alike.mono grows) _ _ _
          (List.prefix_refl _) running

theorem ofExcept_agrees {line : Nat} {result : Except RuntimeCause Value}
    {other : Except RuntimeCause LoxLang.Value}
    (alike : ResultLike (lowerings world) result other) :
    Agrees world site Value.Alike (Run.ofExcept line result) (Run.ofExcept line other) := by
  cases alike with
  | error cause => exact .fail cause line
  | ok alike => exact .pure fun _ grows => Value.Alike.mono alike grows

/-! ### Functions, classes and objects -/

/-- Numbers that no function and no class has had before are the same. -/
theorem freshIdentity_agrees :
    Agrees world site (fun _ identity twin => twin = identity) Run.freshIdentity
      Run.freshIdentity := by
  intro later machine machineTwin grows running
  have similar := running.toAlike
  have counted : Machine.Alike later { machine with identities := machine.identities + 1 }
      { machineTwin with identities := machineTwin.identities + 1 } :=
    { similar with identities := by rw [similar.identities] }
  exact .ok (List.prefix_refl _) { counted with frame := running.frame, here := running.here }
    similar.identities

theorem newClosure_agrees (inner : Shape) {shape : Shape} {frame frameTwin : FrameId}
    {declaration : Function Distance} {twin : LoxLang.Function Distance}
    (there : world[frameTwin]? = some ⟨frame, shape⟩) (solid : shape.Solid)
    (lowered : LoweredFunction (inner ++ shape) declaration twin) (isInitializer : Bool) :
    Agrees world site (fun later => Closure.Alike later inner)
      (Run.newClosure declaration frame isInitializer)
      (Run.newClosure twin frameTwin isInitializer) :=
  freshIdentity_agrees.bind fun _ _ _ grows same => .pure fun _ grown =>
    { identity := same
      isInitializer := rfl
      declaration := ⟨shape, World.keeps (grows.trans grown) there, solid, lowered⟩ }

/-- A function sees the frame in which its declaration stands. -/
theorem newFunction_agrees {declaration : Function Distance} {twin : LoxLang.Function Distance}
    (solid : site.shape.Solid) (lowered : LoweredFunction site.shape declaration twin) :
    Agrees world site (fun later => Closure.Alike later [])
      (Run.currentFrame >>= fun frame => Run.newClosure declaration frame false)
      (Run.currentFrame >>= fun frame => Run.newClosure twin frame false) :=
  currentFrame_agrees.bind fun _ _ _ _ ⟨there, isFrame⟩ =>
    isFrame ▸ newClosure_agrees [] there solid lowered false

/-- A method that is bound to an object sees it in a new frame. -/
theorem bindMethod_agrees {method : Closure} {twin : LoxLang.Closure} {receiver : Value}
    {receiverTwin : LoxLang.Value} (methods : method.Alike world [.own] twin)
    (alike : receiver.Alike world receiverTwin) :
    Agrees world site (fun later => Closure.Alike later [])
      (Run.bindMethod method receiver) (Run.bindMethod twin receiverTwin) := by
  obtain ⟨shape, there, -, lowered⟩ := methods.declaration
  rw [Run.bindMethod, Run.bindMethod, methods.isInitializer]
  refine (newFrame_agrees there).bind fun later frame frameTwin grows isFrame => ?_
  refine (defineIn_agrees isFrame trivial "this" (alike.mono grows)).bind
    fun last _ _ grown _ => ?_
  exact newClosure_agrees [] (World.keeps grown isFrame) trivial lowered method.isInitializer

theorem function_bindMethod_agrees {method : Closure} {twin : LoxLang.Closure} {receiver : Value}
    {receiverTwin : LoxLang.Value} (methods : method.Alike world [.own] twin)
    (alike : receiver.Alike world receiverTwin) :
    Agrees world site Value.Alike (Value.function <$> Run.bindMethod method receiver)
      (Value.function <$> Run.bindMethod twin receiverTwin) :=
  (bindMethod_agrees methods alike).map fun _ _ _ similar => .function similar

theorem getProperty_agrees {object : Value} {twin : LoxLang.Value} (name : String) (line : Nat)
    (alike : object.Alike world twin) :
    Agrees world site Value.Alike (Run.getProperty object name line)
      (Run.getProperty twin name line) := by
  cases alike with
  | object id similar =>
      intro later machine machineTwin grows running
      simp only [Run.getProperty]
      rcases both_or_neither ((running.fields id).get? name) with ⟨missing, alsoMissing⟩ |
        ⟨value, other, isField, alsoField, alikeField⟩
      · rw [missing, alsoMissing]
        rcases both_or_neither (similar.methods name) with ⟨missing, alsoMissing⟩ |
          ⟨method, methodTwin, found, alsoFound, methods⟩
        · rw [missing, alsoMissing]
          exact Agrees.fail _ line _ _ _ grows running
        · rw [found, alsoFound]
          exact function_bindMethod_agrees methods (.object id similar) _ _ _ grows running
      · rw [isField, alsoField]
        exact .ok (List.prefix_refl _) running alikeField
  | _ => exact .fail _ line

theorem setField_agrees {object value : Value} {twin other : LoxLang.Value} (name : String)
    (line : Nat) (alike : object.Alike world twin) (alikeToo : value.Alike world other) :
    Agrees world site Anything (Run.setField object name line value)
      (Run.setField twin name line other) := by
  cases alike with
  | object id similar =>
      intro later machine machineTwin grows running
      have changed := running.toAlike.settingField id name (alikeToo.mono grows)
      exact .ok (List.prefix_refl _) { changed with frame := running.frame, here := running.here }
        trivial
  | _ => exact .fail _ line

/-- A method of the superclass, which is found right around the object that it is bound to. -/
theorem superMethod_agrees (method : Ident) {inner : Nat}
    (adjacent : site.shape.shift (inner + 1) = site.shape.shift inner + 1) :
    Agrees world site Value.Alike (Run.superMethod method (some (inner + 1)))
      (Run.superMethod method (some (site.shape.shift inner + 1))) := by
  have superclass : Agrees world site Value.Alike (Run.readAt (inner + 1) "super")
      (Run.readAt (site.shape.shift inner + 1) "super") :=
    adjacent ▸ readAt_agrees (inner + 1) "super"
  refine superclass.bind fun later cls other grows alike => ?_
  refine (readAt_agrees inner "this").bind fun last receiver receiverTwin grown alikeToo => ?_
  cases alike.mono grown with
  | class_ similar =>
      dsimp only
      rcases both_or_neither (similar.methods method.text) with ⟨missing, alsoMissing⟩ |
        ⟨found, foundTwin, isFound, alsoFound, methods⟩
      · rw [missing, alsoMissing]
        exact .fail _ method.line
      · rw [isFound, alsoFound]
        exact function_bindMethod_agrees methods alikeToo
  | _ => exact .stop _

/-- Methods that are declared in frames that correspond. -/
theorem newMethods_agrees {shape : Shape} {frame frameTwin : FrameId}
    {methods : List (Function Distance)} {twins : List (LoxLang.Function Distance)}
    {seen : Bindings Closure} {seenTwin : Bindings LoxLang.Closure}
    (lowered : LoweredMethods (.own :: shape) methods twins)
    (there : world[frameTwin]? = some ⟨frame, shape⟩) (solid : shape.Solid)
    (similar : ∀ word, Option.Rel (Closure.Alike world [.own]) (seen.get? word)
      (seenTwin.get? word)) :
    Agrees world site
      (fun later table other => ∀ word,
        Option.Rel (Closure.Alike later [.own]) (table.get? word) (other.get? word))
      (Run.newMethods frame seen methods) (Run.newMethods frameTwin seenTwin twins) := by
  induction methods generalizing world twins seen seenTwin with
  | nil =>
      cases lowered
      exact .pure fun _ grows word =>
        optionRel_mono (similar word) fun _ _ alike => alike.mono grows
  | cons method rest ih =>
      cases lowered with
      | @cons _ _ twin _ others first second =>
          have sameName : Declaration.name twin = Declaration.name method := first.name
          simp only [Run.newMethods, sameName]
          refine (newClosure_agrees [.own] there solid first _).bind
            fun later closure other grows created => ?_
          refine ih second (World.keeps grows there) fun word => ?_
          rw [Bindings.get?_set, Bindings.get?_set]
          split
          · exact .some created
          · exact optionRel_mono (similar word) fun _ _ alike => alike.mono grows

/-- A class whose methods are declared in a given frame gets its name where its declaration
stands. -/
theorem defineClass_agrees (name : Ident) {superclass : Option Class}
    {other : Option LoxLang.Class} {methods : List (Function Distance)}
    {twins : List (LoxLang.Function Distance)} {frame frameTwin inner innerTwin : FrameId}
    {around shape : Shape} (there : world[frameTwin]? = some ⟨frame, around⟩)
    (solid : around.Solid) (inside : world[innerTwin]? = some ⟨inner, shape⟩)
    (solidToo : shape.Solid) (inherited : Option.Rel (Class.Alike world) superclass other)
    (lowered : LoweredMethods (.own :: shape) methods twins) :
    Agrees world site Anything
      (do
        let methods ← Run.newMethods inner .empty methods
        let identity ← Run.freshIdentity
        Run.defineIn frame name.text (.class_ (.mk identity name.text superclass methods)))
      (do
        let methods ← Run.newMethods innerTwin .empty twins
        let identity ← Run.freshIdentity
        Run.defineIn frameTwin name.text
          (.class_ (.mk identity name.text other methods))) := by
  refine (newMethods_agrees lowered inside solidToo fun _ => .none).bind
    fun later table tableTwin grows own => ?_
  refine freshIdentity_agrees.bind fun last identity identityTwin grown same => ?_
  refine defineIn_agrees (World.keeps (grows.trans grown) there) solid name.text (.class_ ?_)
  exact Class.like_mk same rfl
    (optionRel_mono inherited fun _ _ alike => alike.mono (grows.trans grown))
    fun word => optionRel_mono (own word) fun _ _ alike => alike.mono grown

/-- A class without a superclass. -/
theorem newClass_agrees (name : Ident) {methods : List (Function Distance)}
    {twins : List (LoxLang.Function Distance)} (solid : site.shape.Solid)
    (lowered : LoweredMethods (.own :: site.shape) methods twins) :
    Agrees world site Anything (Run.newClass name none methods)
      (Run.newClass name none twins) := by
  refine currentFrame_agrees.bind fun later frame frameTwin grows ⟨there, isFrame⟩ => ?_
  rw [isFrame]
  exact defineClass_agrees name there solid there solid .none lowered

/-- A class with a superclass, which its methods see in a frame of their own. -/
theorem newSubclass_agrees (name : Ident) {superclass : Class} {other : LoxLang.Class}
    {methods : List (Function Distance)} {twins : List (LoxLang.Function Distance)}
    (solid : site.shape.Solid) (similar : superclass.Alike world other)
    (lowered : LoweredMethods (.own :: .own :: site.shape) methods twins) :
    Agrees world site Anything (Run.newClass name (some superclass) methods)
      (Run.newClass name (some other) twins) := by
  refine currentFrame_agrees.bind fun first frame frameTwin toFirst ⟨there, isFrame⟩ => ?_
  rw [isFrame]
  refine (newFrame_agrees there).bind fun second inner innerTwin toSecond isInner => ?_
  refine (defineIn_agrees isInner trivial "super"
    (.class_ (similar.mono (toFirst.trans toSecond)))).bind fun last _ _ toLast _ => ?_
  exact defineClass_agrees name (World.keeps (toSecond.trans toLast) there) solid
    (World.keeps toLast isInner) trivial
    (.some (similar.mono (toFirst.trans (toSecond.trans toLast)))) lowered

/-- The class that a class declaration inherits from. -/
theorem evalSuperclass_agrees (name : Ident) (binding : Distance) :
    Agrees world site
      (fun later cls other => ∃ superclass superclassTwin, cls = some superclass ∧
        other = some superclassTwin ∧ Class.Alike later superclass superclassTwin)
      (evalSuperclass (some (name, binding)))
      (evalSuperclass (some (name, binding.map site.shape.shift))) := by
  refine (readName_agrees name binding).bind fun later value other grows alike => ?_
  cases alike with
  | class_ similar =>
      exact .pure fun _ grown => ⟨_, _, rfl, rfl, similar.mono (lowerings_within grown)⟩
  | _ => exact .fail _ _

/-! ### Calls -/

/-- Evaluating an expression and what it stands for agree. -/
def EvaluatesAlike (evaluate : Expr Distance → Run Value)
    (twin : Expr Distance → LoxLang.Run LoxLang.Value) : Prop :=
  ∀ {world : World} {site : Site} {e other : Expr Distance}, LoweredExpr site.shape e other →
    Agrees world site Value.Alike (evaluate e) (twin other)

/-- Executing a declaration and what it stands for agree. -/
def ExecutesAlike (execute : Decl Distance → Run Completion)
    (twin : LoxLang.Stmt Distance → LoxLang.Run LoxLang.Completion) : Prop :=
  ∀ {world : World} {site : Site} {d : Decl Distance} {other : LoxLang.Stmt Distance},
    LoweredDecl site.shape d other →
    Agrees world site Completion.Alike (execute d) (twin other)

/-- What comes after a statement, unless it returns. -/
theorem unlessReturning_agrees {completion : Completion} {other : LoxLang.Completion}
    {next : Run Completion} {nextTwin : LoxLang.Run LoxLang.Completion}
    (ends : completion.Alike world other)
    (agrees : Agrees world site Completion.Alike next nextTwin) :
    Agrees world site Completion.Alike (unlessReturning next completion)
      (unlessReturning nextTwin other) := by
  cases ends with
  | normal => exact agrees
  | returning alike => exact .pure fun _ grows => .returning (Value.Alike.mono alike grows)

theorem newObject_agrees {cls : Class} {twin : LoxLang.Class} (similar : cls.Alike world twin) :
    Agrees world site Value.Alike (Run.newObject cls) (Run.newObject twin) := by
  intro later machine machineTwin grows running
  have created := running.toAlike.withObject
  simp only [Run.newObject, running.objects]
  exact .ok (List.prefix_refl _) { created with frame := running.frame, here := running.here }
    (.object _ (similar.mono grows))

/-- The clock shows the same in both machines. -/
theorem readClock_agrees :
    Agrees world site Value.Alike Run.readClock Run.readClock := by
  intro later machine machineTwin grows running
  have similar := running.toAlike
  have read : Machine.Alike later { machine with readings := machine.readings + 1 }
      { machineTwin with readings := machineTwin.readings + 1 } :=
    { similar with readings := by rw [similar.readings] }
  have shown : machineTwin.clock machineTwin.readings = machine.clock machine.readings := by
    rw [similar.clock, similar.readings]
  simp only [Run.readClock, shown]
  exact .ok (List.prefix_refl _) { read with frame := running.frame, here := running.here }
    (.number _)

section Calls

variable {execute : Decl Distance → Run Completion}
  {executeTwin : LoxLang.Stmt Distance → LoxLang.Run LoxLang.Completion}
  (executes : ExecutesAlike execute executeTwin)
include executes

theorem execAll_agrees {body : List (Decl Distance)} {other : List (LoxLang.Stmt Distance)}
    (lowered : LoweredAll site.shape body other) :
    Agrees world site Completion.Alike (execAll execute body)
      (execAll executeTwin other) := by
  induction body generalizing world other with
  | nil =>
      cases lowered
      exact .pure fun _ _ => .normal
  | cons d rest ih =>
      cases lowered with
      | cons first second =>
          rw [execAll_cons, execAll_cons]
          exact (executes first).bind fun _ _ _ _ ends => unlessReturning_agrees ends (ih second)

theorem invokeWith_agrees {closure : Closure} {other : LoxLang.Closure} {arguments : List Value}
    {argumentsTwin : List LoxLang.Value} (similar : closure.Alike world [] other)
    (alike : List.Forall₂ (Value.Alike world) arguments argumentsTwin) :
    Agrees world site Value.Alike (invokeWith execute closure arguments)
      (invokeWith executeTwin other argumentsTwin) := by
  obtain ⟨shape, there, solid, lowered⟩ := similar.declaration
  have parameters : Declaration.parameters other.declaration =
      Declaration.parameters closure.declaration := lowered.parameters
  rw [invokeWith, invokeWith, similar.isInitializer, parameters]
  refine (newFrame_agrees there).bind fun first frame frameTwin toFirst isFrame => ?_
  refine (defineAll_agrees isFrame trivial
    (alike.imp fun _ _ related => related.mono toFirst)).bind fun second _ _ toSecond _ => ?_
  refine (Agrees.within (World.keeps toSecond isFrame)
    (execAll_agrees executes lowered.body)).bind
      fun last completion otherCompletion toLast ends => ?_
  split
  · have kept := World.keeps (toFirst.trans (toSecond.trans toLast)) there
    have receiver : Agrees last site Value.Alike (Run.readFrom closure.frame 0 "this")
        (Run.readFrom other.frame (shape.shift 0) "this") :=
      readFrom_agrees kept 0 "this"
    rwa [solid.shift_zero] at receiver
  · exact .pure fun _ grows => Value.Alike.mono ends.value grows

theorem construct_agrees {cls : Class} {twin : LoxLang.Class} {arguments : List Value}
    {argumentsTwin : List LoxLang.Value} (similar : cls.Alike world twin)
    (alike : List.Forall₂ (Value.Alike world) arguments argumentsTwin) :
    Agrees world site Value.Alike (construct execute cls arguments)
      (construct executeTwin twin argumentsTwin) := by
  refine (newObject_agrees similar).bind fun first object objectTwin toFirst isObject => ?_
  rw [Class.initializer?, Class.initializer?]
  rcases both_or_neither (similar.methods "init") with ⟨missing, alsoMissing⟩ |
    ⟨initializer, initializerTwin, found, alsoFound, methods⟩
  · rw [missing, alsoMissing]
    exact .pure fun _ grows => isObject.mono grows
  · rw [found, alsoFound]
    refine (bindMethod_agrees (methods.mono toFirst) isObject).bind
      fun second bound boundTwin toSecond isBound => ?_
    refine (invokeWith_agrees executes isBound
      (alike.imp fun _ _ related => related.mono (toFirst.trans toSecond))).bind
        fun last _ _ toLast _ => ?_
    exact .pure fun _ grows => isObject.mono (toSecond.trans (toLast.trans grows))

theorem invoke_agrees {callee : Value} {twin : LoxLang.Value} {arguments : List Value}
    {argumentsTwin : List LoxLang.Value} (line : Nat) (similar : callee.Alike world twin)
    (alike : List.Forall₂ (Value.Alike world) arguments argumentsTwin) :
    Agrees world site Value.Alike (invoke execute callee arguments line)
      (invoke executeTwin twin argumentsTwin line) := by
  intro later machine machineTwin grows running
  have sameArity := similar.arity?
  simp only [invoke, sameArity, ← alike.length_eq]
  cases callee.arity? with
  | none => exact Agrees.fail _ line _ _ _ grows running
  | some arity =>
      by_cases enough : arguments.length = arity
      · simp only [enough, ↓reduceIte]
        cases similar with
        | native builtIn =>
            cases builtIn with
            | clock => exact readClock_agrees later machine machineTwin grows running
        | function similar =>
            exact invokeWith_agrees executes similar alike _ _ _ grows running
        | class_ similar => exact construct_agrees executes similar alike _ _ _ grows running
        | _ => exact Agrees.fail _ line _ _ _ grows running
      · simp only [enough, ↓reduceIte]
        exact Agrees.fail _ line _ _ _ grows running

end Calls

/-! ### Evaluation -/

section Evaluation

variable {evaluate : Expr Distance → Run Value}
  {evaluateTwin : Expr Distance → LoxLang.Run LoxLang.Value}

theorem evalAll_agrees (evaluates : EvaluatesAlike evaluate evaluateTwin)
    {es others : List (Expr Distance)} (lowered : List.Forall₂ (LoweredExpr site.shape) es others) :
    Agrees world site (fun later => List.Forall₂ (Value.Alike later)) (evalAll evaluate es)
      (evalAll evaluateTwin others) := by
  induction lowered generalizing world with
  | nil => exact .pure fun _ _ => .nil
  | cons first rest ih =>
      refine (evaluates first).bind fun later value other grows alike => ?_
      refine ih.bind fun last values othersTwin grown alikeAll => ?_
      exact .pure fun _ more => .cons (alike.mono (grown.trans more))
        (alikeAll.imp fun _ _ similar => similar.mono more)

theorem evalOpt_agrees (evaluates : EvaluatesAlike evaluate evaluateTwin)
    {e other : Option (Expr Distance)} (lowered : LoweredOpt site.shape e other) :
    Agrees world site Value.Alike (evalOpt evaluate e) (evalOpt evaluateTwin other) := by
  cases lowered with
  | none => exact .pure fun _ _ => .nil
  | some lowered => exact evaluates lowered

variable {steps room : Nat}

/-- An expression agrees if its parts do. -/
theorem eval_succ_alike (evaluates : EvaluatesAlike (eval steps room) (LoxLang.eval steps room))
    (executes : ExecutesAlike (exec steps room) (LoxLang.exec steps room)) :
    EvaluatesAlike (eval (steps + 1) (room + 1)) (LoxLang.eval (steps + 1) (room + 1)) := by
  intro world site e other lowered
  rw [eval_succ]
  cases lowered with
  | literal value =>
      exact .pure fun _ _ => .ofLiteral value
  | read name binding =>
      exact readName_agrees name binding
  | assign name binding inner =>
      refine (evaluates inner).bind fun later value other grows alike => ?_
      refine (writeName_agrees name binding alike).bind fun last _ _ grown _ => ?_
      exact .pure fun _ more => alike.mono (grown.trans more)
  | unary op position inner =>
      refine (evaluates inner).bind fun later value other grows alike => ?_
      exact ofExcept_agrees (op.apply_like alike)
  | binary op position first second =>
      refine (evaluates first).bind fun later left leftTwin grows alike => ?_
      refine (evaluates second).bind fun last right rightTwin grown alikeToo => ?_
      exact ofExcept_agrees (op.apply_like (alike.mono grown) alikeToo)
  | logical op first second =>
      refine (evaluates first).bind fun later value other grows alike => ?_
      rw [op.decides_like alike]
      split
      · exact .pure fun _ grown => alike.mono grown
      · exact evaluates second
  | grouping within =>
      exact evaluates within
  | call close first rest =>
      refine (evaluates first).bind fun later function other grows alike => ?_
      refine (evalAll_agrees evaluates rest).bind fun last values others grown alikeAll => ?_
      exact invoke_agrees executes close.line (alike.mono grown) alikeAll
  | get name inner =>
      refine (evaluates inner).bind fun later value other grows alike => ?_
      exact getProperty_agrees name.text name.line alike
  | set name first second =>
      refine (evaluates first).bind fun later object twin grows alike => ?_
      cases alike with
      | object id similar =>
          refine (evaluates second).bind fun last value other grown alikeToo => ?_
          refine (setField_agrees name.text name.line
            (.object id (similar.mono (lowerings_within grown))) alikeToo).bind
              fun _ _ _ more _ => ?_
          exact .pure fun _ further => alikeToo.mono (more.trans further)
      | _ => exact .fail _ _
  | receiver keyword binding =>
      exact readName_agrees _ binding
  | superMethod keyword method adjacent =>
      exact superMethod_agrees method adjacent
  | superNowhere keyword method =>
      exact .stop _

/-! ### Execution -/

theorem completing_agrees {step : Run Unit} {twin : LoxLang.Run Unit}
    (agrees : Agrees world site Anything step twin) :
    Agrees world site Completion.Alike (completing step) (completing twin) := by
  intro later machine machineTwin grows running
  have ends := agrees _ _ _ grows running
  simp only [completing]
  generalize step machine = result at ends ⊢
  generalize twin machineTwin = other at ends ⊢
  cases ends with
  | stopped stop grown running => exact .stopped stop grown running
  | ok grown running _ => exact .ok grown running .normal

theorem print_agrees (line : String) :
    Agrees world site Anything (Run.print line) (Run.print line) := by
  intro later machine machineTwin grows running
  have similar := running.toAlike
  have printed : Machine.Alike later { machine with output := machine.output.push line }
      { machineTwin with output := machineTwin.output.push line } :=
    { similar with output := by rw [similar.output] }
  exact .ok (List.prefix_refl _) { printed with frame := running.frame, here := running.here }
    trivial

/-- Code that begins a scope in both machines. -/
theorem scope_agrees {step : Run Completion} {twin : LoxLang.Run LoxLang.Completion}
    (agrees : ∀ later frame, world <+: later →
      Agrees later ⟨frame, .own :: site.shape⟩ Completion.Alike step twin) :
    Agrees world site Completion.Alike
      (do
        let frame ← Run.currentFrame >>= Run.newFrame
        Run.within frame step)
      (do
        let frame ← Run.currentFrame >>= Run.newFrame
        Run.within frame twin) := by
  have nested : Agrees world site
      (fun later frame twin => later[twin]? = some ⟨frame, .own :: site.shape⟩)
      (Run.currentFrame >>= Run.newFrame) (Run.currentFrame >>= Run.newFrame) :=
    currentFrame_agrees.bind fun _ _ _ _ ⟨there, isFrame⟩ => isFrame ▸ newFrame_agrees there
  exact nested.bind fun later frame _ grows there => (agrees later frame grows).within there

/-- What is repeated of a loop, and what stands for it: a turn with an increment is a block. -/
inductive LoweredTurn (shape : Shape) :
    Option (Expr Distance) → Stmt Distance → LoxLang.Stmt Distance → Prop where
  | plain {body : Stmt Distance} {other : LoxLang.Stmt Distance}
      (lowered : LoweredStmt shape body other) : LoweredTurn shape none body other
  | stepping {body : Stmt Distance} {other : LoxLang.Stmt Distance} {step stepTwin : Expr Distance}
      (lowered : LoweredStmt (.extra :: shape) body other)
      (last : LoweredExpr (.extra :: shape) step stepTwin) :
      LoweredTurn shape (some step) body (.block [other, .expression stepTwin])

/-- A turn with an increment and the block that stands for it agree. -/
def TurnsAlike (turn : Expr Distance → Stmt Distance → Run Completion)
    (twin : LoxLang.Stmt Distance → LoxLang.Run LoxLang.Completion) : Prop :=
  ∀ {world : World} {site : Site} {step stepTwin : Expr Distance} {body : Stmt Distance}
    {other : LoxLang.Stmt Distance}, LoweredStmt (.extra :: site.shape) body other →
    LoweredExpr (.extra :: site.shape) step stepTwin →
    Agrees world site Completion.Alike (turn step body)
      (twin (.block [other, .expression stepTwin]))

/-- Repeating a turn and what stands for it agree. -/
def RepeatsAlike
    (again : Expr Distance → Option (Expr Distance) → Stmt Distance → Run Completion)
    (twin : Expr Distance → LoxLang.Stmt Distance → LoxLang.Run LoxLang.Completion) : Prop :=
  ∀ {world : World} {site : Site} {condition conditionTwin : Expr Distance}
    {increment : Option (Expr Distance)} {body : Stmt Distance} {other : LoxLang.Stmt Distance},
    LoweredExpr site.shape condition conditionTwin → LoweredTurn site.shape increment body other →
    Agrees world site Completion.Alike (again condition increment body) (twin conditionTwin other)

section Parts

variable (evaluates : EvaluatesAlike (eval steps room) (LoxLang.eval steps room))
  (executes : ExecutesAlike (exec steps room) (LoxLang.exec steps room))

include executes in
/-- Nothing is declared in a turn of a loop, so it agrees with a block. -/
theorem execTurn_succ_alike :
    TurnsAlike (execTurn (steps + 1) (room + 1)) (LoxLang.exec (steps + 1) (room + 1)) := by
  intro world site step stepTwin body other lowered last
  rw [exec_succ]
  exact .withinTurn (execAll_agrees executes
    (.cons (.statement lowered) (.cons (.statement (.expression last)) .nil)))

include evaluates executes in
/-- A loop agrees if its parts do. -/
theorem execLoop_succ_alike (turns : TurnsAlike (execTurn steps room) (LoxLang.exec steps room))
    (repeats : RepeatsAlike (execLoop steps room) (LoxLang.execLoop steps room)) :
    RepeatsAlike (execLoop (steps + 1) room) (LoxLang.execLoop (steps + 1) room) := by
  intro world site condition conditionTwin increment body other inCondition inTurn
  rw [execLoop_succ]
  refine (evaluates inCondition).bind fun later value valueTwin grows alike => ?_
  rw [alike.isTrue]
  split
  · have goesOn : ∀ last completion completionTwin, later <+: last →
        Completion.Alike last completion completionTwin →
        Agrees last site Completion.Alike
          (unlessReturning (execLoop steps room condition increment body) completion)
          (unlessReturning (LoxLang.execLoop steps room conditionTwin other)
            completionTwin) :=
      fun _ _ _ _ ends => unlessReturning_agrees ends (repeats inCondition inTurn)
    cases inTurn with
    | plain lowered => exact (executes (.statement lowered)).bind goesOn
    | stepping lowered last => exact (turns lowered last).bind goesOn
  · exact .pure fun _ _ => .normal

include evaluates executes in
/-- A declaration agrees if its parts do. -/
theorem exec_succ_alike
    (repeats : RepeatsAlike (execLoop steps room) (LoxLang.execLoop steps room)) :
    ExecutesAlike (exec (steps + 1) (room + 1)) (LoxLang.exec (steps + 1) (room + 1)) := by
  intro world site d other lowered
  rw [exec_succ]
  cases lowered with
  | statement lowered =>
      cases lowered with
      | expression lowered =>
          exact (evaluates lowered).bind fun _ _ _ _ _ => .pure fun _ _ => .normal
      | print lowered =>
          refine (evaluates lowered).bind fun later value other grows alike => ?_
          rw [alike.text]
          exact completing_agrees (print_agrees value.text)
      | block lowered =>
          exact scope_agrees fun _ _ _ => execAll_agrees executes lowered
      | ifThen lowered first =>
          refine (evaluates lowered).bind fun later value other grows alike => ?_
          rw [alike.isTrue]
          split
          · exact executes (.statement first)
          · exact .pure fun _ _ => .normal
      | ifElse lowered first second =>
          refine (evaluates lowered).bind fun later value other grows alike => ?_
          rw [alike.isTrue]
          split
          · exact executes (.statement first)
          · exact executes (.statement second)
      | loop lowered inner =>
          exact repeats lowered (.plain inner)
      | forLoop lowered inner =>
          exact repeats lowered (.plain inner)
      | forStep lowered inner last =>
          exact repeats lowered (.stepping inner last)
      | forFirst begins rest =>
          exact scope_agrees fun _ _ _ =>
            execAll_agrees executes (.cons begins (.cons (.statement rest) .nil))
      | ret keyword lowered =>
          refine (evalOpt_agrees evaluates lowered).bind fun later value other grows alike => ?_
          exact .pure fun _ grown => .returning (alike.mono grown)
  | declare name solid lowered =>
      refine (evalOpt_agrees evaluates lowered).bind fun later value other grows alike => ?_
      exact completing_agrees (define_agrees solid name.text alike)
  | function solid lowered =>
      refine (newFunction_agrees solid lowered).bind fun later closure twin grows similar => ?_
      rw [lowered.name]
      exact completing_agrees (define_agrees solid _ (.function similar))
  | class_ name solid lowered =>
      refine completing_agrees (newClass_agrees name solid lowered)
  | subclass name superclass binding solid lowered =>
      refine (evalSuperclass_agrees superclass binding).bind fun later cls twin grows found => ?_
      obtain ⟨cls, twin, rfl, rfl, similar⟩ := found
      exact completing_agrees (newSubclass_agrees name solid similar lowered)

end Parts

end Evaluation

/-- Whatever allowance of steps and levels there is, a program does what it stands for. -/
theorem eval_and_exec_alike (steps : Nat) :
    (∀ room, EvaluatesAlike (eval steps room) (LoxLang.eval steps room)) ∧
    (∀ room, ExecutesAlike (exec steps room) (LoxLang.exec steps room)) ∧
    (∀ room, TurnsAlike (execTurn steps room) (LoxLang.exec steps room)) ∧
    ∀ room, RepeatsAlike (execLoop steps room) (LoxLang.execLoop steps room) := by
  induction steps with
  | zero =>
      exact ⟨fun _ _ _ _ _ _ => .stop .unfinished,
        fun _ _ _ _ _ _ => .stop .unfinished,
        fun _ _ _ _ _ _ _ _ _ => .stop .unfinished,
        fun _ _ _ _ _ _ _ _ _ _ => .stop .unfinished⟩
  | succ steps ih =>
      obtain ⟨evaluates, executes, turns, repeats⟩ := ih
      refine ⟨fun room => ?_, fun room => ?_, fun room => ?_, fun room => ?_⟩
      · cases room with
        | zero => exact fun _ => .stop .overflow
        | succ room => exact eval_succ_alike (evaluates room) (executes room)
      · cases room with
        | zero => exact fun _ => .stop .overflow
        | succ room => exact exec_succ_alike (evaluates room) (executes room) (repeats room)
      · cases room with
        | zero => exact fun _ _ => .stop .overflow
        | succ room => exact execTurn_succ_alike (executes room)
      · exact execLoop_succ_alike (evaluates room) (executes room) (turns room) (repeats room)

/-- A program and what it stands for agree from beginning to end. -/
theorem execProgram_agrees {execute : Decl Distance → Run Completion}
    {executeTwin : LoxLang.Stmt Distance → LoxLang.Run LoxLang.Completion}
    (executes : ExecutesAlike execute executeTwin) {program : Program Distance}
    {other : LoxLang.Program Distance} (lowered : LoweredAll site.shape program other) :
    Agrees world site Anything (execProgram execute program)
      (execProgram executeTwin other) := by
  induction program generalizing world other with
  | nil =>
      cases lowered
      exact .pure fun _ _ => trivial
  | cons d rest ih =>
      cases lowered with
      | cons first second =>
          rw [execProgram_cons, execProgram_cons]
          exact (executes first).bind fun _ _ _ _ _ => ih second

end LoxLang.Looping
