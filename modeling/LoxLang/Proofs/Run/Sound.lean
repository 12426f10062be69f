/-
Module: LoxLang.Proofs.Run.Sound
Purpose: What is asked of a task before it is done and what is promised after it: it starts in a
  chain of frames that mirrors the scopes around its code, and it leaves a sound heap behind,
  however it ends.  The steps that evaluate nothing keep that promise.
Main exports: Sees, Continues, Keeps, Task.Sound, Task.Settles, readName_keeps, writeName_keeps
-/
import LoxLang.Proofs.Run.Heap
import LoxLang.Proofs.Scope.Binding

namespace LoxLang

variable {visited : Task → Prop} {accepted : Place → Prop}

/-! ### Before and after -/

/-- The chain of frames from `frame` outwards mirrors what can be seen from a place. -/
structure Sees (visited : Task → Prop) (forest : Forest Value) (sight : Sight) (frame : FrameId) :
    Prop where
  chain : Mirrors visited forest sight.layers frame
  proper : ∀ name, sight.pending = some name → name ≠ "this" ∧ name ≠ "super"

theorem Mirrors.sees {forest : Forest Value} {layers : List Layer} {frame : FrameId}
    (mirrors : Mirrors visited forest layers frame) :
    Sees visited forest { layers := layers, pending := none } frame where
  chain := mirrors
  proper := by
    intro name isPending
    cases isPending

/-- A machine has become another one: code of the same frame is running, and what the frames held
is still there. -/
structure Continues (machine following : Machine) : Prop where
  frames : machine.frames.Extends following.frames
  frame : following.frame = machine.frame

namespace Continues

variable {machine middle following : Machine}

theorem refl (machine : Machine) : Continues machine machine :=
  ⟨.refl _, rfl⟩

theorem trans (first : Continues machine middle) (second : Continues middle following) :
    Continues machine following :=
  ⟨first.frames.trans second.frames, second.frame.trans first.frame⟩

theorem mirrors (continues : Continues machine following) {layers : List Layer}
    (chain : Mirrors visited machine.frames layers machine.frame) :
    Mirrors visited following.frames layers following.frame := by
  rw [continues.frame]
  exact chain.mono continues.frames

theorem sees (continues : Continues machine following) {sight : Sight}
    (sees : Sees visited machine.frames sight machine.frame) :
    Sees visited following.frames sight following.frame :=
  ⟨continues.mirrors sees.chain, sees.proper⟩

end Continues

/-- Ways to stop that a program can be blamed for, or its depth or length. -/
def Stop.Lawful : Stop → Prop
  | .fault _ => False
  | .error _ | .overflow | .unfinished => True

/-- However a step ends, the heap is sound and the machine has gone on from where it was; if the
step yields something, `good` holds of it. -/
def Keeps {α : Type} (visited : Task → Prop) (accepted : Place → Prop) (machine : Machine)
    (good : α → Forest Value → Prop) : EStateM.Result Stop Machine α → Prop
  | .ok value following =>
      Continues machine following ∧
        HeapSound visited accepted following.frames following.objects ∧
        good value following.frames
  | .error stop following =>
      Continues machine following ∧
        HeapSound visited accepted following.frames following.objects ∧ stop.Lawful

theorem Keeps.mono {α : Type} {machine : Machine} {good goal : α → Forest Value → Prop}
    {result : EStateM.Result Stop Machine α} (keeps : Keeps visited accepted machine good result)
    (weaker : ∀ value forest, good value forest → goal value forest) :
    Keeps visited accepted machine goal result := by
  cases result with
  | ok value following => exact ⟨keeps.1, keeps.2.1, weaker _ _ keeps.2.2⟩
  | error stop following => exact keeps

theorem Keeps.after {α : Type} {machine following : Machine} {good : α → Forest Value → Prop}
    {result : EStateM.Result Stop Machine α}
    (keeps : Keeps visited accepted following good result)
    (continues : Continues machine following) : Keeps visited accepted machine good result := by
  cases result with
  | ok value rest => exact ⟨continues.trans keeps.1, keeps.2⟩
  | error stop rest => exact ⟨continues.trans keeps.1, keeps.2⟩

theorem Keeps.of_ok {α : Type} {machine following : Machine} {good : α → Forest Value → Prop}
    {result : EStateM.Result Stop Machine α} {value : α}
    (keeps : Keeps visited accepted machine good result) (yields : result = .ok value following) :
    Continues machine following ∧
      HeapSound visited accepted following.frames following.objects ∧
      good value following.frames := by
  subst yields
  exact keeps

/-- Steps one after the other. -/
theorem Keeps.bind {α β : Type} {machine : Machine} {good : α → Forest Value → Prop}
    {goal : β → Forest Value → Prop} {first : Run α} {next : α → Run β}
    (keeps : Keeps visited accepted machine good (first machine))
    (goesOn : ∀ {value following}, first machine = .ok value following →
      Continues machine following →
      HeapSound visited accepted following.frames following.objects →
      good value following.frames → Keeps visited accepted following goal (next value following)) :
    Keeps visited accepted machine goal ((first >>= next) machine) := by
  simp only [Bind.bind, EStateM.bind]
  match result : first machine, keeps with
  | .error stop following, stopped => exact stopped
  | .ok value following, ⟨continues, heap, isGood⟩ =>
      exact (goesOn result continues heap isGood).after continues

/-- Whether the value that a statement returns is valid. -/
def Completion.Valid (visited : Task → Prop) (accepted : Place → Prop) (completion : Completion)
    (forest : Forest Value) : Prop :=
  completion.value.Valid visited accepted forest

/-- What a statement leaves behind: a valid completion, and unless it returns, the name that it
declares bound in its frame. -/
def Stmt.Completes (visited : Task → Prop) (accepted : Place → Prop) (s : Stmt Distance)
    (frame : FrameId) (completion : Completion) (forest : Forest Value) : Prop :=
  completion.Valid visited accepted forest ∧
    (completion = .normal → ∀ name, s.declared? = some name →
      (forest.local? frame name.text).isSome)

/-- What has to hold of the machine when an activity begins. -/
def Activity.Stands (visited : Task → Prop) (accepted : Place → Prop) (machine : Machine) :
    Activity → Prop
  | .evaluate e =>
      ∃ sight, Sees visited machine.frames sight machine.frame ∧
        Throughout accepted (e.places sight)
  | .evaluateAll es =>
      ∃ sight, Sees visited machine.frames sight machine.frame ∧
        Throughout accepted (Expr.placesAll sight es)
  | .execute s =>
      ∃ layers, Mirrors visited machine.frames layers machine.frame ∧
        Throughout accepted (s.places layers)
  | .executeAll body =>
      ∃ layers, Mirrors visited machine.frames layers machine.frame ∧
        Throughout accepted (Stmt.placesAll layers body)
  | .repeatLoop condition body =>
      ∃ layers, Mirrors visited machine.frames layers machine.frame ∧
        Throughout accepted ((Stmt.loop condition body).places layers)
  | .call closure arguments =>
      closure.Valid visited accepted machine.frames ∧
        (∀ value ∈ arguments, value.Valid visited accepted machine.frames) ∧
        arguments.length = closure.arity
  | .bindMethod method receiver =>
      method.ValidMethod visited accepted machine.frames ∧
        receiver.Valid visited accepted machine.frames ∧ receiver.IsObject
  | .declareClass name superclass methods =>
      ∃ layers, Mirrors visited machine.frames layers machine.frame ∧ name.Unreserved ∧
        Throughout accepted (Stmt.placesMethods
          (Stmt.layersOfMethods layers name superclass.isSome methods) methods) ∧
        ∀ cls ∈ superclass, cls.Valid visited accepted machine.frames
  | .runProgram program =>
      Mirrors visited machine.frames [] machine.frame ∧
        Throughout accepted (Stmt.placesAll [] program)

/-- What is asked of a task before it is done. -/
structure Task.Sound (visited : Task → Prop) (accepted : Place → Prop) (task : Task) : Prop where
  heap : HeapSound visited accepted task.machine.frames task.machine.objects
  stands : task.activity.Stands visited accepted task.machine

/-- What is promised of a task after it has been done. -/
def Task.Settles (visited : Task → Prop) (accepted : Place → Prop) (task : Task) : Prop :=
  match task.activity with
  | .evaluate e =>
      Keeps visited accepted task.machine (fun value forest => value.Valid visited accepted forest)
        (eval task.steps task.room e task.machine)
  | .evaluateAll es =>
      Keeps visited accepted task.machine
        (fun values forest => ∀ value ∈ values, value.Valid visited accepted forest)
        (evalAll (eval task.steps task.room) es task.machine)
  | .execute s =>
      Keeps visited accepted task.machine (s.Completes visited accepted task.machine.frame)
        (exec task.steps task.room s task.machine)
  | .executeAll body =>
      Keeps visited accepted task.machine (Completion.Valid visited accepted)
        (execAll (exec task.steps task.room) body task.machine)
  | .repeatLoop condition body =>
      Keeps visited accepted task.machine (Completion.Valid visited accepted)
        (execLoop task.steps task.room condition body task.machine)
  | .call closure arguments =>
      Keeps visited accepted task.machine (fun value forest => value.Valid visited accepted forest)
        (invokeWith (exec task.steps task.room) closure arguments task.machine)
  | .bindMethod method receiver =>
      Keeps visited accepted task.machine
        (fun closure forest => closure.Valid visited accepted forest)
        (Run.bindMethod method receiver task.machine)
  | .declareClass name superclass methods =>
      Keeps visited accepted task.machine
        (fun _ forest => (forest.local? task.machine.frame name.text).isSome)
        (Run.newClass name superclass methods task.machine)
  | .runProgram program =>
      Keeps visited accepted task.machine (fun _ _ => True)
        (execProgram (exec task.steps task.room) program task.machine)

/-! ### Lookups -/

theorem Sight.distance?_of_ne {sight : Sight} {name : String} (ready : sight.pending ≠ some name) :
    sight.distance? name = distanceIn sight.layers name := by
  rcases sight with ⟨layers, pending⟩
  cases pending with
  | none => rfl
  | some awaited =>
      apply distanceIn_declareInnermost
      intro same
      exact ready (by rw [same])

namespace Sees

variable {forest : Forest Value} {objects : Array (Bindings Value)} {sight : Sight}
  {frame : FrameId}

/-- A name that is not pending is found at its distance. -/
theorem lookup (sees : Sees visited forest sight frame) {name : String} {distance : Nat}
    (ready : sight.pending ≠ some name) (found : sight.distance? name = some distance) :
    ∃ value, forest.getAt frame distance name = .ok value := by
  rw [Sight.distance?_of_ne ready] at found
  obtain ⟨owner, value, reached, bound⟩ := sees.chain.lookup found
  exact ⟨value, Forest.getAt_of_frameAt reached bound⟩

theorem read (sees : Sees visited forest sight frame) {name : Ident} {distance : Nat}
    (right : Reference.Right sight { kind := .read, name := name, binding := some distance }) :
    ∃ value, forest.getAt frame distance name.text = .ok value :=
  sees.lookup (right.2 (by simp)) right.1.symm

theorem receiver (sees : Sees visited forest sight frame)
    (heap : HeapSound visited accepted forest objects) {name : Ident} {binding : Distance}
    (right : Reference.Right sight { kind := .receiver, name := name, binding := binding }) :
    ∃ distance object, binding = some distance ∧
      forest.getAt frame distance "this" = .ok object ∧ object.IsObject := by
  rcases right with ⟨distance, isBound, found⟩
  obtain ⟨object, hasValue⟩ := sees.lookup (fun isPending => (sees.proper _ isPending).1 rfl) found
  obtain ⟨owner, -, bound⟩ := Forest.getAt_eq_ok hasValue
  exact ⟨distance, object, isBound, hasValue, heap.receivers owner object bound⟩

theorem superMethod (sees : Sees visited forest sight frame)
    (heap : HeapSound visited accepted forest objects) {name : Ident} {binding : Distance}
    (right : Reference.Right sight { kind := .superMethod, name := name, binding := binding }) :
    ∃ distance cls object, binding = some (distance + 1) ∧
      forest.getAt frame (distance + 1) "super" = .ok (.class_ cls) ∧
      forest.getAt frame distance "this" = .ok object ∧ object.IsObject := by
  rcases right with ⟨distance, isBound, found, above⟩
  obtain ⟨superclass, hasClass⟩ :=
    sees.lookup (fun isPending => (sees.proper _ isPending).2 rfl) found
  obtain ⟨object, hasObject⟩ :=
    sees.lookup (fun isPending => (sees.proper _ isPending).1 rfl) above
  obtain ⟨owner, -, boundClass⟩ := Forest.getAt_eq_ok hasClass
  obtain ⟨other, -, boundObject⟩ := Forest.getAt_eq_ok hasObject
  obtain ⟨cls, isClass⟩ := heap.superclasses owner superclass boundClass
  subst isClass
  exact ⟨distance, cls, object, isBound, hasClass, hasObject, heap.receivers other object
    boundObject⟩

end Sees

/-! ### Steps that evaluate nothing -/

theorem readName_keeps {machine : Machine} {sight : Sight} {name : Ident} {binding : Distance}
    (heap : HeapSound visited accepted machine.frames machine.objects)
    (sees : Sees visited machine.frames sight machine.frame)
    (right : Reference.Right sight { kind := .read, name := name, binding := binding }) :
    Keeps visited accepted machine (fun value forest => value.Valid visited accepted forest)
      (Run.readName name binding machine) := by
  cases binding with
  | none =>
      simp only [Run.readName, Run.readGlobal]
      cases found : machine.frames.get? Machine.globalFrame name.text with
      | none => exact ⟨.refl machine, heap, trivial⟩
      | some value =>
          rw [Forest.get?_of_parent?_eq_none heap.root.2] at found
          exact ⟨.refl machine, heap, heap.stored _ _ value found⟩
  | some distance =>
      obtain ⟨value, found⟩ := sees.read right
      obtain ⟨owner, -, bound⟩ := Forest.getAt_eq_ok found
      simp only [Run.readName, Run.readAt, Run.readFrom, found]
      exact ⟨.refl machine, heap, heap.stored owner _ value bound⟩

theorem writeName_keeps {machine : Machine} {sight : Sight} {name : Ident} {binding : Distance}
    {value : Value} (heap : HeapSound visited accepted machine.frames machine.objects)
    (sees : Sees visited machine.frames sight machine.frame)
    (right : Reference.Right sight { kind := .write, name := name, binding := binding })
    (valid : value.Valid visited accepted machine.frames) :
    Keeps visited accepted machine (fun _ _ => True) (Run.writeName name value binding machine) := by
  cases binding with
  | none =>
      simp only [Run.writeName, Run.writeGlobal]
      cases machine.frames.find? name.text Machine.globalFrame with
      | none => exact ⟨.refl machine, heap, trivial⟩
      | some owner => exact ⟨⟨.define .., rfl⟩, heap.assign valid right.2, trivial⟩
  | some distance =>
      obtain ⟨owner, reached⟩ := sees.chain.target right.1.symm
      simp only [Run.writeName, Run.writeAt, reached]
      exact ⟨⟨.define .., rfl⟩, heap.assign valid right.2, trivial⟩

theorem define_keeps {machine : Machine} {name : Ident} {value : Value}
    (heap : HeapSound visited accepted (machine.frames.define machine.frame name.text value)
      machine.objects)
    (inside : machine.frame < machine.frames.frames.size) :
    Keeps visited accepted machine
      (fun _ forest => (forest.local? machine.frame name.text).isSome)
      (Run.define name.text value machine) := by
  refine ⟨⟨.define .., rfl⟩, heap, ?_⟩
  simp [Forest.local?_define, inside]

theorem ofExcept_keeps {machine : Machine} (line : Nat) {result : Except RuntimeCause Value}
    (heap : HeapSound visited accepted machine.frames machine.objects)
    (valid : ∀ value, result = .ok value → value.Valid visited accepted machine.frames) :
    Keeps visited accepted machine (fun value forest => value.Valid visited accepted forest)
      (Run.ofExcept line result machine) := by
  cases result with
  | error cause => exact ⟨.refl machine, heap, trivial⟩
  | ok value => exact ⟨.refl machine, heap, valid value rfl⟩

end LoxLang
