/-
Module: LoxLang.Proofs.Run.Lasting
Purpose: The heap at every moment of a history.  It is well-formed, nothing that was there is taken
  away, and a class is the same class for ever: no two classes have one identity.
Main exports: Moment, Moment.wellFormed, Class.Created.unique, Session.heap_wellFormed
-/
import LoxLang.Proofs.Run.Inventory

namespace LoxLang

/-! ### Moments -/

/-- The machines that there are in the course of a history: between its commands, and before and
after everything that is done in its runs. -/
inductive Moment (start : Session) (history : List Command) : Machine → Prop where
  | between {earlier later : List Command} (split : history = earlier ++ later) :
      Moment start history (start.performAll earlier).machine
  | before {task : Task} (visited : Visited start history task) :
      Moment start history task.machine
  | after {task : Task} (visited : Visited start history task) :
      Moment start history task.final

theorem Keeps.heap {α : Type} {visited : Task → Prop} {accepted : Place → Prop} {machine : Machine}
    {good : α → Forest Value → Prop} {result : EStateM.Result Stop Machine α}
    (keeps : Keeps visited accepted machine good result) :
    HeapSound visited accepted (Run.last result).frames (Run.last result).objects := by
  cases result with
  | ok value following => exact keeps.2.1
  | error stop following => exact keeps.2.1

theorem Task.Settles.heap {visited : Task → Prop} {accepted : Place → Prop} {task : Task}
    (settles : task.Settles visited accepted) :
    HeapSound visited accepted task.final.frames task.final.objects := by
  rcases task with ⟨steps, room, activity, machine⟩
  cases activity <;>
    (simp only [Task.Settles] at settles
     exact settles.heap)

section History

variable {config : Config} {clock : Nat → Float} {history : List Command} {machine : Machine}

theorem Session.inventory_start (config : Config) (clock : Nat → Float) :
    Account.inventory.holds (Session.start config clock).machine :=
  Machine.wellFormed_initial clock

theorem Visited.inventory {task : Task} (visited : Visited (.start config clock) history task) :
    Account.inventory.Begins task :=
  Account.visited (Session.inventory_start config clock) visited

theorem Moment.wellFormed (moment : Moment (.start config clock) history machine) :
    machine.WellFormed := by
  cases moment with
  | between split => exact (Account.performAll (Session.inventory_start config clock) _).2
  | before visited => exact visited.inventory.1
  | after visited => exact visited.inventory.final.2

theorem Moment.heap (moment : Moment (.start config clock) history machine) :
    HeapSound (Visited (.start config clock) history) (Accepted (.start config clock) history)
      machine.frames machine.objects := by
  cases moment with
  | between split => exact (sessionSound_start split).heap
  | before visited => exact (visited_sound visited).heap
  | after visited => exact (visited_settles visited).heap

/-! ### Classes -/

/-- The classes that a value brings along. -/
def Value.classes : Value → List Class
  | .class_ cls => cls.lineage
  | .object _ cls => cls.lineage
  | .nil | .bool _ | .number _ | .string _ | .native _ | .function _ => []

/-- The classes of the values in the variables and fields of a machine, and the classes that they
inherit from. -/
inductive Machine.HoldsClass (machine : Machine) (cls : Class) : Prop where
  | inVariable {id : FrameId} {name : String} {value : Value}
      (bound : machine.frames.local? id name = some value) (brings : cls ∈ value.classes)
  | inField {id : Nat} {name : String} {value : Value}
      (isField : (machine.fields id).get? name = some value) (brings : cls ∈ value.classes)

theorem Value.Valid.created {visited : Task → Prop} {accepted : Place → Prop}
    {forest : Forest Value} {value : Value} (valid : value.Valid visited accepted forest)
    {cls : Class} (brings : cls ∈ value.classes) : cls.Created visited := by
  cases value with
  | class_ owner => exact (valid cls brings).1
  | object id owner => exact (valid cls brings).1
  | _ => cases brings

theorem Moment.created (moment : Moment (.start config clock) history machine) {cls : Class}
    (holds : machine.HoldsClass cls) : cls.Created (Visited (.start config clock) history) := by
  cases holds with
  | inVariable bound brings => exact (moment.heap.stored _ _ _ bound).created brings
  | inField isField brings => exact (moment.heap.fields _ _ _ isField).created brings

/-- The task that created a class, and the identities that were given out in it. -/
theorem Class.Created.origin {cls : Class}
    (created : cls.Created (Visited (.start config clock) history)) :
    ∃ task : Task, Visited (.start config clock) history task ∧ (∀ part, ¬Leads task part) ∧
      task.machine.identities ≤ cls.identity ∧ cls.identity < task.final.identities ∧
      ∃ name superclass methods, task.activity = .declareClass name superclass methods ∧
        task.final.frames.local? task.machine.frame name.text = some (.class_ cls) := by
  rcases created with ⟨task, creates, isClass⟩
  rename_i steps room name superclass methods machine following
  obtain ⟨table, identity, identities, ⟨above, below⟩, made, -⟩ :=
    Run.newClass_spec name superclass methods machine
  have isFinal : Task.final ⟨steps, room, .declareClass name superclass methods, machine⟩ =
      following := congrArg Run.last creates
  have inside := Nat.lt_of_lt_of_le task.inventory.1.current
    (machine.resumes_methodSpace superclass).grows.frames
  refine ⟨_, task, by nofun, ?_⟩
  rw [isFinal]
  cases made.symm.trans creates
  have isNew := isClass
  simp only [Machine.fresh] at inside
  simp only [Machine.defining, Forest.local?_define, inside, and_self, ↓reduceIte,
    Option.some.injEq, Value.class_.injEq] at isNew
  subst isNew
  exact ⟨above, below, name, superclass, methods, rfl, isClass⟩

/-- No two classes have one identity: of two declarations one was over before the other began, and
identities are only counted upwards. -/
theorem Class.Created.unique {cls other : Class}
    (created : cls.Created (Visited (.start config clock) history))
    (alsoCreated : other.Created (Visited (.start config clock) history))
    (same : cls.identity = other.identity) : cls = other := by
  obtain ⟨task, visited, alone, above, below, name, superclass, methods, isTask, isClass⟩ :=
    created.origin
  obtain ⟨task', visited', alone', above', below', name', superclass', methods', isTask', isOther⟩ :=
    alsoCreated.origin
  have once : task = task' → cls = other := by
    rintro rfl
    cases isTask.symm.trans isTask'
    cases isClass.symm.trans isOther
    rfl
  rcases visited.ordered visited' with inside | around | before | after
  · rcases inside.part with isSame | ⟨part, leads, -⟩
    · exact once isSame
    · exact absurd leads (alone part)
  · rcases around.part with isSame | ⟨part, leads, -⟩
    · exact once isSame.symm
    · exact absurd leads (alone' part)
  · have counted := before.retains.grows.identities
    omega
  · have counted := after.retains.grows.identities
    omega

/-! ### Histories -/

/-- While a program runs, the machine retains what the session had, and the session retains what the
machine has. -/
theorem Ran.retains {session : Session} {source : String} {room : Room}
    {program : Program Distance}
    (ran : Ran (.start config clock) history session source room program) {task : Task}
    (reaches : Reaches (Ran.task session room program) task) :
    session.machine.Retains task.machine ∧ task.machine.Retains task.final ∧
      task.final.Retains (session.run source).1.machine := by
  have visited := ran.visited
  obtain ⟨before, after⟩ := reaches.within visited
  exact ⟨before.retains, (Visited.becomes task (visited.reached reaches)).retains,
    after.retains.trans ran.handsOver.retains⟩

/-- At every moment of every history the heap is well-formed: from every frame the way outwards is
finite and ends at the globals, and a name is found in the nearest frame that binds it; every
function and every method captured a frame that there is, and classes inherit from older classes.
Nothing that was there is taken away by what is done later, a class remains what it was when it was
declared, and a method is found in the nearest class that has it. -/
theorem Session.heap_wellFormed (config : Config) (clock : Nat → Float) (history : List Command) :
    (∀ machine, Moment (start config clock) history machine →
      machine.WellFormed ∧ ∀ frame, frame < machine.fresh →
        (∃ depth, machine.frames.frameAt frame depth = .ok Machine.globalFrame ∧
          ∀ distance, (∃ found, machine.frames.frameAt frame distance = .ok found) ↔
            distance ≤ depth) ∧
        ∀ name owner, machine.frames.find? name frame = some owner ↔
          ∃ distance, machine.frames.frameAt frame distance = .ok owner ∧
            (machine.frames.local? owner name).isSome ∧
            ∀ nearer < distance, ∀ between, machine.frames.frameAt frame nearer = .ok between →
              machine.frames.local? between name = none) ∧
    (∀ steps room e machine value following,
      Visited (start config clock) history ⟨steps, room, .evaluate e, machine⟩ →
      eval steps room e machine = .ok value following → value.Listed following) ∧
    (∀ earlier more later, history = earlier ++ (more ++ later) →
      ((start config clock).performAll earlier).machine.Retains
        ((start config clock).performAll (earlier ++ more)).machine) ∧
    (∀ session source room program,
      Ran (start config clock) history session source room program →
      ∀ task, Reaches (Ran.task session room program) task →
        session.machine.Retains task.machine ∧ task.machine.Retains task.final ∧
          task.final.Retains (session.run source).1.machine) ∧
    (∀ machine other, Moment (start config clock) history machine →
      Moment (start config clock) history other →
      ∀ cls cls', machine.HoldsClass cls → other.HoldsClass cls' →
        cls.identity = cls'.identity → cls = cls') ∧
    ∀ (cls : Class) (name : String),
      cls.findMethod? name = cls.lineage.findSome? fun member => member.methods.get? name := by
  refine ⟨?_, ?_, ?_, ?_, ?_, Class.findMethod?_eq⟩
  · intro machine moment
    have formed := moment.wellFormed
    refine ⟨formed, fun frame inside => ⟨formed.chain inside, fun name owner => ?_⟩⟩
    exact formed.forest_nested.find?_eq_some
  · intro steps room e machine value following visited result
    exact (Account.evaluated visited.inventory.1 result).2.2
  · intro earlier more later split
    exact (Session.becomes_performAll split).retains
  · intro session source room program ran task reaches
    exact ran.retains reaches
  · intro machine other moment otherMoment cls cls' holds otherHolds same
    exact (moment.created holds).unique (otherMoment.created otherHolds) same

end History

/-! ### A sample history -/

/-- A class is declared anew, as a subclass of its own subclass. -/
def sampleAncestry : String :=
  "class A { m() { } } class B < A { } class A < B { }"

/-- The new class inherits the method that was declared first. -/
theorem Session.heap_wellFormed_sample :
    ∃ cls method,
      (sampleStart.performAll [.run sampleAncestry]).machine.frames.local? Machine.globalFrame "A" =
        some (.class_ cls) ∧
      cls.lineage.map Class.identity = [3, 2, 1] ∧ cls.Listed
        (sampleStart.performAll [.run sampleAncestry]).machine ∧
      cls.findMethod? "m" = some method ∧
      ∃ depth, (sampleStart.performAll [.run sampleAncestry]).machine.frames.frameAt method.frame
        depth = .ok Machine.globalFrame := by
  let machine := (sampleStart.performAll [.run sampleAncestry]).machine
  have moment : Moment sampleStart [.run sampleAncestry] machine := .between (List.append_nil _).symm
  obtain ⟨formed, chains⟩ := (heap_wellFormed {} (fun _ => 0) [.run sampleAncestry]).1 machine moment
  have bound : ∃ cls method, machine.frames.local? Machine.globalFrame "A" = some (.class_ cls) ∧
      cls.lineage.map Class.identity = [3, 2, 1] ∧ cls.findMethod? "m" = some method := by
    with_unfolding_all exact ⟨_, _, rfl, rfl, rfl⟩
  obtain ⟨cls, method, isClass, identities, found⟩ := bound
  have listed : cls.Listed machine := formed.bound _ _ _ isClass
  obtain ⟨depth, reached, -⟩ := (chains method.frame (listed.method found)).1
  exact ⟨cls, method, isClass, identities, listed, found, depth, reached⟩

end LoxLang
