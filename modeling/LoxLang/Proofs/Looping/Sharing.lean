/-
Module: LoxLang.Proofs.Looping.Sharing
Purpose: Code of one activation runs in frames that lie inside one another.  Whatever is done in
  the course of a task, in whatever turn of whatever loop, the frame in which it is done leads out
  to the frame in which the task began, and so it does for ever.
Main exports: Forest.Surrounds, Machine.surrounds_methodFrame, Leads.extends, Leads.surrounded,
  Task.surrounds_course
-/
import LoxLang.Proofs.Return.Activation
import LoxLang.Proofs.Run.Discipline

namespace LoxLang

/-! ### Frames around frames -/

namespace Forest

variable {α : Type} {forest later : Forest α}

/-- A walk outwards that has led somewhere leads there for ever. -/
theorem Extends.reaches (extends' : forest.Extends later) {id outer : FrameId} {distance : Nat}
    (reached : forest.frameAt id distance = .ok outer) : later.frameAt id distance = .ok outer := by
  induction distance generalizing id with
  | zero => exact reached
  | succ distance ih =>
      obtain ⟨parent, isNested, onwards⟩ := frameAt_succ_eq_ok.1 reached
      have same := extends'.parents id (lt_size_of_parent? isNested)
      rw [isNested] at same
      rw [frameAt_succ same]
      exact ih onwards

/-- Whether a frame lies inside another one, or is that frame. -/
def Surrounds (forest : Forest α) (outer inner : FrameId) : Prop :=
  ∃ distance, forest.frameAt inner distance = .ok outer

theorem Surrounds.refl (forest : Forest α) (id : FrameId) : forest.Surrounds id id :=
  ⟨0, rfl⟩

theorem Surrounds.mono {outer inner : FrameId} (surrounds : forest.Surrounds outer inner)
    (extends' : forest.Extends later) : later.Surrounds outer inner :=
  surrounds.imp fun _ reached => extends'.reaches reached

theorem Surrounds.trans {outer middle inner : FrameId} (first : forest.Surrounds outer middle)
    (second : forest.Surrounds middle inner) : forest.Surrounds outer inner := by
  obtain ⟨far, reachedFar⟩ := first
  obtain ⟨near, reachedNear⟩ := second
  exact ⟨near + far, by rw [frameAt_add reachedNear, reachedFar]⟩

end Forest

/-! ### Frames are never taken away -/

/-- The account that no frame of a machine is taken away or moved. -/
def Account.extending (base : Machine) : Account where
  holds machine := base.frames.Extends machine.frames
  frame _ _ := True
  value _ _ := True
  frame_grows _ _ := trivial
  value_grows _ _ := trivial
  plain _ _ _ := trivial
  function := Iff.rfl
  object _ := trivial
  method _ _ := trivial
  current _ := trivial
  stored _ _ := trivial
  field _ _ := trivial
  move holds _ := holds
  count _ _ holds _ := holds
  nest holds _ := ⟨holds.trans (.alloc ..), trivial⟩
  define id name holds _ := holds.trans (.define _ id name _)
  create holds _ := ⟨holds, trivial⟩
  setField _ _ holds _ := holds
  declareClass {machine superclass} name methods holds _ := by
    obtain ⟨table, identity, identities, -, made, -⟩ :=
      Run.newClass_spec name superclass methods machine
    rw [made]
    exact holds.trans ((machine.methodSpace_extends superclass).trans (.define ..))

theorem Account.extending_begins {base : Machine} {task : Task}
    (holds : base.frames.Extends task.machine.frames) : (Account.extending base).Begins task := by
  refine ⟨holds, ?_⟩
  cases task.activity with
  | call closure arguments => exact ⟨trivial, fun _ _ => trivial⟩
  | bindMethod method receiver => exact ⟨trivial, trivial⟩
  | declareClass name superclass methods => exact fun _ _ => trivial
  | _ => trivial

/-- When a part of a task begins, all frames are where they were. -/
theorem Leads.extends {task next : Task} (leads : Leads task next) :
    task.machine.frames.Extends next.machine.frames :=
  ((Account.extending_begins (.refl task.machine.frames)).leads leads).1

/-- Methods are created inside of the frame in which their class is declared. -/
theorem Machine.surrounds_methodFrame (machine : Machine) (superclass : Option Class) :
    (machine.methodSpace superclass).frames.Surrounds machine.frame
      (machine.methodFrame superclass) := by
  cases superclass with
  | none => exact .refl _ _
  | some cls =>
      have nested : (machine.methodSpace (some cls)).frames.parent? machine.fresh =
          some machine.frame := by
        simp only [methodSpace, defining, nest, fresh, Forest.parent?_define,
          Forest.parent?_alloc, ↓reduceIte]
      exact ⟨1, Forest.frameAt_succ nested 0⟩

/-! ### The course of an activation -/

/-- A part of a task runs in the frame of the task or, if the task is a block, right inside of
it. -/
theorem Leads.surrounded {task next : Task} (leads : Leads task next)
    (notCall : ∀ closure arguments, task.activity ≠ .call closure arguments) :
    next.machine.frames.Surrounds task.machine.frame next.machine.frame := by
  by_cases isBlock : ∃ body, task.activity = .execute (.block body)
  · obtain ⟨body, isBlock⟩ := isBlock
    rcases task with ⟨steps, room, activity, machine⟩
    cases isBlock
    cases leads
    refine ⟨1, ?_⟩
    have nested : ((machine.nest machine.frame).inFrame machine.fresh).frames.parent?
        machine.fresh = some machine.frame := by
      simp only [Machine.inFrame, Machine.nest, Machine.fresh, Forest.parent?_alloc, ↓reduceIte]
    exact Forest.frameAt_succ nested 0
  · rw [leads.stays (fun body same => isBlock ⟨body, same⟩) notCall]
    exact .refl _ _

/-- Whatever is done in the course of a task is done inside of its frame. -/
theorem Task.surrounds_course (task : Task) : ∀ other ∈ task.course,
    task.machine.frames.Extends other.machine.frames ∧
      other.machine.frames.Surrounds task.machine.frame other.machine.frame := by
  induction task using Leads.wellFounded.induction with
  | h task ih =>
      intro other member
      rcases mem_course.1 member with rfl | ⟨part, isOwn, inPart⟩
      · exact ⟨.refl _, .refl _ _⟩
      · have leads := leads_of_mem_own isOwn
        have notCall : ∀ closure arguments, task.activity ≠ .call closure arguments := by
          intro closure arguments isCall
          simp only [own, isCall] at isOwn
          cases isOwn
        obtain ⟨extends', surrounds⟩ := ih part leads other inPart
        exact ⟨leads.extends.trans extends',
          ((leads.surrounded notCall).mono extends').trans surrounds⟩

end LoxLang
