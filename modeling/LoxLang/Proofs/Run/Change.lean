/-
Module: LoxLang.Proofs.Run.Change
Purpose: What a running program can do to the machine, one change at a time.  Frames, objects and
  identities are only added; only frames that are created for it ever hold `this` or `super`, and
  what they hold there is never replaced.
Main exports: Machine.Change, Machine.Becomes, Machine.Preserves, Machine.Becomes.preserves
-/
import LoxLang.Proofs.Run.Parts
import Mathlib.Logic.Relation

namespace LoxLang

/-- Whether a name is one that only keywords have. -/
def Reserved (name : String) : Prop :=
  name = "this" ∨ name = "super"

theorem Ident.Unreserved.not_reserved {name : Ident} (unreserved : name.Unreserved) :
    ¬Reserved name.text := by
  rintro (isThis | isSuper)
  · exact unreserved.1 isThis
  · exact unreserved.2 isSuper

namespace Machine

/-- The changes that a running program makes to the machine. -/
inductive Change : Machine → Machine → Prop where
  /-- Code of another frame goes on. -/
  | move (machine : Machine) (frame : FrameId) : Change machine (machine.inFrame frame)
  | print (machine : Machine) (line : String) :
      Change machine { machine with output := machine.output.push line }
  /-- What has been printed is handed out. -/
  | handOut (machine : Machine) : Change machine { machine with output := #[] }
  | readClock (machine : Machine) : Change machine { machine with readings := machine.readings + 1 }
  /-- Identities are given to functions and classes. -/
  | count {machine : Machine} {identities : Nat} (more : machine.identities ≤ identities) :
      Change machine { machine with identities := identities }
  | nest (machine : Machine) (parent : FrameId) : Change machine (machine.nest parent)
  /-- A variable gets a value. -/
  | bind {machine : Machine} {frame : FrameId} {name : String} {value : Value}
      (isVariable : ¬Reserved name) : Change machine (machine.defining frame name value)
  /-- A method is bound to an object. -/
  | receive (machine : Machine) (method : Closure) (receiver : Value) :
      Change machine (machine.withReceiver method receiver)
  /-- A class with a superclass is declared. -/
  | inherit (machine : Machine) (cls : Class) : Change machine (machine.methodSpace (some cls))
  | create (machine : Machine) : Change machine machine.withObject
  | setField (machine : Machine) (id : Nat) (name : String) (value : Value) :
      Change machine
        { machine with objects := machine.objects.modify id fun fields => fields.set name value }

/-- A machine becomes another one by some changes. -/
abbrev Becomes : Machine → Machine → Prop :=
  Relation.ReflTransGen Change

theorem Change.becomes {machine later : Machine} (change : Change machine later) :
    machine.Becomes later :=
  .single change

theorem becomes_definingAll (machine : Machine) (frame : FrameId) {names : List Ident}
    (unreserved : ∀ name ∈ names, name.Unreserved) (values : List Value) :
    machine.Becomes (machine.definingAll frame names values) := by
  induction names generalizing values machine with
  | nil => exact .refl
  | cons name names ih =>
      cases values with
      | nil => exact .refl
      | cons value values =>
          have first := (unreserved name List.mem_cons_self).not_reserved
          have rest : ∀ other ∈ names, other.Unreserved := fun other member =>
            unreserved other (List.mem_cons_of_mem name member)
          exact .head (.bind first) (ih (machine.defining frame name.text value) rest values)

/-! ### What no change touches -/

/-- What stays as it is for ever: the links between frames, the names that they bind, and `this`
and `super` in every frame. -/
structure Preserves (machine later : Machine) : Prop where
  frames : machine.frames.Extends later.frames
  reserved : ∀ id, id < machine.frames.frames.size → ∀ name, Reserved name →
    later.frames.local? id name = machine.frames.local? id name

namespace Preserves

variable {machine middle later : Machine}

theorem refl (machine : Machine) : machine.Preserves machine :=
  ⟨.refl machine.frames, fun _ _ _ _ => rfl⟩

theorem trans (first : machine.Preserves middle) (second : middle.Preserves later) :
    machine.Preserves later where
  frames := first.frames.trans second.frames
  reserved := by
    intro id inside name isReserved
    rw [second.reserved id (Nat.lt_of_lt_of_le inside first.frames.grows) name isReserved,
      first.reserved id inside name isReserved]

theorem nest (machine : Machine) (parent : FrameId) :
    machine.Preserves (machine.nest parent) where
  frames := .alloc machine.frames (some parent)
  reserved := fun _ _ _ _ => Forest.local?_alloc ..

theorem bind (machine : Machine) (frame : FrameId) {name : String} (value : Value)
    (isVariable : ¬Reserved name) : machine.Preserves (machine.defining frame name value) where
  frames := .define machine.frames frame name value
  reserved := by
    intro id inside word isReserved
    simp only [Machine.defining, Forest.local?_define]
    rw [if_neg]
    rintro ⟨-, rfl, -⟩
    exact isVariable isReserved

/-- Binding any name in a frame that has just been created. -/
theorem nestWith (machine : Machine) (parent : FrameId) (name : String) (value : Value) :
    machine.Preserves ((machine.nest parent).defining machine.fresh name value) where
  frames := (nest machine parent).frames.trans (.define _ machine.fresh name value)
  reserved := by
    intro id inside word isReserved
    simp only [Machine.defining, Forest.local?_define]
    rw [if_neg]
    · exact (nest machine parent).reserved id inside word isReserved
    · rintro ⟨rfl, -, -⟩
      exact Nat.lt_irrefl _ inside

/-- Whatever changes apart from the frames. -/
theorem of_frames (same : later.frames = machine.frames) : machine.Preserves later := by
  constructor <;> rw [same]
  · exact .refl machine.frames
  · exact fun _ _ _ _ => rfl

end Preserves

theorem Change.preserves {machine later : Machine} (change : Change machine later) :
    machine.Preserves later := by
  cases change with
  | move frame => exact .of_frames rfl
  | print line => exact .of_frames rfl
  | handOut => exact .of_frames rfl
  | readClock => exact .of_frames rfl
  | count more => exact .of_frames rfl
  | nest parent => exact .nest machine parent
  | bind isVariable => exact .bind machine _ _ isVariable
  | receive method receiver =>
      exact (Preserves.nestWith machine method.frame "this" receiver).trans (.of_frames rfl)
  | inherit cls => exact .nestWith machine machine.frame "super" (.class_ cls)
  | create => exact .of_frames rfl
  | setField id name value => exact .of_frames rfl

/-- However a machine changes, it keeps what stays as it is for ever. -/
theorem Becomes.preserves {machine later : Machine} (becomes : machine.Becomes later) :
    machine.Preserves later := by
  induction becomes with
  | refl => exact .refl machine
  | tail _ change ih => exact ih.trans change.preserves

end Machine

end LoxLang
