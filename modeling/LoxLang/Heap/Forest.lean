/-
Module: LoxLang.Heap.Forest
Purpose: Frames of variables, each linked to the frame it is nested in.  Frames are shared: a
  function keeps the frame it was declared in, so all links are numbers into one array that only
  grows.
Main exports: FrameId, Frame, Forest, Forest.alloc, Forest.define, Forest.find?, Forest.get?,
  Forest.assign?, Forest.ancestor, Forest.getAt, Forest.assignAt
-/
import LoxLang.Heap.Bindings
import LoxLang.Text.Quoted

namespace LoxLang

/-- The number of a frame. -/
abbrev FrameId := Nat

/-- The variables of one scope and the frame it is nested in. -/
structure Frame (α : Type) where
  bindings : Bindings α
  parent : Option FrameId
deriving Repr, Inhabited

/-- All frames there are, by number.  A frame is created after the one it is nested in, so links
lead to smaller numbers. -/
structure Forest (α : Type) where
  frames : Array (Frame α)
deriving Repr, Inhabited

/-- What can go wrong when a variable is looked for at a given distance. -/
inductive AccessFault where
  /-- There is no frame that far out. -/
  | pastOutermost
  /-- The frame does not bind the name. -/
  | unbound (name : String)
deriving DecidableEq, Repr, Inhabited

namespace Forest

variable {α : Type}

/-- No frames at all. -/
def empty : Forest α :=
  { frames := #[] }

/-- Adds a frame without variables. -/
def alloc (forest : Forest α) (parent : Option FrameId) : FrameId × Forest α :=
  (forest.frames.size,
    { frames := forest.frames.push { bindings := .empty, parent := parent } })

/-- The frame a frame is nested in. -/
def parent? (forest : Forest α) (id : FrameId) : Option FrameId :=
  match forest.frames[id]? with
  | none => none
  | some frame => frame.parent

/-- The value of a name in one frame, regardless of the frames around it. -/
def local? (forest : Forest α) (id : FrameId) (name : String) : Option α :=
  match forest.frames[id]? with
  | none => none
  | some frame => frame.bindings.get? name

/-- Binds a name in one frame.  Binding a name again gives it a new value. -/
def define (forest : Forest α) (id : FrameId) (name : String) (value : α) : Forest α :=
  { frames := forest.frames.modify id fun frame =>
      { frame with bindings := frame.bindings.set name value } }

/-- The innermost frame that binds a name, looked for from `id` outwards. -/
def find? (forest : Forest α) (name : String) (id : FrameId) : Option FrameId :=
  if (forest.local? id name).isSome then
    some id
  else
    match forest.parent? id with
    | none => none
    | some outer => if outer < id then forest.find? name outer else none
termination_by id

/-- The value of a name, looked for from `id` outwards. -/
def get? (forest : Forest α) (id : FrameId) (name : String) : Option α :=
  match forest.find? name id with
  | none => none
  | some owner => forest.local? owner name

/-- Gives a new value to a name where it is bound; nothing if it is not. -/
def assign? (forest : Forest α) (id : FrameId) (name : String) (value : α) : Option (Forest α) :=
  match forest.find? name id with
  | none => none
  | some owner => some (forest.define owner name value)

/-- Walks outwards a number of times.  One step past the outermost frame leads nowhere, and there
is no way on from there. -/
def climb (forest : Forest α) : Nat → Option FrameId → Except AccessFault (Option FrameId)
  | 0, place => .ok place
  | _ + 1, none => .error .pastOutermost
  | distance + 1, some id => forest.climb distance (forest.parent? id)

/-- The frame `distance` steps outwards from `id`. -/
def ancestor (forest : Forest α) (id : FrameId) (distance : Nat) :
    Except AccessFault (Option FrameId) :=
  forest.climb distance (some id)

/-- The frame `distance` steps outwards from `id`, which must exist. -/
def frameAt (forest : Forest α) (id : FrameId) (distance : Nat) : Except AccessFault FrameId :=
  match forest.ancestor id distance with
  | .error fault => .error fault
  | .ok none => .error .pastOutermost
  | .ok (some found) => .ok found

/-- The value of a name in the frame `distance` steps outwards. -/
def getAt (forest : Forest α) (id : FrameId) (distance : Nat) (name : String) :
    Except AccessFault α :=
  match forest.frameAt id distance with
  | .error fault => .error fault
  | .ok found =>
      match forest.local? found name with
      | none => .error (.unbound name)
      | some value => .ok value

/-- Binds a name in the frame `distance` steps outwards, whether or not it was bound there. -/
def assignAt (forest : Forest α) (id : FrameId) (distance : Nat) (name : String) (value : α) :
    Except AccessFault (Forest α) :=
  match forest.frameAt id distance with
  | .error fault => .error fault
  | .ok found => .ok (forest.define found name value)

/-- The variables of a frame. -/
def bindings (forest : Forest α) (id : FrameId) : Bindings α :=
  match forest.frames[id]? with
  | none => .empty
  | some frame => frame.bindings

/-- A frame in words: its names, and whether it is nested in another. -/
def describe (forest : Forest α) (id : FrameId) : String :=
  let names := ", ".intercalate ((forest.bindings id).names.map Text.quoted)
  let nested := if (forest.parent? id).isSome then "Yes" else "No"
  s!"Environment(vars=[{names}], enclosing={nested})"

end Forest

end LoxLang
