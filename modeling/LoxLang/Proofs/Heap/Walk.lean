/-
Module: LoxLang.Proofs.Heap.Walk
Purpose: Two ways to a variable.  A name can be looked for frame by frame, or be taken from the
  frame at a known distance.  At the least distance at which the name is bound both ways lead to
  the same frame, so they read the same value and make the same change; and frames are shared, so a
  change is seen from every frame whose walk for the name ends there, and from no other.
Main exports: Forest.Built, Forest.Nearest, Forest.Rebound, Forest.lookUp, Forest.reassign,
  Forest.walk_agrees
-/
import LoxLang.Machine.Basic
import LoxLang.Proofs.Run.Forest

namespace LoxLang

namespace Forest

variable {α : Type}

/-! ### Forests and names -/

/-- The forests that can be built: a frame is added in no frame or in one that is there, a name is
bound in a frame that is there, and a bound name is given a new value where a walk finds it or at a
distance.  What fails changes nothing, so it is left out. -/
inductive Built : Forest α → Prop
  | empty : Built .empty
  | new {forest : Forest α} (built : Built forest) (parent : Option FrameId)
      (inside : ∀ outer ∈ parent, outer < forest.frames.size) : Built (forest.alloc parent).2
  | define {forest : Forest α} (built : Built forest) {id : FrameId}
      (inside : id < forest.frames.size) (name : String) (value : α) :
      Built (forest.define id name value)
  | assign {forest later : Forest α} (built : Built forest) {id : FrameId} {name : String}
      {value : α} (done : forest.assign? id name value = some later) : Built later
  | assignAt {forest later : Forest α} (built : Built forest) {id : FrameId} {distance : Nat}
      {name : String} {value : α} (done : forest.assignAt id distance name value = .ok later) :
      Built later

/-- Whether `distance` is the least one at which a name is bound, and `owner` the frame there. -/
structure Nearest (forest : Forest α) (id : FrameId) (name : String) (distance : Nat)
    (owner : FrameId) : Prop where
  reached : forest.frameAt id distance = .ok owner
  bound : (forest.local? owner name).isSome
  least : ∀ nearer < distance, ∀ between, forest.frameAt id nearer = .ok between →
    forest.local? between name = none

/-- Whether a forest is what becomes of another one by giving a new value to a name in one frame.
No name is added and none changes its place; what changes for the code in a frame is the value of
the name, if the walk from there ends in that frame. -/
structure Rebound (forest : Forest α) (owner : FrameId) (name : String) (value : α)
    (later : Forest α) : Prop where
  size : later.frames.size = forest.frames.size
  parents : ∀ id, later.parent? id = forest.parent? id
  others : ∀ id, id ≠ owner → later.bindings id = forest.bindings id
  names : (later.bindings owner).names = (forest.bindings owner).names
  values : ∀ word, later.local? owner word =
    if word = name then some value else forest.local? owner word
  seen : ∀ id distance, forest.Nearest id name distance owner → later.get? id name = some value
  unseen : ∀ id word, (word = name → ∀ distance, ¬forest.Nearest id name distance owner) →
    later.get? id word = forest.get? id word

/-! ### Names that may not be bound -/

/-- The error at a name that no frame on the way outwards binds. -/
def undefined (name : Ident) : RuntimeError :=
  { cause := .undefinedVariable name.text, line := name.line }

/-- The value of a name for the code in a frame. -/
def lookUp (id : FrameId) (name : Ident) : EStateM RuntimeError (Forest α) α := fun forest =>
  match forest.get? id name.text with
  | some value => .ok value forest
  | none => .error (undefined name) forest

/-- Gives a new value to a name for the code in a frame. -/
def reassign (id : FrameId) (name : Ident) (value : α) : EStateM RuntimeError (Forest α) Unit :=
  fun forest =>
    match forest.assign? id name.text value with
    | some later => .ok () later
    | none => .error (undefined name) forest

/-! ### Walks -/

/-- Links in a forest that can be built lead to frames that were there before. -/
theorem Built.nested {forest : Forest α} (built : forest.Built) : forest.Nested := by
  induction built with
  | empty =>
      intro id parent found
      simp [parent?, Forest.empty] at found
  | @new forest built parent inside ih =>
      cases parent with
      | some outer => exact ih.alloc (inside outer rfl)
      | none =>
          intro id outer found
          rw [parent?_alloc] at found
          split at found
          · cases found
          · exact ih id outer found
  | define built inside name value ih => exact ih.define _ name value
  | @assign forest later built id name value done ih =>
      unfold assign? at done
      split at done
      · cases done
      · cases done
        exact ih.define _ name value
  | @assignAt forest later built id distance name value done ih =>
      unfold Forest.assignAt at done
      split at done
      · cases done
      · cases done
        exact ih.define _ name value

/-- A walk ends in the nearest frame that binds the name. -/
theorem Nested.find?_iff_nearest {forest : Forest α} (nested : forest.Nested) {id owner : FrameId}
    {name : String} :
    forest.find? name id = some owner ↔ ∃ distance, forest.Nearest id name distance owner := by
  rw [nested.find?_eq_some]
  constructor
  · rintro ⟨distance, reached, bound, least⟩
    exact ⟨distance, reached, bound, least⟩
  · rintro ⟨distance, reached, bound, least⟩
    exact ⟨distance, reached, bound, least⟩

/-- Where a name is bound does not depend on its value. -/
theorem find?_define {forest : Forest α} {owner : FrameId} {name : String}
    (bound : (forest.local? owner name).isSome) (value : α) (word : String) (id : FrameId) :
    (forest.define owner name value).find? word id = forest.find? word id := by
  induction id using Nat.strongRecOn with
  | ind id ih =>
      have same : ((forest.define owner name value).local? id word).isSome =
          (forest.local? id word).isSome := by
        rw [local?_define]
        split
        · rename_i here
          obtain ⟨rfl, rfl, -⟩ := here
          exact bound.symm
        · rfl
      rw [find?, find?, same, parent?_define]
      cases forest.parent? id with
      | none => rfl
      | some outer =>
          by_cases further : outer < id
          · simp only [if_pos further, ih outer further]
          · simp only [if_neg further]

/-! ### One change -/

theorem lt_size_of_local? {forest : Forest α} {id : FrameId} {name : String}
    (bound : (forest.local? id name).isSome) : id < forest.frames.size := by
  refine Nat.lt_of_not_le fun outside => ?_
  rw [local?, Array.getElem?_eq_none outside] at bound
  cases bound

/-- Binding a name again where it is bound changes one binding. -/
theorem Nested.rebound {forest : Forest α} (nested : forest.Nested) {owner : FrameId}
    {name : String} (bound : (forest.local? owner name).isSome) (value : α) :
    forest.Rebound owner name value (forest.define owner name value) := by
  have inside := lt_size_of_local? bound
  have changed : ∀ id word, (forest.define owner name value).local? id word =
      if id = owner ∧ word = name then some value else forest.local? id word := by
    intro id word
    rw [local?_define]
    simp only [inside, and_true, eq_comm]
  refine ⟨size_define .., fun id => parent?_define .., ?_, ?_, ?_, ?_, ?_⟩
  · intro id other
    rw [bindings_define, if_neg fun same => other same.1.symm]
  · rw [bindings_define, if_pos ⟨rfl, inside⟩, Bindings.names_set,
      if_pos ((Bindings.mem_names ..).2 (by rwa [← local?_eq_get?]))]
  · intro word
    simp [changed]
  · intro id distance nearest
    have found := nested.find?_iff_nearest.2 ⟨distance, nearest⟩
    simp [get?, find?_define bound, found, changed]
  · intro id word elsewhere
    rw [get?, get?, find?_define bound]
    cases found : forest.find? word id with
    | none => rfl
    | some reached =>
        simp only [changed]
        refine if_neg ?_
        rintro ⟨rfl, rfl⟩
        obtain ⟨distance, nearest⟩ := nested.find?_iff_nearest.1 found
        exact elsewhere rfl distance nearest

/-! ### Both ways -/

/-- At the least distance at which a name is bound, walking and counting read the same value and
make the same change, which is to one binding of one frame.  If there is no such distance, walking
is an error at the name and changes nothing. -/
theorem walk_agrees {forest : Forest α} (built : forest.Built) (id : FrameId) (name : Ident)
    (value : α) :
    (∀ distance owner, forest.Nearest id name.text distance owner →
      (∃ stored, forest.getAt id distance name.text = .ok stored ∧
        lookUp id name forest = .ok stored forest) ∧
      ∃ later, forest.assignAt id distance name.text value = .ok later ∧
        reassign id name value forest = .ok () later ∧
        forest.Rebound owner name.text value later) ∧
    ((∀ distance owner, ¬forest.Nearest id name.text distance owner) →
      lookUp id name forest = .error (undefined name) forest ∧
      reassign id name value forest = .error (undefined name) forest) := by
  have nested := built.nested
  constructor
  · intro distance owner nearest
    have found := nested.find?_iff_nearest.2 ⟨distance, nearest⟩
    obtain ⟨stored, isStored⟩ := Option.isSome_iff_exists.1 nearest.bound
    refine ⟨⟨stored, getAt_of_frameAt nearest.reached isStored, ?_⟩, _, ?_, ?_,
      nested.rebound nearest.bound value⟩
    · simp only [lookUp, get?, found, isStored]
    · simp only [assignAt, nearest.reached]
    · simp only [reassign, assign?, found]
  · intro nowhere
    have lost : forest.find? name.text id = none := by
      refine Option.eq_none_iff_forall_ne_some.2 fun owner found => ?_
      obtain ⟨distance, nearest⟩ := nested.find?_iff_nearest.1 found
      exact nowhere distance owner nearest
    constructor
    · simp only [lookUp, get?, lost]
    · simp only [reassign, assign?, lost]

/-- A frame that binds `a`, a frame in it that binds `b`, a frame in that, and another frame in the
first that binds `a` again. -/
def sampleForest : Forest Nat :=
  let outermost := ((Forest.empty.alloc none).2.define 0 "a" 1)
  let branch := ((outermost.alloc (some 0)).2.define 1 "b" 2).alloc (some 1)
  (branch.2.alloc (some 0)).2.define 3 "a" 9

/-- What is written from the innermost frame is seen from the frame around it and not from the frame
that binds the name again; a name that is bound aside is not found. -/
theorem walk_agrees_sampleForest :
    sampleForest.Built ∧ sampleForest.Nearest 2 "a" 2 0 ∧
      (∃ later, sampleForest.assignAt 2 2 "a" 5 = .ok later ∧
        reassign 2 ⟨"a", .start⟩ 5 sampleForest = .ok () later ∧
        later.get? 1 "a" = some 5 ∧ later.get? 3 "a" = some 9) ∧
      lookUp 3 ⟨"b", .start⟩ sampleForest = .error (undefined ⟨"b", .start⟩) sampleForest := by
  have built : sampleForest.Built := by
    have outermost := (Built.empty.new none nofun).define (by decide : 0 < 1) "a" 1
    have around := (outermost.new (some 0) (by simp)).define (by simp : 1 < _) "b" 2
    exact ((around.new (some 1) (by simp)).new (some 0) (by simp)).define (by simp) "a" 9
  have nearest : sampleForest.Nearest 2 "a" 2 0 := by
    refine ⟨rfl, rfl, fun nearer less between reached => ?_⟩
    match nearer, less with
    | 0, _ => cases reached; rfl
    | 1, _ => cases reached; rfl
  have around : sampleForest.Nearest 1 "a" 1 0 := by
    refine ⟨rfl, rfl, fun nearer less between reached => ?_⟩
    match nearer, less with
    | 0, _ => cases reached; rfl
  have aside : ∀ distance, ¬sampleForest.Nearest 3 "a" distance 0 := by
    intro distance found
    match distance with
    | 0 => cases found.reached
    | distance + 1 => cases found.least 0 (Nat.succ_pos _) 3 rfl
  have nowhere : ∀ distance owner, ¬sampleForest.Nearest 3 "b" distance owner := by
    intro distance owner found
    match distance with
    | 0 => cases found.reached; cases found.bound
    | 1 => cases found.reached; cases found.bound
    | distance + 2 =>
        have reached := found.reached
        have isNested : sampleForest.parent? 3 = some 0 := rfl
        rw [frameAt_succ isNested, frameAt_succ_none rfl] at reached
        cases reached
  obtain ⟨-, later, counted, walked, rebound⟩ :=
    (walk_agrees built 2 ⟨"a", .start⟩ 5).1 2 0 nearest
  refine ⟨built, nearest, ⟨later, counted, walked, rebound.seen 1 1 around, ?_⟩,
    ((walk_agrees built 3 ⟨"b", .start⟩ 5).2 nowhere).1⟩
  rw [rebound.unseen 3 "a" fun _ => aside]
  have own : sampleForest.local? 3 "a" = some 9 := rfl
  simp [get?, find?, own]

end Forest

/-! ### Global names -/

/-- Reading a global name is walking from the global frame. -/
theorem Run.readGlobal_eq (name : Ident) (machine : Machine) :
    readGlobal name machine =
      match Forest.lookUp Machine.globalFrame name machine.frames with
      | .ok value _ => .ok value machine
      | .error error _ => .error (.error error) machine := by
  simp only [readGlobal, Forest.lookUp]
  cases machine.frames.get? Machine.globalFrame name.text <;> rfl

/-- Writing a global name is walking from the global frame. -/
theorem Run.writeGlobal_eq (name : Ident) (value : Value) (machine : Machine) :
    writeGlobal name value machine =
      match Forest.reassign Machine.globalFrame name value machine.frames with
      | .ok () later => .ok () { machine with frames := later }
      | .error error _ => .error (.error error) machine := by
  simp only [writeGlobal, Forest.reassign, Forest.assign?]
  cases machine.frames.find? name.text Machine.globalFrame <;> rfl

end LoxLang
