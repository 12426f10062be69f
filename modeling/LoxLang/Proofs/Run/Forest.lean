/-
Module: LoxLang.Proofs.Run.Forest
Purpose: How frames change over time.  Frames are only added, the frame a frame is nested in never
  changes, and a name that has been bound in a frame stays bound there; so the way outwards from a
  frame is the same for ever.  The fields of objects are kept next to the frames.
Main exports: Forest.Extends, Forest.Nested, Forest.frameAt_succ, Forest.frameAt_add,
  Forest.Nested.find?_eq_some, Forest.Extends.frameAt, fields_push, fields_modify
-/
import LoxLang.Heap.Forest

namespace LoxLang

namespace Forest

variable {α : Type}

/-! ### Views of one step -/

@[simp] theorem size_define (forest : Forest α) (id : FrameId) (name : String) (value : α) :
    (forest.define id name value).frames.size = forest.frames.size := by
  simp [define]

@[simp] theorem parent?_define (forest : Forest α) (id other : FrameId) (name : String)
    (value : α) : (forest.define id name value).parent? other = forest.parent? other := by
  simp only [parent?, define, Array.getElem?_modify]
  by_cases same : id = other
  · subst same
    cases forest.frames[id]? <;> simp
  · simp [same]

theorem local?_define (forest : Forest α) (id other : FrameId) (name word : String) (value : α) :
    (forest.define id name value).local? other word =
      if id = other ∧ name = word ∧ id < forest.frames.size then some value
      else forest.local? other word := by
  simp only [local?, define, Array.getElem?_modify]
  by_cases same : id = other
  · subst same
    by_cases inside : id < forest.frames.size
    · simp only [Array.getElem?_eq_getElem inside, ↓reduceIte, Option.map_some, Bindings.get?_set,
        inside, and_true, true_and]
    · simp [inside]
  · simp [same]

@[simp] theorem size_alloc (forest : Forest α) (parent : Option FrameId) :
    (forest.alloc parent).2.frames.size = forest.frames.size + 1 := by
  simp [alloc]

@[simp] theorem id_alloc (forest : Forest α) (parent : Option FrameId) :
    (forest.alloc parent).1 = forest.frames.size :=
  rfl

theorem parent?_alloc (forest : Forest α) (parent : Option FrameId) (id : FrameId) :
    (forest.alloc parent).2.parent? id =
      if id = forest.frames.size then parent else forest.parent? id := by
  simp only [parent?, alloc, Array.getElem?_push]
  by_cases isNew : id = forest.frames.size <;> simp [isNew]

theorem local?_alloc (forest : Forest α) (parent : Option FrameId) (id : FrameId)
    (name : String) : (forest.alloc parent).2.local? id name = forest.local? id name := by
  simp only [local?, alloc, Array.getElem?_push]
  by_cases isNew : id = forest.frames.size
  · simp [isNew, Bindings.get?, Bindings.empty, Bindings.find?]
  · simp [isNew]

/-- Nothing is bound in a frame that has not been created. -/
theorem bindings_size (forest : Forest α) : forest.bindings forest.frames.size = .empty := by
  simp [bindings]

/-- A frame that has not been created holds nothing. -/
theorem local?_size (forest : Forest α) (name : String) :
    forest.local? forest.frames.size name = none := by
  simp [local?]

theorem local?_eq_get? (forest : Forest α) (id : FrameId) (name : String) :
    forest.local? id name = (forest.bindings id).get? name := by
  rw [local?, bindings]
  cases forest.frames[id]? <;> rfl

theorem bindings_define (forest : Forest α) (id other : FrameId) (name : String) (value : α) :
    (forest.define id name value).bindings other =
      if id = other ∧ id < forest.frames.size then (forest.bindings id).set name value
      else forest.bindings other := by
  simp only [bindings, define, Array.getElem?_modify]
  by_cases same : id = other
  · subst same
    by_cases inside : id < forest.frames.size
    · simp [inside]
    · simp [inside]
  · simp [same]

theorem bindings_alloc (forest : Forest α) (parent : Option FrameId) (id : FrameId) :
    (forest.alloc parent).2.bindings id = forest.bindings id := by
  simp only [bindings, alloc, Array.getElem?_push]
  by_cases isNew : id = forest.frames.size <;> simp [isNew]

theorem lt_size_of_parent? {forest : Forest α} {id parent : FrameId}
    (nested : forest.parent? id = some parent) : id < forest.frames.size := by
  by_cases inside : id < forest.frames.size
  · exact inside
  · simp [parent?, Array.getElem?_eq_none (Nat.le_of_not_lt inside)] at nested

/-! ### Walking outwards -/

@[simp] theorem frameAt_zero (forest : Forest α) (id : FrameId) : forest.frameAt id 0 = .ok id :=
  rfl

/-- One more step outwards leads to where the frame is nested in. -/
theorem frameAt_succ {forest : Forest α} {id parent : FrameId}
    (nested : forest.parent? id = some parent) (distance : Nat) :
    forest.frameAt id (distance + 1) = forest.frameAt parent distance := by
  simp only [frameAt, ancestor, climb, nested]

theorem frameAt_succ_none {forest : Forest α} {id : FrameId} (outermost : forest.parent? id = none)
    (distance : Nat) : forest.frameAt id (distance + 1) = .error .pastOutermost := by
  cases distance <;> simp only [frameAt, ancestor, climb, outermost]

theorem frameAt_succ_eq_ok {forest : Forest α} {id found : FrameId} {distance : Nat} :
    forest.frameAt id (distance + 1) = .ok found ↔
      ∃ parent, forest.parent? id = some parent ∧ forest.frameAt parent distance = .ok found := by
  cases isNested : forest.parent? id with
  | none => simp [frameAt_succ_none isNested]
  | some parent => simp [frameAt_succ isNested]

/-- Walking on from where a walk has led. -/
theorem frameAt_add {forest : Forest α} {id middle : FrameId} {first : Nat}
    (reached : forest.frameAt id first = .ok middle) (second : Nat) :
    forest.frameAt id (first + second) = forest.frameAt middle second := by
  induction first generalizing id with
  | zero =>
      cases reached
      rw [Nat.zero_add]
  | succ first ih =>
      obtain ⟨parent, isNested, onwards⟩ := frameAt_succ_eq_ok.1 reached
      rw [Nat.add_right_comm, frameAt_succ isNested]
      exact ih onwards

theorem getAt_of_frameAt {forest : Forest α} {id found : FrameId} {distance : Nat} {name : String}
    {value : α} (reached : forest.frameAt id distance = .ok found)
    (bound : forest.local? found name = some value) :
    forest.getAt id distance name = .ok value := by
  simp only [getAt, reached, bound]

theorem getAt_eq_ok {forest : Forest α} {id : FrameId} {distance : Nat} {name : String}
    {value : α} (found : forest.getAt id distance name = .ok value) :
    ∃ owner, forest.frameAt id distance = .ok owner ∧ forest.local? owner name = some value := by
  unfold getAt at found
  cases reached : forest.frameAt id distance with
  | error fault =>
      rw [reached] at found
      cases found
  | ok owner =>
      rw [reached] at found
      cases bound : forest.local? owner name with
      | none => simp [bound] at found
      | some stored =>
          simp only [bound, Except.ok.injEq] at found
          exact ⟨owner, rfl, found ▸ bound⟩

/-- From the outermost frame a name is looked for there only. -/
theorem find?_of_parent?_eq_none {forest : Forest α} {id : FrameId}
    (outermost : forest.parent? id = none) (name : String) :
    forest.find? name id = if (forest.local? id name).isSome then some id else none := by
  rw [find?, outermost]

theorem get?_of_parent?_eq_none {forest : Forest α} {id : FrameId}
    (outermost : forest.parent? id = none) (name : String) :
    forest.get? id name = forest.local? id name := by
  rw [get?, find?_of_parent?_eq_none outermost]
  cases bound : forest.local? id name with
  | none => simp
  | some value => simp [bound]

/-- A walk passes through every shorter one. -/
theorem frameAt_of_le {forest : Forest α} {id found : FrameId} {distance nearer : Nat}
    (reached : forest.frameAt id distance = .ok found) (isNearer : nearer ≤ distance) :
    ∃ between, forest.frameAt id nearer = .ok between := by
  induction distance generalizing id nearer with
  | zero =>
      cases Nat.le_zero.1 isNearer
      exact ⟨id, rfl⟩
  | succ distance ih =>
      cases nearer with
      | zero => exact ⟨id, rfl⟩
      | succ nearer =>
          obtain ⟨parent, isNested, onwards⟩ := frameAt_succ_eq_ok.1 reached
          rw [frameAt_succ isNested]
          exact ih onwards (Nat.le_of_succ_le_succ isNearer)

/-! ### Growing -/

/-- Whether every frame was created after the one it is nested in. -/
def Nested (forest : Forest α) : Prop :=
  ∀ id parent, forest.parent? id = some parent → parent < id

/-- A name is found in the nearest frame that binds it. -/
theorem Nested.find?_eq_some {forest : Forest α} (nested : forest.Nested) {name : String}
    {id owner : FrameId} :
    forest.find? name id = some owner ↔
      ∃ distance, forest.frameAt id distance = .ok owner ∧ (forest.local? owner name).isSome ∧
        ∀ nearer < distance, ∀ between, forest.frameAt id nearer = .ok between →
          forest.local? between name = none := by
  induction id using Nat.strongRecOn with
  | ind id ih =>
      rw [find?]
      cases bound : forest.local? id name with
      | some value =>
          simp only [Option.isSome_some, ↓reduceIte, Option.some.injEq]
          constructor
          · rintro rfl
            exact ⟨0, rfl, by rw [bound]; rfl, fun nearer less => absurd less (Nat.not_lt_zero _)⟩
          · rintro ⟨distance, reached, -, unbound⟩
            cases distance with
            | zero => exact Except.ok.inj reached
            | succ distance =>
                rw [unbound 0 (Nat.succ_pos distance) id rfl] at bound
                cases bound
      | none =>
          simp only [Option.isSome_none, Bool.false_eq_true, ↓reduceIte]
          cases isNested : forest.parent? id with
          | none =>
              constructor
              · intro found
                cases found
              · rintro ⟨distance, reached, isBound, -⟩
                cases distance with
                | zero =>
                    cases reached
                    rw [bound] at isBound
                    cases isBound
                | succ distance =>
                    rw [frameAt_succ_none isNested] at reached
                    cases reached
          | some parent =>
              have older := nested id parent isNested
              simp only [older, ↓reduceIte, ih parent older]
              constructor
              · rintro ⟨distance, reached, isBound, unbound⟩
                refine ⟨distance + 1, by rw [frameAt_succ isNested, reached], isBound, ?_⟩
                intro nearer less between found
                cases nearer with
                | zero =>
                    cases found
                    exact bound
                | succ nearer =>
                    rw [frameAt_succ isNested] at found
                    exact unbound nearer (Nat.lt_of_succ_lt_succ less) between found
              · rintro ⟨distance, reached, isBound, unbound⟩
                cases distance with
                | zero =>
                    cases reached
                    rw [bound] at isBound
                    cases isBound
                | succ distance =>
                    rw [frameAt_succ isNested] at reached
                    refine ⟨distance, reached, isBound, ?_⟩
                    intro nearer less between found
                    exact unbound (nearer + 1) (Nat.succ_lt_succ less) between
                      (by rw [frameAt_succ isNested, found])

/-- Whether a forest is a later state of another one. -/
structure Extends (forest later : Forest α) : Prop where
  grows : forest.frames.size ≤ later.frames.size
  parents : ∀ id, id < forest.frames.size → later.parent? id = forest.parent? id
  keeps : ∀ id name, (forest.local? id name).isSome → (later.local? id name).isSome

theorem Nested.define {forest : Forest α} (nested : forest.Nested) (id : FrameId) (name : String)
    (value : α) : (forest.define id name value).Nested := by
  intro other parent found
  rw [parent?_define] at found
  exact nested other parent found

theorem Nested.alloc {forest : Forest α} (nested : forest.Nested) {parent : FrameId}
    (inside : parent < forest.frames.size) : (forest.alloc (some parent)).2.Nested := by
  intro id other found
  rw [parent?_alloc] at found
  by_cases isNew : id = forest.frames.size
  · rw [if_pos isNew] at found
    cases found
    rw [isNew]
    exact inside
  · rw [if_neg isNew] at found
    exact nested id other found

/-- Walking outwards leads to earlier frames. -/
theorem Nested.frameAt_le {forest : Forest α} (nested : forest.Nested) {id found : FrameId}
    {distance : Nat} (reached : forest.frameAt id distance = .ok found) : found ≤ id := by
  induction distance generalizing id with
  | zero =>
      cases reached
      exact Nat.le_refl _
  | succ distance ih =>
      obtain ⟨parent, isNested, onwards⟩ := frameAt_succ_eq_ok.1 reached
      exact Nat.le_trans (ih onwards) (Nat.le_of_lt (nested id parent isNested))

namespace Extends

variable {forest middle later : Forest α}

theorem refl (forest : Forest α) : forest.Extends forest where
  grows := Nat.le_refl _
  parents := fun _ _ => rfl
  keeps := fun _ _ bound => bound

theorem trans (first : forest.Extends middle) (second : middle.Extends later) :
    forest.Extends later where
  grows := Nat.le_trans first.grows second.grows
  parents := by
    intro id inside
    rw [second.parents id (Nat.lt_of_lt_of_le inside first.grows), first.parents id inside]
  keeps := fun id name bound => second.keeps id name (first.keeps id name bound)

theorem define (forest : Forest α) (id : FrameId) (name : String) (value : α) :
    forest.Extends (forest.define id name value) where
  grows := by simp
  parents := fun _ _ => parent?_define ..
  keeps := by
    intro other word bound
    rw [local?_define]
    split
    · rfl
    · exact bound

theorem alloc (forest : Forest α) (parent : Option FrameId) :
    forest.Extends (forest.alloc parent).2 where
  grows := by simp
  parents := by
    intro id inside
    rw [parent?_alloc, if_neg (Nat.ne_of_lt inside)]
  keeps := by
    intro id name bound
    rw [local?_alloc]
    exact bound

/-- The way outwards from a frame does not change. -/
theorem frameAt (extends' : forest.Extends later) (nested : forest.Nested) {id : FrameId}
    (inside : id < forest.frames.size) (distance : Nat) :
    later.frameAt id distance = forest.frameAt id distance := by
  induction distance generalizing id with
  | zero => rfl
  | succ distance ih =>
      have same := extends'.parents id inside
      cases isNested : forest.parent? id with
      | none =>
          rw [isNested] at same
          rw [frameAt_succ_none isNested, frameAt_succ_none same]
      | some parent =>
          rw [isNested] at same
          rw [frameAt_succ isNested, frameAt_succ same]
          exact ih (Nat.lt_trans (nested id parent isNested) inside)

end Extends

end Forest

/-! ### Fields of objects -/

section Fields

variable {α : Type}

/-- An object that has just been created has no fields, and neither has one that does not exist. -/
theorem fields_push (objects : Array (Bindings α)) (id : Nat) :
    (objects.push .empty)[id]?.getD .empty = objects[id]?.getD .empty := by
  rw [Array.getElem?_push]
  split
  next isNew => simp [isNew]
  next => rfl

/-- Setting a field changes that field of that object and nothing else. -/
theorem fields_modify (objects : Array (Bindings α)) (id other : Nat) (name : String) (value : α) :
    (objects.modify id fun fields => fields.set name value)[other]?.getD .empty =
      if id = other ∧ id < objects.size then (objects[other]?.getD .empty).set name value
      else objects[other]?.getD .empty := by
  rw [Array.getElem?_modify]
  by_cases same : id = other
  · subst same
    by_cases inside : id < objects.size
    · simp [inside]
    · simp [inside]
  · simp [same]

end Fields

end LoxLang
