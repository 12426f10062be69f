/-
Module: LoxLang.Proofs.Run.Heap
Purpose: What holds of every machine between two steps.  Every function kept anywhere stands in a
  chain of frames that mirrors the scopes around its declaration, wherever `this` is bound it is an
  object, and wherever `super` is bound it is a class.
Main exports: Closure.Valid, Closure.ValidMethod, Class.lineage, Class.Valid, Value.Valid, HeapSound,
  HeapSound.define, HeapSound.nest, HeapSound.initial
-/
import LoxLang.Proofs.Run.Mirror

namespace LoxLang

/-! ### Values -/

/-- Whether a function stands where its declaration stands: the frame it captured mirrors the
scopes around it.  The frame of an initializer holds the object that it sets up. -/
def Closure.Valid (visited : Task → Prop) (accepted : Place → Prop) (forest : Forest Value)
    (closure : Closure) : Prop :=
  ∃ layers created, Made visited closure created ∧ created.Extends forest ∧
    Mirrors visited forest layers closure.frame ∧
    Throughout accepted (Stmt.placesFunction layers closure.declaration) ∧
    (closure.isInitializer = true → (forest.local? closure.frame "this").isSome)

/-- Whether a method stands where its declaration stands, but for the scope of `this`, which has no
frame until the method is looked up. -/
def Closure.ValidMethod (visited : Task → Prop) (accepted : Place → Prop)
    (forest : Forest Value) (method : Closure) : Prop :=
  ∃ name methods layers created, MethodMade visited name methods method created ∧
    created.Extends forest ∧ Mirrors visited forest layers method.frame ∧
    Throughout accepted (Stmt.placesFunction (.ofReceiver name methods :: layers)
      method.declaration)

/-- A class and the classes that it inherits from, nearest first. -/
def Class.lineage : Class → List Class
  | .mk identity name none methods => [.mk identity name none methods]
  | .mk identity name (some superclass) methods =>
      .mk identity name (some superclass) methods :: superclass.lineage

/-- Whether a class and the classes that it inherits from were declared, and their methods are
where they should be. -/
def Class.Valid (visited : Task → Prop) (accepted : Place → Prop) (forest : Forest Value)
    (cls : Class) : Prop :=
  ∀ member ∈ cls.lineage, member.Created visited ∧
    ∀ name method, member.methods.get? name = some method →
      method.ValidMethod visited accepted forest

/-- Whether all functions in a value are where they should be. -/
def Value.Valid (visited : Task → Prop) (accepted : Place → Prop) (forest : Forest Value) :
    Value → Prop
  | .function closure => closure.Valid visited accepted forest
  | .class_ cls => cls.Valid visited accepted forest
  | .object _ cls => cls.Valid visited accepted forest
  | .nil | .bool _ | .number _ | .string _ | .native _ => True

/-- Whether a value is an object. -/
def Value.IsObject (value : Value) : Prop :=
  ∃ id cls, value = .object id cls

/-- Whether a value is a class. -/
def Value.IsClass (value : Value) : Prop :=
  ∃ cls, value = .class_ cls

variable {visited : Task → Prop} {accepted : Place → Prop} {forest later : Forest Value}

theorem Closure.Valid.mono {closure : Closure} (valid : closure.Valid visited accepted forest)
    (extends' : forest.Extends later) : closure.Valid visited accepted later := by
  rcases valid with ⟨layers, created, made, before, mirrors, within', holdsObject⟩
  refine ⟨layers, created, made, before.trans extends', mirrors.mono extends', within', ?_⟩
  intro isInitializer
  exact extends'.keeps _ _ (holdsObject isInitializer)

theorem Closure.ValidMethod.mono {method : Closure}
    (valid : method.ValidMethod visited accepted forest) (extends' : forest.Extends later) :
    method.ValidMethod visited accepted later := by
  rcases valid with ⟨name, methods, layers, created, made, before, mirrors, within'⟩
  exact ⟨name, methods, layers, created, made, before.trans extends', mirrors.mono extends',
    within'⟩

theorem Class.Valid.mono {cls : Class} (valid : cls.Valid visited accepted forest)
    (extends' : forest.Extends later) : cls.Valid visited accepted later :=
  fun member inLineage => ⟨(valid member inLineage).1, fun name method found =>
    ((valid member inLineage).2 name method found).mono extends'⟩

theorem Value.Valid.mono {value : Value} (valid : value.Valid visited accepted forest)
    (extends' : forest.Extends later) : value.Valid visited accepted later := by
  cases value with
  | function closure => exact Closure.Valid.mono valid extends'
  | class_ cls => exact Class.Valid.mono valid extends'
  | object id cls => exact Class.Valid.mono valid extends'
  | _ => trivial

/-- A method is that of the nearest class that has it. -/
theorem Class.findMethod?_eq (cls : Class) (name : String) :
    cls.findMethod? name = cls.lineage.findSome? fun member => member.methods.get? name := by
  match cls with
  | .mk identity word none methods =>
      simp only [findMethod?, lineage, List.findSome?_cons, List.findSome?_nil, Class.methods]
      cases methods.get? name <;> rfl
  | .mk identity word (some superclass) methods =>
      simp only [findMethod?, lineage, List.findSome?_cons, Class.methods]
      cases methods.get? name with
      | none => exact superclass.findMethod?_eq name
      | some method => rfl

theorem Class.Valid.method {cls : Class} (valid : cls.Valid visited accepted forest)
    {name : String} {method : Closure} (found : cls.findMethod? name = some method) :
    method.ValidMethod visited accepted forest := by
  rw [Class.findMethod?_eq] at found
  obtain ⟨member, inLineage, own⟩ := List.exists_of_findSome?_eq_some found
  exact (valid member inLineage).2 name method own

/-- A class is as good as its own methods and its superclass. -/
theorem Class.Valid.mk {identity : Nat} {name : String} {superclass : Option Class}
    {table : Bindings Closure}
    (created : (Class.mk identity name superclass table).Created visited)
    (own : ∀ word method, table.get? word = some method →
      method.ValidMethod visited accepted forest)
    (inherited : ∀ cls ∈ superclass, cls.Valid visited accepted forest) :
    (Class.mk identity name superclass table).Valid visited accepted forest := by
  intro member inLineage
  cases superclass with
  | none =>
      cases List.mem_singleton.1 inLineage
      exact ⟨created, own⟩
  | some cls =>
      cases List.mem_cons.1 inLineage with
      | inl same =>
          subst same
          exact ⟨created, own⟩
      | inr later => exact inherited cls rfl member later

/-! ### Heaps -/

/-- What holds of the frames and the fields of objects between two steps. -/
structure HeapSound (visited : Task → Prop) (accepted : Place → Prop) (forest : Forest Value)
    (objects : Array (Bindings Value)) : Prop where
  /-- There is a global frame, and it is nested in no other. -/
  root : 0 < forest.frames.size ∧ forest.parent? Machine.globalFrame = none
  nested : forest.Nested
  stored : ∀ id name value, forest.local? id name = some value →
    value.Valid visited accepted forest
  receivers : ∀ id value, forest.local? id "this" = some value → value.IsObject
  superclasses : ∀ id value, forest.local? id "super" = some value → value.IsClass
  fields : ∀ (id : Nat) (name : String) (value : Value),
    (objects[id]?.getD Bindings.empty).get? name = some value → value.Valid visited accepted forest

/-- All that is bound in a machine that has run nothing is the clock. -/
theorem Machine.local?_initial {clock : Nat → Float} {id : FrameId} {name : String} {value : Value}
    (found : (Machine.initial clock).frames.local? id name = some value) :
    name = "clock" ∧ value = .native .clock := by
  have views : (Machine.initial clock).frames =
      ((Forest.empty : Forest Value).alloc none).2.define 0 "clock" (.native .clock) := rfl
  rw [views, Forest.local?_define] at found
  split at found
  next isNew =>
    cases found
    exact ⟨isNew.2.1.symm, rfl⟩
  next =>
    rw [Forest.local?_alloc] at found
    simp [Forest.local?, Forest.empty] at found

theorem Machine.parent?_initial (clock : Nat → Float) (id : FrameId) :
    (Machine.initial clock : Machine).frames.parent? id = none := by
  have views : (Machine.initial clock).frames =
      ((Forest.empty : Forest Value).alloc none).2.define 0 "clock" (.native .clock) := rfl
  rw [views, Forest.parent?_define, Forest.parent?_alloc]
  split
  · rfl
  · simp [Forest.parent?, Forest.empty]

namespace HeapSound

variable {objects : Array (Bindings Value)}

/-- Binding a name to a value that is valid from then on. -/
theorem define (heap : HeapSound visited accepted forest objects) {frame : FrameId}
    {name : String} {value : Value}
    (valid : value.Valid visited accepted (forest.define frame name value))
    (receiver : name = "this" → value.IsObject) (superclass : name = "super" → value.IsClass) :
    HeapSound visited accepted (forest.define frame name value) objects where
  root := by simpa using heap.root
  nested := heap.nested.define frame name value
  stored := by
    intro id word other found
    rw [Forest.local?_define] at found
    split at found
    · cases found
      exact valid
    · exact (heap.stored id word other found).mono (.define ..)
  receivers := by
    intro id other found
    rw [Forest.local?_define] at found
    split at found
    next isNew =>
      cases found
      exact receiver isNew.2.1
    next => exact heap.receivers id other found
  superclasses := by
    intro id other found
    rw [Forest.local?_define] at found
    split at found
    next isNew =>
      cases found
      exact superclass isNew.2.1
    next => exact heap.superclasses id other found
  fields := fun id word other found => (heap.fields id word other found).mono (.define ..)

/-- Binding a name that no keyword has to a value that is valid from then on. -/
theorem declare (heap : HeapSound visited accepted forest objects) {frame : FrameId}
    {name : Ident} {value : Value}
    (valid : value.Valid visited accepted (forest.define frame name.text value))
    (unreserved : name.Unreserved) :
    HeapSound visited accepted (forest.define frame name.text value) objects := by
  apply heap.define valid
  · intro isThis
    exact absurd isThis unreserved.1
  · intro isSuper
    exact absurd isSuper unreserved.2

theorem assign (heap : HeapSound visited accepted forest objects) {frame : FrameId}
    {name : Ident} {value : Value} (valid : value.Valid visited accepted forest)
    (unreserved : name.Unreserved) :
    HeapSound visited accepted (forest.define frame name.text value) objects :=
  heap.declare (valid.mono (.define ..)) unreserved

/-- Creating a frame. -/
theorem nest (heap : HeapSound visited accepted forest objects) {parent : FrameId}
    (inside : parent < forest.frames.size) :
    HeapSound visited accepted (forest.alloc (some parent)).2 objects where
  root := by
    constructor
    · simp
    · have old : Machine.globalFrame ≠ forest.frames.size := Nat.ne_of_lt heap.root.1
      rw [Forest.parent?_alloc, if_neg old]
      exact heap.root.2
  nested := heap.nested.alloc inside
  stored := by
    intro id name value found
    rw [Forest.local?_alloc] at found
    exact (heap.stored id name value found).mono (.alloc ..)
  receivers := by
    intro id value found
    rw [Forest.local?_alloc] at found
    exact heap.receivers id value found
  superclasses := by
    intro id value found
    rw [Forest.local?_alloc] at found
    exact heap.superclasses id value found
  fields := fun id name value found => (heap.fields id name value found).mono (.alloc ..)

/-- Creating an object, which has no fields yet. -/
theorem addObject (heap : HeapSound visited accepted forest objects) :
    HeapSound visited accepted forest (objects.push .empty) where
  root := heap.root
  nested := heap.nested
  stored := heap.stored
  receivers := heap.receivers
  superclasses := heap.superclasses
  fields := by
    intro id name value found
    rw [fields_push] at found
    exact heap.fields id name value found

/-- Giving a field a valid value. -/
theorem setField (heap : HeapSound visited accepted forest objects) {id : Nat} {name : String}
    {value : Value} (valid : value.Valid visited accepted forest) :
    HeapSound visited accepted forest (objects.modify id fun fields => fields.set name value) where
  root := heap.root
  nested := heap.nested
  stored := heap.stored
  receivers := heap.receivers
  superclasses := heap.superclasses
  fields := by
    intro other word stored found
    rw [fields_modify] at found
    split at found
    · rw [Bindings.get?_set] at found
      split at found
      · cases found
        exact valid
      · exact heap.fields other word stored found
    · exact heap.fields other word stored found

/-- A machine that has run nothing. -/
theorem initial (clock : Nat → Float) :
    HeapSound visited accepted (Machine.initial clock).frames (Machine.initial clock).objects := by
  constructor
  · exact ⟨Nat.zero_lt_one, rfl⟩
  · intro id parent link
    rw [Machine.parent?_initial] at link
    cases link
  · intro id name value found
    rw [(Machine.local?_initial found).2]
    trivial
  · intro id value found
    exact absurd (Machine.local?_initial found).1 (by decide)
  · intro id value found
    exact absurd (Machine.local?_initial found).1 (by decide)
  · intro id name value found
    simp [Machine.initial, Bindings.get?, Bindings.empty, Bindings.find?] at found

end HeapSound

end LoxLang
