/-
Module: LoxLang.Proofs.Run.Inventory
Purpose: What there is in a machine.  Frames are nested in older frames down to the globals, classes
  inherit from older classes, and whatever a value refers to has been created.  Every single step
  keeps it so, and nothing that a step finds is ever taken away.
Main exports: Class.Listed, Value.Listed, Machine.WellFormed, Account.inventory,
  Forest.find?_nearest, Machine.Retains, Machine.Becomes.retains
-/
import LoxLang.Proofs.Run.Discipline
import LoxLang.Proofs.Run.Order

namespace LoxLang

/-! ### Well-formed machines -/

/-- A class that has been created: it inherits from older classes, and its methods and those that it
inherits captured frames that there are. -/
structure Class.Listed (machine : Machine) (cls : Class) : Prop where
  counted : ∀ member ∈ cls.lineage, member.identity < machine.identities
  older : cls.lineage.Pairwise fun nearer further => further.identity < nearer.identity
  methods : ∀ member ∈ cls.lineage, ∀ name method, member.methods.get? name = some method →
    method.frame < machine.fresh

/-- Whether everything that a value refers to has been created. -/
def Value.Listed (machine : Machine) : Value → Prop
  | .function closure => closure.frame < machine.fresh
  | .class_ cls => cls.Listed machine
  | .object id cls => id < machine.objects.size ∧ cls.Listed machine
  | .nil | .bool _ | .number _ | .string _ | .native _ => True

/-- What holds of a machine at every moment. -/
structure Machine.WellFormed (machine : Machine) : Prop where
  /-- There is a global frame, and it is nested in no other. -/
  root : 0 < machine.fresh ∧ machine.frames.parent? Machine.globalFrame = none
  /-- Every other frame is nested in an older one. -/
  nested : ∀ id, 0 < id → id < machine.fresh →
    ∃ parent, machine.frames.parent? id = some parent ∧ parent < id
  current : machine.frame < machine.fresh
  bound : ∀ id name value, machine.frames.local? id name = some value → value.Listed machine
  fields : ∀ id name value, (machine.fields id).get? name = some value → value.Listed machine

theorem Class.Listed.grows {machine later : Machine} {cls : Class} (listed : cls.Listed machine)
    (grows : machine.Grows later) : cls.Listed later where
  counted := fun member inLineage =>
    Nat.lt_of_lt_of_le (listed.counted member inLineage) grows.identities
  older := listed.older
  methods := fun member inLineage name method found =>
    Nat.lt_of_lt_of_le (listed.methods member inLineage name method found) grows.frames

theorem Value.Listed.grows {machine later : Machine} {value : Value}
    (listed : value.Listed machine) (grows : machine.Grows later) : value.Listed later := by
  cases value with
  | function closure => exact Nat.lt_of_lt_of_le listed grows.frames
  | class_ cls => exact Class.Listed.grows listed grows
  | object id cls => exact ⟨Nat.lt_of_lt_of_le listed.1 grows.objects, listed.2.grows grows⟩
  | _ => trivial

theorem Class.Listed.method {machine : Machine} {cls : Class} (listed : cls.Listed machine)
    {name : String} {method : Closure} (found : cls.findMethod? name = some method) :
    method.frame < machine.fresh := by
  rw [Class.findMethod?_eq] at found
  obtain ⟨member, inLineage, own⟩ := List.exists_of_findSome?_eq_some found
  exact listed.methods member inLineage name method own

/-- A class is listed if it is newer than its superclass and its own methods are where they should
be. -/
theorem Class.Listed.of_parts {machine : Machine} {identity : Nat} {name : String}
    {superclass : Option Class} {table : Bindings Closure} (counted : identity < machine.identities)
    (own : ∀ word method, table.get? word = some method → method.frame < machine.fresh)
    (inherited : ∀ cls ∈ superclass, cls.Listed machine ∧
      ∀ member ∈ cls.lineage, member.identity < identity) :
    (Class.mk identity name superclass table).Listed machine := by
  cases superclass with
  | none =>
      refine ⟨?_, List.pairwise_singleton _ _, ?_⟩
      · intro member inLineage
        cases List.mem_singleton.1 inLineage
        exact counted
      · intro member inLineage
        cases List.mem_singleton.1 inLineage
        exact own
  | some cls =>
      obtain ⟨listed, below⟩ := inherited cls rfl
      refine ⟨?_, List.pairwise_cons.2 ⟨below, listed.older⟩, ?_⟩
      · exact List.forall_mem_cons.2 ⟨counted, listed.counted⟩
      · exact List.forall_mem_cons.2 ⟨own, listed.methods⟩

namespace Machine

namespace WellFormed

variable {machine : Machine} (formed : machine.WellFormed)

include formed

theorem move {id : FrameId} (inside : id < machine.fresh) : (machine.inFrame id).WellFormed where
  root := formed.root
  nested := formed.nested
  current := inside
  bound := fun owner name value found =>
    (formed.bound owner name value found).grows (machine.grows_inFrame id)
  fields := fun owner name value found =>
    (formed.fields owner name value found).grows (machine.grows_inFrame id)

theorem count {identities : Nat} (output : Array String) (readings : Nat)
    (more : machine.identities ≤ identities) :
    WellFormed
      { machine with identities := identities, output := output, readings := readings } where
  root := formed.root
  nested := formed.nested
  current := formed.current
  bound := fun id name value found =>
    (formed.bound id name value found).grows (machine.resumes_count output readings more).grows
  fields := fun id name value found =>
    (formed.fields id name value found).grows (machine.resumes_count output readings more).grows

theorem nest {parent : FrameId} (inside : parent < machine.fresh) :
    (machine.nest parent).WellFormed where
  root := by
    refine ⟨by simp [Machine.fresh, Machine.nest], ?_⟩
    have old : Machine.globalFrame ≠ machine.frames.frames.size := Nat.ne_of_lt formed.root.1
    simp only [Machine.nest, Forest.parent?_alloc, if_neg old]
    exact formed.root.2
  nested := by
    intro id positive isFrame
    simp only [Machine.nest, Forest.parent?_alloc]
    by_cases isNew : id = machine.frames.frames.size
    · rw [if_pos isNew]
      exact ⟨parent, rfl, isNew ▸ inside⟩
    · rw [if_neg isNew]
      simp only [Machine.fresh, Machine.nest, Forest.size_alloc] at isFrame
      exact formed.nested id positive (Nat.lt_of_le_of_ne (Nat.le_of_lt_succ isFrame) isNew)
  current := Nat.lt_of_lt_of_le formed.current (machine.resumes_nest parent).grows.frames
  bound := by
    intro id name value found
    simp only [Machine.nest, Forest.local?_alloc] at found
    exact (formed.bound id name value found).grows (machine.resumes_nest parent).grows
  fields := fun id name value found =>
    (formed.fields id name value found).grows (machine.resumes_nest parent).grows

theorem define {value : Value} (id : FrameId) (name : String) (listed : value.Listed machine) :
    (machine.defining id name value).WellFormed where
  root := by simpa [Machine.fresh, Machine.defining] using formed.root
  nested := by simpa [Machine.fresh, Machine.defining] using formed.nested
  current := by simpa [Machine.fresh, Machine.defining] using formed.current
  bound := by
    intro owner word other found
    have grows := (machine.resumes_defining id name value).grows
    simp only [Machine.defining, Forest.local?_define] at found
    split at found
    · cases found
      exact listed.grows grows
    · exact (formed.bound owner word other found).grows grows
  fields := fun owner word other found =>
    (formed.fields owner word other found).grows (machine.resumes_defining id name value).grows

theorem create : machine.withObject.WellFormed where
  root := formed.root
  nested := formed.nested
  current := formed.current
  bound := fun id name value found =>
    (formed.bound id name value found).grows machine.resumes_withObject.grows
  fields := by
    intro id name value found
    rw [Machine.fields_withObject] at found
    exact (formed.fields id name value found).grows machine.resumes_withObject.grows

theorem setField {value : Value} (id : Nat) (name : String) (listed : value.Listed machine) :
    WellFormed
      { machine with
        objects := machine.objects.modify id fun fields => fields.set name value } where
  root := formed.root
  nested := formed.nested
  current := formed.current
  bound := fun owner word other found =>
    (formed.bound owner word other found).grows (machine.resumes_setField id name value).grows
  fields := by
    intro owner word other found
    have grows := (machine.resumes_setField id name value).grows
    simp only [Machine.fields, fields_modify] at found
    split at found
    · rw [Bindings.get?_set] at found
      split at found
      · cases found
        exact listed.grows grows
      · exact (formed.fields owner word other found).grows grows
    · exact (formed.fields owner word other found).grows grows

/-- The frame of the methods of a class. -/
theorem methodSpace {superclass : Option Class}
    (listed : ∀ cls ∈ superclass, cls.Listed machine) :
    (machine.methodSpace superclass).WellFormed ∧
      machine.methodFrame superclass < (machine.methodSpace superclass).fresh := by
  cases superclass with
  | none => exact ⟨formed, formed.current⟩
  | some cls =>
      have listedThen : Value.Listed (machine.nest machine.frame) (.class_ cls) :=
        (listed cls rfl).grows (machine.resumes_nest machine.frame).grows
      refine ⟨(formed.nest formed.current).define machine.fresh "super" listedThen, ?_⟩
      simp [Machine.methodFrame, Machine.methodSpace, Machine.fresh, Machine.defining,
        Machine.nest]

/-- A class that is declared is newer than its superclass. -/
theorem declareClass {superclass : Option Class} (name : Ident)
    (methods : List (Function Distance)) (listed : ∀ cls ∈ superclass, cls.Listed machine) :
    (Run.last (Run.newClass name superclass methods machine)).WellFormed := by
  obtain ⟨table, identity, identities, ⟨above, below⟩, made, origin⟩ :=
    Run.newClass_spec name superclass methods machine
  obtain ⟨spaceFormed, isFrame⟩ := formed.methodSpace listed
  let space := machine.methodSpace superclass
  have more : space.identities ≤ identities := by
    rw [identities_methodSpace]
    exact Nat.le_of_lt (Nat.lt_of_le_of_lt above below)
  have grows := (machine.resumes_methodSpace superclass).grows.trans
    (space.resumes_count space.output space.readings more).grows
  have classListed : (Class.mk identity name.text superclass table).Listed
      { space with identities := identities } := by
    apply Class.Listed.of_parts below
    · intro word method found
      rw [(origin word method found).2]
      exact isFrame
    · intro cls isSuperclass
      refine ⟨(listed cls isSuperclass).grows grows, ?_⟩
      intro member inLineage
      exact Nat.lt_of_lt_of_le ((listed cls isSuperclass).counted member inLineage) above
  rw [made]
  exact (spaceFormed.count space.output space.readings more).define
    machine.frame name.text classListed

end WellFormed

theorem wellFormed_initial (clock : Nat → Float) : (Machine.initial clock).WellFormed where
  root := ⟨Nat.zero_lt_one, rfl⟩
  nested := fun id positive inside => absurd inside (Nat.not_lt.2 positive)
  current := Nat.zero_lt_one
  bound := by
    intro id name value found
    rw [(Machine.local?_initial found).2]
    trivial
  fields := by
    intro id name value found
    simp [Machine.fields, Machine.initial, Bindings.get?, Bindings.empty, Bindings.find?] at found

end Machine

/-- The account of what has been created. -/
def Account.inventory : Account where
  holds machine := machine.WellFormed
  frame machine id := id < machine.fresh
  value machine value := value.Listed machine
  frame_grows grows inside := Nat.lt_of_lt_of_le inside grows.frames
  value_grows grows listed := listed.grows grows
  plain machine value isPlain := by
    cases value <;> trivial
  function := Iff.rfl
  object listed := listed.2
  method listed found := listed.method found
  current formed := formed.current
  stored formed found := formed.bound _ _ _ found
  field formed found := formed.fields _ _ _ found
  move formed inside := formed.move inside
  count output readings formed more := formed.count output readings more
  nest formed inside := ⟨formed.nest inside, by simp [Machine.fresh, Machine.nest]⟩
  define id name formed listed := formed.define id name listed
  create formed listed :=
    ⟨formed.create, by simp [Machine.withObject], listed.grows (Machine.resumes_withObject _).grows⟩
  setField id name formed listed := formed.setField id name listed
  declareClass name methods formed listed := formed.declareClass name methods listed

namespace Machine.WellFormed

variable {machine : Machine} (formed : machine.WellFormed)

include formed

theorem forest_nested : machine.frames.Nested := by
  intro id parent link
  have inside : id < machine.fresh := Forest.lt_size_of_parent? link
  cases Nat.eq_zero_or_pos id with
  | inl isGlobal =>
      have outermost : machine.frames.parent? id = none := isGlobal ▸ formed.root.2
      rw [outermost] at link
      cases link
  | inr positive =>
      obtain ⟨other, isParent, older⟩ := formed.nested id positive inside
      cases link.symm.trans isParent
      exact older

/-- The way outwards from a frame is finite and ends at the globals. -/
theorem chain {id : FrameId} (inside : id < machine.fresh) :
    ∃ depth, machine.frames.frameAt id depth = .ok Machine.globalFrame ∧
      ∀ distance, (∃ found, machine.frames.frameAt id distance = .ok found) ↔ distance ≤ depth := by
  have reaches : ∃ depth, machine.frames.frameAt id depth = .ok Machine.globalFrame := by
    induction id using Nat.strongRecOn with
    | ind id ih =>
        cases Nat.eq_zero_or_pos id with
        | inl isGlobal => exact ⟨0, congrArg Except.ok isGlobal⟩
        | inr positive =>
            obtain ⟨parent, link, older⟩ := formed.nested id positive inside
            obtain ⟨depth, reached⟩ := ih parent older (Nat.lt_trans older inside)
            exact ⟨depth + 1, by rw [Forest.frameAt_succ link, reached]⟩
  obtain ⟨depth, reached⟩ := reaches
  refine ⟨depth, reached, fun distance => ⟨?_, Forest.frameAt_of_le reached⟩⟩
  rintro ⟨found, isFound⟩
  apply Nat.le_of_not_lt
  intro further
  obtain ⟨more, isSum⟩ := Nat.exists_eq_add_of_lt further
  rw [isSum, Nat.add_assoc, Forest.frameAt_add reached,
    Forest.frameAt_succ_none formed.root.2] at isFound
  cases isFound

end Machine.WellFormed

/-! ### What is never taken away -/

namespace Machine

/-- Nothing that was in a machine is gone from a later one: frames are nested as they were, names
stay bound and fields stay there. -/
structure Retains (machine later : Machine) : Prop where
  grows : machine.Grows later
  parents : ∀ id, id < machine.fresh → later.frames.parent? id = machine.frames.parent? id
  names : ∀ id name, (machine.frames.local? id name).isSome → (later.frames.local? id name).isSome
  fields : ∀ id name, ((machine.fields id).get? name).isSome → ((later.fields id).get? name).isSome

/-- What a change does to the fields of objects. -/
theorem Change.fields {machine later : Machine} (change : Change machine later) (id : Nat)
    (name : String) (isField : ((machine.fields id).get? name).isSome) :
    ((later.fields id).get? name).isSome := by
  cases change with
  | create =>
      rw [Machine.fields_withObject]
      exact isField
  | setField owner word value =>
      simp only [Machine.fields, fields_modify]
      split
      · rw [Bindings.get?_set]
        split
        · rfl
        · exact isField
      · exact isField
  | _ => exact isField

theorem Change.grows {machine later : Machine} (change : Change machine later) :
    machine.Grows later := by
  cases change with
  | move frame => exact machine.grows_inFrame frame
  | print line => exact (machine.resumes_count _ machine.readings (Nat.le_refl _)).grows
  | handOut => exact (machine.resumes_count #[] machine.readings (Nat.le_refl _)).grows
  | readClock => exact (machine.resumes_count machine.output _ (Nat.le_refl _)).grows
  | count more => exact (machine.resumes_count machine.output machine.readings more).grows
  | nest parent => exact (machine.resumes_nest parent).grows
  | bind isVariable => exact (machine.resumes_defining _ _ _).grows
  | receive method receiver => exact (machine.resumes_withReceiver method receiver).grows
  | inherit cls => exact (machine.resumes_methodSpace (some cls)).grows
  | create => exact machine.resumes_withObject.grows
  | setField id name value => exact (machine.resumes_setField id name value).grows

theorem Retains.refl (machine : Machine) : machine.Retains machine :=
  ⟨.refl machine, fun _ _ => rfl, fun _ _ bound => bound, fun _ _ isField => isField⟩

theorem Retains.trans {machine middle later : Machine} (first : machine.Retains middle)
    (second : middle.Retains later) : machine.Retains later where
  grows := first.grows.trans second.grows
  parents := by
    intro id inside
    rw [second.parents id (Nat.lt_of_lt_of_le inside first.grows.frames), first.parents id inside]
  names := fun id name bound => second.names id name (first.names id name bound)
  fields := fun id name isField => second.fields id name (first.fields id name isField)

theorem Change.retains {machine later : Machine} (change : Change machine later) :
    machine.Retains later where
  grows := change.grows
  parents := change.preserves.frames.parents
  names := change.preserves.frames.keeps
  fields := change.fields

theorem Becomes.retains {machine later : Machine} (becomes : machine.Becomes later) :
    machine.Retains later := by
  induction becomes with
  | refl => exact .refl machine
  | tail _ change ih => exact ih.trans change.retains

end Machine

end LoxLang
