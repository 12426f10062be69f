/-
Module: LoxLang.Proofs.Looping.Likeness
Purpose: Machines that run a program with `for` loops and what it stands for look alike.  The second
  one has more frames: each turn of a loop with an increment has one, in which nothing is ever
  declared.  Every other frame stands for one of the first machine, holds the same names with values
  that are alike, and is nested in it at a distance that counts the extra frames in between.
Main exports: Site, World, Closure.Alike, lowerings, Class.Alike, Value.Alike, Completion.Alike,
  Bindings.Alike, Machine.Alike, Machine.Alike.nest, Machine.Alike.turn, Machine.Alike.defining,
  Machine.Alike.frameAt
-/
import LoxLang.Proofs.Looping.Evaluation
import LoxLang.Proofs.Rewording.Heap

namespace LoxLang.Looping

/-! ### Values -/

/-- What a frame of the second machine stands for: a frame of the first one, and the scopes of code
that runs in it. -/
structure Site where
  frame : FrameId
  shape : Shape

/-- What each frame of the second machine stands for. -/
abbrev World := List Site

variable {world later : World}

/-- Functions that were declared in frames that correspond.  Between such a frame and the
declaration there may be scopes that have no frame yet. -/
structure Closure.Alike (world : World) (inner : Shape) (closure : Closure)
    (twin : LoxLang.Closure) : Prop where
  identity : twin.identity = closure.identity
  isInitializer : twin.isInitializer = closure.isInitializer
  declaration : ∃ shape, world[twin.frame]? = some ⟨closure.frame, shape⟩ ∧ Shape.Solid shape ∧
    LoweredFunction (inner ++ shape) closure.declaration twin.declaration

theorem World.keeps {id : FrameId} {site : Site} (grows : world <+: later)
    (here : world[id]? = some site) : later[id]? = some site := by
  obtain ⟨added, rfl⟩ := grows
  obtain ⟨inside, -⟩ := List.getElem?_eq_some_iff.1 here
  rw [List.getElem?_append_left inside, here]

/-- The frame that is created last is new, and all others are as before. -/
theorem World.of_concat {site other : Site} {id : FrameId}
    (here : (world ++ [site])[id]? = some other) :
    (id = world.length ∧ other = site) ∨ (id < world.length ∧ world[id]? = some other) := by
  obtain ⟨inside, found⟩ := List.getElem?_eq_some_iff.1 here
  rw [List.length_append, List.length_singleton] at inside
  rcases Nat.lt_or_eq_of_le (Nat.le_of_lt_succ inside) with older | isNew
  · rw [List.getElem?_append_left older] at here
    exact .inr ⟨older, here⟩
  · subst isNew
    rw [List.getElem?_concat_length] at here
    exact .inl ⟨rfl, (Option.some.inj here).symm⟩

/-- Frames that are created later change nothing. -/
theorem Closure.Alike.mono {inner : Shape} {closure : Closure} {twin : LoxLang.Closure}
    (similar : closure.Alike world inner twin) (grows : world <+: later) :
    closure.Alike later inner twin where
  identity := similar.identity
  isInitializer := similar.isInitializer
  declaration := by
    obtain ⟨shape, here, solid, lowered⟩ := similar.declaration
    exact ⟨shape, World.keeps grows here, solid, lowered⟩

/-! #### What can be seen of a function -/

theorem LoweredFunction.name {shape : Shape} {declaration : Function Distance}
    {twin : LoxLang.Function Distance} (lowered : LoweredFunction shape declaration twin) :
    twin.name = declaration.name := by
  cases lowered
  rfl

theorem LoweredFunction.parameters {shape : Shape} {declaration : Function Distance}
    {twin : LoxLang.Function Distance} (lowered : LoweredFunction shape declaration twin) :
    twin.parameters = declaration.parameters := by
  cases lowered
  rfl

theorem LoweredFunction.body {shape : Shape} {declaration : Function Distance}
    {twin : LoxLang.Function Distance} (lowered : LoweredFunction shape declaration twin) :
    LoweredAll (.own :: shape) declaration.body twin.body := by
  cases lowered with
  | mk name parameters lowered => exact lowered

theorem Closure.Alike.looksLike {inner : Shape} {closure : Closure} {twin : LoxLang.Closure}
    (similar : closure.Alike world inner twin) : closure.LooksLike twin where
  identity := similar.identity
  name := by
    obtain ⟨shape, -, -, lowered⟩ := similar.declaration
    exact congrArg Ident.text lowered.name
  arity := by
    obtain ⟨shape, -, -, lowered⟩ := similar.declaration
    exact congrArg List.length lowered.parameters

/-! #### Classes and values -/

variable (world) in
/-- The functions of a program with `for` loops that correspond to those of what it stands for.  A
method sees the object it is called on in a scope of its own. -/
def lowerings : Correspondence (Function Distance) (LoxLang.Function Distance) where
  functions := Closure.Alike world []
  methods := Closure.Alike world [.own]
  functionsLook := Closure.Alike.looksLike
  methodsLook := Closure.Alike.looksLike

theorem lowerings_within (grows : world <+: later) :
    (lowerings world).Within (lowerings later) where
  functions := fun similar => similar.mono grows
  methods := fun similar => similar.mono grows

/-- Classes that correspond if functions and what they stand for do. -/
abbrev Class.Alike (world : World) : Class → LoxLang.Class → Prop :=
  Class.Like (lowerings world)

/-- Values that a program and what it stands for cannot tell apart. -/
abbrev Value.Alike (world : World) : Value → LoxLang.Value → Prop :=
  Value.Like (lowerings world)

/-- Ways for a statement to end that cannot be told apart. -/
abbrev Completion.Alike (world : World) : Completion → LoxLang.Completion → Prop :=
  Completion.Like (lowerings world)

theorem Class.Alike.mono {cls : Class} {twin : LoxLang.Class} (similar : cls.Alike world twin)
    (grows : world <+: later) : cls.Alike later twin :=
  Class.Like.mono similar (lowerings_within grows)

theorem Value.Alike.mono {value : Value} {twin : LoxLang.Value}
    (similar : value.Alike world twin) (grows : world <+: later) : value.Alike later twin :=
  Value.Like.mono similar (lowerings_within grows)

/-! ### Names and their values -/

/-- Bindings of the same names in the same order to values that are alike. -/
abbrev Bindings.Alike (world : World) : Bindings Value → Bindings LoxLang.Value → Prop :=
  LoxLang.Bindings.Alike .keep (Value.Alike world)

theorem Bindings.Alike.mono {bindings : Bindings Value} {twin : Bindings LoxLang.Value}
    (similar : Bindings.Alike world bindings twin) (grows : world <+: later) :
    Bindings.Alike later bindings twin :=
  LoxLang.Bindings.Alike.mono similar fun _ _ alike => alike.mono grows

theorem Bindings.Alike.get? {bindings : Bindings Value} {twin : Bindings LoxLang.Value}
    (similar : Bindings.Alike world bindings twin) (name : String) :
    Option.Rel (Value.Alike world) (bindings.get? name) (twin.get? name) :=
  similar.values name

/-! ### Machines -/

/-- How the frames of a machine lie to those of the other: what a frame of the second machine is
nested in, given what it stands for. -/
def Placed (world : World) (forest : Forest Value) (twin : Forest LoxLang.Value) (id : FrameId)
    (site : Site) : Prop :=
  match site.shape with
  | [] => site.frame = Machine.globalFrame ∧ id = Machine.globalFrame ∧
      forest.parent? site.frame = none ∧ twin.parent? id = none
  | .own :: shape => ∃ outer outerTwin, forest.parent? site.frame = some outer ∧
      twin.parent? id = some outerTwin ∧ world[outerTwin]? = some ⟨outer, shape⟩
  | .extra :: shape => ∃ outerTwin, twin.parent? id = some outerTwin ∧
      world[outerTwin]? = some ⟨site.frame, shape⟩

/-- Machines that look alike.  Two frames of the second one never stand for the same frame, extra
ones apart. -/
structure Machine.Alike (world : World) (machine : Machine) (twin : LoxLang.Machine) : Prop where
  size : twin.frames.frames.size = world.length
  created : ∀ (id : FrameId) (site : Site), world[id]? = some site →
    site.frame < machine.frames.frames.size
  globals : world[Machine.globalFrame]? = some ⟨Machine.globalFrame, []⟩
  placed : ∀ (id : FrameId) (site : Site), world[id]? = some site →
    Placed world machine.frames twin.frames id site
  once : ∀ (id other : FrameId) (site siteToo : Site), world[id]? = some site →
    world[other]? = some siteToo → site.shape.Solid → siteToo.shape.Solid →
    site.frame = siteToo.frame → id = other
  bound : ∀ (id : FrameId) (site : Site), world[id]? = some site → site.shape.Solid →
    Bindings.Alike world (machine.frames.bindings site.frame) (twin.frames.bindings id)
  objects : twin.objects.size = machine.objects.size
  fields : ∀ id : Nat, Bindings.Alike world (machine.fields id) (twin.fields id)
  identities : twin.identities = machine.identities
  output : twin.output = machine.output
  clock : twin.clock = machine.clock
  readings : twin.readings = machine.readings

/-- A frame keeps its place when frames are added that are nested in others. -/
theorem Placed.keeps {forest laterForest : Forest Value} {twin laterTwin : Forest LoxLang.Value}
    {id : FrameId} {site : Site} (placed : Placed world forest twin id site)
    (grows : world <+: later)
    (parent : laterForest.parent? site.frame = forest.parent? site.frame)
    (parentTwin : laterTwin.parent? id = twin.parent? id) :
    Placed later laterForest laterTwin id site := by
  obtain ⟨frame, shape⟩ := site
  cases shape with
  | nil => exact ⟨placed.1, placed.2.1, parent.trans placed.2.2.1, parentTwin.trans placed.2.2.2⟩
  | cons layer shape =>
      cases layer with
      | own =>
          obtain ⟨outer, outerTwin, isParent, isParentTwin, there⟩ := placed
          exact ⟨outer, outerTwin, parent.trans isParent, parentTwin.trans isParentTwin,
            World.keeps grows there⟩
      | extra =>
          obtain ⟨outerTwin, isParentTwin, there⟩ := placed
          exact ⟨outerTwin, parentTwin.trans isParentTwin, World.keeps grows there⟩

namespace Machine.Alike

variable {machine : Machine} {twin : LoxLang.Machine} {id : FrameId} {site : Site}

theorem insideTwin (similar : machine.Alike world twin) (here : world[id]? = some site) :
    id < twin.frames.frames.size := by
  rw [similar.size]
  exact (List.getElem?_eq_some_iff.1 here).1

/-! #### Changing machines -/

/-- A scope begins in both machines. -/
theorem nest (similar : machine.Alike world twin) (here : world[id]? = some site) :
    Machine.Alike (world ++ [⟨machine.fresh, .own :: site.shape⟩]) (machine.nest site.frame)
      (twin.nest id) := by
  have grows : world <+: world ++ [⟨machine.fresh, .own :: site.shape⟩] := List.prefix_append ..
  have older : ∀ (other : FrameId) (siteToo : Site), world[other]? = some siteToo →
      siteToo.frame ≠ machine.fresh ∧ other ≠ twin.fresh :=
    fun other siteToo there => ⟨Nat.ne_of_lt (similar.created other siteToo there),
      Nat.ne_of_lt (similar.insideTwin there)⟩
  constructor
  case size => simp [Machine.nest, similar.size]
  case created =>
    intro other siteToo there
    rw [Machine.nest, Forest.size_alloc]
    rcases World.of_concat there with ⟨-, rfl⟩ | ⟨-, there⟩
    · exact Nat.lt_succ_self _
    · exact Nat.lt_succ_of_lt (similar.created other siteToo there)
  case globals => exact World.keeps grows similar.globals
  case placed =>
    intro other siteToo there
    rcases World.of_concat there with ⟨isNew, rfl⟩ | ⟨-, there⟩
    · refine ⟨site.frame, id, ?_, ?_, World.keeps grows here⟩
      · rw [Machine.nest, Forest.parent?_alloc]
        exact if_pos rfl
      · rw [Machine.nest, Forest.parent?_alloc, similar.size, if_pos isNew]
    · refine (similar.placed other siteToo there).keeps grows ?_ ?_
      · rw [Machine.nest, Forest.parent?_alloc]
        exact if_neg (older other siteToo there).1
      · rw [Machine.nest, Forest.parent?_alloc]
        exact if_neg (older other siteToo there).2
  case once =>
    intro first second siteFirst siteSecond isFirst isSecond solidFirst solidSecond sameFrame
    rcases World.of_concat isFirst with ⟨isNew, rfl⟩ | ⟨-, isFirst⟩
    · rcases World.of_concat isSecond with ⟨isNewToo, rfl⟩ | ⟨-, isSecond⟩
      · rw [isNew, isNewToo]
      · exact absurd sameFrame.symm (older second siteSecond isSecond).1
    · rcases World.of_concat isSecond with ⟨isNewToo, rfl⟩ | ⟨-, isSecond⟩
      · exact absurd sameFrame (older first siteFirst isFirst).1
      · exact similar.once first second siteFirst siteSecond isFirst isSecond solidFirst
          solidSecond sameFrame
  case bound =>
    intro other siteToo there solid
    rw [Machine.nest, Machine.nest, Forest.bindings_alloc, Forest.bindings_alloc]
    rcases World.of_concat there with ⟨isNew, rfl⟩ | ⟨-, there⟩
    · rw [isNew, ← similar.size, Machine.fresh, Forest.bindings_size, Forest.bindings_size]
      exact .empty
    · exact (similar.bound other siteToo there solid).mono grows
  case objects => exact similar.objects
  case fields => exact fun object => (similar.fields object).mono grows
  case identities => exact similar.identities
  case output => exact similar.output
  case clock => exact similar.clock
  case readings => exact similar.readings

/-- A turn of a loop begins: only the second machine has a frame for it. -/
theorem turn (similar : machine.Alike world twin) (here : world[id]? = some site) :
    machine.Alike (world ++ [⟨site.frame, .extra :: site.shape⟩]) (twin.nest id) := by
  have grows : world <+: world ++ [⟨site.frame, .extra :: site.shape⟩] := List.prefix_append ..
  constructor
  case size => simp [Machine.nest, similar.size]
  case created =>
    intro other siteToo there
    rcases World.of_concat there with ⟨-, rfl⟩ | ⟨-, there⟩
    · exact similar.created id site here
    · exact similar.created other siteToo there
  case globals => exact World.keeps grows similar.globals
  case placed =>
    intro other siteToo there
    rcases World.of_concat there with ⟨isNew, rfl⟩ | ⟨-, there⟩
    · refine ⟨id, ?_, World.keeps grows here⟩
      rw [Machine.nest, Forest.parent?_alloc, similar.size, if_pos isNew]
    · refine (similar.placed other siteToo there).keeps grows rfl ?_
      rw [Machine.nest, Forest.parent?_alloc,
        if_neg (Nat.ne_of_lt (similar.insideTwin there))]
  case once =>
    intro first second siteFirst siteSecond isFirst isSecond solidFirst solidSecond sameFrame
    rcases World.of_concat isFirst with ⟨-, rfl⟩ | ⟨-, isFirst⟩
    · exact solidFirst.elim
    · rcases World.of_concat isSecond with ⟨-, rfl⟩ | ⟨-, isSecond⟩
      · exact solidSecond.elim
      · exact similar.once first second siteFirst siteSecond isFirst isSecond solidFirst
          solidSecond sameFrame
  case bound =>
    intro other siteToo there solid
    rw [Machine.nest, Forest.bindings_alloc]
    rcases World.of_concat there with ⟨-, rfl⟩ | ⟨-, there⟩
    · exact solid.elim
    · exact (similar.bound other siteToo there solid).mono grows
  case objects => exact similar.objects
  case fields => exact fun object => (similar.fields object).mono grows
  case identities => exact similar.identities
  case output => exact similar.output
  case clock => exact similar.clock
  case readings => exact similar.readings

/-- A variable gets a value in frames that correspond. -/
theorem defining (similar : machine.Alike world twin) (here : world[id]? = some site)
    (solid : site.shape.Solid) (name : String) {value : Value} {other : LoxLang.Value}
    (alike : value.Alike world other) :
    Machine.Alike world (machine.defining site.frame name value) (twin.defining id name other) :=
  { similar with
    size := by simp [Machine.defining, similar.size]
    created := by
      intro frame siteToo there
      rw [Machine.defining, Forest.size_define]
      exact similar.created frame siteToo there
    placed := by
      intro frame siteToo there
      exact (similar.placed frame siteToo there).keeps (List.prefix_refl _)
        (Forest.parent?_define ..) (Forest.parent?_define ..)
    bound := by
      intro frame siteToo there solidToo
      rw [Machine.defining, Machine.defining, Forest.bindings_define, Forest.bindings_define]
      have inside := similar.created id site here
      have insideTwin := similar.insideTwin here
      by_cases same : site.frame = siteToo.frame
      · obtain rfl := similar.once id frame site siteToo here there solid solidToo same
        rw [if_pos ⟨same, inside⟩, if_pos ⟨rfl, insideTwin⟩]
        exact (similar.bound id site here solid).set name alike
      · have different : id ≠ frame := by
          rintro rfl
          exact same (congrArg Site.frame (Option.some.inj (here.symm.trans there)))
        rw [if_neg fun both => same both.1, if_neg fun both => different both.1]
        exact similar.bound frame siteToo there solidToo }

theorem withObject (similar : machine.Alike world twin) :
    Machine.Alike world machine.withObject twin.withObject :=
  { similar with
    objects := by simp [Machine.withObject, similar.objects]
    fields := by
      intro id
      rw [Machine.fields_withObject, Machine.fields_withObject]
      exact similar.fields id }

theorem settingField (similar : machine.Alike world twin) (id : Nat) (name : String)
    {value : Value} {other : LoxLang.Value} (alike : value.Alike world other) :
    Machine.Alike world
      { machine with objects := machine.objects.modify id fun fields => fields.set name value }
      { twin with objects := twin.objects.modify id fun fields => fields.set name other } :=
  { similar with
    objects := by simp [similar.objects]
    fields := by
      intro object
      have before := similar.fields object
      simp only [Machine.fields, fields_modify, similar.objects] at before ⊢
      split
      · exact LoxLang.Bindings.Alike.set before name alike
      · exact before }

/-! #### Looking at machines -/

/-- Frames at a distance: the second machine passes through the extra frames in between. -/
theorem frameAt (similar : machine.Alike world twin) {frame : FrameId} {shape : Shape}
    (here : world[id]? = some ⟨frame, shape⟩) (distance : Nat) :
    (∃ fault, machine.frames.frameAt frame distance = .error fault ∧
      twin.frames.frameAt id (shape.shift distance) = .error fault) ∨
    ∃ owner ownerTwin around, machine.frames.frameAt frame distance = .ok owner ∧
      twin.frames.frameAt id (shape.shift distance) = .ok ownerTwin ∧
      world[ownerTwin]? = some ⟨owner, around⟩ ∧ around.Solid := by
  induction shape generalizing id frame distance with
  | nil =>
      obtain ⟨-, -, outermost, outermostTwin⟩ := similar.placed id _ here
      cases distance with
      | zero => exact .inr ⟨frame, id, [], rfl, rfl, here, trivial⟩
      | succ distance =>
          exact .inl ⟨.pastOutermost, Forest.frameAt_succ_none outermost distance,
            Forest.frameAt_succ_none outermostTwin distance⟩
  | cons layer shape ih =>
      cases layer with
      | own =>
          obtain ⟨outer, outerTwin, isParent, isParentTwin, there⟩ := similar.placed id _ here
          cases distance with
          | zero => exact .inr ⟨frame, id, .own :: shape, rfl, rfl, here, trivial⟩
          | succ distance =>
              rw [Shape.shift, Forest.frameAt_succ isParent, Forest.frameAt_succ isParentTwin]
              exact ih there distance
      | extra =>
          obtain ⟨outerTwin, isParentTwin, there⟩ := similar.placed id _ here
          rw [Shape.shift, Forest.frameAt_succ isParentTwin]
          exact ih there distance

/-- Local variables of frames that correspond have values that are alike. -/
theorem local? (similar : machine.Alike world twin) (here : world[id]? = some site)
    (solid : site.shape.Solid) (name : String) :
    Option.Rel (Value.Alike world) (machine.frames.local? site.frame name)
      (twin.frames.local? id name) := by
  rw [Forest.local?_eq_get?, Forest.local?_eq_get?]
  exact (similar.bound id site here solid).get? name

/-- Nothing is around the global variables. -/
theorem outermost (similar : machine.Alike world twin) :
    machine.frames.parent? Machine.globalFrame = none ∧
      twin.frames.parent? Machine.globalFrame = none :=
  (similar.placed _ _ similar.globals).2.2

/-- Global variables have values that are alike. -/
theorem global? (similar : machine.Alike world twin) (name : String) :
    Option.Rel (Value.Alike world) (machine.frames.get? Machine.globalFrame name)
      (twin.frames.get? Machine.globalFrame name) := by
  rw [Forest.get?_of_parent?_eq_none similar.outermost.1,
    Forest.get?_of_parent?_eq_none similar.outermost.2]
  exact similar.local? similar.globals trivial name

/-- Whether a global variable is bound is the same. -/
theorem find? (similar : machine.Alike world twin) (name : String) :
    twin.frames.find? name Machine.globalFrame =
      machine.frames.find? name Machine.globalFrame := by
  rw [Forest.find?_of_parent?_eq_none similar.outermost.1,
    Forest.find?_of_parent?_eq_none similar.outermost.2]
  rcases both_or_neither (similar.local? similar.globals trivial name) with
    ⟨missing, alsoMissing⟩ | ⟨value, other, found, alsoFound, -⟩
  · rw [missing, alsoMissing]
    rfl
  · rw [found, alsoFound]
    rfl

end Machine.Alike

end LoxLang.Looping
