/-
Module: LoxLang.Proofs.Rewording.Heap
Purpose: Machines that run a program and its rewording look alike.  They hold the same values in
  the same places; only the names of renamed variables differ, and functions have the bodies that
  belong to their own program.
Main exports: Wording, Closure.Alike, rewordings, Class.Alike, Value.Alike, Bindings.Alike,
  Machine.Alike, Machine.Alike.nest, Machine.Alike.defining, Machine.Alike.frameAt
-/
import LoxLang.Proofs.Rewording.Scope
import LoxLang.Proofs.Run.Likeness
import LoxLang.Proofs.Run.Task
import Mathlib.Data.List.Basic

namespace LoxLang

/-! ### Values -/

/-- For each frame, how the scopes that it and the frames around it stand for rename their
variables, innermost first. -/
abbrev Wording := List (List Renaming)

/-- A rewording moves places to lines that correspond to theirs. -/
def Rewording.Follows (lines : Nat → Nat → Prop) (change : Rewording) : Prop :=
  ∀ position : Position, lines position.line (change.move position).line

/-- A function and what a consistent rewording makes of it. -/
def Function.Alike (lines : Nat → Nat → Prop) (scopes : List Renaming)
    (declaration twin : Function Distance) : Prop :=
  ∃ vocabulary change, change.Follows lines ∧
    Stmt.ConsistentFunction vocabulary change scopes declaration ∧
    twin = Stmt.rewordFunction change declaration

/-- Functions that see the same frame and have declarations alike.  Between that frame and the
declaration there may be scopes that have no frame yet. -/
structure Closure.Alike (lines : Nat → Nat → Prop) (wording : Wording) (inner : List Renaming)
    (closure twin : Closure) : Prop where
  identity : twin.identity = closure.identity
  frame : twin.frame = closure.frame
  isInitializer : twin.isInitializer = closure.isInitializer
  declaration : ∃ scopes, wording[closure.frame]? = some scopes ∧
    Function.Alike lines (inner ++ scopes) closure.declaration twin.declaration

section Values

variable {lines : Nat → Nat → Prop} {wording later : Wording}

theorem Wording.keeps {id : FrameId} {scopes : List Renaming} (grows : wording <+: later)
    (here : wording[id]? = some scopes) : later[id]? = some scopes := by
  obtain ⟨added, rfl⟩ := grows
  obtain ⟨inside, -⟩ := List.getElem?_eq_some_iff.1 here
  rw [List.getElem?_append_left inside, here]

/-- A frame that is created last is the last of the wording. -/
theorem Wording.getElem?_concat (wording : Wording) (scopes : List Renaming) (id : FrameId) :
    (wording ++ [scopes])[id]? =
      if id = wording.length then some scopes else wording[id]? := by
  by_cases isNew : id = wording.length
  · rw [if_pos isNew, isNew, List.getElem?_concat_length]
  · rw [if_neg isNew]
    by_cases inside : id < wording.length
    · rw [List.getElem?_append_left inside]
    · have beyond : wording.length + 1 ≤ id :=
        Nat.lt_of_le_of_ne (Nat.le_of_not_lt inside) (Ne.symm isNew)
      rw [List.getElem?_eq_none (by simpa using beyond),
        List.getElem?_eq_none (Nat.le_of_not_lt inside)]

/-- Frames that are created later change nothing. -/
theorem Closure.Alike.mono {inner : List Renaming} {closure twin : Closure}
    (similar : closure.Alike lines wording inner twin) (grows : wording <+: later) :
    closure.Alike lines later inner twin where
  identity := similar.identity
  frame := similar.frame
  isInitializer := similar.isInitializer
  declaration := by
    obtain ⟨scopes, here, declaration⟩ := similar.declaration
    exact ⟨scopes, Wording.keeps grows here, declaration⟩

/-! #### What can be seen of a function -/

theorem Function.Alike.name {scopes : List Renaming} {declaration twin : Function Distance}
    (similar : declaration.Alike lines scopes twin) :
    twin.name.text = declaration.name.text := by
  obtain ⟨vocabulary, change, -, consistent, rfl⟩ := similar
  cases declaration with
  | mk name parameters body => exact consistent.1

theorem Function.Alike.parameters {scopes : List Renaming} {declaration twin : Function Distance}
    (similar : declaration.Alike lines scopes twin) :
    twin.parameters.length = declaration.parameters.length := by
  obtain ⟨vocabulary, change, -, -, rfl⟩ := similar
  cases declaration with
  | mk name parameters body => exact List.length_map ..

theorem Closure.Alike.looksLike {inner : List Renaming} {closure twin : Closure}
    (similar : closure.Alike lines wording inner twin) : closure.LooksLike twin where
  identity := similar.identity
  name := by
    obtain ⟨scopes, -, declaration⟩ := similar.declaration
    exact declaration.name
  arity := by
    obtain ⟨scopes, -, declaration⟩ := similar.declaration
    exact declaration.parameters

/-! #### Classes and values -/

variable (lines wording) in
/-- The functions of a program and of its rewording that correspond.  A method sees the object it
is called on in a scope of its own, in which nothing is renamed. -/
def rewordings : Correspondence (Function Distance) (Function Distance) where
  functions := Closure.Alike lines wording []
  methods := Closure.Alike lines wording [.keep]
  functionsLook := Closure.Alike.looksLike
  methodsLook := Closure.Alike.looksLike

theorem rewordings_within (grows : wording <+: later) :
    (rewordings lines wording).Within (rewordings lines later) where
  functions := fun similar => similar.mono grows
  methods := fun similar => similar.mono grows

/-- Classes that correspond if functions and their rewordings do. -/
abbrev Class.Alike (lines : Nat → Nat → Prop) (wording : Wording) : Class → Class → Prop :=
  Class.Like (rewordings lines wording)

/-- Values that a program and its rewording cannot tell apart. -/
abbrev Value.Alike (lines : Nat → Nat → Prop) (wording : Wording) : Value → Value → Prop :=
  Value.Like (rewordings lines wording)

theorem Class.Alike.mono {cls twin : Class} (similar : cls.Alike lines wording twin)
    (grows : wording <+: later) : cls.Alike lines later twin :=
  Class.Like.mono similar (rewordings_within grows)

theorem Value.Alike.mono {value twin : Value} (similar : value.Alike lines wording twin)
    (grows : wording <+: later) : value.Alike lines later twin :=
  Value.Like.mono similar (rewordings_within grows)

end Values

/-! ### Names and their values -/

section Names

variable {α β : Type}

/-- Bindings in which renamed names have values that correspond, in the same order. -/
structure Bindings.Alike (own : Renaming) (good : α → β → Prop) (bindings : Bindings α)
    (twin : Bindings β) : Prop where
  names : twin.names = bindings.names.map own.rename
  values : ∀ name, Option.Rel good (bindings.get? name) (twin.get? (own.rename name))

namespace Bindings.Alike

variable {own : Renaming} {good goal : α → β → Prop} {bindings : Bindings α} {twin : Bindings β}

theorem empty : Bindings.Alike own good .empty .empty :=
  ⟨rfl, fun _ => .none⟩

theorem set (similar : bindings.Alike own good twin) (name : String) {value : α} {other : β}
    (alike : good value other) :
    (bindings.set name value).Alike own good (twin.set (own.rename name) other) where
  names := by
    have sameNames : own.rename name ∈ twin.names ↔ name ∈ bindings.names := by
      rw [similar.names, List.mem_map_of_injective own.injective]
    rw [names_set, names_set]
    by_cases known : name ∈ bindings.names
    · rw [if_pos known, if_pos (sameNames.2 known), similar.names]
    · rw [if_neg known, if_neg (mt sameNames.1 known), similar.names, List.map_append,
        List.map_singleton]
  values := by
    intro word
    rw [get?_set, get?_set]
    by_cases same : name = word
    · rw [if_pos same, if_pos (congrArg own.rename same)]
      exact .some alike
    · rw [if_neg same, if_neg (mt own.rename_inj.1 same)]
      exact similar.values word

theorem mono (similar : bindings.Alike own good twin)
    (weaker : ∀ value other, good value other → goal value other) :
    bindings.Alike own goal twin where
  names := similar.names
  values := fun word => optionRel_mono (similar.values word) weaker

end Bindings.Alike

end Names

/-! ### Machines -/

/-- Machines that run code of corresponding places.  What the second one printed earlier is not
known to the first. -/
structure Machine.Alike (lines : Nat → Nat → Prop) (printed : Array String) (wording : Wording)
    (machine twin : Machine) : Prop where
  size : machine.frames.frames.size = wording.length
  sizeTwin : twin.frames.frames.size = wording.length
  parents : ∀ id, twin.frames.parent? id = machine.frames.parent? id
  outermost : machine.frames.parent? globalFrame = none
  globals : wording[globalFrame]? = some []
  nested : ∀ id parent scopes, machine.frames.parent? id = some parent →
    wording[id]? = some scopes → wording[parent]? = some scopes.tail
  bound : ∀ id scopes, wording[id]? = some scopes →
    (machine.frames.bindings id).Alike (innermost scopes) (Value.Alike lines wording)
      (twin.frames.bindings id)
  objects : twin.objects.size = machine.objects.size
  fields : ∀ id, (machine.fields id).Alike .keep (Value.Alike lines wording) (twin.fields id)
  frame : twin.frame = machine.frame
  identities : twin.identities = machine.identities
  clock : twin.clock = machine.clock
  readings : twin.readings = machine.readings
  output : twin.output = printed ++ machine.output

namespace Machine.Alike

variable {lines : Nat → Nat → Prop} {printed : Array String} {wording : Wording}
  {machine twin : Machine} {scopes : List Renaming} {id : FrameId}

/-- A new frame gets the same number. -/
theorem fresh (similar : machine.Alike lines printed wording twin) :
    twin.fresh = machine.fresh := by
  rw [Machine.fresh, Machine.fresh, similar.sizeTwin, similar.size]

theorem inside (similar : machine.Alike lines printed wording twin)
    (here : wording[id]? = some scopes) : id < machine.frames.frames.size := by
  rw [similar.size]
  exact (List.getElem?_eq_some_iff.1 here).1

theorem insideTwin (similar : machine.Alike lines printed wording twin)
    (here : wording[id]? = some scopes) : id < twin.frames.frames.size := by
  rw [similar.sizeTwin]
  exact (List.getElem?_eq_some_iff.1 here).1

/-! #### Changing machines -/

/-- A scope begins: its frame renames as the scope does. -/
theorem nest (similar : machine.Alike lines printed wording twin)
    (here : wording[id]? = some scopes) (own : Renaming) :
    (machine.nest id).Alike lines printed (wording ++ [own :: scopes]) (twin.nest id) := by
  have grows : wording <+: wording ++ [own :: scopes] := List.prefix_append ..
  have old := similar.inside here
  constructor
  · simp [Machine.nest, similar.size]
  · simp [Machine.nest, similar.sizeTwin]
  · intro other
    simp only [Machine.nest, Forest.parent?_alloc, similar.size, similar.sizeTwin,
      similar.parents]
  · have first := similar.inside similar.globals
    simp only [Machine.nest, Forest.parent?_alloc, Nat.ne_of_lt first, ↓reduceIte,
      similar.outermost]
  · exact Wording.keeps grows similar.globals
  · intro other parent outer isNested around
    rw [Wording.getElem?_concat] at around
    simp only [Machine.nest, Forest.parent?_alloc, similar.size] at isNested
    by_cases isNew : other = wording.length
    · rw [if_pos isNew] at isNested around
      cases isNested
      cases around
      exact Wording.keeps grows here
    · rw [if_neg isNew] at isNested around
      exact Wording.keeps grows (similar.nested other parent outer isNested around)
  · intro other outer around
    rw [Wording.getElem?_concat] at around
    simp only [Machine.nest, Forest.bindings_alloc]
    by_cases isNew : other = wording.length
    · have empty : ∀ forest : Forest Value, forest.frames.size = wording.length →
          forest.bindings other = .empty := by
        intro forest size
        rw [isNew, ← size, Forest.bindings_size]
      rw [empty _ similar.size, empty _ similar.sizeTwin]
      exact .empty
    · rw [if_neg isNew] at around
      exact (similar.bound other outer around).mono fun _ _ alike => alike.mono grows
  · exact similar.objects
  · intro object
    exact (similar.fields object).mono fun _ _ alike => alike.mono grows
  · exact similar.frame
  · exact similar.identities
  · exact similar.clock
  · exact similar.readings
  · exact similar.output

/-- A variable gets a value: in the other program the variable has its new name. -/
theorem defining (similar : machine.Alike lines printed wording twin)
    (here : wording[id]? = some scopes) (name : String) {value other : Value}
    (alike : value.Alike lines wording other) :
    (machine.defining id name value).Alike lines printed wording
      (twin.defining id ((innermost scopes).rename name) other) where
  size := by simp [Machine.defining, similar.size]
  sizeTwin := by simp [Machine.defining, similar.sizeTwin]
  parents := by
    intro frame
    simp only [Machine.defining, Forest.parent?_define, similar.parents]
  outermost := by simp only [Machine.defining, Forest.parent?_define, similar.outermost]
  globals := similar.globals
  nested := by
    intro frame parent outer isNested around
    rw [Machine.defining, Forest.parent?_define] at isNested
    exact similar.nested frame parent outer isNested around
  bound := by
    intro frame outer around
    simp only [Machine.defining, Forest.bindings_define, similar.inside here,
      similar.insideTwin here, and_true]
    by_cases same : id = frame
    · subst same
      rw [here] at around
      cases around
      rw [if_pos rfl, if_pos rfl]
      exact (similar.bound id scopes here).set name alike
    · rw [if_neg same, if_neg same]
      exact similar.bound frame outer around
  objects := similar.objects
  fields := similar.fields
  frame := similar.frame
  identities := similar.identities
  clock := similar.clock
  readings := similar.readings
  output := similar.output

/-- A variable that is not renamed gets a value. -/
theorem definingKept (similar : machine.Alike lines printed wording twin)
    (here : wording[id]? = some scopes) {name : String}
    (kept : (innermost scopes).rename name = name) {value other : Value}
    (alike : value.Alike lines wording other) :
    (machine.defining id name value).Alike lines printed wording
      (twin.defining id name other) := by
  have defined := similar.defining here name alike
  rw [kept] at defined
  exact defined

/-- The parameters of a function get values. -/
theorem definingAll {vocabulary : Vocabulary} {change : Rewording} {own : Renaming}
    (similar : machine.Alike lines printed wording twin)
    (here : wording[id]? = some (own :: scopes)) {names : List Ident}
    (declares : ∀ name ∈ names, name.Declares vocabulary change [own])
    {values others : List Value}
    (alike : List.Forall₂ (Value.Alike lines wording) values others) :
    (machine.definingAll id names values).Alike lines printed wording
      (twin.definingAll id (names.map (Ident.reword change)) others) := by
  induction names generalizing values others machine twin with
  | nil => exact similar
  | cons name names ih =>
      cases alike with
      | nil => exact similar
      | cons first rest =>
          have defined := similar.defining here name.text first
          have renames : change.word name = (innermost (own :: scopes)).rename name.text :=
            (declares name List.mem_cons_self).2
          rw [← renames] at defined
          exact ih defined (fun other member => declares other (List.mem_cons_of_mem name member))
            rest

/-- Code of another frame goes on. -/
theorem inFrame (similar : machine.Alike lines printed wording twin) (frame : FrameId) :
    (machine.inFrame frame).Alike lines printed wording (twin.inFrame frame) :=
  { similar with frame := rfl }

theorem withObject (similar : machine.Alike lines printed wording twin) :
    machine.withObject.Alike lines printed wording twin.withObject :=
  { similar with
    objects := by simp [Machine.withObject, similar.objects]
    fields := by
      intro id
      rw [Machine.fields_withObject, Machine.fields_withObject]
      exact similar.fields id }

theorem settingField (similar : machine.Alike lines printed wording twin) (id : Nat)
    (name : String) {value other : Value} (alike : value.Alike lines wording other) :
    Machine.Alike lines printed wording
      { machine with objects := machine.objects.modify id fun fields => fields.set name value }
      { twin with objects := twin.objects.modify id fun fields => fields.set name other } :=
  { similar with
    objects := by simp [similar.objects]
    fields := by
      intro object
      have before := similar.fields object
      simp only [Machine.fields, fields_modify, similar.objects] at before ⊢
      split
      · exact Bindings.Alike.set before name alike
      · exact before }

theorem printing (similar : machine.Alike lines printed wording twin) (line : String) :
    Machine.Alike lines printed wording { machine with output := machine.output.push line }
      { twin with output := twin.output.push line } :=
  { similar with output := by rw [similar.output, Array.push_append] }

theorem readingClock (similar : machine.Alike lines printed wording twin) :
    Machine.Alike lines printed wording { machine with readings := machine.readings + 1 }
      { twin with readings := twin.readings + 1 } :=
  { similar with readings := by rw [similar.readings] }

theorem counting (similar : machine.Alike lines printed wording twin) :
    Machine.Alike lines printed wording { machine with identities := machine.identities + 1 }
      { twin with identities := twin.identities + 1 } :=
  { similar with identities := by rw [similar.identities] }

/-! #### Looking at machines -/

/-- Frames at a distance are the same, and rename as the scope at that distance does. -/
theorem frameAt (similar : machine.Alike lines printed wording twin)
    (here : wording[id]? = some scopes) (distance : Nat) :
    twin.frames.frameAt id distance = machine.frames.frameAt id distance ∧
      ∀ owner, machine.frames.frameAt id distance = .ok owner →
        wording[owner]? = some (scopes.drop distance) := by
  induction distance generalizing id scopes with
  | zero =>
      refine ⟨rfl, ?_⟩
      rintro owner ⟨⟩
      exact here
  | succ distance ih =>
      have same := similar.parents id
      cases isNested : machine.frames.parent? id with
      | none =>
          rw [isNested] at same
          rw [Forest.frameAt_succ_none isNested, Forest.frameAt_succ_none same]
          exact ⟨rfl, nofun⟩
      | some parent =>
          rw [isNested] at same
          rw [Forest.frameAt_succ isNested, Forest.frameAt_succ same]
          have around := ih (similar.nested id parent scopes isNested here)
          rw [List.drop_tail] at around
          exact around

theorem local? (similar : machine.Alike lines printed wording twin)
    (here : wording[id]? = some scopes) (name : String) :
    Option.Rel (Value.Alike lines wording) (machine.frames.local? id name)
      (twin.frames.local? id ((innermost scopes).rename name)) := by
  rw [Forest.local?_eq_get?, Forest.local?_eq_get?]
  exact (similar.bound id scopes here).values name

/-- Global variables have values that correspond. -/
theorem global? (similar : machine.Alike lines printed wording twin) (name : String) :
    Option.Rel (Value.Alike lines wording) (machine.frames.get? globalFrame name)
      (twin.frames.get? globalFrame name) := by
  rw [Forest.get?_of_parent?_eq_none similar.outermost,
    Forest.get?_of_parent?_eq_none ((similar.parents globalFrame).trans similar.outermost)]
  exact similar.local? similar.globals name

/-- Whether a global variable is bound is the same. -/
theorem find? (similar : machine.Alike lines printed wording twin) (name : String) :
    twin.frames.find? name globalFrame = machine.frames.find? name globalFrame := by
  rw [Forest.find?_of_parent?_eq_none similar.outermost,
    Forest.find?_of_parent?_eq_none ((similar.parents globalFrame).trans similar.outermost)]
  rcases both_or_neither (similar.local? similar.globals name) with ⟨missing, alsoMissing⟩ |
    ⟨value, other, found, alsoFound, -⟩
  · have missingTwin : twin.frames.local? globalFrame name = none := alsoMissing
    rw [missing, missingTwin]
  · have foundTwin : twin.frames.local? globalFrame name = some other := alsoFound
    rw [found, foundTwin]
    rfl

end Machine.Alike

end LoxLang
