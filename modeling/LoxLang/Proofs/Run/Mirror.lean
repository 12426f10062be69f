/-
Module: LoxLang.Proofs.Run.Mirror
Purpose: Frames that mirror scopes.  A chain of frames mirrors the scopes around a place if its
  frames were created for those scopes, one for each and in the same order, and every name that a
  scope declares is bound in its frame.
Main exports: Made, MethodMade, Class.Created, Opened, Mirrors, Mirrors.mono, Mirrors.reach, Mirrors.opened
-/
import LoxLang.Proofs.Run.Task
import LoxLang.Proofs.Scope.Place

namespace LoxLang

variable {visited : Task → Prop}

/-! ### Where closures and frames come from -/

/-- A function was created by a task that was visited.  The forest is the one at that moment. -/
inductive Made (visited : Task → Prop) : Closure → Forest Value → Prop where
  /-- By the declaration of the function, in whose frame it is created. -/
  | declared {steps room : Nat} {declaration : Function Distance} {machine : Machine}
      (task : visited ⟨steps + 1, room + 1, .execute (.function declaration), machine⟩) :
      Made visited (machine.newFunction declaration) machine.frames
  /-- By looking up a method of an object. -/
  | bound {steps room : Nat} {method : Closure} {receiver : Value} {machine : Machine}
      (task : visited ⟨steps, room, .bindMethod method receiver, machine⟩) :
      Made visited (machine.boundMethod method) (machine.withReceiver method receiver).frames

/-- A method was created by the declaration of its class, in the frame of the code that declares
the class or in the frame that holds `super`. -/
inductive MethodMade (visited : Task → Prop) (name : Ident) (methods : List (Function Distance)) :
    Closure → Forest Value → Prop where
  | declared {steps room : Nat} {superclass : Option Class} {machine : Machine} {method : Closure}
      (task : visited ⟨steps, room, .declareClass name superclass methods, machine⟩)
      (isMethod : method.declaration ∈ methods)
      (captures : method.frame = machine.methodFrame superclass) :
      MethodMade visited name methods method (machine.methodSpace superclass).frames

/-- A class was created by a declaration that was visited: it is what the name of the class was
bound to. -/
inductive Class.Created (visited : Task → Prop) : Class → Prop where
  | declared {steps room : Nat} {name : Ident} {superclass : Option Class}
      {methods : List (Function Distance)} {machine following : Machine} {cls : Class}
      (task : visited ⟨steps, room, .declareClass name superclass methods, machine⟩)
      (creates : Run.newClass name superclass methods machine = .ok () following)
      (isClass : following.frames.local? machine.frame name.text = some (.class_ cls)) :
      Class.Created visited cls

/-- A frame was created for a piece of the program, nested in another frame, by a task that was
visited.  The frame of a function is nested in the one that the function captured when it was
created. -/
inductive Opened (visited : Task → Prop) (forest : Forest Value) :
    Site → FrameId → FrameId → Prop where
  | block {steps room : Nat} {body : List (Stmt Distance)} {machine : Machine}
      (task : visited ⟨steps + 1, room + 1, .execute (.block body), machine⟩)
      (earlier : machine.frames.Extends forest) :
      Opened visited forest (.block body) machine.fresh machine.frame
  | function {steps room : Nat} {closure : Closure} {arguments : List Value} {machine : Machine}
      {created : Forest Value}
      (task : visited ⟨steps, room, .call closure arguments, machine⟩)
      (made : Made visited closure created) (before : created.Extends machine.frames)
      (earlier : machine.frames.Extends forest) :
      Opened visited forest (.function closure.declaration) machine.fresh closure.frame
  | receiver {steps room : Nat} {name : Ident} {methods : List (Function Distance)}
      {method : Closure} {object : Value} {machine : Machine} {created : Forest Value}
      (task : visited ⟨steps, room, .bindMethod method object, machine⟩)
      (made : MethodMade visited name methods method created)
      (before : created.Extends machine.frames) (earlier : machine.frames.Extends forest) :
      Opened visited forest (.receiver name methods) machine.fresh method.frame
  | superclass {steps room : Nat} {name : Ident} {methods : List (Function Distance)}
      {cls : Class} {machine : Machine}
      (task : visited ⟨steps, room, .declareClass name (some cls) methods, machine⟩)
      (earlier : machine.frames.Extends forest) :
      Opened visited forest (.superclass name methods) machine.fresh machine.frame

theorem Opened.mono {forest later : Forest Value} {site : Site} {frame parent : FrameId}
    (opened : Opened visited forest site frame parent) (extends' : forest.Extends later) :
    Opened visited later site frame parent := by
  cases opened with
  | block task earlier => exact .block task (earlier.trans extends')
  | function task made before earlier => exact .function task made before (earlier.trans extends')
  | receiver task made before earlier => exact .receiver task made before (earlier.trans extends')
  | superclass task earlier => exact .superclass task (earlier.trans extends')

/-! ### Chains of frames -/

/-- The chain of frames from `frame` outwards mirrors scopes, innermost first: each frame was
created for its scope and is nested in the frame of the next one, all names that the scopes declare
are bound, and the chain ends with the global frame. -/
inductive Mirrors (visited : Task → Prop) (forest : Forest Value) :
    List Layer → FrameId → Prop where
  | globals : Mirrors visited forest [] Machine.globalFrame
  | nested {layer : Layer} {layers : List Layer} {frame parent : FrameId}
      (opened : Opened visited forest layer.site frame parent)
      (link : forest.parent? frame = some parent)
      (bound : ∀ name ∈ layer.names, (forest.local? frame name).isSome)
      (outer : Mirrors visited forest layers parent) :
      Mirrors visited forest (layer :: layers) frame

namespace Mirrors

variable {forest later : Forest Value} {layers inner : List Layer} {frame : FrameId}

theorem mono (mirrors : Mirrors visited forest layers frame) (extends' : forest.Extends later) :
    Mirrors visited later layers frame := by
  induction mirrors with
  | globals => exact .globals
  | nested opened link bound outer ih =>
      refine .nested (opened.mono extends') ?_ ?_ ih
      · rw [extends'.parents _ (Forest.lt_size_of_parent? link), link]
      · intro name member
        exact extends'.keeps _ name (bound name member)

theorem inside (mirrors : Mirrors visited forest layers frame) (some : 0 < forest.frames.size) :
    frame < forest.frames.size := by
  cases mirrors with
  | globals => exact some
  | nested opened link bound outer => exact Forest.lt_size_of_parent? link

/-- Binding a name in the innermost frame declares it. -/
theorem declare (mirrors : Mirrors visited forest layers frame) {name : String}
    (bound : (forest.local? frame name).isSome) :
    Mirrors visited forest (declareInnermost name layers) frame := by
  cases mirrors with
  | globals => exact .globals
  | nested opened link boundBefore outer =>
      refine .nested opened link ?_ outer
      intro other member
      cases List.mem_cons.1 member with
      | inl same => exact same ▸ bound
      | inr earlier => exact boundBefore other earlier

/-- Walking past some scopes leads to the frame that mirrors the rest. -/
theorem reach (mirrors : Mirrors visited forest (inner ++ layers) frame) :
    ∃ found, forest.frameAt frame inner.length = .ok found ∧
      Mirrors visited forest layers found := by
  induction inner generalizing frame with
  | nil => exact ⟨frame, rfl, mirrors⟩
  | cons innermost rest ih =>
      cases mirrors with
      | nested opened link bound outer =>
          obtain ⟨found, reached, others⟩ := ih outer
          refine ⟨found, ?_, others⟩
          rw [List.length_cons, Forest.frameAt_succ link]
          exact reached

end Mirrors

/-! ### Distances in mirrored scopes -/

/-- A distance leads to the innermost scope that declares the name. -/
theorem distanceIn_eq_some {layers : List Layer} {name : String} {distance : Nat}
    (found : distanceIn layers name = some distance) :
    ∃ inner layer outer, layers = inner ++ layer :: outer ∧ inner.length = distance ∧
      (∀ other ∈ inner, other.declares name = false) ∧ layer.declares name = true := by
  induction layers generalizing distance with
  | nil => cases found
  | cons innermost rest ih =>
      rw [distanceIn, List.findIdx?_cons] at found
      cases declares : innermost.declares name with
      | true =>
          rw [declares, if_pos rfl] at found
          cases found
          exact ⟨[], innermost, rest, rfl, rfl, (fun _ member => nomatch member), declares⟩
      | false =>
          simp only [declares, Bool.false_eq_true, ↓reduceIte, Option.map_eq_some_iff] at found
          rcases found with ⟨less, foundRest, isDistance⟩
          obtain ⟨inner, layer, outer, same, length, undeclared, declared⟩ := ih foundRest
          refine ⟨innermost :: inner, layer, outer, by rw [same]; rfl, ?_, ?_, declared⟩
          · rw [List.length_cons, length, isDistance]
          · intro other member
            cases List.mem_cons.1 member with
            | inl isInnermost => exact isInnermost ▸ declares
            | inr later => exact undeclared other later

/-- A name without a distance is declared in none of the scopes. -/
theorem distanceIn_eq_none {layers : List Layer} {name : String}
    (missing : distanceIn layers name = none) :
    ∀ layer ∈ layers, layer.declares name = false := by
  simpa [distanceIn] using missing

/-- A variable that awaits its value adds no scope. -/
theorem Sight.length_scopes (sight : Sight) : sight.scopes.length = sight.layers.length := by
  rcases sight with ⟨layers, pending⟩
  cases pending with
  | none => rfl
  | some name => cases layers <;> rfl

theorem Sight.layers_of_scopes (sight : Sight) {inner outer : List Layer} {layer : Layer}
    (split : sight.scopes = inner ++ layer :: outer) :
    ∃ first same rest, sight.layers = first ++ same :: rest ∧ first.length = inner.length ∧
      same.site = layer.site := by
  rcases sight with ⟨layers, pending⟩
  cases pending with
  | none => exact ⟨inner, layer, outer, split, rfl, rfl⟩
  | some name =>
      cases layers with
      | nil => simp [scopes, declareInnermost] at split
      | cons innermost others =>
          simp only [scopes, declareInnermost] at split
          cases inner with
          | nil =>
              cases split
              exact ⟨[], innermost, outer, rfl, rfl, rfl⟩
          | cons head tail =>
              cases split
              exact ⟨innermost :: tail, layer, outer, rfl, rfl, rfl⟩

namespace Mirrors

variable {forest : Forest Value} {layers : List Layer} {frame : FrameId}

/-- The frame at the distance of a name binds it. -/
theorem lookup (mirrors : Mirrors visited forest layers frame) {name : String} {distance : Nat}
    (found : distanceIn layers name = some distance) :
    ∃ owner value, forest.frameAt frame distance = .ok owner ∧
      forest.local? owner name = some value := by
  obtain ⟨inner, layer, outer, rfl, rfl, -, declares⟩ := distanceIn_eq_some found
  obtain ⟨owner, reached, others⟩ := mirrors.reach
  cases others with
  | nested opened link bound rest =>
      have isBound := bound name (by simpa [Layer.declares] using declares)
      obtain ⟨value, hasValue⟩ := Option.isSome_iff_exists.1 isBound
      exact ⟨owner, value, reached, hasValue⟩

/-- Every scope that can be seen has a frame that was created for it, and the next one is around
it. -/
theorem opened {sight : Sight} (mirrors : Mirrors visited forest sight.layers frame)
    {inner outer : List Layer} {layer : Layer} (split : sight.scopes = inner ++ layer :: outer) :
    ∃ own around, forest.frameAt frame inner.length = .ok own ∧
      Opened visited forest layer.site own around ∧
      forest.frameAt frame (inner.length + 1) = .ok around := by
  obtain ⟨first, same, others, isSplit, length, site⟩ := sight.layers_of_scopes split
  rw [isSplit] at mirrors
  obtain ⟨own, reached, rest⟩ := mirrors.reach
  rw [length] at reached
  cases rest with
  | @nested _ _ _ around opened link bound outer =>
      refine ⟨own, around, reached, site ▸ opened, ?_⟩
      rw [Forest.frameAt_add reached, Forest.frameAt_succ link]
      rfl

/-- There is a frame at every distance that a name has, also while its initializer runs. -/
theorem target {sight : Sight} (mirrors : Mirrors visited forest sight.layers frame)
    {name : String} {distance : Nat} (found : sight.distance? name = some distance) :
    ∃ owner, forest.frameAt frame distance = .ok owner := by
  obtain ⟨inner, layer, outer, split, length, -, -⟩ := distanceIn_eq_some found
  obtain ⟨owner, around, reached, -, -⟩ := mirrors.opened split
  exact ⟨owner, length ▸ reached⟩

/-- The chain ends with the global frame. -/
theorem outermost (mirrors : Mirrors visited forest layers frame) :
    forest.frameAt frame layers.length = .ok Machine.globalFrame := by
  have whole : Mirrors visited forest (layers ++ []) frame := by
    rw [List.append_nil]
    exact mirrors
  obtain ⟨found, reached, rest⟩ := whole.reach
  cases rest with
  | globals => exact reached

end Mirrors

end LoxLang
