/-
Module: LoxLang.Proofs.Run.Lexical
Purpose: Binding is lexical.  Whenever a variable or `this` is read or assigned to, the chain of
  frames mirrors the scopes around that place, and the frame that is used is the one created for the
  innermost scope that declares the name: the one that the functions in between captured when they
  were created, whatever has been declared since.
Main exports: Expr.reference?, Expr.Uses, Site.Captures, Follows, Session.binding_lexical
-/
import LoxLang.Proofs.Run.Resolution

namespace LoxLang

/-! ### Using a variable -/

namespace Machine

/-- What reading the variable of a frame yields. -/
def reading (machine : Machine) (owner : FrameId) (name : Ident) :
    EStateM.Result Stop Machine Value :=
  match machine.frames.local? owner name.text with
  | some value => .ok value machine
  | none => Run.fail (.undefinedVariable name.text) name.line machine

/-- What assigning to the variable of a frame yields.  A global variable must exist. -/
def writing (machine : Machine) (owner : FrameId) (name : Ident) (value : Value) :
    Distance → EStateM.Result Stop Machine Value
  | some _ => .ok value (machine.defining owner name.text value)
  | none =>
      if (machine.frames.local? owner name.text).isSome then
        .ok value (machine.defining owner name.text value)
      else
        Run.fail (.undefinedVariable name.text) name.line machine

end Machine

namespace Expr

/-- The variable, or `this`, that an expression reads or assigns to itself. -/
def reference? : Expr Distance → Option (Reference Distance)
  | read name binding => some { kind := .read, name := name, binding := binding }
  | assign name binding _ => some { kind := .write, name := name, binding := binding }
  | receiver keyword binding =>
      some { kind := .receiver, name := { text := "this", position := keyword }, binding := binding }
  | _ => none

/-- Whether evaluating an expression uses the variable of one frame. -/
def Uses (steps room : Nat) (machine : Machine) (owner : FrameId) : Expr Distance → Prop
  | read name binding =>
      eval (steps + 1) (room + 1) (read name binding) machine = machine.reading owner name
  | receiver keyword binding =>
      eval (steps + 1) (room + 1) (receiver keyword binding) machine =
        machine.reading owner { text := "this", position := keyword }
  | assign name binding value =>
      ∀ result following, eval steps room value machine = .ok result following →
        eval (steps + 1) (room + 1) (assign name binding value) machine =
          following.writing owner name result binding
  | _ => True

end Expr

theorem Expr.mem_places (sight : Sight) {e : Expr Distance} {reference : Reference Distance}
    (isReference : e.reference? = some reference) :
    { sight := sight, node := .use reference } ∈ e.places sight := by
  cases e with
  | read name binding =>
      cases isReference
      exact List.mem_singleton_self _
  | assign name binding value =>
      cases isReference
      exact List.mem_cons_self
  | receiver keyword binding =>
      cases isReference
      exact List.mem_singleton_self _
  | _ => cases isReference

theorem Expr.binding_of_right {sight : Sight} {e : Expr Distance}
    {reference : Reference Distance} (isReference : e.reference? = some reference)
    (right : reference.Right sight) :
    reference.binding = sight.distance? reference.name.text := by
  cases e with
  | read name binding =>
      cases isReference
      exact right.1
  | assign name binding value =>
      cases isReference
      exact right.1
  | receiver keyword binding =>
      cases isReference
      rcases right with ⟨distance, isBound, found⟩
      exact isBound.trans found.symm
  | _ => cases isReference

theorem readName_at {machine : Machine} {name : Ident} {distance : Nat} {value : Value}
    {owner : FrameId} (reached : machine.frames.frameAt machine.frame distance = .ok owner)
    (found : machine.frames.getAt machine.frame distance name.text = .ok value) :
    Run.readName name (some distance) machine = machine.reading owner name := by
  obtain ⟨other, sameWay, bound⟩ := Forest.getAt_eq_ok found
  rw [reached] at sameWay
  cases sameWay
  simp only [Run.readName, Run.readAt, Run.readFrom, Machine.reading, found, bound]

theorem readName_global {machine : Machine} (name : Ident)
    (outermost : machine.frames.parent? Machine.globalFrame = none) :
    Run.readName name none machine = machine.reading Machine.globalFrame name := by
  have found := Forest.get?_of_parent?_eq_none outermost name.text
  cases bound : machine.frames.local? Machine.globalFrame name.text with
  | none => simp only [Run.readName, Run.readGlobal, Machine.reading, found, bound]
  | some value => simp only [Run.readName, Run.readGlobal, Machine.reading, found, bound]

section Assign

variable {steps room : Nat} {machine following : Machine} {name : Ident} {value : Expr Distance}
  {result : Value}

theorem eval_assign_at {distance : Nat} {owner : FrameId}
    (evaluated : eval steps room value machine = .ok result following)
    (reached : following.frames.frameAt following.frame distance = .ok owner) :
    eval (steps + 1) (room + 1) (.assign name (some distance) value) machine =
      following.writing owner name result (some distance) := by
  simp only [eval, evaluated, Run.writeName, Run.writeAt, reached]
  rfl

theorem eval_assign_global (evaluated : eval steps room value machine = .ok result following)
    (outermost : following.frames.parent? Machine.globalFrame = none) :
    eval (steps + 1) (room + 1) (.assign name none value) machine =
      following.writing Machine.globalFrame name result none := by
  simp only [eval, evaluated, Run.writeName, Run.writeGlobal, Machine.writing]
  rw [Forest.find?_of_parent?_eq_none outermost]
  by_cases exists' : (following.frames.local? Machine.globalFrame name.text).isSome
  · rw [if_pos exists', if_pos exists']
    rfl
  · rw [if_neg exists', if_neg exists']
    rfl

end Assign

/-! ### Captured frames -/

/-- Whether the frame that a scope is nested in was captured: a function, or a method before it is
looked up, has held it since it was created, and ever since then the same number of frames has led
from it to the same frame.  A block and the scope of `super` capture nothing. -/
def Site.Captures (visited : Task → Prop) (forest : Forest Value) (captured : FrameId)
    (distance : Nat) (owner : FrameId) : Site → Prop
  | function declaration =>
      ∃ closure created, closure.declaration = declaration ∧ closure.frame = captured ∧
        Made visited closure created ∧ created.Extends forest ∧
        ∀ later : Forest Value, created.Extends later →
          later.frameAt captured distance = .ok owner
  | receiver name methods =>
      ∃ method created, method.frame = captured ∧
        MethodMade visited name methods method created ∧ created.Extends forest ∧
        ∀ later : Forest Value, created.Extends later →
          later.frameAt captured distance = .ok owner
  | block _ | superclass _ _ => True

section History

variable {config : Config} {clock : Nat → Float} {history : List Command}

/-- When a function is created, its frame is there and all frames are nested in earlier ones. -/
theorem Made.grounded {closure : Closure} {created : Forest Value}
    (made : Made (Visited (.start config clock) history) closure created) :
    created.Nested ∧ closure.frame < created.frames.size := by
  cases made with
  | declared task =>
      obtain ⟨heap, layers, mirrors, -⟩ := visited_sound task
      exact ⟨heap.nested, mirrors.inside heap.root.1⟩
  | @bound steps room method receiver machine task =>
      obtain ⟨-, heap, -⟩ := visited_settles task
      refine ⟨heap.nested, ?_⟩
      simp [Machine.boundMethod, Machine.withReceiver, Machine.defining, Machine.nest,
        Machine.fresh]

theorem MethodMade.grounded {name : Ident} {methods : List (Function Distance)}
    {method : Closure} {created : Forest Value}
    (made : MethodMade (Visited (.start config clock) history) name methods method created) :
    created.Nested ∧ method.frame < created.frames.size := by
  cases made with
  | @declared steps room superclass machine method task isMethod captures =>
      obtain ⟨heap, layers, mirrors, -, -, validSuper⟩ := visited_sound task
      have inside := mirrors.inside heap.root.1
      rw [captures]
      exact ⟨(Machine.methodSpace_heap heap inside validSuper).nested,
        Machine.methodFrame_inside inside superclass⟩

/-- What is reached from the frame around a scope was there when that frame was captured. -/
theorem Opened.captures {forest : Forest Value} {site : Site} {frame captured owner : FrameId}
    {distance : Nat}
    (opened : Opened (Visited (.start config clock) history) forest site frame captured)
    (reached : forest.frameAt captured distance = .ok owner) :
    site.Captures (Visited (.start config clock) history) forest captured distance owner := by
  have ever : ∀ {created : Forest Value}, created.Nested → captured < created.frames.size →
      created.Extends forest → ∀ later : Forest Value, created.Extends later →
        later.frameAt captured distance = .ok owner := by
    intro created nested inside before later after
    rw [after.frameAt nested inside, ← before.frameAt nested inside]
    exact reached
  cases opened with
  | block task earlier => trivial
  | superclass task earlier => trivial
  | @function steps room closure arguments machine created task made before earlier =>
      have old := before.trans earlier
      exact ⟨closure, created, rfl, rfl, made, old, ever made.grounded.1 made.grounded.2 old⟩
  | @receiver steps room name methods method object machine created task made before earlier =>
      have old := before.trans earlier
      exact ⟨method, created, rfl, made, old, ever made.grounded.1 made.grounded.2 old⟩

/-- Evaluating the value of an assignment leaves the same code running in a sound heap. -/
theorem Visited.assigned {steps room : Nat} {name : Ident} {binding : Distance}
    {value : Expr Distance} {machine following : Machine} {result : Value}
    (visited : Visited (.start config clock) history
      ⟨steps + 1, room + 1, .evaluate (.assign name binding value), machine⟩)
    (evaluated : eval steps room value machine = .ok result following) :
    Continues machine following ∧
      following.frames.parent? Machine.globalFrame = none := by
  have settles := visited_settles (visited.closed _ _ .assignValue)
  simp only [Task.Settles, evaluated] at settles
  exact ⟨settles.1, settles.2.1.root.2⟩

theorem Visited.uses_at {steps room distance : Nat} {e : Expr Distance}
    {reference : Reference Distance} {machine : Machine} {owner : FrameId}
    (visited : Visited (.start config clock) history
      ⟨steps + 1, room + 1, .evaluate e, machine⟩)
    (isReference : e.reference? = some reference) (isBound : reference.binding = some distance)
    (reached : ∀ later : Forest Value, machine.frames.Extends later →
      later.frameAt machine.frame distance = .ok owner) :
    e.Uses steps room machine owner := by
  have here := reached _ (.refl machine.frames)
  cases e with
  | read name binding =>
      cases isReference
      cases isBound
      obtain ⟨value, found⟩ := visited.resolved.read name distance rfl
      exact readName_at here found
  | receiver keyword binding =>
      cases isReference
      obtain ⟨other, object, isOther, found, -⟩ := visited.resolved.receiver keyword binding rfl
      cases isBound
      cases isOther
      exact readName_at here found
  | assign name binding value =>
      cases isReference
      cases isBound
      intro result following evaluated
      have continues := (visited.assigned evaluated).1
      apply eval_assign_at evaluated
      rw [continues.frame]
      exact reached _ continues.frames
  | _ => cases isReference

theorem Visited.uses_global {steps room : Nat} {e : Expr Distance}
    {reference : Reference Distance} {machine : Machine}
    (visited : Visited (.start config clock) history
      ⟨steps + 1, room + 1, .evaluate e, machine⟩)
    (isReference : e.reference? = some reference) (isGlobal : reference.binding = none) :
    e.Uses steps room machine Machine.globalFrame := by
  have outermost := (visited_sound visited).heap.root.2
  cases e with
  | read name binding =>
      cases isReference
      cases isGlobal
      exact readName_global name outermost
  | receiver keyword binding =>
      cases isReference
      cases isGlobal
      exact readName_global _ outermost
  | assign name binding value =>
      cases isReference
      cases isGlobal
      intro result following evaluated
      exact eval_assign_global evaluated (visited.assigned evaluated).2
  | _ => cases isReference

/-! ### Lexical binding -/

/-- How a name at some distance is followed from the code that is running to a frame. -/
structure Follows (visited : Task → Prop) (machine : Machine) (scopes : List Layer)
    (name : String) (distance : Nat) (owner : FrameId) : Prop where
  /-- The frame was created for the innermost scope that declares the name. -/
  scope : ∃ inner layer outer parent, scopes = inner ++ layer :: outer ∧
    inner.length = distance ∧ (∀ other ∈ inner, other.declares name = false) ∧
    layer.declares name = true ∧ Opened visited machine.frames layer.site owner parent
  /-- It is found there, whatever will be declared. -/
  reached : ∀ later : Forest Value, machine.frames.Extends later →
    later.frameAt machine.frame distance = .ok owner
  /-- It was found in the same way since any of the functions on the way was created. -/
  captured : ∀ first enclosing second rest, scopes = first ++ enclosing :: second →
    distance = first.length + 1 + rest →
    ∃ around, machine.frames.frameAt machine.frame (first.length + 1) = .ok around ∧
      enclosing.site.Captures visited machine.frames around rest owner

theorem Mirrors.follows {machine : Machine} {sight : Sight} {name : String} {distance : Nat}
    (mirrors : Mirrors (Visited (.start config clock) history) machine.frames sight.layers
      machine.frame)
    (nested : machine.frames.Nested) (inside : machine.frame < machine.frames.frames.size)
    (found : sight.distance? name = some distance) :
    ∃ owner, Follows (Visited (.start config clock) history) machine sight.scopes name distance
      owner := by
  obtain ⟨inner, layer, outer, split, length, undeclared, declared⟩ := distanceIn_eq_some found
  obtain ⟨owner, parent, reached, opened, -⟩ := mirrors.opened split
  rw [length] at reached
  refine ⟨owner, ⟨inner, layer, outer, parent, split, length, undeclared, declared, opened⟩,
    ?_, ?_⟩
  · intro later extends'
    rw [extends'.frameAt nested inside]
    exact reached
  · intro first enclosing second rest otherSplit isDistance
    obtain ⟨own, around, -, enclosed, next⟩ := mirrors.opened otherSplit
    rw [isDistance, Forest.frameAt_add next] at reached
    exact ⟨around, next, enclosed.captures reached⟩

/-- Whenever a variable or `this` is read or assigned to, the chain of frames mirrors the scopes
around that place one by one, up to the global frame.  A distance leads to the frame of the
innermost scope that declares the name; without one, no scope around the place declares the name
and the global variable is used. -/
theorem Session.binding_lexical {steps room : Nat} {e : Expr Distance}
    {reference : Reference Distance} {machine : Machine}
    (visited : Visited (.start config clock) history
      ⟨steps + 1, room + 1, .evaluate e, machine⟩)
    (isReference : e.reference? = some reference) :
    ∃ sight, Accepted (.start config clock) history { sight := sight, node := .use reference } ∧
      Mirrors (Visited (.start config clock) history) machine.frames sight.layers machine.frame ∧
      machine.frames.frameAt machine.frame sight.scopes.length = .ok Machine.globalFrame ∧
      machine.frames.parent? Machine.globalFrame = none ∧
      match reference.binding with
      | some distance =>
          ∃ owner, Follows (Visited (.start config clock) history) machine sight.scopes
              reference.name.text distance owner ∧
            e.Uses steps room machine owner
      | none =>
          (∀ layer ∈ sight.scopes, layer.declares reference.name.text = false) ∧
            e.Uses steps room machine Machine.globalFrame := by
  obtain ⟨heap, sight, sees, places⟩ := visited_sound visited
  have accepted := places _ (Expr.mem_places sight isReference)
  have isRight := Expr.binding_of_right isReference (Accepted.right _ accepted)
  refine ⟨sight, accepted, sees.chain, ?_, heap.root.2, ?_⟩
  · rw [sight.length_scopes]
    exact sees.chain.outermost
  · cases isBound : reference.binding with
    | some distance =>
        rw [isBound] at isRight
        obtain ⟨owner, follows⟩ := sees.chain.follows heap.nested
          (sees.chain.inside heap.root.1) isRight.symm
        exact ⟨owner, follows, visited.uses_at isReference isBound follows.reached⟩
    | none =>
        rw [isBound] at isRight
        exact ⟨distanceIn_eq_none isRight.symm, visited.uses_global isReference isBound⟩

end History

theorem Session.binding_lexical_sample :
    ∃ steps room machine scopes owner, Visited sampleStart sampleHistory
        ⟨steps + 1, room + 1, .evaluate (.read ⟨"a", ⟨1, 20⟩⟩ (some 1)), machine⟩ ∧
      Follows (Visited sampleStart sampleHistory) machine scopes "a" 1 owner ∧
      (Expr.read ⟨"a", ⟨1, 20⟩⟩ (some 1)).Uses steps room machine owner := by
  rcases sample_visited with ⟨steps, room, machine, visited⟩
  obtain ⟨sight, -, -, -, -, owner, follows, uses⟩ := Session.binding_lexical visited rfl
  exact ⟨steps, room, machine, sight.scopes, owner, visited, follows, uses⟩

end LoxLang
