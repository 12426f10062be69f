/-
Module: LoxLang.Proofs.Run.Assignment
Purpose: Assigning gives a new value to a variable that exists.  An assignment at a distance writes
  to a frame that binds the name already, so that no frame gains a name, and a global name that is
  not bound is an error.  There is one exception: in the initializer of a local variable an
  assignment to that variable binds it before its declaration does.
Main exports: Reference.InOwnInitializer, Sees.bound_or_pending, Assigns,
  Session.assignment_rebinds, Session.assignment_creates
-/
import LoxLang.Proofs.Heap.Walk
import LoxLang.Proofs.Run.Lexical

namespace LoxLang

/-! ### Names at a distance -/

/-- A variable whose initializer is being looked at belongs to the innermost scope. -/
theorem Sight.distance?_of_pending {sight : Sight} {name : String} {distance : Nat}
    (pending : sight.pending = some name) (found : sight.distance? name = some distance) :
    distance = 0 := by
  rcases sight with ⟨layers, awaited⟩
  cases pending
  cases layers with
  | nil => cases found
  | cons innermost outer =>
      simp only [distance?, scopes, declareInnermost, distanceIn, List.findIdx?_cons,
        Layer.declares_declare, decide_true, Bool.true_or, ↓reduceIte] at found
      cases found
      rfl

/-- A name is bound in the frame at its distance, unless it is the name of the variable whose
initializer is being evaluated. -/
theorem Sees.bound_or_pending {visited : Task → Prop} {forest : Forest Value} {sight : Sight}
    {frame : FrameId} {name : String} {distance : Nat}
    (sees : Sees visited forest sight frame) (found : sight.distance? name = some distance) :
    (∃ owner, forest.frameAt frame distance = .ok owner ∧ (forest.local? owner name).isSome) ∨
      distance = 0 ∧ sight.pending = some name := by
  by_cases pending : sight.pending = some name
  · exact .inr ⟨sight.distance?_of_pending pending found, pending⟩
  · obtain ⟨value, isValue⟩ := sees.lookup pending found
    obtain ⟨owner, reached, bound⟩ := Forest.getAt_eq_ok isValue
    exact .inl ⟨owner, reached, Option.isSome_iff_exists.2 ⟨value, bound⟩⟩

/-- Whether the code that is running stands at a reference in the initializer of the local variable
that the reference names. -/
def Reference.InOwnInitializer (visited : Task → Prop) (accepted : Place → Prop)
    (machine : Machine) (reference : Reference Distance) : Prop :=
  ∃ sight, accepted { sight := sight, node := .use reference } ∧
    Mirrors visited machine.frames sight.layers machine.frame ∧
    sight.pending = some reference.name.text

/-! ### Assignments -/

/-- What comes of an assignment whose value has been evaluated.  At a distance it writes to a frame
that has bound the name since before the value was evaluated, or it stands in the initializer of the
variable that it names and writes to the frame of the code that is running.  A global name that is
not bound is an error. -/
def Assigns (visited : Task → Prop) (accepted : Place → Prop) (machine following : Machine)
    (name : Ident) (result : Value) (outcome : EStateM.Result Stop Machine Value) :
    Distance → Prop
  | some distance =>
      ∃ owner, following.frames.frameAt following.frame distance = .ok owner ∧
        outcome = .ok result (following.defining owner name.text result) ∧
        ((machine.frames.local? owner name.text).isSome ∧
            following.frames.Rebound owner name.text result
              (following.frames.define owner name.text result) ∨
          distance = 0 ∧ Reference.InOwnInitializer visited accepted machine
            { kind := .write, name := name, binding := some distance })
  | none =>
      if (following.frames.local? Machine.globalFrame name.text).isSome then
        outcome = .ok result (following.defining Machine.globalFrame name.text result) ∧
          following.frames.Rebound Machine.globalFrame name.text result
            (following.frames.define Machine.globalFrame name.text result)
      else
        outcome = Run.fail (.undefinedVariable name.text) name.line following

section History

variable {config : Config} {clock : Nat → Float} {history : List Command}

/-- An assignment gives a new value to a name that is bound already and adds a name to no frame, but
for an assignment in the initializer of the local variable that it names. -/
theorem Session.assignment_rebinds {steps room : Nat} {name : Ident} {binding : Distance}
    {value : Expr Distance} {machine following : Machine} {result : Value}
    (visited : Visited (.start config clock) history
      ⟨steps + 1, room + 1, .evaluate (.assign name binding value), machine⟩)
    (evaluated : eval steps room value machine = .ok result following) :
    Assigns (Visited (.start config clock) history) (Accepted (.start config clock) history)
      machine following name result
      (eval (steps + 1) (room + 1) (.assign name binding value) machine) binding := by
  obtain ⟨heap, sight, sees, places⟩ := visited_sound visited
  have accepted := (throughout_cons.1 places).1
  have isRight : Reference.Right sight { kind := .write, name := name, binding := binding } :=
    Accepted.right _ accepted
  have settles := visited_settles (visited.closed _ _ .assignValue)
  simp only [Task.Settles, evaluated] at settles
  obtain ⟨continues, heapAfter, -⟩ := settles
  cases binding with
  | some distance =>
      have found := isRight.1.symm
      obtain ⟨owner, reached⟩ := sees.chain.target found
      have reachedStill : following.frames.frameAt following.frame distance = .ok owner := by
        rw [continues.frame, continues.frames.frameAt heap.nested (sees.chain.inside heap.root.1)]
        exact reached
      refine ⟨owner, reachedStill, eval_assign_at evaluated reachedStill, ?_⟩
      rcases sees.bound_or_pending found with ⟨other, same, bound⟩ | ⟨isZero, pending⟩
      · rw [reached] at same
        cases same
        have boundStill := continues.frames.keeps owner name.text bound
        exact .inl ⟨bound, heapAfter.nested.rebound boundStill result⟩
      · exact .inr ⟨isZero, sight, accepted, sees.chain, pending⟩
  | none =>
      have assigned : eval (steps + 1) (room + 1) (.assign name none value) machine = _ :=
        eval_assign_global evaluated heapAfter.root.2
      rw [Machine.writing] at assigned
      rw [Assigns]
      split
      next bound =>
        rw [if_pos bound] at assigned
        exact ⟨assigned, heapAfter.nested.rebound bound result⟩
      next unbound =>
        rw [if_neg unbound] at assigned
        exact assigned

end History

/-! ### Sample histories -/

/-- A function that assigns to a variable of the block around it. -/
def rebindingSource : String :=
  "{ var a; fun g() { a = nil; } g(); }"

/-- The same program with its names bound. -/
def rebindingProgram : Program Distance :=
  [.block
    [.declare ⟨"a", ⟨1, 7⟩⟩ none,
      .function (.mk ⟨"g", ⟨1, 14⟩⟩ []
        [.expression (.assign ⟨"a", ⟨1, 20⟩⟩ (some 1) (.literal .nil))]),
      .expression (.call (.read ⟨"g", ⟨1, 31⟩⟩ (some 0)) [] ⟨1, 33⟩)]]

def assigningStart : Session :=
  .start {} fun _ => 0

theorem rebinding_ran :
    Ran assigningStart [.run rebindingSource] assigningStart rebindingSource ⟨25000, 25000⟩
      rebindingProgram where
  moment := ⟨[], [], rfl, rfl⟩
  available := by with_unfolding_all rfl
  analyzed := by with_unfolding_all rfl

/-- The assignment in the function is reached. -/
theorem rebinding_visited :
    ∃ steps room machine, Visited assigningStart [.run rebindingSource]
      ⟨steps + 2, room + 2, .evaluate (.assign ⟨"a", ⟨1, 20⟩⟩ (some 1) (.literal .nil)),
        machine⟩ := by
  have enough : allowance = 4611686018427387898 + 6 := rfl
  have begun : Visited assigningStart [.run rebindingSource]
      ⟨4611686018427387898 + 6, 24994 + 6, .runProgram rebindingProgram, assigningStart.machine⟩ :=
    ⟨_, _, _, _, rebinding_ran, enough ▸ .refl _⟩
  have block := Visited.closed _ _ begun .programFirst
  have body := Visited.closed _ _ block .blockBody
  have declared := Visited.closed _ _ body (.executeRest rfl)
  have created := Visited.closed _ _ declared (.executeRest rfl)
  have statement := Visited.closed _ _ created .executeFirst
  have call := Visited.closed _ _ statement .expressionValue
  have called := Visited.closed _ _ call (.callFunction rfl rfl rfl)
  have entered := Visited.closed _ _ called .callBody
  have first := Visited.closed _ _ entered .executeFirst
  exact ⟨_, _, _, Visited.closed _ _ first .expressionValue⟩

/-- The function finds the variable bound and gives it a value. -/
theorem Session.assignment_rebinds_sample :
    ∃ steps room machine owner,
      Visited assigningStart [.run rebindingSource]
        ⟨steps + 2, room + 2, .evaluate (.assign ⟨"a", ⟨1, 20⟩⟩ (some 1) (.literal .nil)),
          machine⟩ ∧
      (machine.frames.local? owner "a").isSome ∧
      eval (steps + 2) (room + 2) (.assign ⟨"a", ⟨1, 20⟩⟩ (some 1) (.literal .nil)) machine =
        .ok .nil (machine.defining owner "a" .nil) ∧
      machine.frames.Rebound owner "a" .nil (machine.frames.define owner "a" .nil) := by
  obtain ⟨steps, room, machine, visited⟩ := rebinding_visited
  have evaluated : eval (steps + 1) (room + 1) (.literal .nil) machine = .ok .nil machine := rfl
  obtain ⟨owner, -, assigned, ⟨bound, rebound⟩ | ⟨isZero, -⟩⟩ :=
    Session.assignment_rebinds visited evaluated
  · exact ⟨steps, room, machine, owner, visited, bound, assigned, rebound⟩
  · cases isZero

/-- A variable that is assigned to in its own initializer. -/
def creatingSource : String :=
  "{ var a = a = true; print a; }"

/-- The same program with its names bound. -/
def creatingProgram : Program Distance :=
  [.block
    [.declare ⟨"a", ⟨1, 7⟩⟩
        (some (.assign ⟨"a", ⟨1, 11⟩⟩ (some 0) (.literal (.bool true)))),
      .print (.read ⟨"a", ⟨1, 27⟩⟩ (some 0))]]

theorem creating_ran :
    Ran assigningStart [.run creatingSource] assigningStart creatingSource ⟨25000, 25000⟩
      creatingProgram where
  moment := ⟨[], [], rfl, rfl⟩
  available := by with_unfolding_all rfl
  analyzed := by with_unfolding_all rfl

/-- An assignment can bind a name: the program is accepted and completes, and when the initializer
is evaluated the frame at the distance of the name has not bound it. -/
theorem Session.assignment_creates :
    (∃ steps room machine owner,
      Visited assigningStart [.run creatingSource]
        ⟨steps + 2, room + 2, .evaluate (.assign ⟨"a", ⟨1, 11⟩⟩ (some 0) (.literal (.bool true))),
          machine⟩ ∧
      machine.frames.frameAt machine.frame 0 = .ok owner ∧
      machine.frames.local? owner "a" = none ∧
      eval (steps + 2) (room + 2) (.assign ⟨"a", ⟨1, 11⟩⟩ (some 0) (.literal (.bool true)))
          machine = .ok (.bool true) (machine.defining owner "a" (.bool true))) ∧
    (assigningStart.run creatingSource).2.ending = .completed := by
  have enough : allowance = 4611686018427387901 + 3 := rfl
  have begun : Visited assigningStart [.run creatingSource]
      ⟨4611686018427387901 + 3, 24997 + 3, .runProgram creatingProgram, assigningStart.machine⟩ :=
    ⟨_, _, _, _, creating_ran, enough ▸ .refl _⟩
  have block := Visited.closed _ _ begun .programFirst
  have body := Visited.closed _ _ block .blockBody
  have declaration := Visited.closed _ _ body .executeFirst
  have initializer := Visited.closed _ _ declaration .declareValue
  refine ⟨⟨_, _, _, _, initializer, rfl, rfl, rfl⟩, ?_⟩
  with_unfolding_all rfl

end LoxLang
