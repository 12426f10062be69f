/-
Module: LoxLang.Proofs.Run.Receiver
Purpose: `this` and `super` are bound when a method is looked up and when its class is declared, and
  never again.  However a method was come by, and however late the functions in it are called,
  `this` is the object that the method was bound to and `super` finds the methods of the superclass
  that its class was created with.
Main exports: Activates, Visited.plain, Session.receiver_static
-/
import LoxLang.Proofs.Run.Discipline
import LoxLang.Proofs.Run.Order

namespace LoxLang

/-! ### Code of an activation -/

/-- Whether an activity is to evaluate or execute a piece of the program. -/
def Activity.IsCode : Activity → Prop
  | evaluate _ | evaluateAll _ | execute _ | executeAll _ | repeatLoop _ _ => True
  | call _ _ | bindMethod _ _ | declareClass _ _ _ | runProgram _ => False

/-- The tasks that run code of a function: its body whenever it is called, the parts of that, and
the bodies of the functions declared in it, whenever those are called. -/
inductive Activates (visited : Task → Prop) (closure : Closure) : Task → Prop where
  | body {steps room : Nat} {arguments : List Value} {machine : Machine}
      (task : visited ⟨steps, room, .call closure arguments, machine⟩) :
      Activates visited closure
        ⟨steps, room, .executeAll closure.declaration.body, machine.entering closure arguments⟩
  | part {task next : Task} (inside : Activates visited closure task) (leads : Leads task next)
      (isCode : next.activity.IsCode) : Activates visited closure next
  | nested {steps room otherSteps otherRoom : Nat} {declaration : Function Distance}
      {arguments : List Value} {machine other : Machine}
      (inside : Activates visited closure
        ⟨steps + 1, room + 1, .execute (.function declaration), machine⟩)
      (task : visited
        ⟨otherSteps, otherRoom, .call (machine.newFunction declaration) arguments, other⟩) :
      Activates visited closure
        ⟨otherSteps, otherRoom, .executeAll declaration.body,
          other.entering (machine.newFunction declaration) arguments⟩

/-- Whether every `this` and `super` in a piece of code is bound to the same scopes. -/
def Activity.Anchored (distance : Nat) : Activity → Prop
  | evaluate e => e.Anchored distance
  | evaluateAll es => ∀ reference ∈ Expr.referencesAll es, reference.Anchored distance
  | execute s => s.Anchored distance
  | executeAll body => Stmt.AnchoredAll distance body
  | repeatLoop condition body => condition.Anchored distance ∧ body.Anchored distance
  | call _ _ | bindMethod _ _ | declareClass _ _ _ | runProgram _ => True

section History

variable {config : Config} {clock : Nat → Float} {history : List Command}

theorem Activates.visited {closure : Closure} {task : Task}
    (activates : Activates (Visited (.start config clock) history) closure task) :
    Visited (.start config clock) history task := by
  induction activates with
  | body task => exact task.closed _ _ .callBody
  | part _ leads _ ih => exact ih.closed _ _ leads
  | nested _ task => exact task.closed _ _ .callBody

/-! ### Frames that code runs in -/

/-- Code runs in frames that hold neither `this` nor `super`. -/
structure Machine.Plain (machine : Machine) : Prop where
  inside : machine.frame < machine.frames.frames.size
  unreserved : ∀ name, Reserved name → machine.frames.local? machine.frame name = none

theorem Machine.Plain.becomes {machine later : Machine} (plain : machine.Plain)
    (becomes : machine.Becomes later) (same : later.frame = machine.frame) : later.Plain := by
  have preserves := becomes.preserves
  constructor <;> rw [same]
  · exact Nat.lt_of_lt_of_le plain.inside preserves.frames.grows
  · intro name isReserved
    rw [preserves.reserved machine.frame plain.inside name isReserved]
    exact plain.unreserved name isReserved

theorem Machine.plain_nest (machine : Machine) (parent : FrameId) :
    ((machine.nest parent).inFrame machine.fresh).Plain := by
  constructor
  · simp [Machine.inFrame, Machine.nest, Machine.fresh]
  · intro name _
    exact (Forest.local?_alloc ..).trans (Forest.local?_size machine.frames name)

theorem Machine.plain_entering (machine : Machine) {closure : Closure}
    (unreserved : ∀ name ∈ closure.declaration.parameters, name.Unreserved)
    (arguments : List Value) : (machine.entering closure arguments).Plain := by
  have preserves := (becomes_definingAll (machine.nest closure.frame) machine.fresh unreserved
    arguments).preserves
  have opened := machine.plain_nest closure.frame
  constructor
  · exact Nat.lt_of_lt_of_le opened.inside preserves.frames.grows
  · intro name isReserved
    exact (preserves.reserved machine.fresh opened.inside name isReserved).trans
      (opened.unreserved name isReserved)

theorem Visited.plain {task : Task} (visited : Visited (.start config clock) history task) :
    task.machine.Plain := by
  rcases visited with ⟨session, source, room, program, ran, reaches⟩
  induction reaches with
  | refl =>
      have sound := ran.sessionSound
      obtain ⟨earlier, later, moment, isSession⟩ := ran.moment
      have becomes : (Machine.initial clock).Becomes session.machine := by
        rw [isSession]
        exact @Session.becomes_performAll config clock history [] earlier _ moment
      have plain : (Machine.initial clock).Plain := by
        refine ⟨Nat.zero_lt_one, ?_⟩
        rintro name (rfl | rfl) <;> rfl
      exact plain.becomes becomes sound.atGlobals
  | @step middle last first leads ih =>
      have middleVisited := ran.visited.reached first
      have becomes := (leads.within middleVisited).1
      have sound := visited_sound middleVisited
      rcases middle with ⟨steps, room, activity, machine⟩
      by_cases isBlock : ∃ body, activity = .execute (.block body)
      · obtain ⟨body, rfl⟩ := isBlock
        cases leads with
        | blockBody => exact machine.plain_nest machine.frame
      · by_cases isCall : ∃ closure arguments, activity = .call closure arguments
        · obtain ⟨closure, arguments, rfl⟩ := isCall
          cases leads with
          | callBody =>
              exact machine.plain_entering (sound.stands.1.parameters Accepted.right) arguments
        · refine ih.becomes becomes (leads.stays ?_ ?_)
          · exact fun body same => isBlock ⟨body, same⟩
          · exact fun closure arguments same => isCall ⟨closure, arguments, same⟩

/-- From the frame of a call one step outwards leads to the frame that the function captured. -/
theorem Machine.frameAt_entering {machine : Machine} {closure : Closure}
    (nested : machine.frames.Nested) (inside : closure.frame < machine.frames.frames.size)
    (arguments : List Value) (distance : Nat) :
    (machine.entering closure arguments).frames.frameAt machine.fresh (distance + 1) =
      machine.frames.frameAt closure.frame distance := by
  have grown := Machine.definingAll_extends (machine.nest closure.frame) machine.fresh
    closure.declaration.parameters arguments
  have link : (machine.entering closure arguments).frames.parent? machine.fresh =
      some closure.frame := by
    refine (grown.parents machine.fresh ?_).trans ?_
    · simp [Machine.nest, Machine.fresh]
    · exact (Forest.parent?_alloc ..).trans (if_pos rfl)
  rw [Forest.frameAt_succ link]
  exact (machine.entering_extends closure arguments).frameAt nested inside distance

theorem Visited.captured {steps room : Nat} {closure : Closure} {arguments : List Value}
    {machine : Machine}
    (visited : Visited (.start config clock) history
      ⟨steps, room, .call closure arguments, machine⟩) :
    closure.frame < machine.frames.frames.size := by
  obtain ⟨heap, ⟨layers, created, made, before, mirrors, rest⟩, -⟩ := visited_sound visited
  exact mirrors.inside heap.root.1

/-! ### Anchored code -/

theorem Stmt.AnchoredFunction.body {distance : Nat} {declaration : Function Distance}
    (anchored : Stmt.AnchoredFunction distance declaration) :
    Stmt.AnchoredAll (distance + 1) declaration.body := by
  cases declaration
  exact anchored

/-- The parts of a block are anchored one scope further in than the block. -/
theorem Leads.anchored_block {steps room distance : Nat} {body : List (Stmt Distance)}
    {machine : Machine} {next : Task}
    (leads : Leads ⟨steps, room, .execute (.block body), machine⟩ next)
    (anchored : (Stmt.block body).Anchored distance) :
    next.activity.Anchored (distance + 1) ∧
      next.machine = (machine.nest machine.frame).inFrame machine.fresh := by
  cases leads
  exact ⟨anchored, rfl⟩

/-- The parts of other code are anchored as the code is. -/
theorem Leads.anchored {task next : Task} {distance : Nat} (leads : Leads task next)
    (isCode : task.activity.IsCode) (nextCode : next.activity.IsCode)
    (noBlock : ∀ body, task.activity ≠ .execute (.block body))
    (anchored : task.activity.Anchored distance) : next.activity.Anchored distance := by
  cases leads with
  | assignValue => exact fun _ member => anchored _ (List.mem_cons_of_mem _ member)
  | unaryOperand => exact anchored
  | binaryLeft => exact fun _ member => anchored _ (List.mem_append_left _ member)
  | binaryRight _ => exact fun _ member => anchored _ (List.mem_append_right _ member)
  | logicalLeft => exact fun _ member => anchored _ (List.mem_append_left _ member)
  | logicalRight _ _ => exact fun _ member => anchored _ (List.mem_append_right _ member)
  | groupingInner => exact anchored
  | callCallee => exact fun _ member => anchored _ (List.mem_append_left _ member)
  | callArguments _ => exact fun _ member => anchored _ (List.mem_append_right _ member)
  | getObject => exact anchored
  | setObject => exact fun _ member => anchored _ (List.mem_append_left _ member)
  | setValue _ => exact fun _ member => anchored _ (List.mem_append_right _ member)
  | evaluateFirst => exact fun _ member => anchored _ (List.mem_append_left _ member)
  | evaluateRest _ => exact fun _ member => anchored _ (List.mem_append_right _ member)
  | expressionValue => exact anchored
  | printValue => exact anchored
  | declareValue => exact anchored _ rfl
  | blockBody => exact absurd rfl (noBlock _)
  | @branchCondition _ _ _ _ elseBranch _ =>
      cases elseBranch with
      | none => exact anchored.1
      | some branch => exact anchored.1
  | @branchThen _ _ _ _ elseBranch _ _ _ _ _ =>
      cases elseBranch with
      | none => exact anchored.2
      | some branch => exact anchored.2.1
  | branchElse _ _ => exact anchored.2.2
  | loopStart => exact anchored
  | returnValue => exact anchored _ rfl
  | classSuperclass =>
      intro reference member
      cases List.mem_singleton.1 member
      exact ⟨nofun, nofun⟩
  | executeFirst => exact anchored.1
  | executeRest _ => exact anchored.2
  | loopCondition => exact anchored.1
  | loopBody _ _ => exact anchored.2
  | loopAgain _ _ _ => exact anchored
  | _ => first | exact nextCode.elim | exact isCode.elim

/-- Code of a method stands as many scopes inside of the one that holds its object as there are
frames in between. -/
theorem Activates.anchored {steps room : Nat} {method : Closure} {object : Value}
    {machine : Machine} {task : Task}
    (bound : Visited (.start config clock) history
      ⟨steps, room, .bindMethod method object, machine⟩)
    (activates : Activates (Visited (.start config clock) history) (machine.boundMethod method)
      task) :
    task.activity.IsCode ∧ ∃ distance, task.activity.Anchored distance ∧
      task.machine.frames.frameAt task.machine.frame distance = .ok machine.fresh := by
  induction activates with
  | @body _ _ arguments current call =>
      have heap := (visited_sound call).heap
      obtain ⟨-, ⟨name, methods, layers, created, -, -, -, places⟩, -⟩ := visited_sound bound
      have anchored := Stmt.anchoredFunction_of_right
        (fun place member => Accepted.right place (places place member))
        (distanceIn_cons (.ofReceiver name methods) layers "this")
      exact ⟨trivial, 1, anchored.body, Machine.frameAt_entering heap.nested call.captured arguments 0⟩
  | @part task next inside leads nextCode ih =>
      obtain ⟨isCode, distance, anchored, reached⟩ := ih
      have visited := inside.visited
      have nested := (visited_sound visited).heap.nested
      have grown := (leads.within visited).1.preserves.frames
      refine ⟨nextCode, ?_⟩
      rcases task with ⟨steps, room, activity, machine⟩
      by_cases isBlock : ∃ body, activity = .execute (.block body)
      · obtain ⟨body, rfl⟩ := isBlock
        obtain ⟨further, isMachine⟩ := leads.anchored_block anchored
        refine ⟨distance + 1, further, ?_⟩
        have link : next.machine.frames.parent? next.machine.frame = some machine.frame := by
          rw [isMachine]
          exact (Forest.parent?_alloc ..).trans (if_pos rfl)
        rw [Forest.frameAt_succ link, grown.frameAt nested visited.plain.inside]
        exact reached
      · have noBlock : ∀ body, activity ≠ .execute (.block body) := fun body same =>
          isBlock ⟨body, same⟩
        have stays : next.machine.frame = machine.frame := by
          refine leads.stays noBlock fun closure arguments isCall => ?_
          rw [isCall] at isCode
          exact isCode
        refine ⟨distance, leads.anchored isCode nextCode noBlock anchored, ?_⟩
        rw [stays, grown.frameAt nested visited.plain.inside]
        exact reached
  | @nested _ _ _ _ declaration arguments creating other inside call ih =>
      obtain ⟨-, distance, anchored, reached⟩ := ih
      have visited := inside.visited
      have nested := (visited_sound visited).heap.nested
      have otherNested := (visited_sound call).heap.nested
      refine ⟨trivial, distance + 1, Stmt.AnchoredFunction.body anchored, ?_⟩
      refine (Machine.frameAt_entering otherNested call.captured arguments distance).trans ?_
      -- the way outwards is the same in both machines, whichever is the later one
      rcases visited.comparable call with later | earlier
      · exact (later.preserves.frames.frameAt nested visited.plain.inside distance).trans reached
      · exact (earlier.preserves.frames.frameAt otherNested call.captured distance).symm.trans
          reached

/-! ### What the frames hold -/

section Held

variable {steps room : Nat} {machine : Machine} {task : Task}

/-- Something that was done before a frame was used is over. -/
theorem Visited.before {earlier : Task} (done : Visited (.start config clock) history earlier)
    (visited : Visited (.start config clock) history task) (alone : ∀ part, ¬Leads earlier part)
    (notCode : ¬earlier.activity.IsCode) (isCode : task.activity.IsCode)
    (inside : earlier.machine.fresh < task.machine.frames.frames.size) :
    earlier.final.Preserves task.machine := by
  refine (done.after visited alone ?_ ?_).preserves
  · rintro rfl
    exact notCode isCode
  · intro becomes
    exact absurd inside (Nat.not_lt.2 becomes.preserves.frames.grows)

/-- The frame that a method was bound in holds the object, for ever, and it is nested in the frame
that the method captured. -/
theorem Visited.holds_receiver {method : Closure} {object : Value}
    (bound : Visited (.start config clock) history
      ⟨steps, room, .bindMethod method object, machine⟩)
    (visited : Visited (.start config clock) history task) (isCode : task.activity.IsCode)
    (inside : machine.fresh < task.machine.frames.frames.size) :
    task.machine.frames.local? machine.fresh "this" = some object ∧
      task.machine.frames.parent? machine.fresh = some method.frame := by
  have preserves : (machine.withReceiver method object).Preserves task.machine :=
    bound.before visited (fun part leads => nomatch leads) id isCode inside
  have exists' : machine.fresh < (machine.withReceiver method object).frames.frames.size := by
    simp [Machine.withReceiver, Machine.defining, Machine.nest, Machine.fresh]
  constructor
  · rw [preserves.reserved machine.fresh exists' "this" (.inl rfl)]
    simp [Machine.withReceiver, Machine.defining, Machine.nest, Machine.fresh,
      Forest.local?_define]
  · rw [preserves.frames.parents machine.fresh exists']
    simp [Machine.withReceiver, Machine.defining, Machine.nest, Machine.fresh,
      Forest.parent?_alloc]

/-- The frame that was created for the methods of a class holds its superclass, for ever. -/
theorem Visited.holds_superclass {name : Ident} {cls : Class} {methods : List (Function Distance)}
    (declared : Visited (.start config clock) history
      ⟨steps, room, .declareClass name (some cls) methods, machine⟩)
    (visited : Visited (.start config clock) history task) (isCode : task.activity.IsCode)
    (inside : machine.fresh < task.machine.frames.frames.size) :
    task.machine.frames.local? machine.fresh "super" = some (.class_ cls) := by
  obtain ⟨table, identity, identities, -, made, -⟩ :=
    Run.newClass_spec name (some cls) methods machine
  have preserves : Machine.Preserves (Run.last (Run.newClass name (some cls) methods machine))
      task.machine :=
    declared.before visited (fun part leads => nomatch leads) id isCode inside
  rw [made] at preserves
  have other : machine.frame ≠ machine.fresh := Nat.ne_of_lt declared.plain.inside
  rw [preserves.reserved machine.fresh (by simp [Run.last, Machine.methodSpace, Machine.defining,
    Machine.nest, Machine.fresh]) "super" (.inr rfl)]
  simp only [Run.last, Machine.methodSpace, Machine.defining, Forest.local?_define, other, false_and,
    ↓reduceIte, true_and]
  rw [if_pos (by simp [Machine.nest, Machine.fresh])]

/-- Frames that code runs in never hold `super`. -/
theorem Visited.holds_no_superclass {other : Task}
    (running : Visited (.start config clock) history other)
    (visited : Visited (.start config clock) history task)
    (inside : other.machine.frame < task.machine.frames.frames.size) :
    task.machine.frames.local? other.machine.frame "super" = none := by
  have none := running.plain.unreserved "super" (.inr rfl)
  rcases running.comparable visited with later | earlier
  · rw [later.preserves.reserved _ running.plain.inside "super" (.inr rfl)]
    exact none
  · rw [← earlier.preserves.reserved _ inside "super" (.inr rfl)]
    exact none

end Held

/-! ### `this` and `super` -/

/-- The methods of a class were created by its declaration: each is found by its name, and all
captured the frame that holds the superclass. -/
theorem Class.Created.declares {cls : Class}
    (created : cls.Created (Visited (.start config clock) history)) {word : String}
    {method : Closure} (own : cls.methods.get? word = some method) :
    ∃ steps room name methods machine,
      (method.Named word ∧ method.frame = machine.methodFrame cls.superclass) ∧
      Visited (.start config clock) history
        ⟨steps, room, .declareClass name cls.superclass methods, machine⟩ := by
  rcases created with ⟨task, creates, isClass⟩
  rename_i steps room name superclass methods machine following
  obtain ⟨table, identity, identities, -, made, origin⟩ :=
    Run.newClass_spec name superclass methods machine
  cases made.symm.trans creates
  have inside := Nat.lt_of_lt_of_le task.plain.inside
    (Machine.methodSpace_extends machine superclass).grows
  simp only [Machine.defining, Forest.local?_define, inside, and_self, ↓reduceIte,
    Option.some.injEq, Value.class_.injEq] at isClass
  subst isClass
  obtain ⟨⟨-, named⟩, captures⟩ := origin word method own
  exact ⟨steps, room, name, methods, machine, ⟨named, captures⟩, task⟩

/-- The methods of a class captured the frame that holds its superclass. -/
theorem Class.Created.captures {cls : Class}
    (created : cls.Created (Visited (.start config clock) history)) {word : String}
    {method : Closure} (own : cls.methods.get? word = some method) :
    ∃ steps room name methods machine, method.frame = machine.methodFrame cls.superclass ∧
      Visited (.start config clock) history
        ⟨steps, room, .declareClass name cls.superclass methods, machine⟩ := by
  obtain ⟨steps, room, name, methods, machine, ⟨-, captures⟩, task⟩ := created.declares own
  exact ⟨steps, room, name, methods, machine, captures, task⟩

/-- However a method was come by, in its code and in the functions declared in it, whenever those
are called, `this` is the object that the method was bound to, and a method of `super` is the one
that is found in the superclass of the class that the method was declared in, bound to the same
object. -/
theorem Session.receiver_static {steps room left levels : Nat} {cls : Class} {word : String}
    {method : Closure} {object : Value} {machine current : Machine} {e : Expr Distance}
    (created : cls.Created (Visited (.start config clock) history))
    (own : cls.methods.get? word = some method)
    (bound : Visited (.start config clock) history
      ⟨steps, room, .bindMethod method object, machine⟩)
    (runs : Activates (Visited (.start config clock) history) (machine.boundMethod method)
      ⟨left + 1, levels + 1, .evaluate e, current⟩) :
    (∀ keyword binding, e = .receiver keyword binding →
      eval (left + 1) (levels + 1) e current = .ok object current) ∧
    ∀ keyword binding name, e = .superMethod keyword binding name →
      ∃ parent, cls.superclass = some parent ∧
        eval (left + 1) (levels + 1) e current =
          match parent.findMethod? name.text with
          | some found => (Value.function <$> Run.bindMethod found object) current
          | none =>
              .error (.error { cause := .undefinedProperty name.text, line := name.line })
                current := by
  have visited := runs.visited
  have nested := (visited_sound visited).heap.nested
  obtain ⟨-, distance, anchored, reached⟩ := runs.anchored bound
  have inside : machine.fresh < current.frames.frames.size :=
    Nat.lt_of_le_of_lt (nested.frameAt_le reached) visited.plain.inside
  obtain ⟨holds, link⟩ := bound.holds_receiver visited trivial inside
  have object_found : current.frames.getAt current.frame distance "this" = .ok object :=
    Forest.getAt_of_frameAt reached holds
  constructor
  · rintro keyword binding rfl
    cases (anchored _ (List.mem_singleton_self _)).1 rfl
    simp only [eval, Run.readName, Run.readAt, Run.readFrom, object_found]
  · rintro keyword binding name rfl
    cases (anchored _ (List.mem_singleton_self _)).2 rfl
    have reachedOuter : current.frames.frameAt current.frame (distance + 1) = .ok method.frame := by
      rw [Forest.frameAt_add reached, Forest.frameAt_succ link]
      rfl
    have outerInside : method.frame < current.frames.frames.size :=
      Nat.lt_of_le_of_lt (nested.frameAt_le reachedOuter) visited.plain.inside
    obtain ⟨_, _, _, _, before, captures, declared⟩ := created.captures own
    cases isSuperclass : cls.superclass with
    | none =>
        -- then the method captured a frame that code runs in, and `super` could not be found there
        rw [isSuperclass] at captures
        obtain ⟨other, parent, receiver, sameBinding, found, -⟩ :=
          visited.resolved.superMethod keyword _ name rfl
        obtain ⟨owner, isOwner, isBound⟩ := Forest.getAt_eq_ok found
        cases sameBinding
        cases reachedOuter.symm.trans isOwner
        rw [captures] at isBound outerInside
        rw [Machine.methodFrame, declared.holds_no_superclass visited outerInside] at isBound
        cases isBound
    | some parent =>
        rw [isSuperclass] at captures declared
        rw [captures] at outerInside reachedOuter
        have parent_found : current.frames.getAt current.frame (distance + 1) "super" =
            .ok (.class_ parent) :=
          Forest.getAt_of_frameAt reachedOuter
            (declared.holds_superclass visited trivial outerInside)
        refine ⟨parent, rfl, ?_⟩
        simp only [eval, Run.superMethod, Run.superMethodAt, bind, EStateM.bind, Run.readAt,
          Run.readFrom, parent_found, Nat.add_sub_cancel, object_found]
        cases parent.findMethod? name.text <;> rfl

end History

/-! ### A sample history -/

/-- An initializer that uses `this` and `super`. -/
def sampleClassSource : String :=
  "{ class A { m() { } } class B < A { init() { this; super.m; } } B(); }"

def sampleReceiver : Expr Distance :=
  .receiver ⟨1, 46⟩ (some 1)

def sampleSuper : Expr Distance :=
  .superMethod ⟨1, 52⟩ (some 2) ⟨"m", ⟨1, 58⟩⟩

def sampleMethod : Function Distance :=
  .mk ⟨"m", ⟨1, 13⟩⟩ [] []

def sampleInitializer : Function Distance :=
  .mk ⟨"init", ⟨1, 37⟩⟩ [] [.expression sampleReceiver, .expression sampleSuper]

/-- The same program with its names bound. -/
def sampleClassBody : List (Stmt Distance) :=
  [.classDecl ⟨"A", ⟨1, 9⟩⟩ none [sampleMethod],
    .classDecl ⟨"B", ⟨1, 29⟩⟩ (some (⟨"A", ⟨1, 33⟩⟩, some 0)) [sampleInitializer],
    .expression (.call (.read ⟨"B", ⟨1, 65⟩⟩ (some 0)) [] ⟨1, 67⟩)]

theorem sampleClass_ran :
    Ran sampleStart [.run sampleClassSource] sampleStart sampleClassSource ⟨25000, 25000⟩
      [.block sampleClassBody] where
  moment := ⟨[], [], rfl, rfl⟩
  available := by with_unfolding_all rfl
  analyzed := by with_unfolding_all rfl

/-- The superclass, its method created in the frame of the block. -/
def sampleSuperclass : Class :=
  .mk 1 "A" none ⟨[("m", ⟨0, sampleMethod, 1, false⟩)]⟩

/-- The subclass, its initializer created in the frame that holds `super`. -/
def sampleSubclass : Class :=
  .mk 3 "B" (some sampleSuperclass) ⟨[("init", ⟨2, sampleInitializer, 2, true⟩)]⟩

/-- A machine that has printed nothing. -/
def sampleMachine (frames : Array (Frame Value)) (frame : FrameId)
    (objects : Array (Bindings Value)) (identities : Nat) : Machine :=
  { frames := ⟨frames⟩, frame, objects, identities, output := #[], clock := fun _ => 0,
    readings := 0 }

def sampleGlobals : Frame Value :=
  ⟨⟨[("clock", .native .clock)]⟩, none⟩

/-- Both classes have been declared. -/
def sampleDeclared : Machine :=
  sampleMachine
    #[sampleGlobals,
      ⟨⟨[("A", .class_ sampleSuperclass), ("B", .class_ sampleSubclass)]⟩, some 0⟩,
      ⟨⟨[("super", .class_ sampleSuperclass)]⟩, some 1⟩] 1 #[] 4

/-- The body of the initializer is about to run. -/
def sampleEntered : Machine :=
  sampleMachine
    #[sampleGlobals,
      ⟨⟨[("A", .class_ sampleSuperclass), ("B", .class_ sampleSubclass)]⟩, some 0⟩,
      ⟨⟨[("super", .class_ sampleSuperclass)]⟩, some 1⟩,
      ⟨⟨[("this", .object 0 sampleSubclass)]⟩, some 2⟩,
      ⟨⟨[]⟩, some 3⟩] 4 #[.empty] 5

/-- The call that creates an object of the subclass. -/
def sampleCall : Expr Distance :=
  .call (.read ⟨"B", ⟨1, 65⟩⟩ (some 0)) [] ⟨1, 67⟩

/-- The subclass is created, and then it is called. -/
theorem sampleClass_called :
    sampleSubclass.Created (Visited sampleStart [.run sampleClassSource]) ∧
      Visited sampleStart [.run sampleClassSource]
        ⟨4611686018427387899 + 3, 24995 + 3, .evaluate sampleCall, sampleDeclared⟩ := by
  have enough : allowance = 4611686018427387899 + 5 := rfl
  have begun : Visited sampleStart [.run sampleClassSource]
      ⟨4611686018427387899 + 5, 24995 + 5, .runProgram [.block sampleClassBody],
        sampleStart.machine⟩ :=
    ⟨_, _, _, _, sampleClass_ran, enough ▸ .refl _⟩
  have block := Visited.closed _ _ begun .programFirst
  have body : Visited sampleStart [.run sampleClassSource]
      ⟨4611686018427387899 + 4, 24995 + 4, .executeAll sampleClassBody,
        sampleMachine #[sampleGlobals, ⟨⟨[]⟩, some 0⟩] 1 #[] 0⟩ :=
    Visited.closed _ _ block .blockBody
  have second : Visited sampleStart [.run sampleClassSource]
      ⟨4611686018427387899 + 4, 24995 + 4, .executeAll (sampleClassBody.drop 1),
        sampleMachine #[sampleGlobals, ⟨⟨[("A", .class_ sampleSuperclass)]⟩, some 0⟩] 1 #[] 2⟩ :=
    Visited.closed _ _ body (.executeRest rfl)
  have subclass := Visited.closed _ _ second .executeFirst
  have declared := Visited.closed _ _ subclass (.classMethods rfl)
  have third : Visited sampleStart [.run sampleClassSource]
      ⟨4611686018427387899 + 4, 24995 + 4, .executeAll (sampleClassBody.drop 2),
        sampleDeclared⟩ :=
    Visited.closed _ _ second (.executeRest rfl)
  have statement := Visited.closed _ _ third .executeFirst
  exact ⟨.declared declared rfl rfl, Visited.closed _ _ statement .expressionValue⟩

/-- The initializer of the subclass is bound to a new object and called. -/
theorem sampleInitializer_called :
    ∃ steps room,
      Visited sampleStart [.run sampleClassSource]
        ⟨steps + 2, room + 2,
          .bindMethod ⟨2, sampleInitializer, 2, true⟩ (.object 0 sampleSubclass),
          sampleDeclared.withObject⟩ ∧
      Visited sampleStart [.run sampleClassSource]
        ⟨steps + 2, room + 2,
          .call (sampleDeclared.withObject.boundMethod ⟨2, sampleInitializer, 2, true⟩) [],
          sampleDeclared.withObject.withReceiver ⟨2, sampleInitializer, 2, true⟩
            (.object 0 sampleSubclass)⟩ := by
  obtain ⟨-, call⟩ := sampleClass_called
  have callee : eval (4611686018427387899 + 2) (24995 + 2) (.read ⟨"B", ⟨1, 65⟩⟩ (some 0))
      sampleDeclared = .ok (.class_ sampleSubclass) sampleDeclared := rfl
  have found : sampleSubclass.initializer? = some ⟨2, sampleInitializer, 2, true⟩ := rfl
  have bound := Visited.closed _ _ call (.constructBind callee rfl rfl found)
  have called := Visited.closed _ _ call (.constructCall callee rfl rfl found)
  exact ⟨4611686018427387899, 24995, bound, called⟩

/-- The body of the initializer is reached. -/
theorem sampleClass_visited :
    ∃ steps room, sampleSubclass.Created (Visited sampleStart [.run sampleClassSource]) ∧
      Visited sampleStart [.run sampleClassSource]
        ⟨steps + 2, room + 2,
          .bindMethod ⟨2, sampleInitializer, 2, true⟩ (.object 0 sampleSubclass),
          sampleDeclared.withObject⟩ ∧
      Activates (Visited sampleStart [.run sampleClassSource])
        (sampleDeclared.withObject.boundMethod ⟨2, sampleInitializer, 2, true⟩)
        ⟨steps + 2, room + 2, .executeAll sampleInitializer.body, sampleEntered⟩ := by
  obtain ⟨steps, room, bound, called⟩ := sampleInitializer_called
  exact ⟨steps, room, sampleClass_called.1, bound, .body called⟩

theorem Session.receiver_static_sample :
    ∃ steps room, Visited sampleStart [.run sampleClassSource]
        ⟨steps + 1, room + 1, .evaluate sampleReceiver, sampleEntered⟩ ∧
      eval (steps + 1) (room + 1) sampleReceiver sampleEntered =
        .ok (.object 0 sampleSubclass) sampleEntered ∧
      eval (steps + 1) (room + 1) sampleSuper sampleEntered =
        (Value.function <$> Run.bindMethod ⟨0, sampleMethod, 1, false⟩ (.object 0 sampleSubclass))
          sampleEntered := by
  obtain ⟨steps, room, created, bound, body⟩ := sampleClass_visited
  have own : sampleSubclass.methods.get? "init" = some ⟨2, sampleInitializer, 2, true⟩ := rfl
  have first := Activates.part (.part body .executeFirst trivial) .expressionValue trivial
  have rest := Activates.part body (.executeRest rfl) trivial
  have second := Activates.part (.part rest .executeFirst trivial) .expressionValue trivial
  obtain ⟨superclass, isSuperclass, found⟩ :=
    (Session.receiver_static created own bound second).2 _ _ _ rfl
  cases isSuperclass
  exact ⟨steps, room, first.visited, (Session.receiver_static created own bound first).1 _ _ rfl,
    found⟩

end LoxLang
