/-
Module: LoxLang.Proofs.Run.Parts
Purpose: Everything that is done inside a run begins as it should.  What a sound task leads to is
  sound too, given that the parts before it have settled: new frames mirror the scopes they were
  created for.
Main exports: Mirrors.push, Machine.definingAll_heap, Machine.methodSpace_heap, Leads.sound
-/
import LoxLang.Proofs.Run.Sound

namespace LoxLang

variable {visited : Task → Prop} {accepted : Place → Prop}

/-! ### Creating frames -/

/-- A new frame mirrors the scope that it was created for, once the names of the scope are bound
in it. -/
theorem Mirrors.push {forest later : Forest Value} {layers : List Layer} {layer : Layer}
    {parent : FrameId} (outer : Mirrors visited forest layers parent)
    (opened : Opened visited later layer.site forest.frames.size parent)
    (grown : (forest.alloc (some parent)).2.Extends later)
    (bound : ∀ name ∈ layer.names, (later.local? forest.frames.size name).isSome) :
    Mirrors visited later (layer :: layers) forest.frames.size := by
  refine .nested opened ?_ bound (outer.mono ((Forest.Extends.alloc forest _).trans grown))
  rw [grown.parents _ (by simp), Forest.parent?_alloc, if_pos rfl]

namespace Machine

theorem definingAll_extends (machine : Machine) (frame : FrameId) (names : List Ident)
    (values : List Value) :
    machine.frames.Extends (machine.definingAll frame names values).frames := by
  induction names generalizing values machine with
  | nil => exact .refl _
  | cons name names ih =>
      cases values with
      | nil => exact .refl _
      | cons value values =>
          exact (Forest.Extends.define machine.frames frame name.text value).trans
            (ih (machine.defining frame name.text value) values)

theorem entering_extends (machine : Machine) (closure : Closure) (arguments : List Value) :
    machine.frames.Extends (machine.entering closure arguments).frames :=
  (Forest.Extends.alloc machine.frames (some closure.frame)).trans
    (definingAll_extends (machine.nest closure.frame) machine.fresh
      closure.declaration.parameters arguments)

theorem definingAll_heap {machine : Machine} {frame : FrameId} {names : List Ident}
    {values : List Value} (heap : HeapSound visited accepted machine.frames machine.objects)
    (unreserved : ∀ name ∈ names, name.Unreserved)
    (valid : ∀ value ∈ values, value.Valid visited accepted machine.frames) :
    HeapSound visited accepted (machine.definingAll frame names values).frames
      (machine.definingAll frame names values).objects := by
  induction names generalizing values machine with
  | nil => exact heap
  | cons name names ih =>
      cases values with
      | nil => exact heap
      | cons value values =>
          have defined : HeapSound visited accepted
              (machine.defining frame name.text value).frames
              (machine.defining frame name.text value).objects :=
            heap.assign (valid value List.mem_cons_self) (unreserved name List.mem_cons_self)
          apply ih defined
          · intro other member
            exact unreserved other (List.mem_cons_of_mem name member)
          · intro other member
            exact (valid other (List.mem_cons_of_mem value member)).mono (.define ..)

/-- If there is a value for each name, all names are bound. -/
theorem definingAll_bound {machine : Machine} {frame : FrameId} {names : List Ident}
    {values : List Value} (inside : frame < machine.frames.frames.size)
    (enough : values.length = names.length) :
    ∀ name ∈ names,
      ((machine.definingAll frame names values).frames.local? frame name.text).isSome := by
  induction names generalizing values machine with
  | nil => intro name member; cases member
  | cons first names ih =>
      cases values with
      | nil => cases enough
      | cons value values =>
          have insideAfter : frame <
              (machine.defining frame first.text value).frames.frames.size := by
            rw [Machine.defining, Forest.size_define]
            exact inside
          intro name member
          cases List.mem_cons.1 member with
          | inl same =>
              subst same
              apply (definingAll_extends _ frame names values).keeps
              simp [Machine.defining, Forest.local?_define, inside]
          | inr later => exact ih insideAfter (Nat.succ.inj enough) name later

/-- Making room for methods only adds to the frames. -/
theorem methodSpace_extends (machine : Machine) (superclass : Option Class) :
    machine.frames.Extends (machine.methodSpace superclass).frames := by
  cases superclass with
  | none => exact .refl _
  | some cls => exact (Forest.Extends.alloc ..).trans (.define ..)

theorem methodSpace_heap {machine : Machine} {superclass : Option Class}
    (heap : HeapSound visited accepted machine.frames machine.objects)
    (inside : machine.frame < machine.frames.frames.size)
    (valid : ∀ cls ∈ superclass, cls.Valid visited accepted machine.frames) :
    HeapSound visited accepted (machine.methodSpace superclass).frames
      (machine.methodSpace superclass).objects := by
  cases superclass with
  | none => exact heap
  | some cls =>
      have superValid : Value.Valid visited accepted machine.frames (.class_ cls) := valid cls rfl
      apply (heap.nest inside).define
      · exact superValid.mono ((Forest.Extends.alloc ..).trans (.define ..))
      · intro isThis
        exact absurd isThis (by decide)
      · intro _
        exact ⟨cls, rfl⟩

theorem methodFrame_inside {machine : Machine} (inside : machine.frame < machine.frames.frames.size)
    (superclass : Option Class) :
    machine.methodFrame superclass < (machine.methodSpace superclass).frames.frames.size := by
  cases superclass with
  | none => exact inside
  | some cls => simp [methodFrame, methodSpace, defining, nest, fresh]

end Machine

theorem Stmt.placesFunction_eq (layers : List Layer) (declaration : Function Distance) :
    Stmt.placesFunction layers declaration =
      declaration.parameters.map (Stmt.placeOf layers) ++
        Stmt.placesAll (.ofFunction declaration :: layers) declaration.body := by
  cases declaration
  rfl

theorem Stmt.throughout_placesMethods {layers : List Layer} {methods : List (Function Distance)}
    (all : Throughout accepted (Stmt.placesMethods layers methods)) {method : Function Distance}
    (isMethod : method ∈ methods) : Throughout accepted (Stmt.placesFunction layers method) := by
  induction methods with
  | nil => cases isMethod
  | cons first rest ih =>
      obtain ⟨inFirst, inRest⟩ := throughout_append.1 all
      cases List.mem_cons.1 isMethod with
      | inl same => exact same ▸ inFirst
      | inr later => exact ih inRest later

theorem Stmt.throughout_condition {layers : List Layer} {condition : Expr Distance}
    {thenBranch : Stmt Distance} {elseBranch : Option (Stmt Distance)}
    (all : Throughout accepted ((Stmt.branch condition thenBranch elseBranch).places layers)) :
    Throughout accepted (condition.places { layers := layers, pending := none }) := by
  cases elseBranch with
  | none => exact (throughout_append.1 all).1
  | some branch => exact (throughout_append.1 (throughout_append.1 all).1).1

theorem Stmt.throughout_thenBranch {layers : List Layer} {condition : Expr Distance}
    {thenBranch : Stmt Distance} {elseBranch : Option (Stmt Distance)}
    (all : Throughout accepted ((Stmt.branch condition thenBranch elseBranch).places layers)) :
    Throughout accepted (thenBranch.places layers) := by
  cases elseBranch with
  | none => exact (throughout_append.1 all).2
  | some branch => exact (throughout_append.1 (throughout_append.1 all).1).2

theorem Stmt.extend_nil (s : Stmt Distance) : s.extend [] = [] := by
  rw [Stmt.extend]
  cases s.declared? <;> rfl

/-! ### What a settled part gives -/

section Settled

variable {steps room : Nat} {machine following : Machine}

theorem Task.Settles.evaluates {e : Expr Distance}
    (settles : Task.Settles visited accepted ⟨steps, room, .evaluate e, machine⟩) :
    Keeps visited accepted machine (fun value forest => value.Valid visited accepted forest)
      (eval steps room e machine) :=
  settles

theorem Task.Settles.evaluatesAll {es : List (Expr Distance)}
    (settles : Task.Settles visited accepted ⟨steps, room, .evaluateAll es, machine⟩) :
    Keeps visited accepted machine
      (fun values forest => ∀ value ∈ values, value.Valid visited accepted forest)
      (evalAll (eval steps room) es machine) :=
  settles

theorem Task.Settles.executes {s : Stmt Distance}
    (settles : Task.Settles visited accepted ⟨steps, room, .execute s, machine⟩) :
    Keeps visited accepted machine (s.Completes visited accepted machine.frame)
      (exec steps room s machine) :=
  settles

theorem Task.Settles.evaluated {e : Expr Distance} {value : Value}
    (settles : Task.Settles visited accepted ⟨steps, room, .evaluate e, machine⟩)
    (result : eval steps room e machine = .ok value following) :
    Continues machine following ∧
      HeapSound visited accepted following.frames following.objects ∧
      value.Valid visited accepted following.frames :=
  settles.evaluates.of_ok result

theorem Task.Settles.evaluatedAll {es : List (Expr Distance)} {values : List Value}
    (settles : Task.Settles visited accepted ⟨steps, room, .evaluateAll es, machine⟩)
    (result : evalAll (eval steps room) es machine = .ok values following) :
    Continues machine following ∧
      HeapSound visited accepted following.frames following.objects ∧
      ∀ value ∈ values, value.Valid visited accepted following.frames :=
  settles.evaluatesAll.of_ok result

theorem Task.Settles.executed {s : Stmt Distance} {completion : Completion}
    (settles : Task.Settles visited accepted ⟨steps, room, .execute s, machine⟩)
    (result : exec steps room s machine = .ok completion following) :
    Continues machine following ∧
      HeapSound visited accepted following.frames following.objects ∧
      s.Completes visited accepted machine.frame completion following.frames :=
  settles.executes.of_ok result

theorem Task.Settles.bound {method : Closure} {receiver : Value}
    (settles : Task.Settles visited accepted ⟨steps, room, .bindMethod method receiver, machine⟩) :
    Continues machine (machine.withReceiver method receiver) ∧
      HeapSound visited accepted (machine.withReceiver method receiver).frames
        (machine.withReceiver method receiver).objects ∧
      (machine.boundMethod method).Valid visited accepted
        (machine.withReceiver method receiver).frames := by
  simp only [Task.Settles, Run.bindMethod_eq] at settles
  exact settles

end Settled

/-! ### Parts begin as they should -/

/-- The body of a function begins in a frame that mirrors its scope. -/
theorem call_body_sound (rightly : ∀ place, accepted place → place.Right) {steps room : Nat}
    {closure : Closure} {arguments : List Value} {machine : Machine}
    (isVisited : visited ⟨steps, room, .call closure arguments, machine⟩)
    (sound : Task.Sound visited accepted ⟨steps, room, .call closure arguments, machine⟩) :
    Task.Sound visited accepted
      ⟨steps, room, .executeAll closure.declaration.body, machine.entering closure arguments⟩ := by
  rcases sound with ⟨heap, ⟨layers, created, made, before, mirrors, places, -⟩, valid, enough⟩
  rw [Stmt.placesFunction_eq, throughout_append] at places
  have unreserved : ∀ name ∈ closure.declaration.parameters, name.Unreserved := by
    intro name member
    exact rightly _ (places.1 _ (List.mem_map_of_mem member))
  have nested : HeapSound visited accepted (machine.nest closure.frame).frames
      (machine.nest closure.frame).objects :=
    heap.nest (mirrors.inside heap.root.1)
  have insideNew : machine.fresh < (machine.nest closure.frame).frames.frames.size := by
    simp [Machine.nest, Machine.fresh]
  have grown := Machine.definingAll_extends (machine.nest closure.frame) machine.fresh
    closure.declaration.parameters arguments
  constructor
  · apply Machine.definingAll_heap nested unreserved
    intro value member
    exact (valid value member).mono (.alloc ..)
  · refine ⟨.ofFunction closure.declaration :: layers, ?_, places.2⟩
    have opened := machine.entering_extends closure arguments
    refine mirrors.push (.function isVisited made before opened) grown ?_
    intro name member
    obtain ⟨parameter, isParameter, isName⟩ := List.mem_map.1 member
    subst isName
    exact Machine.definingAll_bound insideNew enough parameter isParameter

/-- A block begins in a frame that mirrors its scope. -/
theorem block_body_sound {steps room : Nat} {body : List (Stmt Distance)} {machine : Machine}
    (isVisited : visited ⟨steps + 1, room + 1, .execute (.block body), machine⟩)
    (sound : Task.Sound visited accepted
      ⟨steps + 1, room + 1, .execute (.block body), machine⟩) :
    Task.Sound visited accepted
      ⟨steps, room, .executeAll body, (machine.nest machine.frame).inFrame machine.fresh⟩ := by
  rcases sound with ⟨heap, layers, mirrors, places⟩
  constructor
  · exact heap.nest (mirrors.inside heap.root.1)
  · refine ⟨.ofBlock body :: layers, ?_, places⟩
    refine mirrors.push (.block isVisited (.alloc ..)) (.refl _) ?_
    intro name member
    cases member

/-- The superclass of a class is looked up before the class is declared. -/
theorem superclass_sound (rightly : ∀ place, accepted place → place.Right) {machine : Machine}
    {name : Ident} {superclass : Option (Ident × Distance)} {methods : List (Function Distance)}
    {layers : List Layer} (heap : HeapSound visited accepted machine.frames machine.objects)
    (mirrors : Mirrors visited machine.frames layers machine.frame)
    (places : Throughout accepted ((Stmt.classDecl name superclass methods).places layers)) :
    Keeps visited accepted machine
      (fun cls forest =>
        (∀ found ∈ cls, found.Valid visited accepted forest) ∧ name.Unreserved ∧
          Throughout accepted (Stmt.placesMethods
            (Stmt.layersOfMethods layers name cls.isSome methods) methods))
      (evalSuperclass superclass machine) := by
  cases superclass with
  | none =>
      obtain ⟨declared, inMethods⟩ := throughout_cons.1 places
      exact ⟨.refl machine, heap, (fun _ isSome => nomatch isSome), rightly _ declared,
        inMethods⟩
  | some parent =>
      rcases parent with ⟨superclass, binding⟩
      simp only [Stmt.places, throughout_cons] at places
      rcases places with ⟨declared, read, inMethods⟩
      have unreserved : name.Unreserved := rightly _ declared
      have sees : Sees visited machine.frames { layers := layers, pending := some name.text }
          machine.frame :=
        ⟨mirrors, fun _ same => Option.some.inj same ▸ unreserved⟩
      refine Keeps.bind (readName_keeps heap sees (rightly _ read)) fun {value _} _ _ heap valid => ?_
      cases value with
      | class_ cls =>
          refine ⟨.refl _, heap, ?_, unreserved, inMethods⟩
          intro found isSome
          cases isSome
          exact valid
      | _ => exact ⟨.refl _, heap, trivial⟩

theorem Stmt.Completes.mirrors {machine following : Machine} {layers : List Layer}
    {s : Stmt Distance} (continues : Continues machine following)
    (completes : s.Completes visited accepted machine.frame .normal following.frames)
    (mirrors : Mirrors visited machine.frames layers machine.frame) :
    Mirrors visited following.frames (s.extend layers) following.frame := by
  have after := continues.mirrors mirrors
  cases declares : s.declared? with
  | none =>
      rw [Stmt.extend_of_declared?_eq_none declares]
      exact after
  | some name =>
      rw [Stmt.extend_of_declared?_eq_some declares]
      apply after.declare
      rw [continues.frame]
      exact completes.2 rfl name declares

/-- Where an expression has ended, what stands in the same scope sees what the expression saw. -/
theorem Task.Settles.seesAfter {steps room : Nat} {e : Expr Distance} {value : Value}
    {machine following : Machine} {sight : Sight}
    (settles : Task.Settles visited accepted ⟨steps, room, .evaluate e, machine⟩)
    (result : eval steps room e machine = .ok value following)
    (sees : Sees visited machine.frames sight machine.frame) :
    HeapSound visited accepted following.frames following.objects ∧
      Sees visited following.frames sight following.frame := by
  obtain ⟨continues, heapAfter, -⟩ := settles.evaluated result
  exact ⟨heapAfter, continues.sees sees⟩

/-- Where a condition has ended, its statement still stands in the frame of its scope. -/
theorem Task.Settles.mirrorsAfter {steps room : Nat} {e : Expr Distance} {value : Value}
    {machine following : Machine} {layers : List Layer}
    (settles : Task.Settles visited accepted ⟨steps, room, .evaluate e, machine⟩)
    (result : eval steps room e machine = .ok value following)
    (mirrors : Mirrors visited machine.frames layers machine.frame) :
    HeapSound visited accepted following.frames following.objects ∧
      Mirrors visited following.frames layers following.frame := by
  obtain ⟨continues, heapAfter, -⟩ := settles.evaluated result
  exact ⟨heapAfter, continues.mirrors mirrors⟩

/-- Once the callee and the arguments of a call have been evaluated, they are valid together. -/
theorem Task.Sound.evaluatedCall {steps room : Nat} {callee : Expr Distance}
    {arguments : List (Expr Distance)} {close : Position} {machine following rest : Machine}
    {function : Value} {values : List Value}
    (sound : Task.Sound visited accepted
      ⟨steps + 1, room + 1, .evaluate (.call callee arguments close), machine⟩)
    (parts : ∀ part, Leads ⟨steps + 1, room + 1, .evaluate (.call callee arguments close), machine⟩
      part → part.Sound visited accepted → part.Settles visited accepted)
    (first : eval steps room callee machine = .ok function following)
    (second : evalAll (eval steps room) arguments following = .ok values rest) :
    HeapSound visited accepted rest.frames rest.objects ∧
      function.Valid visited accepted rest.frames ∧
      ∀ value ∈ values, value.Valid visited accepted rest.frames := by
  rcases sound with ⟨heap, sight, sees, places⟩
  obtain ⟨inCallee, inArguments⟩ := throughout_append.1 places
  obtain ⟨continues, heapAfter, valid⟩ :=
    (parts _ .callCallee ⟨heap, sight, sees, inCallee⟩).evaluated first
  obtain ⟨continuesOn, heapThen, validAll⟩ :=
    (parts _ (.callArguments first)
      ⟨heapAfter, sight, continues.sees sees, inArguments⟩).evaluatedAll second
  exact ⟨heapThen, valid.mono continuesOn.frames, validAll⟩

/-- What a sound task leads to begins as it should, if the parts before it have settled. -/
theorem Leads.sound (rightly : ∀ place, accepted place → place.Right) {task next : Task}
    (leads : Leads task next) (isVisited : visited task) (sound : task.Sound visited accepted)
    (parts : ∀ part, Leads task part → part.Sound visited accepted →
      part.Settles visited accepted) :
    next.Sound visited accepted := by
  cases leads with
  | assignValue =>
      rcases sound with ⟨heap, sight, sees, places⟩
      exact ⟨heap, sight, sees, (throughout_cons.1 places).2⟩
  | unaryOperand => exact ⟨sound.heap, sound.stands⟩
  | binaryLeft =>
      rcases sound with ⟨heap, sight, sees, places⟩
      exact ⟨heap, sight, sees, (throughout_append.1 places).1⟩
  | binaryRight first =>
      rcases sound with ⟨heap, sight, sees, places⟩
      obtain ⟨inLeft, inRight⟩ := throughout_append.1 places
      obtain ⟨heapAfter, seesAfter⟩ :=
        (parts _ .binaryLeft ⟨heap, sight, sees, inLeft⟩).seesAfter first sees
      exact ⟨heapAfter, sight, seesAfter, inRight⟩
  | logicalLeft =>
      rcases sound with ⟨heap, sight, sees, places⟩
      exact ⟨heap, sight, sees, (throughout_append.1 places).1⟩
  | logicalRight first _ =>
      rcases sound with ⟨heap, sight, sees, places⟩
      obtain ⟨inLeft, inRight⟩ := throughout_append.1 places
      obtain ⟨heapAfter, seesAfter⟩ :=
        (parts _ .logicalLeft ⟨heap, sight, sees, inLeft⟩).seesAfter first sees
      exact ⟨heapAfter, sight, seesAfter, inRight⟩
  | groupingInner => exact ⟨sound.heap, sound.stands⟩
  | callCallee =>
      rcases sound with ⟨heap, sight, sees, places⟩
      exact ⟨heap, sight, sees, (throughout_append.1 places).1⟩
  | callArguments first =>
      rcases sound with ⟨heap, sight, sees, places⟩
      obtain ⟨inCallee, inArguments⟩ := throughout_append.1 places
      obtain ⟨heapAfter, seesAfter⟩ :=
        (parts _ .callCallee ⟨heap, sight, sees, inCallee⟩).seesAfter first sees
      exact ⟨heapAfter, sight, seesAfter, inArguments⟩
  | callFunction first second fits =>
      obtain ⟨heapThen, valid, validAll⟩ := sound.evaluatedCall parts first second
      exact ⟨heapThen, valid, validAll, fits⟩
  | constructBind first second fits found =>
      obtain ⟨heapThen, valid, -⟩ := sound.evaluatedCall parts first second
      exact ⟨heapThen.addObject, Class.Valid.method valid found, valid, _, _, rfl⟩
  | constructCall first second fits found =>
      obtain ⟨heapThen, valid, validAll⟩ := sound.evaluatedCall parts first second
      have binds := parts _ (.constructBind first second fits found)
        ⟨heapThen.addObject, Class.Valid.method valid found, valid, _, _, rfl⟩
      obtain ⟨goesOn, heapBound, validBound⟩ := binds.bound
      refine ⟨heapBound, validBound, ?_, ?_⟩
      · intro value member
        exact (validAll value member).mono goesOn.frames
      · rw [fits, Class.arity, found]
        rfl
  | getObject => exact ⟨sound.heap, sound.stands⟩
  | getMethod first noField found =>
      rcases sound with ⟨heap, sight, sees, places⟩
      obtain ⟨continues, heapAfter, valid⟩ :=
        (parts _ .getObject ⟨heap, sight, sees, places⟩).evaluated first
      exact ⟨heapAfter, Class.Valid.method valid found, valid, _, _, rfl⟩
  | setObject =>
      rcases sound with ⟨heap, sight, sees, places⟩
      exact ⟨heap, sight, sees, (throughout_append.1 places).1⟩
  | setValue first =>
      rcases sound with ⟨heap, sight, sees, places⟩
      obtain ⟨inObject, inValue⟩ := throughout_append.1 places
      obtain ⟨heapAfter, seesAfter⟩ :=
        (parts _ .setObject ⟨heap, sight, sees, inObject⟩).seesAfter first sees
      exact ⟨heapAfter, sight, seesAfter, inValue⟩
  | superBind superclass object isFound =>
      rcases sound with ⟨heap, -⟩
      obtain ⟨owner, -, boundClass⟩ := Forest.getAt_eq_ok superclass
      obtain ⟨other, -, boundObject⟩ := Forest.getAt_eq_ok object
      have validClass : Class.Valid visited accepted _ _ := heap.stored owner _ _ boundClass
      exact ⟨heap, validClass.method isFound, heap.stored other _ _ boundObject,
        heap.receivers other _ boundObject⟩
  | evaluateFirst =>
      rcases sound with ⟨heap, sight, sees, places⟩
      exact ⟨heap, sight, sees, (throughout_append.1 places).1⟩
  | evaluateRest first =>
      rcases sound with ⟨heap, sight, sees, places⟩
      obtain ⟨inFirst, inRest⟩ := throughout_append.1 places
      obtain ⟨heapAfter, seesAfter⟩ :=
        (parts _ .evaluateFirst ⟨heap, sight, sees, inFirst⟩).seesAfter first sees
      exact ⟨heapAfter, sight, seesAfter, inRest⟩
  | expressionValue =>
      rcases sound with ⟨heap, layers, mirrors, places⟩
      exact ⟨heap, _, mirrors.sees, places⟩
  | printValue =>
      rcases sound with ⟨heap, layers, mirrors, places⟩
      exact ⟨heap, _, mirrors.sees, places⟩
  | declareValue =>
      rcases sound with ⟨heap, layers, mirrors, places⟩
      obtain ⟨declared, inValue⟩ := throughout_cons.1 places
      refine ⟨heap, _, ⟨mirrors, ?_⟩, inValue⟩
      intro name isPending
      exact Option.some.inj isPending ▸ rightly _ declared
  | blockBody => exact block_body_sound isVisited sound
  | @branchCondition _ _ _ _ elseBranch _ =>
      rcases sound with ⟨heap, layers, mirrors, places⟩
      have inCondition := Stmt.throughout_condition places
      exact ⟨heap, _, mirrors.sees, inCondition⟩
  | branchThen first _ =>
      rcases sound with ⟨heap, layers, mirrors, places⟩
      obtain ⟨heapAfter, mirrorsAfter⟩ :=
        (parts _ .branchCondition ⟨heap, _, mirrors.sees,
          Stmt.throughout_condition places⟩).mirrorsAfter first mirrors
      exact ⟨heapAfter, layers, mirrorsAfter, Stmt.throughout_thenBranch places⟩
  | branchElse first _ =>
      rcases sound with ⟨heap, layers, mirrors, places⟩
      obtain ⟨heapAfter, mirrorsAfter⟩ :=
        (parts _ .branchCondition ⟨heap, _, mirrors.sees,
          Stmt.throughout_condition places⟩).mirrorsAfter first mirrors
      exact ⟨heapAfter, layers, mirrorsAfter, (throughout_append.1 places).2⟩
  | loopStart => exact ⟨sound.heap, sound.stands⟩
  | returnValue =>
      rcases sound with ⟨heap, layers, mirrors, places⟩
      exact ⟨heap, _, mirrors.sees, places⟩
  | classSuperclass =>
      rcases sound with ⟨heap, layers, mirrors, places⟩
      simp only [Stmt.places, throughout_cons] at places
      rcases places with ⟨declared, read, -⟩
      refine ⟨heap, { layers := layers, pending := some _ }, ⟨mirrors, ?_⟩,
        throughout_cons.2 ⟨read, throughout_nil⟩⟩
      intro name isPending
      exact Option.some.inj isPending ▸ rightly _ declared
  | classMethods first =>
      rcases sound with ⟨heap, layers, mirrors, places⟩
      have looked := superclass_sound rightly heap mirrors places
      rw [first] at looked
      rcases looked with ⟨continues, heapAfter, valid, unreserved, inMethods⟩
      exact ⟨heapAfter, layers, continues.mirrors mirrors, unreserved, inMethods, valid⟩
  | executeFirst =>
      rcases sound with ⟨heap, layers, mirrors, places⟩
      exact ⟨heap, layers, mirrors, (throughout_append.1 places).1⟩
  | executeRest first =>
      rcases sound with ⟨heap, layers, mirrors, places⟩
      obtain ⟨inFirst, inRest⟩ := throughout_append.1 places
      obtain ⟨continues, heapAfter, completes⟩ :=
        (parts _ .executeFirst ⟨heap, layers, mirrors, inFirst⟩).executed first
      exact ⟨heapAfter, _, completes.mirrors continues mirrors, inRest⟩
  | loopCondition =>
      rcases sound with ⟨heap, layers, mirrors, places⟩
      exact ⟨heap, _, mirrors.sees, (throughout_append.1 places).1⟩
  | loopBody first _ =>
      rcases sound with ⟨heap, layers, mirrors, places⟩
      obtain ⟨inCondition, inBody⟩ := throughout_append.1 places
      obtain ⟨heapAfter, mirrorsAfter⟩ :=
        (parts _ .loopCondition ⟨heap, _, mirrors.sees, inCondition⟩).mirrorsAfter first mirrors
      exact ⟨heapAfter, layers, mirrorsAfter, inBody⟩
  | loopAgain first holds second =>
      rcases sound with ⟨heap, layers, mirrors, places⟩
      obtain ⟨inCondition, inBody⟩ := throughout_append.1 places
      obtain ⟨heapAfter, mirrorsAfter⟩ :=
        (parts _ .loopCondition ⟨heap, _, mirrors.sees, inCondition⟩).mirrorsAfter first mirrors
      obtain ⟨continuesOn, heapThen, -⟩ :=
        (parts _ (.loopBody first holds) ⟨heapAfter, layers, mirrorsAfter, inBody⟩).executed second
      exact ⟨heapThen, layers, continuesOn.mirrors mirrorsAfter, places⟩
  | callBody => exact call_body_sound rightly isVisited sound
  | programFirst =>
      rcases sound with ⟨heap, mirrors, places⟩
      exact ⟨heap, [], mirrors, (throughout_append.1 places).1⟩
  | @programRest _ _ s _ _ _ _ first =>
      rcases sound with ⟨heap, mirrors, places⟩
      obtain ⟨inFirst, inRest⟩ := throughout_append.1 places
      obtain ⟨continues, heapAfter, -⟩ :=
        (parts _ .programFirst ⟨heap, [], mirrors, inFirst⟩).executed first
      rw [s.extend_nil] at inRest
      exact ⟨heapAfter, continues.mirrors mirrors, inRest⟩

end LoxLang
