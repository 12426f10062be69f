/-
Module: LoxLang.Proofs.Run.Safety
Purpose: Nothing goes wrong inside a run.  A task that begins as it should ends without a fault if
  everything it leads to does; this holds for every task by induction on the steps that are left.
Main exports: Task.settles_of_parts, Task.settles, Reaches.sound
-/
import LoxLang.Proofs.Run.Parts
import LoxLang.Proofs.Run.Unfolding

namespace LoxLang

variable {visited : Task → Prop} {accepted : Place → Prop}

/-! ### Operators -/

theorem UnaryOp.apply_valid {op : UnaryOp} {operand value : Value} {forest : Forest Value}
    (applied : op.apply operand = .ok value) : value.Valid visited accepted forest := by
  unfold UnaryOp.apply at applied
  split at applied <;> cases applied <;> trivial

theorem BinaryOp.apply_valid {op : BinaryOp} {left right value : Value} {forest : Forest Value}
    (applied : op.apply left right = .ok value) : value.Valid visited accepted forest := by
  have numbers : ∀ first second, (op.applyNumbers first second).Valid visited accepted forest := by
    intro first second
    cases op <;> trivial
  unfold BinaryOp.apply at applied
  split at applied <;> cases applied <;> first | trivial | exact numbers _ _

/-! ### Tasks settle if their parts do -/

section Parts

variable {steps room : Nat} {machine : Machine}

/-- A step that stops for a lawful reason before it has changed anything. -/
theorem Keeps.stopped {α : Type} {good : α → Forest Value → Prop} {stop : Stop}
    (heap : HeapSound visited accepted machine.frames machine.objects) (lawful : stop.Lawful) :
    Keeps visited accepted machine good (.error stop machine) :=
  ⟨.refl machine, heap, lawful⟩

/-- Looking up a method opens the frame that mirrors the scope of `this`. -/
theorem bindMethod_settles {method : Closure} {receiver : Value}
    (isVisited : visited ⟨steps, room, .bindMethod method receiver, machine⟩)
    (sound : Task.Sound visited accepted ⟨steps, room, .bindMethod method receiver, machine⟩) :
    Task.Settles visited accepted ⟨steps, room, .bindMethod method receiver, machine⟩ := by
  obtain ⟨heap, ⟨name, methods, layers, created, made, before, mirrors, places⟩, valid, isObject⟩ :=
    sound
  have nested := heap.nest (mirrors.inside heap.root.1)
  have grown := Forest.Extends.define (machine.frames.alloc (some method.frame)).2 machine.fresh
    "this" receiver
  have grownAll := (Forest.Extends.alloc machine.frames (some method.frame)).trans grown
  have holdsObject : ((machine.withReceiver method receiver).frames.local? machine.fresh
      "this").isSome := by
    simp [Machine.withReceiver, Machine.defining, Machine.nest, Forest.local?_define,
      Machine.fresh]
  refine ⟨⟨grownAll, rfl⟩, ?_, .ofReceiver name methods :: layers, _, .bound isVisited, .refl _,
    ?_, places, fun _ => holdsObject⟩
  · apply nested.define (valid.mono grownAll)
    · intro _
      exact isObject
    · intro isSuper
      exact absurd isSuper (by decide)
  · refine mirrors.push (.receiver isVisited made before grownAll) grown ?_
    intro word member
    cases List.mem_singleton.1 member
    exact holdsObject

/-- Declaring a class opens the frame that mirrors the scope of `super`, if there is one. -/
theorem declareClass_settles {name : Ident} {superclass : Option Class}
    {methods : List (Function Distance)}
    (isVisited : visited ⟨steps, room, .declareClass name superclass methods, machine⟩)
    (sound : Task.Sound visited accepted
      ⟨steps, room, .declareClass name superclass methods, machine⟩) :
    Task.Settles visited accepted
      ⟨steps, room, .declareClass name superclass methods, machine⟩ := by
  rcases sound with ⟨heap, layers, mirrors, unreserved, places, validSuper⟩
  have inside := mirrors.inside heap.root.1
  obtain ⟨table, identity, identities, -, made, origin⟩ :=
    Run.newClass_spec name superclass methods machine
  have extended := machine.methodSpace_extends superclass
  have spaceHeap := Machine.methodSpace_heap heap inside validSuper
  let cls : Class := .mk identity name.text superclass table
  let final := (machine.methodSpace superclass).frames.define machine.frame name.text (.class_ cls)
  have finalExtends : (machine.methodSpace superclass).frames.Extends final := .define ..
  have nameBound : (final.local? machine.frame name.text).isSome := by
    have insideSpace := Nat.lt_of_lt_of_le inside extended.grows
    simp [final, Forest.local?_define, insideSpace]
  have outer : Mirrors visited final (declareInnermost name.text layers) machine.frame :=
    (mirrors.mono (extended.trans finalExtends)).declare nameBound
  -- the frame of the methods mirrors what is around them, but for the scope of `this`
  have methodLayers : ∃ around, Mirrors visited final around (machine.methodFrame superclass) ∧
      Stmt.layersOfMethods layers name superclass.isSome methods =
        .ofReceiver name methods :: around := by
    cases superclass with
    | none => exact ⟨_, outer, rfl⟩
    | some parent =>
        refine ⟨.ofSuperclass name methods :: declareInnermost name.text layers, ?_, rfl⟩
        have grown : (machine.frames.alloc (some machine.frame)).2.Extends final :=
          (Forest.Extends.define ..).trans finalExtends
        refine .nested (.superclass isVisited (extended.trans finalExtends)) ?_ ?_ outer
        · rw [grown.parents _ (by simp [Machine.methodFrame, Machine.fresh]), Forest.parent?_alloc]
          exact if_pos rfl
        · intro word member
          cases List.mem_singleton.1 member
          apply finalExtends.keeps
          simp [Machine.methodSpace, Machine.methodFrame, Machine.defining, Machine.nest,
            Forest.local?_define, Machine.fresh]
  rcases methodLayers with ⟨around, aroundMirrors, same⟩
  rw [same] at places
  have classValid : cls.Valid visited accepted final := by
    apply Class.Valid.mk
    · refine .declared isVisited made ?_
      simp [Machine.defining, Forest.local?_define, Nat.lt_of_lt_of_le inside extended.grows]
    · intro word method found
      obtain ⟨⟨isMethod, -⟩, captures⟩ := origin word method found
      refine ⟨name, methods, around, _, .declared isVisited isMethod captures, finalExtends, ?_,
        Stmt.throughout_placesMethods places isMethod⟩
      rw [captures]
      exact aroundMirrors
    · intro parent isParent
      exact (validSuper parent isParent).mono (extended.trans finalExtends)
  have valueValid : Value.Valid visited accepted final (.class_ cls) := classValid
  have finalHeap : HeapSound visited accepted final (machine.methodSpace superclass).objects :=
    spaceHeap.declare valueValid unreserved
  have unchanged : (machine.methodSpace superclass).frame = machine.frame := by
    cases superclass <;> rfl
  simp only [Task.Settles, made]
  exact ⟨⟨extended.trans finalExtends, unchanged⟩, finalHeap, nameBound⟩

/-- Calling a value runs its body, if it is a function or a class. -/
theorem invoke_keeps {function : Value} {values : List Value} (line : Nat)
    (heap : HeapSound visited accepted machine.frames machine.objects)
    (valid : function.Valid visited accepted machine.frames)
    (runs : ∀ closure, function = .function closure → values.length = closure.arity →
      Task.Settles visited accepted ⟨steps, room, .call closure values, machine⟩)
    (constructs : ∀ cls initializer, function = .class_ cls → values.length = cls.arity →
      cls.initializer? = some initializer →
      Task.Settles visited accepted ⟨steps, room,
        .bindMethod initializer (.object machine.objects.size cls), machine.withObject⟩ ∧
      Task.Settles visited accepted ⟨steps, room,
        .call (machine.withObject.boundMethod initializer) values,
        machine.withObject.withReceiver initializer (.object machine.objects.size cls)⟩) :
    Keeps visited accepted machine (fun value forest => value.Valid visited accepted forest)
      (invoke (exec steps room) function values line machine) := by
  cases function with
  | native builtIn =>
      cases builtIn
      simp only [invoke, Value.arity?]
      split
      · exact ⟨⟨.refl _, rfl⟩, heap, trivial⟩
      · exact .stopped heap trivial
  | function closure =>
      simp only [invoke, Value.arity?]
      split
      next fits => exact runs closure rfl fits
      next => exact .stopped heap trivial
  | class_ cls =>
      simp only [invoke, Value.arity?]
      split
      next fits =>
        rw [construct_eq]
        cases found : cls.initializer? with
        | none => exact ⟨⟨.refl _, rfl⟩, heap.addObject, valid⟩
        | some initializer =>
            obtain ⟨binds, calls⟩ := constructs cls initializer rfl fits found
            obtain ⟨boundOn, -, -⟩ := binds.bound
            have begun : Continues machine (machine.withObject.withReceiver initializer
                (.object machine.objects.size cls)) :=
              ⟨boundOn.frames, boundOn.frame⟩
            simp only [Task.Settles] at calls
            dsimp only
            generalize invokeWith (exec steps room) (machine.withObject.boundMethod initializer)
              values (machine.withObject.withReceiver initializer
                (.object machine.objects.size cls)) = result at calls ⊢
            cases result with
            | error stop following => exact calls.after begun
            | ok value following =>
                obtain ⟨continues, heapAfter, -⟩ := calls
                have objectValid : Value.Valid visited accepted machine.frames
                    (.object machine.objects.size cls) := valid
                exact ⟨begun.trans continues, heapAfter,
                  objectValid.mono (begun.trans continues).frames⟩
      next => exact .stopped heap trivial
  | _ => exact .stopped heap trivial

theorem getProperty_keeps (steps room line : Nat) {object : Value} {name : Ident}
    (heap : HeapSound visited accepted machine.frames machine.objects)
    (binds : ∀ id cls method, object = .object id cls → (machine.fields id).get? name.text = none →
      cls.findMethod? name.text = some method →
      Task.Settles visited accepted ⟨steps, room, .bindMethod method object, machine⟩) :
    Keeps visited accepted machine (fun value forest => value.Valid visited accepted forest)
      (Run.getProperty object name.text line machine) := by
  cases object with
  | object id cls =>
      simp only [Run.getProperty]
      cases isField : (machine.fields id).get? name.text with
      | some value => exact ⟨.refl machine, heap, heap.fields id name.text value isField⟩
      | none =>
          cases found : cls.findMethod? name.text with
          | some method => exact (binds id cls method rfl isField found).bound
          | none => exact .stopped heap trivial
  | _ => exact .stopped heap trivial

theorem superMethod_keeps (steps room : Nat) {sight : Sight} {keyword : Position}
    {binding : Distance} {method : Ident}
    (heap : HeapSound visited accepted machine.frames machine.objects)
    (sees : Sees visited machine.frames sight machine.frame)
    (right : Reference.Right sight
      { kind := .superMethod, name := { text := "super", position := keyword }
        binding := binding })
    (binds : ∀ distance cls receiver found, binding = some distance →
      machine.frames.getAt machine.frame distance "super" = .ok (.class_ cls) →
      machine.frames.getAt machine.frame (distance - 1) "this" = .ok receiver →
      cls.findMethod? method.text = some found →
      Task.Settles visited accepted ⟨steps, room, .bindMethod found receiver, machine⟩) :
    Keeps visited accepted machine (fun value forest => value.Valid visited accepted forest)
      (Run.superMethod method binding machine) := by
  obtain ⟨distance, cls, object, isBound, hasClass, hasObject, -⟩ := sees.superMethod heap right
  subst isBound
  simp only [Run.superMethod, Run.superMethodAt, bind, EStateM.bind, Run.readAt, Run.readFrom,
    hasClass, Nat.add_sub_cancel, hasObject]
  cases isFound : cls.findMethod? method.text with
  | none => exact .stopped heap trivial
  | some found => exact (binds (distance + 1) cls object found rfl hasClass hasObject isFound).bound

/-- An expression settles if its parts do. -/
theorem evaluate_settles (rightly : ∀ place, accepted place → place.Right) {e : Expr Distance}
    (sound : Task.Sound visited accepted ⟨steps + 1, room + 1, .evaluate e, machine⟩)
    (parts : ∀ part, Leads ⟨steps + 1, room + 1, .evaluate e, machine⟩ part →
      part.Settles visited accepted) :
    Task.Settles visited accepted ⟨steps + 1, room + 1, .evaluate e, machine⟩ := by
  rcases sound with ⟨heap, sight, sees, places⟩
  simp only [Task.Settles, eval_succ]
  cases e with
  | literal value => cases value <;> exact ⟨.refl machine, heap, trivial⟩
  | read name binding => exact readName_keeps heap sees (rightly _ (throughout_cons.1 places).1)
  | assign name binding value =>
      have right : Reference.Right sight { kind := .write, name := name, binding := binding } :=
        rightly _ (throughout_cons.1 places).1
      refine Keeps.bind (parts _ .assignValue).evaluates fun _ continues heap valid => ?_
      refine Keeps.bind (writeName_keeps heap (continues.sees sees) right valid)
        fun _ continuesOn heap _ => ?_
      exact ⟨.refl _, heap, Value.Valid.mono valid continuesOn.frames⟩
  | unary op position operand =>
      refine Keeps.bind (parts _ .unaryOperand).evaluates fun _ _ heap _ => ?_
      exact ofExcept_keeps _ heap fun _ applied => UnaryOp.apply_valid applied
  | binary left op position right =>
      refine Keeps.bind (parts _ .binaryLeft).evaluates fun result _ _ _ => ?_
      refine Keeps.bind (parts _ (.binaryRight result)).evaluates fun _ _ heap _ => ?_
      exact ofExcept_keeps _ heap fun _ applied => BinaryOp.apply_valid applied
  | logical left op right =>
      refine Keeps.bind (parts _ .logicalLeft).evaluates fun {value _} result _ heap valid => ?_
      cases decided : op.decides value with
      | true =>
          simp only [↓reduceIte]
          exact ⟨.refl _, heap, valid⟩
      | false =>
          simp only [Bool.false_eq_true, ↓reduceIte]
          exact parts _ (.logicalRight result decided)
  | grouping inner => exact parts _ .groupingInner
  | call callee arguments close =>
      refine Keeps.bind (parts _ .callCallee).evaluates fun result _ _ valid => ?_
      refine Keeps.bind (parts _ (.callArguments result)).evaluatesAll fun resultAll continues heap _ => ?_
      refine invoke_keeps close.line heap (Value.Valid.mono valid continues.frames) ?_ ?_
      · intro closure isFunction fits
        subst isFunction
        exact parts _ (.callFunction result resultAll fits)
      · intro cls initializer isClass fits found
        subst isClass
        exact ⟨parts _ (.constructBind result resultAll fits found),
          parts _ (.constructCall result resultAll fits found)⟩
  | get object name =>
      refine Keeps.bind (parts _ .getObject).evaluates fun result _ heap _ => ?_
      refine getProperty_keeps steps room name.line heap ?_
      intro id cls method isObject noField found
      subst isObject
      exact parts _ (.getMethod result noField found)
  | set object name value =>
      refine Keeps.bind (parts _ .setObject).evaluates fun {target _} result _ heap _ => ?_
      cases target with
      | object id cls =>
          refine Keeps.bind (parts _ (.setValue result)).evaluates fun _ _ heap valid => ?_
          exact ⟨⟨.refl _, rfl⟩, heap.setField valid, valid⟩
      | _ => exact .stopped heap trivial
  | receiver keyword binding =>
      have right := rightly _ (throughout_cons.1 places).1
      obtain ⟨distance, object, isBound, found, -⟩ := sees.receiver heap right
      obtain ⟨owner, -, bound⟩ := Forest.getAt_eq_ok found
      subst isBound
      simp only [Expr.evaluating, Run.readName, Run.readAt, Run.readFrom, found]
      exact ⟨.refl machine, heap, heap.stored owner _ object bound⟩
  | superMethod keyword binding method =>
      refine superMethod_keeps steps room heap sees (rightly _ (throughout_cons.1 places).1) ?_
      intro distance cls receiver found isBound superclass object isFound
      subst isBound
      exact parts _ (.superBind superclass object isFound)

/-- Coming back from code that ran in another frame. -/
theorem Keeps.comeBack {α : Type} {entered : Machine} {good : α → Forest Value → Prop}
    {result : EStateM.Result Stop Machine α}
    (keeps : Keeps visited accepted entered good result)
    (extended : machine.frames.Extends entered.frames) :
    Keeps visited accepted machine good (Run.cameBack machine.frame result) := by
  cases result with
  | error stop inner => exact ⟨⟨extended.trans keeps.1.frames, rfl⟩, keeps.2.1, keeps.2.2⟩
  | ok value inner => exact ⟨⟨extended.trans keeps.1.frames, rfl⟩, keeps.2.1, keeps.2.2⟩

theorem completing_keeps {step : Run Unit} {s : Stmt Distance} {frame : FrameId}
    (keeps : Keeps visited accepted machine (fun _ forest => ∀ name, s.declared? = some name →
      (forest.local? frame name.text).isSome) (step machine)) :
    Keeps visited accepted machine (s.Completes visited accepted frame)
      (completing step machine) := by
  unfold completing
  cases result : step machine with
  | error stop following =>
      rw [result] at keeps
      exact keeps
  | ok _ following =>
      rw [result] at keeps
      exact ⟨keeps.1, keeps.2.1, trivial, fun _ => keeps.2.2⟩

/-- An expression that may be missing. -/
theorem evalOpt_keeps {value : Option (Expr Distance)}
    (heap : HeapSound visited accepted machine.frames machine.objects)
    (settles : ∀ e, value = some e →
      Task.Settles visited accepted ⟨steps, room, .evaluate e, machine⟩) :
    Keeps visited accepted machine (fun value forest => value.Valid visited accepted forest)
      (evalOpt (eval steps room) value machine) := by
  cases value with
  | none => exact ⟨.refl machine, heap, trivial⟩
  | some e => exact settles e rfl

/-- A statement that declares nothing completes if what it yields is valid. -/
theorem Stmt.completes_of_declared?_eq_none {s : Stmt Distance} {frame : FrameId}
    {completion : Completion} {forest : Forest Value} (statement : s.declared? = none)
    (valid : completion.Valid visited accepted forest) :
    s.Completes visited accepted frame completion forest := by
  refine ⟨valid, fun _ name declares => ?_⟩
  rw [statement] at declares
  cases declares

/-- A function is declared in the frame that it captures. -/
theorem function_settles (rightly : ∀ place, accepted place → place.Right)
    {declaration : Function Distance}
    (isVisited : visited ⟨steps + 1, room + 1, .execute (.function declaration), machine⟩)
    (sound : Task.Sound visited accepted
      ⟨steps + 1, room + 1, .execute (.function declaration), machine⟩) :
    Task.Settles visited accepted
      ⟨steps + 1, room + 1, .execute (.function declaration), machine⟩ := by
  rcases sound with ⟨heap, layers, mirrors, places⟩
  obtain ⟨declared, inFunction⟩ := throughout_cons.1 places
  have unreserved : declaration.name.Unreserved := rightly _ declared
  have inside := mirrors.inside heap.root.1
  let value : Value := .function (machine.newFunction declaration)
  let final := machine.frames.define machine.frame declaration.name.text value
  have extended : machine.frames.Extends final := .define ..
  have nameBound : (final.local? machine.frame declaration.name.text).isSome := by
    simp [final, Forest.local?_define, inside]
  have valid : value.Valid visited accepted final := by
    refine ⟨_, _, .declared isVisited, extended, (mirrors.mono extended).declare nameBound,
      inFunction, ?_⟩
    intro isInitializer
    cases isInitializer
  have finalHeap : HeapSound visited accepted final machine.objects :=
    heap.declare valid unreserved
  refine ⟨⟨extended, rfl⟩, finalHeap, trivial, ?_⟩
  intro _ name isName
  cases isName
  exact nameBound

/-- A statement settles if its parts do. -/
theorem execute_settles (rightly : ∀ place, accepted place → place.Right) {s : Stmt Distance}
    (isVisited : visited ⟨steps + 1, room + 1, .execute s, machine⟩)
    (sound : Task.Sound visited accepted ⟨steps + 1, room + 1, .execute s, machine⟩)
    (parts : ∀ part, Leads ⟨steps + 1, room + 1, .execute s, machine⟩ part →
      part.Settles visited accepted) :
    Task.Settles visited accepted ⟨steps + 1, room + 1, .execute s, machine⟩ := by
  have heap : HeapSound visited accepted machine.frames machine.objects := sound.heap
  simp only [Task.Settles, exec_succ]
  cases s with
  | expression value =>
      refine Keeps.bind (parts _ .expressionValue).evaluates fun _ _ heap _ => ?_
      exact ⟨.refl _, heap, Stmt.completes_of_declared?_eq_none rfl trivial⟩
  | print value =>
      refine Keeps.bind (parts _ .printValue).evaluates fun _ _ heap _ => ?_
      exact ⟨⟨.refl _, rfl⟩, heap, Stmt.completes_of_declared?_eq_none rfl trivial⟩
  | declare name initializer =>
      rcases sound with ⟨-, layers, mirrors, places⟩
      have unreserved : name.Unreserved := rightly _ (throughout_cons.1 places).1
      have first : Keeps visited accepted machine _ (evalOpt (eval steps room) initializer machine) :=
        evalOpt_keeps heap fun e isSome => by
          subst isSome
          exact parts _ .declareValue
      refine Keeps.bind first fun _ continues heap valid => ?_
      have inside := (continues.mirrors mirrors).inside heap.root.1
      have defined := define_keeps (heap.assign valid unreserved) inside
      refine completing_keeps (defined.mono ?_)
      intro _ forest bound other declares
      cases declares
      rw [continues.frame] at bound
      exact bound
  | block body =>
      have inner := parts _ .blockBody
      simp only [Task.Settles] at inner
      rw [Stmt.executing, Run.within_newFrame_eq]
      refine (inner.comeBack (.alloc ..)).mono ?_
      intro completion forest valid
      exact Stmt.completes_of_declared?_eq_none rfl valid
  | branch condition thenBranch elseBranch =>
      have statement : ∀ {completion : Completion} {forest : Forest Value},
          completion.Valid visited accepted forest →
          (Stmt.branch condition thenBranch elseBranch).Completes visited accepted machine.frame
            completion forest :=
        fun valid => Stmt.completes_of_declared?_eq_none rfl valid
      refine Keeps.bind (parts _ .branchCondition).evaluates fun {value _} result _ heap _ => ?_
      cases holds : value.isTrue with
      | true =>
          simp only [↓reduceIte]
          exact (parts _ (.branchThen result holds)).executes.mono fun _ _ completes =>
            statement completes.1
      | false =>
          simp only [Bool.false_eq_true, ↓reduceIte]
          cases elseBranch with
          | none => exact ⟨.refl _, heap, statement trivial⟩
          | some branch =>
              exact (parts _ (.branchElse result holds)).executes.mono fun _ _ completes =>
                statement completes.1
  | loop condition body =>
      have inner := parts _ .loopStart
      simp only [Task.Settles] at inner
      refine inner.mono ?_
      intro completion forest valid
      exact Stmt.completes_of_declared?_eq_none rfl valid
  | ret keyword value =>
      have first : Keeps visited accepted machine _ (evalOpt (eval steps room) value machine) :=
        evalOpt_keeps heap fun e isSome => by
          subst isSome
          exact parts _ .returnValue
      refine Keeps.bind first fun _ _ heap valid => ?_
      exact ⟨.refl _, heap, Stmt.completes_of_declared?_eq_none rfl valid⟩
  | function declaration =>
      rw [← exec_succ]
      exact function_settles rightly isVisited sound
  | classDecl name superclass methods =>
      rcases sound with ⟨-, layers, mirrors, places⟩
      refine Keeps.bind (superclass_sound rightly heap mirrors places) fun result continues _ _ => ?_
      have declares := parts _ (.classMethods result)
      simp only [Task.Settles] at declares
      refine completing_keeps (declares.mono ?_)
      intro _ forest bound other isName
      cases isName
      rw [continues.frame] at bound
      exact bound

/-- A loop settles if its condition, its body and the loop after them do. -/
theorem repeatLoop_settles {condition : Expr Distance} {body : Stmt Distance}
    (parts : ∀ part, Leads ⟨steps + 1, room, .repeatLoop condition body, machine⟩ part →
      part.Settles visited accepted) :
    Task.Settles visited accepted ⟨steps + 1, room, .repeatLoop condition body, machine⟩ := by
  simp only [Task.Settles, execLoop_succ]
  refine Keeps.bind (parts _ .loopCondition).evaluates fun {value _} result _ heap _ => ?_
  cases holds : value.isTrue with
  | false =>
      simp only [Bool.false_eq_true, ↓reduceIte]
      exact ⟨.refl _, heap, trivial⟩
  | true =>
      simp only [↓reduceIte]
      refine Keeps.bind (parts _ (.loopBody result holds)).executes
        fun {completion _} ran _ heap completes => ?_
      cases completion with
      | normal => exact parts _ (.loopAgain result holds ran)
      | returning value => exact ⟨.refl _, heap, completes.1⟩

theorem evaluateAll_settles {es : List (Expr Distance)}
    (heap : HeapSound visited accepted machine.frames machine.objects)
    (parts : ∀ part, Leads ⟨steps, room, .evaluateAll es, machine⟩ part →
      part.Settles visited accepted) :
    Task.Settles visited accepted ⟨steps, room, .evaluateAll es, machine⟩ := by
  cases es with
  | nil => exact ⟨.refl machine, heap, fun _ member => nomatch member⟩
  | cons e rest =>
      simp only [Task.Settles, evalAll]
      refine Keeps.bind (parts _ .evaluateFirst).evaluates fun result _ _ valid => ?_
      refine Keeps.bind (parts _ (.evaluateRest result)).evaluatesAll
        fun _ continues heap validAll => ?_
      exact ⟨.refl _, heap, List.forall_mem_cons.2 ⟨valid.mono continues.frames, validAll⟩⟩

theorem executeAll_settles {body : List (Stmt Distance)}
    (heap : HeapSound visited accepted machine.frames machine.objects)
    (parts : ∀ part, Leads ⟨steps, room, .executeAll body, machine⟩ part →
      part.Settles visited accepted) :
    Task.Settles visited accepted ⟨steps, room, .executeAll body, machine⟩ := by
  cases body with
  | nil => exact ⟨.refl machine, heap, trivial⟩
  | cons s rest =>
      simp only [Task.Settles, execAll_cons]
      refine Keeps.bind (parts _ .executeFirst).executes
        fun {completion _} result _ heap completes => ?_
      cases completion with
      | normal => exact parts _ (.executeRest result)
      | returning value => exact ⟨.refl _, heap, completes.1⟩

theorem runProgram_settles {program : Program Distance}
    (heap : HeapSound visited accepted machine.frames machine.objects)
    (parts : ∀ part, Leads ⟨steps, room, .runProgram program, machine⟩ part →
      part.Settles visited accepted) :
    Task.Settles visited accepted ⟨steps, room, .runProgram program, machine⟩ := by
  cases program with
  | nil => exact ⟨.refl machine, heap, trivial⟩
  | cons s rest =>
      simp only [Task.Settles, execProgram_cons]
      exact Keeps.bind (parts _ .programFirst).executes fun result _ _ _ =>
        parts _ (.programRest result)

/-- A call settles if the body does.  The frame that an initializer captured still holds its
object. -/
theorem call_settles {closure : Closure} {arguments : List Value}
    (sound : Task.Sound visited accepted ⟨steps, room, .call closure arguments, machine⟩)
    (parts : ∀ part, Leads ⟨steps, room, .call closure arguments, machine⟩ part →
      part.Settles visited accepted) :
    Task.Settles visited accepted ⟨steps, room, .call closure arguments, machine⟩ := by
  rcases sound with ⟨heap, ⟨layers, created, made, before, mirrors, places, holdsObject⟩, -, -⟩
  have body := parts _ .callBody
  simp only [Task.Settles] at body
  have returned := body.comeBack (machine.entering_extends closure arguments)
  simp only [Task.Settles, invokeWith_eq]
  generalize Run.cameBack machine.frame (execAll (exec steps room) closure.declaration.body
    (machine.entering closure arguments)) = result at returned ⊢
  cases result with
  | error stop following => exact returned
  | ok completion following =>
      obtain ⟨continues, heapAfter, valid⟩ := returned
      cases isInitializer : closure.isInitializer with
      | false =>
          simp only [Bool.false_eq_true, ↓reduceIte]
          exact ⟨continues, heapAfter, valid⟩
      | true =>
          have stillHolds := continues.frames.keeps _ _ (holdsObject isInitializer)
          obtain ⟨object, isObject⟩ := Option.isSome_iff_exists.1 stillHolds
          have found : following.frames.getAt closure.frame 0 "this" = .ok object :=
            Forest.getAt_of_frameAt rfl isObject
          simp only [↓reduceIte, Run.readFrom, found]
          exact ⟨continues, heapAfter, heapAfter.stored _ _ object isObject⟩

end Parts

/-- A sound task settles if all its parts do. -/
theorem Task.settles_of_parts (rightly : ∀ place, accepted place → place.Right) {task : Task}
    (isVisited : visited task) (sound : task.Sound visited accepted)
    (parts : ∀ part, Leads task part → part.Settles visited accepted) :
    task.Settles visited accepted := by
  rcases task with ⟨steps, room, activity, machine⟩
  have heap : HeapSound visited accepted machine.frames machine.objects := sound.heap
  cases activity with
  | evaluate e =>
      cases steps with
      | zero => exact ⟨.refl machine, heap, trivial⟩
      | succ steps =>
          cases room with
          | zero => exact ⟨.refl machine, heap, trivial⟩
          | succ room => exact evaluate_settles rightly sound parts
  | execute s =>
      cases steps with
      | zero => exact ⟨.refl machine, heap, trivial⟩
      | succ steps =>
          cases room with
          | zero => exact ⟨.refl machine, heap, trivial⟩
          | succ room => exact execute_settles rightly isVisited sound parts
  | repeatLoop condition body =>
      cases steps with
      | zero => exact ⟨.refl machine, heap, trivial⟩
      | succ steps => exact repeatLoop_settles parts
  | evaluateAll es => exact evaluateAll_settles heap parts
  | executeAll body => exact executeAll_settles heap parts
  | call closure arguments => exact call_settles sound parts
  | bindMethod method receiver => exact bindMethod_settles isVisited sound
  | declareClass name superclass methods => exact declareClass_settles isVisited sound
  | runProgram program => exact runProgram_settles heap parts

/-! ### All tasks -/

/-- Every sound task settles, since the tasks that it leads to do. -/
theorem Task.settles (rightly : ∀ place, accepted place → place.Right)
    (closed : ∀ task next, visited task → Leads task next → visited next) (task : Task)
    (isVisited : visited task) (sound : task.Sound visited accepted) :
    task.Settles visited accepted := by
  induction task using Leads.wellFounded.induction with
  | h task ih =>
      have settled : ∀ part, Leads task part → part.Sound visited accepted →
          part.Settles visited accepted :=
        fun part leads => ih part leads (closed task part isVisited leads)
      apply Task.settles_of_parts rightly isVisited sound
      intro part leads
      exact settled part leads (leads.sound rightly isVisited sound settled)

/-- Everything that is reached from a sound task is sound. -/
theorem Reaches.sound (rightly : ∀ place, accepted place → place.Right)
    (closed : ∀ task next, visited task → Leads task next → visited next) {task last : Task}
    (reaches : Reaches task last) (isVisited : visited task)
    (sound : task.Sound visited accepted) : last.Sound visited accepted := by
  have both : visited last ∧ last.Sound visited accepted := by
    induction reaches with
    | refl => exact ⟨isVisited, sound⟩
    | @step middle last first leads ih =>
        rcases ih with ⟨middleVisited, middleSound⟩
        refine ⟨closed middle last middleVisited leads, ?_⟩
        apply leads.sound rightly middleVisited middleSound
        intro part toPart partSound
        exact Task.settles rightly closed part (closed middle part middleVisited toPart) partSound
  exact both.2

end LoxLang
