/-
Module: LoxLang.Proofs.Run.Deed
Purpose: What a task does itself.  Its parts are done one after the other, with nothing before,
  between and after them but deeds of its own; so what is true of every deed is true of every task.
Main exports: Deed, ChainedBy, Task.chainedByDeeds, Deed.change, Chained, Task.chained
-/
import LoxLang.Proofs.Run.Change
import LoxLang.Proofs.Run.Division
import LoxLang.Proofs.Run.Unfolding
import LoxLang.Proofs.Scope.Anchor

namespace LoxLang

/-! ### Deeds -/

/-- Where an assignment goes: to the frame at the distance that binding gave, or to the frame that
binds the name among the globals. -/
def Machine.Assigns (machine : Machine) (name : Ident) : Distance → FrameId → Prop
  | some distance, owner => machine.frames.frameAt machine.frame distance = .ok owner
  | none, owner => machine.frames.find? name.text Machine.globalFrame = some owner

/-- What a task does to the machine itself, apart from its parts. -/
inductive Deed : Task → Machine → Machine → Prop where
  /-- Something that leaves all frames as they are. -/
  | aside {task : Task} {machine later : Machine} (change : machine.Change later)
      (same : later.frames = machine.frames) : Deed task machine later
  | nest {task : Task} {machine : Machine} (parent : FrameId) :
      Deed task machine (machine.nest parent)
  | assign {steps room : Nat} {name : Ident} {binding : Distance} {value : Expr Distance}
      {machine following : Machine} {result : Value} {owner : FrameId}
      (evaluated : eval steps room value machine = .ok result following)
      (isOwner : following.Assigns name binding owner) :
      Deed ⟨steps + 1, room + 1, .evaluate (.assign name binding value), machine⟩ following
        (following.defining owner name.text result)
  | declare {steps room : Nat} {name : Ident} {initializer : Option (Expr Distance)}
      {machine following : Machine} {value : Value}
      (evaluated : evalOpt (eval steps room) initializer machine = .ok value following) :
      Deed ⟨steps + 1, room + 1, .execute (.declare name initializer), machine⟩ following
        (following.defining following.frame name.text value)
  | declareFunction {steps room : Nat} {declaration : Function Distance}
      {machine counted : Machine} {value : Value} :
      Deed ⟨steps, room, .execute (.function declaration), machine⟩ counted
        (counted.defining machine.frame declaration.name.text value)
  | declareClass {steps room : Nat} {name : Ident} {superclass : Option Class}
      {methods : List (Function Distance)} {machine space : Machine} {value : Value} :
      Deed ⟨steps, room, .declareClass name superclass methods, machine⟩ space
        (space.defining machine.frame name.text value)
  | inherit {steps room : Nat} {name : Ident} {cls : Class} {methods : List (Function Distance)}
      {machine : Machine} :
      Deed ⟨steps, room, .declareClass name (some cls) methods, machine⟩ machine
        (machine.methodSpace (some cls))
  | passArgument {steps room : Nat} {closure : Closure} {arguments : List Value}
      {machine current : Machine} {name : Ident} {value : Value}
      (isParameter : name ∈ closure.declaration.parameters) :
      Deed ⟨steps, room, .call closure arguments, machine⟩ current
        (current.defining machine.fresh name.text value)
  | receive {steps room : Nat} {method : Closure} {receiver : Value} {machine : Machine} :
      Deed ⟨steps, room, .bindMethod method receiver, machine⟩ machine
        (machine.withReceiver method receiver)

/-- What a task does to the machine by some deeds of its own. -/
abbrev Task.Does (task : Task) : Machine → Machine → Prop :=
  Relation.ReflTransGen (Deed task)

theorem Task.does_aside {task : Task} {machine later : Machine} (change : machine.Change later)
    (same : later.frames = machine.frames) : task.Does machine later :=
  .single (.aside change same)

/-! ### One part after the other -/

/-- Whether tasks can be done one after the other, from one machine to another, with nothing but
steps of a given kind before, between and after them. -/
def ChainedBy (step : Machine → Machine → Prop) : Machine → List Task → Machine → Prop
  | machine, [], last => Relation.ReflTransGen step machine last
  | machine, part :: parts, last =>
      Relation.ReflTransGen step machine part.machine ∧ ChainedBy step part.final parts last

namespace ChainedBy

variable {step other : Machine → Machine → Prop} {machine middle last : Machine}
  {parts : List Task} {part : Task}

theorem before (first : Relation.ReflTransGen step machine middle)
    (chained : ChainedBy step middle parts last) : ChainedBy step machine parts last := by
  cases parts with
  | nil => exact first.trans chained
  | cons part parts => exact ⟨first.trans chained.1, chained.2⟩

theorem after (chained : ChainedBy step machine parts middle)
    (then_ : Relation.ReflTransGen step middle last) : ChainedBy step machine parts last := by
  induction parts generalizing machine with
  | nil => exact Relation.ReflTransGen.trans chained then_
  | cons part parts ih => exact ⟨chained.1, ih chained.2⟩

theorem append {more : List Task} (chained : ChainedBy step machine parts middle)
    (goesOn : ChainedBy step middle more last) : ChainedBy step machine (parts ++ more) last := by
  induction parts generalizing machine with
  | nil => exact goesOn.before chained
  | cons part parts ih => exact ⟨chained.1, ih chained.2⟩

theorem one (begins : Relation.ReflTransGen step machine part.machine)
    (ends : Relation.ReflTransGen step part.final last) : ChainedBy step machine [part] last :=
  ⟨begins, ends⟩

section Sequences

variable {α β : Type} {first : Run α} {next : α → Run β} {rest : α → Machine → List Task}

/-- Steps one after the other: the parts of the first, and then, if it yields something, those of
the next. -/
theorem sequence (chained : ChainedBy step machine parts (Run.last (first machine)))
    (goesOn : ∀ value following, first machine = .ok value following →
      ChainedBy step following (rest value following) (Run.last (next value following))) :
    ChainedBy step machine (parts ++ Run.following (first machine) rest)
      (Run.last ((first >>= next) machine)) := by
  simp only [Bind.bind, EStateM.bind]
  cases result : first machine with
  | ok value following =>
      rw [result] at chained
      exact chained.append (goesOn value following result)
  | error stop following =>
      rw [result] at chained
      rw [Run.following, List.append_nil]
      exact chained

/-- A part, and then what follows if it yields something. -/
theorem partThen (begins : part.machine = machine) (isFirst : part.final = Run.last (first machine))
    (goesOn : ∀ value following, first machine = .ok value following →
      ChainedBy step following (rest value following) (Run.last (next value following))) :
    ChainedBy step machine (part :: Run.following (first machine) rest)
      (Run.last ((first >>= next) machine)) := by
  have chained : ChainedBy step machine [part] (Run.last (first machine)) :=
    .one (begins ▸ .refl) (isFirst ▸ .refl)
  exact chained.sequence goesOn

/-- What a task does itself with what its last part yields. -/
theorem andThen (chained : ChainedBy step machine parts (Run.last (first machine)))
    (goesOn : ∀ value following, first machine = .ok value following →
      Relation.ReflTransGen step following (Run.last (next value following))) :
    ChainedBy step machine parts (Run.last ((first >>= next) machine)) := by
  simp only [Bind.bind, EStateM.bind]
  cases result : first machine with
  | ok value following =>
      rw [result] at chained
      exact chained.after (goesOn value following result)
  | error stop following =>
      rw [result] at chained
      exact chained

end Sequences

theorem mono (chained : ChainedBy step machine parts last)
    (weaker : ∀ machine later, step machine later → other machine later) :
    ChainedBy other machine parts last := by
  induction parts generalizing machine with
  | nil => exact Relation.ReflTransGen.mono weaker _ _ chained
  | cons part parts ih => exact ⟨Relation.ReflTransGen.mono weaker _ _ chained.1, ih chained.2⟩

/-- What holds from before to after every step and every part holds from before to after all. -/
theorem lift {kept : Machine → Machine → Prop} (refl : ∀ machine, kept machine machine)
    (trans : ∀ machine middle later, kept machine middle → kept middle later → kept machine later)
    (single : ∀ machine later, step machine later → kept machine later)
    (each : ∀ part ∈ parts, kept part.machine part.final)
    (chained : ChainedBy step machine parts last) : kept machine last := by
  have steps : ∀ machine later, Relation.ReflTransGen step machine later → kept machine later := by
    intro machine later some
    induction some with
    | refl => exact refl machine
    | tail _ next ih => exact trans _ _ _ ih (single _ _ next)
  induction parts generalizing machine with
  | nil => exact steps machine last chained
  | cons part parts ih =>
      have here := each part List.mem_cons_self
      have rest := ih (fun other member => each other (List.mem_cons_of_mem part member)) chained.2
      exact trans _ _ _ (trans _ _ _ (steps _ _ chained.1) here) rest

end ChainedBy

section Steps

variable {steps room : Nat} {machine : Machine}

theorem last_readName (name : Ident) (binding : Distance) (machine : Machine) :
    Run.last (Run.readName name binding machine) = machine := by
  cases binding with
  | none =>
      simp only [Run.readName, Run.readGlobal]
      split <;> rfl
  | some distance =>
      simp only [Run.readName, Run.readAt, Run.readFrom]
      split <;> rfl

/-- An assignment, once the value is there. -/
theorem does_writeName {value : Expr Distance} {result : Value} {following : Machine}
    (name : Ident) (binding : Distance)
    (evaluated : eval steps room value machine = .ok result following) :
    Task.Does ⟨steps + 1, room + 1, .evaluate (.assign name binding value), machine⟩ following
      (Run.last (Run.writeName name result binding following)) := by
  cases binding with
  | none =>
      simp only [Run.writeName, Run.writeGlobal]
      split
      next owner found => exact .single (.assign evaluated found)
      next => exact .refl
  | some distance =>
      simp only [Run.writeName, Run.writeAt]
      split
      next owner reached => exact .single (.assign evaluated reached)
      next => exact .refl

theorem last_ofExcept {α : Type} (line : Nat) (result : Except RuntimeCause α)
    (machine : Machine) : Run.last (Run.ofExcept line result machine) = machine := by
  cases result <;> rfl

theorem last_thenReturn {α β : Type} (step : Run α) (value : β) (machine : Machine) :
    Run.last ((step >>= fun _ => return value) machine) = Run.last (step machine) := by
  simp only [Bind.bind, EStateM.bind]
  cases step machine <;> rfl

theorem last_completing (step : Run Unit) (machine : Machine) :
    Run.last (completing step machine) = Run.last (step machine) := by
  unfold completing
  cases step machine <;> rfl

theorem last_evalSuperclass (superclass : Option (Ident × Distance)) (machine : Machine) :
    Run.last (evalSuperclass superclass machine) = machine := by
  cases superclass with
  | none => rfl
  | some parent =>
      have isLast := last_readName parent.1 parent.2 machine
      simp only [evalSuperclass, bind, EStateM.bind]
      cases result : Run.readName parent.1 parent.2 machine with
      | error stop following =>
          rw [result] at isLast
          exact isLast
      | ok value following =>
          rw [result] at isLast
          cases value <;> exact isLast

theorem does_newClass (name : Ident) (superclass : Option Class)
    (methods : List (Function Distance)) (machine : Machine) :
    Task.Does ⟨steps, room, .declareClass name superclass methods, machine⟩ machine
      (Run.last (Run.newClass name superclass methods machine)) := by
  obtain ⟨table, identity, identities, ⟨above, below⟩, made, -⟩ :=
    Run.newClass_spec name superclass methods machine
  have more : machine.identities ≤ identities := Nat.le_of_lt (Nat.lt_of_le_of_lt above below)
  rw [made]
  cases superclass with
  | none => exact .tail (.single .declareClass) (.aside (.count more) rfl)
  | some cls => exact .head .inherit (.tail (.single .declareClass) (.aside (.count more) rfl))

theorem does_definingAll {closure : Closure} {arguments : List Value} (current : Machine)
    {names : List Ident} (areParameters : ∀ name ∈ names, name ∈ closure.declaration.parameters)
    (values : List Value) :
    Task.Does ⟨steps, room, .call closure arguments, machine⟩ current
      (current.definingAll machine.fresh names values) := by
  induction names generalizing values current with
  | nil => exact .refl
  | cons name names ih =>
      cases values with
      | nil => exact .refl
      | cons value values =>
          obtain ⟨isParameter, rest⟩ := List.forall_mem_cons.1 areParameters
          exact .head (.passArgument isParameter) (ih _ rest values)

/-- Beginning the body of a function. -/
theorem does_entering (closure : Closure) (arguments : List Value) (machine : Machine) :
    Task.Does ⟨steps, room, .call closure arguments, machine⟩ machine
      (machine.entering closure arguments) := by
  have bound : Task.Does ⟨steps, room, .call closure arguments, machine⟩ _ _ :=
    does_definingAll (machine.nest closure.frame) (fun _ isParameter => isParameter) arguments
  exact .head (.nest closure.frame) (.tail bound (.aside (.move _ machine.fresh) rfl))

/-- A call comes back to the frame it was made in. -/
theorem does_invokeWith (task : Task) (closure : Closure) (arguments : List Value)
    (machine : Machine) :
    task.Does (Run.last (execAll (exec steps room) closure.declaration.body
        (machine.entering closure arguments)))
      (Run.last (invokeWith (exec steps room) closure arguments machine)) := by
  rw [invokeWith_eq]
  cases execAll (exec steps room) closure.declaration.body
      (machine.entering closure arguments) with
  | error stop following => exact Task.does_aside (.move following machine.frame) rfl
  | ok completion following =>
      have comesBack : task.Does following (following.inFrame machine.frame) :=
        Task.does_aside (.move following machine.frame) rfl
      simp only [Run.cameBack]
      split
      · simp only [Run.readFrom]
        split <;> exact comesBack
      · exact comesBack

namespace ChainedBy

theorem invoke (task : Task) (function : Value) (values : List Value) (line : Nat) (machine : Machine) :
    ChainedBy (Deed task) machine (callParts steps room function values machine)
      (Run.last (invoke (exec steps room) function values line machine)) := by
  cases function with
  | native builtIn =>
      cases builtIn
      simp only [LoxLang.invoke, Value.arity?]
      split
      · exact Task.does_aside (.readClock machine) rfl
      · exact .refl
  | function closure =>
      by_cases fits : values.length = closure.arity
      · simp only [LoxLang.invoke, Value.arity?, callParts, fits, ↓reduceIte]
        exact .one .refl .refl
      · simp only [LoxLang.invoke, Value.arity?, callParts, fits, ↓reduceIte]
        exact .refl
  | class_ cls =>
      have created : task.Does machine machine.withObject :=
        Task.does_aside (.create machine) rfl
      by_cases fits : values.length = cls.arity
      · simp only [LoxLang.invoke, Value.arity?, callParts, fits, ↓reduceIte, construct_eq]
        cases found : cls.initializer? with
        | none => exact created
        | some initializer =>
            refine ⟨created, .refl, ?_⟩
            simp only [Task.final]
            cases invokeWith (exec steps room) (machine.withObject.boundMethod initializer) values
              (machine.withObject.withReceiver initializer
                (.object machine.objects.size cls)) <;> exact .refl
      · simp only [LoxLang.invoke, Value.arity?, callParts, fits, ↓reduceIte]
        cases cls.initializer? <;> exact .refl
  | _ => exact .refl

theorem getProperty (task : Task) (object : Value) (name : String) (line : Nat) (machine : Machine) :
    ChainedBy (Deed task) machine (propertyParts steps room object name machine)
      (Run.last (Run.getProperty object name line machine)) := by
  cases object with
  | object id cls =>
      simp only [Run.getProperty, propertyParts]
      cases isField : (machine.fields id).get? name with
      | some value => exact .refl
      | none =>
          cases found : cls.findMethod? name with
          | some method => exact .one .refl .refl
          | none => exact .refl
  | _ => exact .refl

theorem superMethod (task : Task) (method : Ident) (binding : Distance) (machine : Machine) :
    ChainedBy (Deed task) machine (superParts steps room method machine binding)
      (Run.last (Run.superMethod method binding machine)) := by
  cases binding with
  | none => exact .refl
  | some distance =>
      simp only [superParts, Run.superMethod, Run.superMethodAt, bind, EStateM.bind, Run.readAt,
        Run.readFrom]
      cases superclass : machine.frames.getAt machine.frame distance "super" with
      | error fault => exact .refl
      | ok value =>
          cases object : machine.frames.getAt machine.frame (distance - 1) "this" with
          | error fault =>
              simp only [object]
              cases value <;> exact .refl
          | ok receiver =>
              simp only [object]
              cases value with
              | class_ cls =>
                  simp only
                  cases found : cls.findMethod? method.text with
                  | none => exact .refl
                  | some closure => exact .one .refl .refl
              | _ => exact .refl

theorem evalOpt (task : Task) (steps room : Nat) (value : Option (Expr Distance))
    (machine : Machine) :
    ChainedBy (Deed task) machine
      (value.toList.map fun value => ⟨steps, room, .evaluate value, machine⟩)
      (Run.last (evalOpt (eval steps room) value machine)) := by
  cases value with
  | none => exact .refl
  | some e => exact .one .refl .refl

/-- The parts of an expression. -/
theorem evaluate (e : Expr Distance) :
    ChainedBy (Deed ⟨steps + 1, room + 1, .evaluate e, machine⟩) machine
      (e.parts steps room machine) (Run.last (eval (steps + 1) (room + 1) e machine)) := by
  rw [eval_succ]
  cases e with
  | literal value => exact .refl
  | read name binding =>
      simp only [Expr.parts, Expr.evaluating, last_readName]
      exact .refl
  | assign name binding value =>
      refine andThen (.one .refl .refl) fun result following evaluated => ?_
      rw [last_thenReturn]
      exact does_writeName name binding evaluated
  | unary op position operand =>
      refine andThen (.one .refl .refl) fun value following _ => ?_
      rw [last_ofExcept]
  | binary left op position right =>
      refine partThen rfl rfl fun leftValue following _ => ?_
      refine andThen (.one .refl .refl) fun rightValue rest _ => ?_
      rw [last_ofExcept]
  | logical left op right =>
      refine partThen rfl rfl fun value following _ => ?_
      split
      · exact .refl
      · exact .one .refl .refl
  | grouping inner => exact .one .refl .refl
  | call callee arguments close =>
      refine partThen rfl rfl fun function following _ => ?_
      refine partThen rfl rfl fun values rest _ => ?_
      exact .invoke _ function values close.line rest
  | get object name =>
      refine partThen rfl rfl fun value following _ => ?_
      exact .getProperty _ value name.text name.line following
  | set object name value =>
      refine partThen rfl rfl fun target following _ => ?_
      cases target with
      | object id cls =>
          refine andThen (.one .refl .refl) fun result rest _ => ?_
          exact Task.does_aside (.setField rest id name.text result) rfl
      | _ => exact .refl
  | receiver keyword binding =>
      simp only [Expr.parts, Expr.evaluating, last_readName]
      exact .refl
  | superMethod keyword binding method => exact .superMethod _ method binding machine

/-- The parts of a statement. -/
theorem execute (s : Stmt Distance) :
    ChainedBy (Deed ⟨steps + 1, room + 1, .execute s, machine⟩) machine
      (s.parts steps room machine) (Run.last (exec (steps + 1) (room + 1) s machine)) := by
  rw [exec_succ]
  cases s with
  | expression value => exact andThen (.one .refl .refl) fun _ _ _ => .refl
  | print value =>
      refine andThen (.one .refl .refl) fun result following _ => ?_
      exact Task.does_aside (.print following result.text) rfl
  | declare name initializer =>
      refine andThen (evalOpt _ steps room initializer machine) fun value following evaluated => ?_
      rw [last_completing]
      exact .single (.declare evaluated)
  | block body =>
      refine .one ?_ ?_
      · exact .head (.nest machine.frame) (Task.does_aside (.move _ machine.fresh) rfl)
      · rw [Stmt.executing, Run.within_newFrame_eq]
        simp only [Task.final]
        cases execAll (exec steps room) body
          ((machine.nest machine.frame).inFrame machine.fresh) <;>
          exact Task.does_aside (.move _ _) rfl
  | branch condition thenBranch elseBranch =>
      refine partThen rfl rfl fun value following _ => ?_
      split
      · exact .one .refl .refl
      · cases elseBranch with
        | none => exact .refl
        | some branch => exact .one .refl .refl
  | loop condition body => exact .one .refl .refl
  | ret keyword value =>
      exact andThen (evalOpt _ steps room value machine) fun _ _ _ => .refl
  | function declaration =>
      exact .head (.aside (.count (Nat.le_succ machine.identities)) rfl)
        (.single .declareFunction)
  | classDecl name superclass methods =>
      have read : ChainedBy
          (Deed ⟨steps + 1, room + 1, .execute (.classDecl name superclass methods), machine⟩)
          machine (superclass.toList.map fun parent =>
            ⟨steps + 1, room + 1, .evaluate (.read parent.1 parent.2), machine⟩)
          (Run.last (evalSuperclass superclass machine)) := by
        rw [last_evalSuperclass]
        cases superclass with
        | none => exact .refl
        | some parent =>
            refine .one .refl ?_
            simp only [Task.final, eval, last_readName]
            exact .refl
      refine read.sequence fun cls following _ => .one .refl ?_
      rw [last_completing]
      exact .refl

end ChainedBy

/-- A task is its parts, one after the other, and what it does itself. -/
theorem Task.chainedByDeeds (task : Task) :
    ChainedBy (Deed task) task.machine task.parts task.final := by
  rcases task with ⟨steps, room, activity, machine⟩
  cases activity with
  | evaluate e =>
      cases steps with
      | zero => exact .refl
      | succ steps =>
          cases room with
          | zero => exact .refl
          | succ room => exact .evaluate e
  | execute s =>
      cases steps with
      | zero => exact .refl
      | succ steps =>
          cases room with
          | zero => exact .refl
          | succ room => exact .execute s
  | evaluateAll es =>
      cases es with
      | nil => exact .refl
      | cons e es =>
          refine .partThen rfl rfl fun value following _ => ?_
          exact .andThen (.one .refl .refl) fun _ _ _ => .refl
  | executeAll body =>
      cases body with
      | nil => exact .refl
      | cons s body =>
          simp only [Task.final, execAll_cons]
          refine .partThen rfl rfl fun completion following _ => ?_
          cases completion with
          | normal => exact .one .refl .refl
          | returning value => exact .refl
  | repeatLoop condition body =>
      cases steps with
      | zero => exact .refl
      | succ steps =>
          simp only [Task.final, execLoop_succ]
          refine .partThen rfl rfl fun value following _ => ?_
          split
          · refine .partThen rfl rfl fun completion rest _ => ?_
            cases completion with
            | normal => exact .one .refl .refl
            | returning value => exact .refl
          · exact .refl
  | call closure arguments =>
      exact .one (does_entering closure arguments machine)
        (does_invokeWith _ closure arguments machine)
  | bindMethod method receiver => exact .single .receive
  | declareClass name superclass methods => exact does_newClass name superclass methods machine
  | runProgram program =>
      cases program with
      | nil => exact .refl
      | cons s rest =>
          simp only [Task.final, execProgram_cons]
          exact .partThen rfl rfl fun _ _ _ => .one .refl .refl

end Steps

/-! ### Deeds are changes -/

/-- Whether tasks can be done one after the other, from one machine to another, with nothing but
changes before, between and after them. -/
abbrev Chained : Machine → List Task → Machine → Prop :=
  ChainedBy Machine.Change

section Sound

variable {visited : Task → Prop} {accepted : Place → Prop}

/-- No task assigns to a keyword or declares one. -/
theorem Activity.Stands.unreserved (rightly : ∀ place, accepted place → place.Right)
    {machine : Machine} {e : Expr Distance}
    (stands : (Activity.evaluate e).Stands visited accepted machine) (name : Ident)
    (binding : Distance) (value : Expr Distance) (isAssign : e = .assign name binding value) :
    name.Unreserved := by
  obtain ⟨sight, -, places⟩ := stands
  subst isAssign
  exact (rightly _ (throughout_cons.1 places).1).2

theorem Activity.Stands.declares (rightly : ∀ place, accepted place → place.Right)
    {machine : Machine} {s : Stmt Distance}
    (stands : (Activity.execute s).Stands visited accepted machine) (name : Ident)
    (isDeclared : s.declared? = some name) : name.Unreserved := by
  obtain ⟨layers, -, places⟩ := stands
  exact Stmt.declared_of_right (fun place member => rightly _ (places place member)) name isDeclared

theorem Closure.Valid.parameters (rightly : ∀ place, accepted place → place.Right)
    {forest : Forest Value} {closure : Closure} (valid : closure.Valid visited accepted forest) :
    ∀ name ∈ closure.declaration.parameters, name.Unreserved := by
  obtain ⟨layers, created, -, -, -, places, -⟩ := valid
  rw [Stmt.placesFunction_eq, throughout_append] at places
  intro name member
  exact rightly _ (places.1 _ (List.mem_map_of_mem member))

/-- What a sound task does itself are changes that a running program makes. -/
theorem Deed.change (rightly : ∀ place, accepted place → place.Right) {task : Task}
    (sound : task.Sound visited accepted) {machine later : Machine}
    (deed : Deed task machine later) : machine.Change later := by
  obtain ⟨-, stands⟩ := sound
  cases deed with
  | aside change _ => exact change
  | nest parent => exact .nest machine parent
  | assign _ _ => exact .bind (stands.unreserved rightly _ _ _ rfl).not_reserved
  | declare _ => exact .bind (stands.declares rightly _ rfl).not_reserved
  | declareFunction => exact .bind (stands.declares rightly _ rfl).not_reserved
  | declareClass =>
      obtain ⟨layers, -, unreserved, -⟩ := stands
      exact .bind unreserved.not_reserved
  | inherit => exact .inherit machine _
  | passArgument isParameter => exact .bind (stands.1.parameters rightly _ isParameter).not_reserved
  | receive => exact .receive machine _ _

/-- A sound task is its parts, one after the other. -/
theorem Task.chained (rightly : ∀ place, accepted place → place.Right) {task : Task}
    (sound : task.Sound visited accepted) : Chained task.machine task.parts task.final :=
  task.chainedByDeeds.mono fun _ _ deed => deed.change rightly sound

end Sound

end LoxLang
