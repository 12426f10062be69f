/-
Module: LoxLang.Proofs.Run.Division
Purpose: The parts of a task in order, and the machine when a task has been done.
Main exports: Run.last, Task.final, Task.parts, Leads.mem_parts, Task.leads_of_mem_parts
-/
import LoxLang.Proofs.Run.Task

namespace LoxLang

/-! ### Parts in order -/

/-- The machine that a step leaves behind. -/
def Run.last {α : Type} : EStateM.Result Stop Machine α → Machine
  | .ok _ machine => machine
  | .error _ machine => machine

/-- The machine when a task has been done, however it ended. -/
def Task.final (task : Task) : Machine :=
  match task.activity with
  | .evaluate e => Run.last (eval task.steps task.room e task.machine)
  | .evaluateAll es => Run.last (evalAll (eval task.steps task.room) es task.machine)
  | .execute s => Run.last (exec task.steps task.room s task.machine)
  | .executeAll body => Run.last (execAll (exec task.steps task.room) body task.machine)
  | .repeatLoop condition body =>
      Run.last (execLoop task.steps task.room condition body task.machine)
  | .call closure arguments =>
      Run.last (invokeWith (exec task.steps task.room) closure arguments task.machine)
  | .bindMethod method receiver => Run.last (Run.bindMethod method receiver task.machine)
  | .declareClass name superclass methods =>
      Run.last (Run.newClass name superclass methods task.machine)
  | .runProgram program =>
      Run.last (execProgram (exec task.steps task.room) program task.machine)

/-- The tasks that come after a step, if it yields something. -/
def Run.following {α : Type} (result : EStateM.Result Stop Machine α)
    (next : α → Machine → List Task) : List Task :=
  match result with
  | .ok value machine => next value machine
  | .error _ _ => []

theorem Run.mem_following {α : Type} {result : EStateM.Result Stop Machine α}
    {next : α → Machine → List Task} {task : Task} :
    task ∈ Run.following result next ↔
      ∃ value machine, result = .ok value machine ∧ task ∈ next value machine := by
  cases result with
  | ok value machine =>
      constructor
      · exact fun member => ⟨value, machine, rfl, member⟩
      · rintro ⟨_, _, same, member⟩
        cases same
        exact member
  | error stop machine =>
      constructor
      · exact fun member => nomatch member
      · rintro ⟨_, _, impossible, -⟩
        cases impossible

theorem Run.mem_cons_following {α : Type} {result : EStateM.Result Stop Machine α}
    {next : α → Machine → List Task} {first task : Task}
    (member : task ∈ first :: Run.following result next) :
    task = first ∨ ∃ value machine, result = .ok value machine ∧ task ∈ next value machine := by
  cases List.mem_cons.1 member with
  | inl same => exact .inl same
  | inr later => exact .inr (Run.mem_following.1 later)

section Parts

variable (steps room : Nat)

/-- The parts of calling a value. -/
def callParts (function : Value) (values : List Value) (machine : Machine) : List Task :=
  match function with
  | .function closure =>
      if values.length = closure.arity then [⟨steps, room, .call closure values, machine⟩] else []
  | .class_ cls =>
      match cls.initializer? with
      | some initializer =>
          let object : Value := .object machine.objects.size cls
          if values.length = cls.arity then
            [⟨steps, room, .bindMethod initializer object, machine.withObject⟩,
              ⟨steps, room, .call (machine.withObject.boundMethod initializer) values,
                machine.withObject.withReceiver initializer object⟩]
          else []
      | none => []
  | _ => []

/-- The parts of looking up a property. -/
def propertyParts (object : Value) (name : String) (machine : Machine) : List Task :=
  match object with
  | .object id cls =>
      match (machine.fields id).get? name, cls.findMethod? name with
      | none, some method => [⟨steps, room, .bindMethod method object, machine⟩]
      | _, _ => []
  | _ => []

/-- The parts of looking up a method of the superclass. -/
def superParts (method : Ident) (machine : Machine) : Distance → List Task
  | some distance =>
      match machine.frames.getAt machine.frame distance "super",
          machine.frames.getAt machine.frame (distance - 1) "this" with
      | .ok (.class_ cls), .ok receiver =>
          match cls.findMethod? method.text with
          | some found => [⟨steps, room, .bindMethod found receiver, machine⟩]
          | none => []
      | _, _ => []
  | none => []

/-- The parts of evaluating an expression, in order. -/
def Expr.parts (machine : Machine) : Expr Distance → List Task
  | .literal _ => []
  | .read _ _ => []
  | .assign _ _ value => [⟨steps, room, .evaluate value, machine⟩]
  | .unary _ _ operand => [⟨steps, room, .evaluate operand, machine⟩]
  | .binary left _ _ right =>
      ⟨steps, room, .evaluate left, machine⟩ ::
        Run.following (eval steps room left machine) fun _ following =>
          [⟨steps, room, .evaluate right, following⟩]
  | .logical left op right =>
      ⟨steps, room, .evaluate left, machine⟩ ::
        Run.following (eval steps room left machine) fun value following =>
          if op.decides value then [] else [⟨steps, room, .evaluate right, following⟩]
  | .grouping inner => [⟨steps, room, .evaluate inner, machine⟩]
  | .call callee arguments _ =>
      ⟨steps, room, .evaluate callee, machine⟩ ::
        Run.following (eval steps room callee machine) fun function following =>
          ⟨steps, room, .evaluateAll arguments, following⟩ ::
            Run.following (evalAll (eval steps room) arguments following) fun values rest =>
              callParts steps room function values rest
  | .get object name =>
      ⟨steps, room, .evaluate object, machine⟩ ::
        Run.following (eval steps room object machine) fun value following =>
          propertyParts steps room value name.text following
  | .set object _ value =>
      ⟨steps, room, .evaluate object, machine⟩ ::
        Run.following (eval steps room object machine) fun target following =>
          match target with
          | .object _ _ => [⟨steps, room, .evaluate value, following⟩]
          | _ => []
  | .receiver _ _ => []
  | .superMethod _ binding method => superParts steps room method machine binding

/-- The parts of executing a statement, in order. -/
def Stmt.parts (machine : Machine) : Stmt Distance → List Task
  | .expression value => [⟨steps, room, .evaluate value, machine⟩]
  | .print value => [⟨steps, room, .evaluate value, machine⟩]
  | .declare _ initializer =>
      initializer.toList.map fun value => ⟨steps, room, .evaluate value, machine⟩
  | .block body =>
      [⟨steps, room, .executeAll body, (machine.nest machine.frame).inFrame machine.fresh⟩]
  | .branch condition thenBranch elseBranch =>
      ⟨steps, room, .evaluate condition, machine⟩ ::
        Run.following (eval steps room condition machine) fun value following =>
          if value.isTrue then [⟨steps, room, .execute thenBranch, following⟩]
          else elseBranch.toList.map fun branch => ⟨steps, room, .execute branch, following⟩
  | .loop condition body => [⟨steps, room, .repeatLoop condition body, machine⟩]
  | .ret _ value => value.toList.map fun value => ⟨steps, room, .evaluate value, machine⟩
  | .function _ => []
  | .classDecl name superclass methods =>
      (superclass.toList.map fun parent =>
          ⟨steps + 1, room + 1, .evaluate (.read parent.1 parent.2), machine⟩) ++
        Run.following (evalSuperclass superclass machine) fun cls following =>
          [⟨steps, room, .declareClass name cls methods, following⟩]

end Parts

/-- The parts of a task, in order. -/
def Task.parts (task : Task) : List Task :=
  match task with
  | ⟨steps, room, activity, machine⟩ =>
      match activity with
      | .evaluate e =>
          match steps, room with
          | steps + 1, room + 1 => e.parts steps room machine
          | _, _ => []
      | .evaluateAll [] => []
      | .evaluateAll (e :: es) =>
          ⟨steps, room, .evaluate e, machine⟩ ::
            Run.following (eval steps room e machine) fun _ following =>
              [⟨steps, room, .evaluateAll es, following⟩]
      | .execute s =>
          match steps, room with
          | steps + 1, room + 1 => s.parts steps room machine
          | _, _ => []
      | .executeAll [] => []
      | .executeAll (s :: body) =>
          ⟨steps, room, .execute s, machine⟩ ::
            Run.following (exec steps room s machine) fun completion following =>
              match completion with
              | .normal => [⟨steps, room, .executeAll body, following⟩]
              | .returning _ => []
      | .repeatLoop condition body =>
          match steps with
          | 0 => []
          | steps + 1 =>
              ⟨steps, room, .evaluate condition, machine⟩ ::
                Run.following (eval steps room condition machine) fun value following =>
                  if value.isTrue then
                    ⟨steps, room, .execute body, following⟩ ::
                      Run.following (exec steps room body following) fun completion rest =>
                        match completion with
                        | .normal => [⟨steps, room, .repeatLoop condition body, rest⟩]
                        | .returning _ => []
                  else []
      | .call closure arguments =>
          [⟨steps, room, .executeAll closure.declaration.body, machine.entering closure arguments⟩]
      | .bindMethod _ _ => []
      | .declareClass _ _ _ => []
      | .runProgram [] => []
      | .runProgram (s :: rest) =>
          ⟨steps, room, .execute s, machine⟩ ::
            Run.following (exec steps room s machine) fun _ following =>
              [⟨steps, room, .runProgram rest, following⟩]

/-- Everything that a task leads to is among its parts. -/
theorem Leads.mem_parts {task part : Task} (leads : Leads task part) : part ∈ task.parts := by
  cases leads <;> simp_all [Task.parts, Expr.parts, Stmt.parts, Run.following, callParts,
    propertyParts, superParts]

section Leads

variable {steps room : Nat} {machine : Machine} {part : Task}

theorem leads_of_mem_callParts {callee : Expr Distance} {arguments : List (Expr Distance)}
    {close : Position} {function : Value} {values : List Value} {following rest : Machine}
    (first : eval steps room callee machine = .ok function following)
    (second : evalAll (eval steps room) arguments following = .ok values rest)
    (member : part ∈ callParts steps room function values rest) :
    Leads ⟨steps + 1, room + 1, .evaluate (.call callee arguments close), machine⟩ part := by
  unfold callParts at member
  split at member
  · split at member
    next fits =>
      cases List.mem_singleton.1 member
      exact .callFunction first second fits
    next => cases member
  · split at member
    next initializer found =>
      simp only at member
      split at member
      next fits =>
        cases List.mem_cons.1 member with
        | inl isBind => exact isBind ▸ .constructBind first second fits found
        | inr later =>
            cases List.mem_singleton.1 later
            exact .constructCall first second fits found
      next => cases member
    next => cases member
  · cases member

theorem leads_of_mem_propertyParts {object : Expr Distance} {name : Ident} {value : Value}
    {following : Machine} (first : eval steps room object machine = .ok value following)
    (member : part ∈ propertyParts steps room value name.text following) :
    Leads ⟨steps + 1, room + 1, .evaluate (.get object name), machine⟩ part := by
  unfold propertyParts at member
  split at member
  · split at member
    next method noField found =>
      cases List.mem_singleton.1 member
      exact .getMethod first noField found
    next => cases member
  · cases member

theorem leads_of_mem_superParts {keyword : Position} {binding : Distance} {method : Ident}
    (member : part ∈ superParts steps room method machine binding) :
    Leads ⟨steps + 1, room + 1, .evaluate (.superMethod keyword binding method), machine⟩ part := by
  unfold superParts at member
  split at member
  · split at member
    next cls receiver superclass object =>
      split at member
      next found isFound =>
        cases List.mem_singleton.1 member
        exact .superBind superclass object isFound
      next => cases member
    next => cases member
  · cases member

theorem Expr.leads_of_mem_parts {e : Expr Distance} (member : part ∈ e.parts steps room machine) :
    Leads ⟨steps + 1, room + 1, .evaluate e, machine⟩ part := by
  cases e with
  | literal value => cases member
  | read name binding => cases member
  | assign name binding value =>
      cases List.mem_singleton.1 member
      exact .assignValue
  | unary op position operand =>
      cases List.mem_singleton.1 member
      exact .unaryOperand
  | binary left op position right =>
      obtain rfl | ⟨value, following, first, isPart⟩ := Run.mem_cons_following member
      · exact .binaryLeft
      · cases List.mem_singleton.1 isPart
        exact .binaryRight first
  | logical left op right =>
      obtain rfl | ⟨value, following, first, isPart⟩ := Run.mem_cons_following member
      · exact .logicalLeft
      · split at isPart
        next => cases isPart
        next undecided =>
          cases List.mem_singleton.1 isPart
          exact .logicalRight first (Bool.eq_false_iff.2 undecided)
  | grouping inner =>
      cases List.mem_singleton.1 member
      exact .groupingInner
  | call callee arguments close =>
      obtain rfl | ⟨function, following, first, isPart⟩ := Run.mem_cons_following member
      · exact .callCallee
      · obtain rfl | ⟨values, rest, second, isPart⟩ := Run.mem_cons_following isPart
        · exact .callArguments first
        · exact leads_of_mem_callParts first second isPart
  | get object name =>
      obtain rfl | ⟨value, following, first, isPart⟩ := Run.mem_cons_following member
      · exact .getObject
      · exact leads_of_mem_propertyParts first isPart
  | set object name value =>
      obtain rfl | ⟨target, following, first, isPart⟩ := Run.mem_cons_following member
      · exact .setObject
      · split at isPart
        next id cls =>
          cases List.mem_singleton.1 isPart
          exact .setValue first
        next => cases isPart
  | receiver keyword binding => cases member
  | superMethod keyword binding method => exact leads_of_mem_superParts member

theorem Stmt.leads_of_mem_parts {s : Stmt Distance} (member : part ∈ s.parts steps room machine) :
    Leads ⟨steps + 1, room + 1, .execute s, machine⟩ part := by
  cases s with
  | expression value =>
      cases List.mem_singleton.1 member
      exact .expressionValue
  | print value =>
      cases List.mem_singleton.1 member
      exact .printValue
  | declare name initializer =>
      obtain ⟨value, isValue, rfl⟩ := List.mem_map.1 member
      cases Option.mem_toList.1 isValue
      exact .declareValue
  | block body =>
      cases List.mem_singleton.1 member
      exact .blockBody
  | branch condition thenBranch elseBranch =>
      obtain rfl | ⟨value, following, first, isPart⟩ := Run.mem_cons_following member
      · exact .branchCondition
      · split at isPart
        next holds =>
          cases List.mem_singleton.1 isPart
          exact .branchThen first holds
        next fails =>
          obtain ⟨branch, isBranch, rfl⟩ := List.mem_map.1 isPart
          cases Option.mem_toList.1 isBranch
          exact .branchElse first (Bool.eq_false_iff.2 fails)
  | loop condition body =>
      cases List.mem_singleton.1 member
      exact .loopStart
  | ret keyword value =>
      obtain ⟨result, isValue, rfl⟩ := List.mem_map.1 member
      cases Option.mem_toList.1 isValue
      exact .returnValue
  | function declaration => cases member
  | classDecl name superclass methods =>
      cases List.mem_append.1 member with
      | inl isRead =>
          obtain ⟨parent, isParent, rfl⟩ := List.mem_map.1 isRead
          cases Option.mem_toList.1 isParent
          exact .classSuperclass
      | inr isDeclared =>
          obtain ⟨cls, following, first, isPart⟩ := Run.mem_following.1 isDeclared
          cases List.mem_singleton.1 isPart
          exact .classMethods first

/-- A task leads to its parts. -/
theorem Task.leads_of_mem_parts {task : Task} (member : part ∈ task.parts) : Leads task part := by
  rcases task with ⟨steps, room, activity, machine⟩
  cases activity with
  | evaluate e =>
      cases steps with
      | zero => cases member
      | succ steps =>
          cases room with
          | zero => cases member
          | succ room => exact e.leads_of_mem_parts member
  | execute s =>
      cases steps with
      | zero => cases member
      | succ steps =>
          cases room with
          | zero => cases member
          | succ room => exact s.leads_of_mem_parts member
  | evaluateAll es =>
      cases es with
      | nil => cases member
      | cons e es =>
          obtain rfl | ⟨value, following, first, isPart⟩ := Run.mem_cons_following member
          · exact .evaluateFirst
          · cases List.mem_singleton.1 isPart
            exact .evaluateRest first
  | executeAll body =>
      cases body with
      | nil => cases member
      | cons s body =>
          obtain rfl | ⟨completion, following, first, isPart⟩ := Run.mem_cons_following member
          · exact .executeFirst
          · cases completion with
            | normal =>
                cases List.mem_singleton.1 isPart
                exact .executeRest first
            | returning value => cases isPart
  | repeatLoop condition body =>
      cases steps with
      | zero => cases member
      | succ steps =>
          obtain rfl | ⟨value, following, first, isPart⟩ := Run.mem_cons_following member
          · exact .loopCondition
          · split at isPart
            next holds =>
              obtain rfl | ⟨completion, rest, second, isPart⟩ := Run.mem_cons_following isPart
              · exact .loopBody first holds
              · cases completion with
                | normal =>
                    cases List.mem_singleton.1 isPart
                    exact .loopAgain first holds second
                | returning value => cases isPart
            next => cases isPart
  | call closure arguments =>
      cases List.mem_singleton.1 member
      exact .callBody
  | bindMethod method receiver => cases member
  | declareClass name superclass methods => cases member
  | runProgram program =>
      cases program with
      | nil => cases member
      | cons s rest =>
          obtain rfl | ⟨completion, following, first, isPart⟩ := Run.mem_cons_following member
          · exact .programFirst
          · cases List.mem_singleton.1 isPart
            exact .programRest first

end Leads

end LoxLang
