/-
Module: LoxLang.Proofs.Return.Activation
Purpose: What becomes of a call.  The tasks of one activation are listed in the order in which they
  are begun; the first `return` among them that completes is the last of its statements, and the
  call yields its value.
Main exports: Task.course, Task.Returns, Task.EndsWith, exec_endsWith, invokeWith_course,
  Session.return_is_throw
-/
import LoxLang.Proofs.Return.Agreement
import LoxLang.Proofs.Run.Construction

namespace LoxLang

/-! ### The course of an activation -/

namespace Task

/-- The parts of a task that belong to the same activation: what is done in a call belongs to
another. -/
def own (task : Task) : List Task :=
  match task.activity with
  | .call _ _ => []
  | _ => task.parts

theorem leads_of_mem_own {task part : Task} (member : part ∈ task.own) : Leads task part := by
  unfold own at member
  split at member
  · cases member
  · exact leads_of_mem_parts member

/-- Everything that is done in the course of a task within its activation, in the order in which it
is begun. -/
def course (task : Task) : List Task :=
  task :: task.own.attach.flatMap fun part => part.1.course
termination_by (task.steps, task.activity.weight)
decreasing_by
  rcases (leads_of_mem_own part.2).smaller with fewer | ⟨same, less⟩
  · exact .left _ _ fewer
  · exact same ▸ .right _ less

theorem course_eq (task : Task) : task.course = task :: task.own.flatMap course := by
  rw [course]
  simp

theorem mem_course {task other : Task} :
    other ∈ task.course ↔ other = task ∨ ∃ part ∈ task.own, other ∈ part.course := by
  rw [course_eq, List.mem_cons, List.mem_flatMap]

theorem self_mem_course (task : Task) : task ∈ task.course :=
  mem_course.2 (.inl rfl)

/-- A `return` that completes with a value. -/
def Returns (task : Task) (value : Value) (after : Machine) : Prop :=
  ∃ keyword e, task.activity = .execute (.ret keyword e) ∧
    exec task.steps task.room (.ret keyword e) task.machine = .ok (.returning value) after

/-- No `return` completes among some tasks. -/
def NoneReturns (tasks : List Task) : Prop :=
  ∀ task ∈ tasks, ∀ value after, ¬task.Returns value after

theorem NoneReturns.append {first second : List Task} (one : NoneReturns first)
    (two : NoneReturns second) : NoneReturns (first ++ second) :=
  fun task member => (List.mem_append.1 member).elim (one task) (two task)

/-- No `return` completes in the course of a task. -/
def Silent (task : Task) : Prop :=
  NoneReturns task.course

theorem noneReturns_flatMap {tasks : List Task} (silent : ∀ part ∈ tasks, part.Silent) :
    NoneReturns (tasks.flatMap course) := by
  intro task member
  obtain ⟨part, isPart, inside⟩ := List.mem_flatMap.1 member
  exact silent part isPart task inside

theorem silent_of_own {task : Task} (notReturn : ∀ value after, ¬task.Returns value after)
    (silent : ∀ part ∈ task.own, part.Silent) : task.Silent := by
  intro other member
  rcases mem_course.1 member with rfl | ⟨part, isOwn, inside⟩
  · exact notReturn
  · exact silent part isOwn other inside

end Task

/-- Whether an activity is to execute a `return`. -/
def Activity.isReturn : Activity → Bool
  | execute (.ret _ _) => true
  | _ => false

theorem Task.not_returns {task : Task} (other : task.activity.isReturn = false) (value : Value)
    (after : Machine) : ¬task.Returns value after := by
  rintro ⟨keyword, e, isReturn, -⟩
  rw [isReturn] at other
  cases other

/-- Whether an activity is to execute statements. -/
def Activity.IsStatement : Activity → Prop
  | execute _ | executeAll _ | repeatLoop _ _ | runProgram _ => True
  | evaluate _ | evaluateAll _ | call _ _ | bindMethod _ _ | declareClass _ _ _ => False

/-- Outside of calls, no statement is executed while an expression is evaluated. -/
theorem Task.silent_of_not_statement (task : Task) (quiet : ¬task.activity.IsStatement) :
    task.Silent := by
  induction task using Leads.wellFounded.induction with
  | h task ih =>
      refine silent_of_own ?_ fun part member => ?_
      · rintro value after ⟨keyword, e, isReturn, -⟩
        rw [isReturn] at quiet
        exact quiet trivial
      · have leads := leads_of_mem_own member
        have partQuiet : ¬part.activity.IsStatement := by
          cases leads <;> first | exact id | exact absurd trivial quiet | cases member
        exact ih part leads partQuiet

/-! ### How statements end -/

/-- How a task ends: if it returns, then because of a `return` after which nothing was begun and
before which none completed, and otherwise no `return` has completed. -/
def Task.EndsWith (task : Task) : EStateM.Result Stop Machine Completion → Prop
  | .ok (.returning value) following => ∃ (ret : Task) (after : Machine) (before : List Task),
      task.course = before ++ ret.course ∧ ret.Returns value after ∧
        following = after.inFrame following.frame ∧ NoneReturns before
  | _ => task.Silent

namespace Task.EndsWith

variable {task last : Task} {result : EStateM.Result Stop Machine Completion}

theorem of_silent (silent : task.Silent) (normal : ReturnsOnlyIf false result) :
    task.EndsWith result := by
  cases result with
  | error stop following => exact silent
  | ok completion following =>
      cases completion with
      | normal => exact silent
      | returning value => cases normal value following rfl

/-- A task ends as the last of its parts does, if no `return` has completed before. -/
theorem of_last (quiet : List Task) (isOwn : task.own = quiet ++ [last])
    (notReturn : ∀ value after, ¬task.Returns value after) (silent : ∀ part ∈ quiet, part.Silent)
    (ends : last.EndsWith result) : task.EndsWith result := by
  have listed : task.course = (task :: quiet.flatMap course) ++ last.course := by
    rw [course_eq, isOwn, List.flatMap_append, List.flatMap_singleton, List.cons_append]
  have before : NoneReturns (task :: quiet.flatMap course) := by
    intro other member
    rcases List.mem_cons.1 member with rfl | inside
    · exact notReturn
    · exact noneReturns_flatMap silent other inside
  have none (lastSilent : last.Silent) : task.Silent := by
    rw [Silent, listed]
    exact before.append lastSilent
  cases result with
  | error stop following => exact none ends
  | ok completion following =>
      cases completion with
      | normal => exact none ends
      | returning value =>
          obtain ⟨ret, after, earlier, isCourse, returns, same, noneEarlier⟩ := ends
          refine ⟨ret, after, (task :: quiet.flatMap course) ++ earlier, ?_, returns, same,
            before.append noneEarlier⟩
          rw [listed, isCourse, List.append_assoc]

theorem cameBack (ends : task.EndsWith result) (frame : FrameId) :
    task.EndsWith (Run.cameBack frame result) := by
  cases result with
  | error stop following => exact ends
  | ok completion following =>
      cases completion with
      | normal => exact ends
      | returning value =>
          obtain ⟨ret, after, before, isCourse, returns, same, noneBefore⟩ := ends
          refine ⟨ret, after, before, isCourse, returns, ?_, noneBefore⟩
          rw [same]
          rfl

end Task.EndsWith

section Statements

variable {steps room : Nat}

theorem silent_evaluate (e : Expr Distance) (machine : Machine) :
    Task.Silent ⟨steps, room, .evaluate e, machine⟩ :=
  Task.silent_of_not_statement _ id

theorem execAll_endsWith
    (executes : ∀ s machine, Task.EndsWith ⟨steps, room, .execute s, machine⟩
      (exec steps room s machine))
    (body : List (Stmt Distance)) (machine : Machine) :
    Task.EndsWith ⟨steps, room, .executeAll body, machine⟩
      (execAll (exec steps room) body machine) := by
  induction body generalizing machine with
  | nil =>
      exact .of_silent (Task.silent_of_own (Task.not_returns rfl) (List.forall_mem_nil _))
        (.normal machine)
  | cons s rest ih =>
      have first := executes s machine
      simp only [execAll]
      cases result : exec steps room s machine with
      | error stop following =>
          rw [result] at first
          refine .of_last [] ?_ (Task.not_returns rfl) (List.forall_mem_nil _) first
          simp only [Task.own, Task.parts, result, Run.following, List.nil_append]
      | ok completion following =>
          rw [result] at first
          cases completion with
          | normal =>
              refine .of_last [⟨steps, room, .execute s, machine⟩] ?_
                (Task.not_returns rfl) (List.forall_mem_singleton.2 first) (ih following)
              simp only [Task.own, Task.parts, result, Run.following, List.singleton_append]
          | returning value =>
              refine .of_last [] ?_ (Task.not_returns rfl) (List.forall_mem_nil _) first
              simp only [Task.own, Task.parts, result, Run.following, List.nil_append]

/-- A statement that does not contain a `return` at all, or none that belongs to it. -/
theorem simple_endsWith {s : Stmt Distance} {machine : Machine}
    (noReturn : s.containsReturn = false)
    (simple : ∀ part ∈ Task.own ⟨steps, room, .execute s, machine⟩, ¬part.activity.IsStatement) :
    Task.EndsWith ⟨steps, room, .execute s, machine⟩ (exec steps room s machine) := by
  refine .of_silent ?_ ?_
  · refine Task.silent_of_own (Task.not_returns ?_) fun part member =>
      part.silent_of_not_statement (simple part member)
    cases s with
    | ret keyword e => cases noReturn
    | _ => rfl
  · rw [← noReturn]
    exact (exec_returnsOnlyIf steps).1 room s machine

theorem branch_endsWith
    (executes : ∀ s machine, Task.EndsWith ⟨steps, room, .execute s, machine⟩
      (exec steps room s machine))
    (condition : Expr Distance) (thenBranch : Stmt Distance) (elseBranch : Option (Stmt Distance))
    (machine : Machine) :
    Task.EndsWith
      ⟨steps + 1, room + 1, .execute (.branch condition thenBranch elseBranch), machine⟩
      (exec (steps + 1) (room + 1) (.branch condition thenBranch elseBranch) machine) := by
  let first : Task := ⟨steps, room, .evaluate condition, machine⟩
  have firstSilent : ∀ part ∈ [first], part.Silent :=
    List.forall_mem_singleton.2 (silent_evaluate condition machine)
  have otherwise {result : EStateM.Result Stop Machine Completion}
      (isOwn : Task.own ⟨steps + 1, room + 1,
        .execute (.branch condition thenBranch elseBranch), machine⟩ = [first])
      (normal : ReturnsOnlyIf false result) :
      Task.EndsWith ⟨steps + 1, room + 1,
        .execute (.branch condition thenBranch elseBranch), machine⟩ result :=
    .of_silent (Task.silent_of_own (Task.not_returns rfl) (isOwn ▸ firstSilent)) normal
  simp only [exec]
  cases result : eval steps room condition machine with
  | error stop following =>
      refine otherwise ?_ (.error stop following)
      simp only [Task.own, Task.parts, Stmt.parts, result, Run.following, first]
  | ok value following =>
      cases holds : value.isTrue with
      | true =>
          simp only [holds, ↓reduceIte]
          refine .of_last [first] ?_ (Task.not_returns rfl) firstSilent
            (executes thenBranch following)
          simp only [Task.own, Task.parts, Stmt.parts, result, Run.following, holds, ↓reduceIte,
            first, List.singleton_append]
      | false =>
          simp only [holds, Bool.false_eq_true, ↓reduceIte]
          cases elseBranch with
          | none =>
              refine otherwise ?_ (.normal following)
              simp only [Task.own, Task.parts, Stmt.parts, result, Run.following, holds,
                Bool.false_eq_true, ↓reduceIte, Option.toList_none, List.map_nil, first]
          | some branch =>
              refine .of_last [first] ?_ (Task.not_returns rfl) firstSilent
                (executes branch following)
              simp only [Task.own, Task.parts, Stmt.parts, result, Run.following, holds,
                Bool.false_eq_true, ↓reduceIte, Option.toList_some, List.map_cons, List.map_nil,
                first, List.singleton_append]

theorem loop_endsWith {condition : Expr Distance} {body : Stmt Distance}
    (executes : ∀ s machine, Task.EndsWith ⟨steps, room, .execute s, machine⟩
      (exec steps room s machine))
    (repeats : ∀ machine, Task.EndsWith ⟨steps, room, .repeatLoop condition body, machine⟩
      (execLoop steps room condition body machine)) (machine : Machine) :
    Task.EndsWith ⟨steps + 1, room, .repeatLoop condition body, machine⟩
      (execLoop (steps + 1) room condition body machine) := by
  let first : Task := ⟨steps, room, .evaluate condition, machine⟩
  have firstSilent : first.Silent := silent_evaluate condition machine
  have otherwise {result : EStateM.Result Stop Machine Completion}
      (isOwn : Task.own ⟨steps + 1, room, .repeatLoop condition body, machine⟩ = [first])
      (normal : ReturnsOnlyIf false result) :
      Task.EndsWith ⟨steps + 1, room, .repeatLoop condition body, machine⟩ result :=
    .of_silent (Task.silent_of_own (Task.not_returns rfl)
      (isOwn ▸ List.forall_mem_singleton.2 firstSilent)) normal
  simp only [execLoop]
  cases result : eval steps room condition machine with
  | error stop following =>
      refine otherwise ?_ (.error stop following)
      simp only [Task.own, Task.parts, result, Run.following, first]
  | ok value following =>
      cases holds : value.isTrue with
      | false =>
          simp only [holds, Bool.false_eq_true, ↓reduceIte]
          refine otherwise ?_ (.normal following)
          simp only [Task.own, Task.parts, result, Run.following, holds, Bool.false_eq_true,
            ↓reduceIte, first]
      | true =>
          have turn := executes body following
          simp only [holds, ↓reduceIte]
          cases second : exec steps room body following with
          | error stop rest =>
              rw [second] at turn
              refine .of_last [first] ?_ (Task.not_returns rfl)
                (List.forall_mem_singleton.2 firstSilent) turn
              simp only [Task.own, Task.parts, result, Run.following, holds, ↓reduceIte, second,
                first, List.singleton_append]
          | ok completion rest =>
              rw [second] at turn
              cases completion with
              | returning value =>
                  refine .of_last [first] ?_ (Task.not_returns rfl)
                    (List.forall_mem_singleton.2 firstSilent) turn
                  simp only [Task.own, Task.parts, result, Run.following, holds, ↓reduceIte,
                    second, first, List.singleton_append]
              | normal =>
                  refine .of_last [first, ⟨steps, room, .execute body, following⟩] ?_
                    (Task.not_returns rfl) ?_ (repeats rest)
                  · simp only [Task.own, Task.parts, result, Run.following, holds, ↓reduceIte,
                      second, first, List.cons_append, List.nil_append]
                  · exact List.forall_mem_cons.2 ⟨firstSilent, List.forall_mem_singleton.2 turn⟩

/-- Nothing but the value of a `return` is looked at in its course. -/
theorem return_parts_silent {keyword : Position} {e : Option (Expr Distance)} {machine : Machine} :
    ∀ part ∈ Task.own ⟨steps, room, .execute (.ret keyword e), machine⟩, part.Silent := by
  intro part member
  refine part.silent_of_not_statement ?_
  cases Task.leads_of_mem_own member
  exact id

/-- A `return` ends with itself. -/
theorem return_endsWith (keyword : Position) (e : Option (Expr Distance)) (machine : Machine) :
    Task.EndsWith ⟨steps, room, .execute (.ret keyword e), machine⟩
      (exec steps room (.ret keyword e) machine) := by
  have silent (noReturn : ∀ value after,
      exec steps room (.ret keyword e) machine ≠ .ok (.returning value) after) :
      Task.Silent ⟨steps, room, .execute (.ret keyword e), machine⟩ := by
    refine Task.silent_of_own ?_ return_parts_silent
    rintro value after ⟨keyword, e, isReturn, returns⟩
    cases isReturn
    exact noReturn value after returns
  cases result : exec steps room (.ret keyword e) machine with
  | error stop following => exact silent (by rw [result]; nofun)
  | ok completion following =>
      cases completion with
      | normal => exact silent (by rw [result]; nofun)
      | returning value =>
          exact ⟨_, following, [], rfl, ⟨keyword, e, rfl, result⟩, rfl, nofun⟩

/-- Statements and loops end with the first `return` that completes in them. -/
theorem exec_endsWith (steps : Nat) :
    (∀ room s machine, Task.EndsWith ⟨steps, room, .execute s, machine⟩
      (exec steps room s machine)) ∧
    ∀ room condition body machine, Task.EndsWith ⟨steps, room, .repeatLoop condition body, machine⟩
      (execLoop steps room condition body machine) := by
  induction steps with
  | zero =>
      constructor
      · intro room s machine
        refine .of_silent (Task.silent_of_own ?_ (List.forall_mem_nil _)) (.error _ machine)
        rintro value after ⟨keyword, e, -, returns⟩
        cases returns
      · intro room condition body machine
        exact .of_silent (Task.silent_of_own (Task.not_returns rfl) (List.forall_mem_nil _))
          (.error _ machine)
  | succ steps ih =>
      obtain ⟨executes, repeats⟩ := ih
      constructor
      · intro room s machine
        cases room with
        | zero =>
            refine .of_silent (Task.silent_of_own ?_ (List.forall_mem_nil _)) (.error _ machine)
            rintro value after ⟨keyword, e, -, returns⟩
            cases returns
        | succ room =>
            cases s with
            | expression e | print e | declare name e | function declaration
            | classDecl name superclass methods =>
                refine simple_endsWith rfl fun part member => ?_
                cases Task.leads_of_mem_own member <;> exact id
            | ret keyword e => exact return_endsWith keyword e machine
            | loop condition body =>
                exact .of_last [] rfl (Task.not_returns rfl) (List.forall_mem_nil _)
                  (repeats room condition body machine)
            | block body =>
                have inside := execAll_endsWith (executes room) body
                  ((machine.nest machine.frame).inFrame machine.fresh)
                have result : exec (steps + 1) (room + 1) (.block body) machine =
                    Run.cameBack machine.frame (execAll (exec steps room) body
                      ((machine.nest machine.frame).inFrame machine.fresh)) := by
                  simp only [exec, Run.newFrame_eq, Run.within_eq]
                  rfl
                rw [result]
                exact .of_last [] rfl (Task.not_returns rfl) (List.forall_mem_nil _)
                  (inside.cameBack _)
            | branch condition thenBranch elseBranch =>
                exact branch_endsWith (executes room) condition thenBranch elseBranch machine
      · intro room condition body machine
        exact loop_endsWith (executes room) (repeats room condition body) machine

end Statements

/-! ### Calls -/

namespace Task

/-- What is done in the course of a part is done in the course of the whole, unless that is a
call. -/
theorem mem_course_of_leads {task part other : Task} (leads : Leads task part)
    (inside : other ∈ part.course) (notCall : ∀ closure arguments,
      task.activity ≠ .call closure arguments) : other ∈ task.course := by
  have isOwn : part ∈ task.own := by
    unfold own
    split
    next closure arguments isCall => exact absurd isCall (notCall closure arguments)
    next => exact leads.mem_parts
  exact mem_course.2 (.inr ⟨part, isOwn, inside⟩)

/-- The execution of the body of a function that is called. -/
def ofBody (steps room : Nat) (closure : Closure) (arguments : List Value) (machine : Machine) :
    Task :=
  ⟨steps, room, .executeAll closure.declaration.body, machine.entering closure arguments⟩

theorem Returns.unique {task : Task} {value other : Value} {after afterToo : Machine}
    (returns : task.Returns value after) (again : task.Returns other afterToo) :
    value = other ∧ after = afterToo := by
  obtain ⟨keyword, e, isReturn, result⟩ := returns
  obtain ⟨keyword', e', isReturn', result'⟩ := again
  cases isReturn.symm.trans isReturn'
  cases result.symm.trans result'
  exact ⟨rfl, rfl⟩

/-- After a `return` nothing more returns. -/
theorem Returns.noneAfter {task : Task} {value : Value} {after : Machine}
    (returns : task.Returns value after) : NoneReturns task.course.tail := by
  obtain ⟨keyword, e, isReturn, -⟩ := returns
  rcases task with ⟨steps, room, activity, machine⟩
  cases isReturn
  rw [course_eq, List.tail_cons]
  exact noneReturns_flatMap return_parts_silent

end Task

/-- What a call yields when its body has ended with a value. -/
def Closure.yields (closure : Closure) (value : Value) : Run Value :=
  if closure.isInitializer then Run.readFrom closure.frame 0 "this" else pure value

section Calls

variable {steps room : Nat} {closure : Closure} {arguments : List Value} {machine : Machine}

theorem invokeWith_yields {completion : Completion} {inner : Machine}
    (ends : execAll (exec steps room) closure.declaration.body
      (machine.entering closure arguments) = .ok completion inner) :
    invokeWith (exec steps room) closure arguments machine =
      closure.yields completion.value (inner.inFrame machine.frame) := by
  rw [invokeWith_eq, Declaration.body_function, ends, Closure.yields]
  simp only [Run.cameBack]
  split <;> rfl

/-- A `return` that completes is the only one of its activation, nothing but its own value is looked
at after it has been reached, and the call yields its value. -/
theorem invokeWith_of_returns {ret : Task} {value : Value} {after : Machine}
    (member : ret ∈ (Task.ofBody steps room closure arguments machine).course)
    (returns : ret.Returns value after) :
    (∃ before, (Task.ofBody steps room closure arguments machine).course = before ++ ret.course ∧
      Task.NoneReturns (before ++ ret.course.tail)) ∧
    invokeWith (exec steps room) closure arguments machine =
      closure.yields value (after.inFrame machine.frame) := by
  have ends := execAll_endsWith ((exec_endsWith steps).1 room) closure.declaration.body
    (machine.entering closure arguments)
  cases result : execAll (exec steps room) closure.declaration.body
      (machine.entering closure arguments) with
  | error stop following =>
      rw [result] at ends
      exact absurd returns (ends ret member value after)
  | ok completion following =>
      rw [result] at ends
      cases completion with
      | normal => exact absurd returns (ends ret member value after)
      | returning other =>
          obtain ⟨last, lastAfter, before, isCourse, lastReturns, same, noneBefore⟩ := ends
          have none := noneBefore.append lastReturns.noneAfter
          have isLast : ret = last := by
            rw [show (Task.ofBody steps room closure arguments machine).course = _ from isCourse,
              List.mem_append] at member
            rcases member with earlier | inside
            · exact absurd returns (noneBefore ret earlier value after)
            · rw [Task.course_eq] at inside
              rcases List.mem_cons.1 inside with isLast | later
              · exact isLast
              · have isTail : ret ∈ last.course.tail := by
                  rw [Task.course_eq]
                  exact later
                exact absurd returns (lastReturns.noneAfter ret isTail value after)
          subst isLast
          obtain ⟨rfl, rfl⟩ := returns.unique lastReturns
          refine ⟨⟨before, isCourse, none⟩, ?_⟩
          rw [invokeWith_yields result, same]
          rfl

/-- If no `return` completes, the call of a function that is not an initializer yields `nil`. -/
theorem invokeWith_of_noneReturns
    (silent : Task.NoneReturns (Task.ofBody steps room closure arguments machine).course)
    {value : Value} {last : Machine}
    (completes : invokeWith (exec steps room) closure arguments machine = .ok value last)
    (notInitializer : closure.isInitializer = false) : value = .nil := by
  have ends := execAll_endsWith ((exec_endsWith steps).1 room) closure.declaration.body
    (machine.entering closure arguments)
  cases result : execAll (exec steps room) closure.declaration.body
      (machine.entering closure arguments) with
  | error stop following =>
      rw [invokeWith_eq, Declaration.body_function, result] at completes
      cases completes
  | ok completion following =>
      rw [result] at ends
      cases completion with
      | returning other =>
          obtain ⟨ret, after, before, isCourse, returns, -⟩ := ends
          have member : ret ∈ before ++ ret.course :=
            List.mem_append_right before ret.self_mem_course
          exact absurd returns (silent ret (isCourse ▸ member) other after)
      | normal =>
          rw [invokeWith_yields result, Closure.yields, notInitializer] at completes
          cases completes
          rfl

end Calls

/-- `return` is a jump out of the function it belongs to.  Every run shows the same, and leaves
behind the same, as one in which `return` throws its value and the nearest call catches it; in every
activation the first `return` that completes is the last thing done, and the call yields its value,
or `nil` if there is none, or the object of an initializer; a statement returns only if it contains
a `return` of its own, and so none of an accepted program does. -/
theorem Session.return_is_throw :
    (∀ (session : Session) (source : String),
      session.runThrowing source = ((session.run source).1, .ok (session.run source).2)) ∧
    (∀ steps room closure arguments machine,
      (∀ ret ∈ (Task.ofBody steps room closure arguments machine).course, ∀ value after,
        ret.Returns value after →
        (∃ before,
          (Task.ofBody steps room closure arguments machine).course = before ++ ret.course ∧
          Task.NoneReturns (before ++ ret.course.tail)) ∧
        invokeWith (exec steps room) closure arguments machine =
          closure.yields value (after.inFrame machine.frame)) ∧
      (Task.NoneReturns (Task.ofBody steps room closure arguments machine).course →
        ∀ value last, invokeWith (exec steps room) closure arguments machine = .ok value last →
          closure.isInitializer = false → value = .nil)) ∧
    (∀ config clock history steps room closure arguments machine value last,
      Visited (start config clock) history ⟨steps, room, .call closure arguments, machine⟩ →
      closure.isInitializer = true →
      invokeWith (exec steps room) closure arguments machine = .ok value last →
      ∃ method before left levels, closure = before.boundMethod method ∧
        Visited (start config clock) history ⟨left, levels, .bindMethod method value, before⟩) ∧
    (∀ steps room (s : Stmt Distance) machine value following,
      exec steps room s machine = .ok (.returning value) following → s.containsReturn = true) ∧
    ∀ config room source program, (analyze config room source).program = .ok program →
      ∀ s ∈ program, ∀ steps levels machine completion following,
        exec steps levels s machine = .ok completion following → completion = .normal := by
  refine ⟨Session.runThrowing_eq, ?_, ?_, ?_, ?_⟩
  · intro steps room closure arguments machine
    constructor
    · intro ret member value after returns
      exact invokeWith_of_returns member returns
    · intro silent value last completes notInitializer
      exact invokeWith_of_noneReturns silent completes notInitializer
  · intro config clock history steps room closure arguments machine value last call isInitializer
      completes
    obtain ⟨cls, method, object, before, left, levels, created, own, bound, rfl⟩ :=
      call.initializer_bound isInitializer
    cases Visited.initializer_yields created own bound call completes
    exact ⟨method, before, left, levels, rfl, bound⟩
  · intro steps room s machine value following returns
    exact (exec_returnsOnlyIf steps).1 room s machine value following returns
  · intro config room source program accepted s member steps levels machine completion following
      completes
    exact analyze_completes accepted member completes

/-- A function that returns from a block in a loop, and a program that prints what it yields. -/
def sampleReturnSource : String :=
  "fun f() { while (true) { return true; } print nil; } print f();"

/-- The loop that the function returns from. -/
def sampleReturnLoop : Stmt Distance :=
  .loop (.literal (.bool true)) (.block [.ret ⟨1, 26⟩ (some (.literal (.bool true)))])

def sampleReturnFunction : Function Distance :=
  .mk ⟨"f", ⟨1, 5⟩⟩ [] [sampleReturnLoop, .print (.literal .nil)]

/-- What the program prints. -/
def sampleReturnPrint : Stmt Distance :=
  .print (.call (.read ⟨"f", ⟨1, 60⟩⟩ none) [] ⟨1, 62⟩)

theorem sampleReturn_accepted :
    (analyze {} ⟨25000, 25000⟩ sampleReturnSource).program =
      .ok [.function sampleReturnFunction, sampleReturnPrint] := by
  with_unfolding_all rfl

/-- The function as it is created first. -/
def sampleReturning : Closure :=
  sampleStart.machine.newFunction sampleReturnFunction

/-- A function that only prints something. -/
def sampleSilent : Closure :=
  sampleStart.machine.newFunction (.mk ⟨"g", ⟨1, 5⟩⟩ [] [.print (.literal .nil)])

/-- The call of the first function comes to its `return`, which completes. -/
theorem sampleReturning_returns :
    ∃ ret ∈ (Task.ofBody 9 9 sampleReturning [] sampleStart.machine).course, ∃ after,
      ret.Returns (.bool true) after := by
  let entered := sampleStart.machine.entering sampleReturning []
  let inside := (entered.nest entered.frame).inFrame entered.fresh
  let ret : Task := ⟨6, 7, .execute (.ret ⟨1, 26⟩ (some (.literal (.bool true)))), inside⟩
  refine ⟨ret, ?_, inside, _, _, rfl, rfl⟩
  refine Task.mem_course_of_leads .executeFirst ?_ nofun
  refine Task.mem_course_of_leads .loopStart ?_ nofun
  refine Task.mem_course_of_leads (.loopBody rfl rfl) ?_ nofun
  refine Task.mem_course_of_leads .blockBody ?_ nofun
  refine Task.mem_course_of_leads .executeFirst ?_ nofun
  exact ret.self_mem_course

theorem sampleSilent_noneReturns :
    Task.NoneReturns (Task.ofBody 9 9 sampleSilent [] sampleStart.machine).course :=
  execAll_endsWith ((exec_endsWith 9).1 9) sampleSilent.declaration.body
    (sampleStart.machine.entering sampleSilent [])

theorem sampleReturnPrint_completes :
    ∃ completion following,
      exec 9 9 sampleReturnPrint
        (sampleStart.machine.defining 0 "f" (.function sampleReturning)) =
          .ok completion following := by
  with_unfolding_all exact ⟨_, _, rfl⟩

/-- One call ends at its first `return`, another yields `nil` without one, an initializer yields the
object it was bound to, and at the top level of the program nothing returns. -/
theorem Session.return_is_throw_sample :
    ((sampleStart.run sampleReturnSource).2.output = #["true"] ∧
      sampleStart.runThrowing sampleReturnSource =
        ((sampleStart.run sampleReturnSource).1,
          .ok (sampleStart.run sampleReturnSource).2)) ∧
    (∃ ret after,
      ret ∈ (Task.ofBody 9 9 sampleReturning [] sampleStart.machine).course ∧
      ret.Returns (.bool true) after ∧
      (∃ before,
        (Task.ofBody 9 9 sampleReturning [] sampleStart.machine).course = before ++ ret.course ∧
        Task.NoneReturns (before ++ ret.course.tail)) ∧
      invokeWith (exec 9 9) sampleReturning [] sampleStart.machine =
        .ok (.bool true) (after.inFrame sampleStart.machine.frame)) ∧
    (∃ value last, invokeWith (exec 9 9) sampleSilent [] sampleStart.machine = .ok value last ∧
      value = .nil) ∧
    (∃ steps room initializer machine value last,
      Visited sampleStart [.run sampleClassSource] ⟨steps, room, .call initializer [], machine⟩ ∧
      initializer.isInitializer = true ∧
      invokeWith (exec steps room) initializer [] machine = .ok value last ∧
      ∃ method before left levels, initializer = before.boundMethod method ∧
        Visited sampleStart [.run sampleClassSource]
          ⟨left, levels, .bindMethod method value, before⟩) ∧
    (∃ value following,
      exec 9 9 sampleReturnLoop sampleStart.machine = .ok (.returning value) following ∧
      sampleReturnLoop.containsReturn = true) ∧
    ∃ completion following,
      exec 9 9 sampleReturnPrint
        (sampleStart.machine.defining 0 "f" (.function sampleReturning)) =
          .ok completion following ∧
      completion = .normal := by
  refine ⟨⟨?_, Session.return_is_throw.1 _ _⟩, ?_, ?_, ?_, ?_, ?_⟩
  · with_unfolding_all rfl
  · obtain ⟨ret, member, after, returns⟩ := sampleReturning_returns
    obtain ⟨first, yields⟩ :=
      (Session.return_is_throw.2.1 9 9 sampleReturning [] sampleStart.machine).1 ret member _ _
        returns
    exact ⟨ret, after, member, returns, first, yields⟩
  · exact ⟨_, _, rfl, (Session.return_is_throw.2.1 9 9 sampleSilent [] sampleStart.machine).2
      sampleSilent_noneReturns _ _ rfl rfl⟩
  · obtain ⟨steps, room, -, call⟩ := sampleInitializer_called
    exact ⟨_, _, _, _, _, _, call, rfl, rfl,
      Session.return_is_throw.2.2.1 _ _ _ _ _ _ _ _ _ _ call rfl rfl⟩
  · exact ⟨_, _, rfl, Session.return_is_throw.2.2.2.1 9 9 sampleReturnLoop sampleStart.machine _ _
      rfl⟩
  · obtain ⟨completion, following, completes⟩ := sampleReturnPrint_completes
    have member : sampleReturnPrint ∈
        [.function sampleReturnFunction, sampleReturnPrint] :=
      List.mem_cons_of_mem _ List.mem_cons_self
    exact ⟨completion, following, completes,
      Session.return_is_throw.2.2.2.2 _ _ _ _ sampleReturn_accepted _ member _ _ _ _ _ completes⟩

end LoxLang
