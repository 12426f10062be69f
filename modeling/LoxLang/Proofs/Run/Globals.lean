/-
Module: LoxLang.Proofs.Run.Globals
Purpose: Which names are bound among the globals.  A run adds the names of the declarations that
  stand directly in the program and complete; blocks, loops, calls and assignments add none, because
  they run in frames of their own or declare nothing, and a declaration that stops adds none either.
Main exports: Stmt.Inward, Machine.SameGlobals, Visited.sameGlobals, Program.Completes, Declaring,
  Session.globals_declared
-/
import LoxLang.Proofs.Run.Discipline
import LoxLang.Proofs.Run.Order

namespace LoxLang

/-! ### Statements that declare nothing -/

namespace Stmt

variable {ρ : Type}

/-- Whether a statement declares nothing in the scope it stands in, whichever of its parts is
executed there. -/
def Inward : Stmt ρ → Prop
  | declare _ _ | function _ | classDecl _ _ _ => False
  | branch _ thenBranch none => thenBranch.Inward
  | branch _ thenBranch (some elseBranch) => thenBranch.Inward ∧ elseBranch.Inward
  | loop _ body => body.Inward
  | expression _ | print _ | block _ | ret _ _ => True

theorem Tidy.inward : ∀ {s : Stmt Unit}, s.Tidy → s.declared? = none → s.Inward
  | expression _, _, _ | print _, _, _ | block _, _, _ | ret _ _, _, _ => trivial
  | branch _ _ none, tidy, _ => tidy.2.1.inward tidy.2.2
  | branch _ _ (some _), ⟨_, tidyThen, noThen, tidyElse, noElse⟩, _ =>
      ⟨tidyThen.inward noThen, tidyElse.inward noElse⟩
  | loop _ _, tidy, _ => tidy.2.1.inward tidy.2.2

theorem bind_inward : ∀ (s : Stmt Unit) (state : BinderState),
    s.Inward → (s.bind state).1.Inward
  | expression _, _, _ | print _, _, _ | block _, _, _ | ret _ _, _, _ => trivial
  | branch _ thenBranch none, _, inward => thenBranch.bind_inward _ inward
  | branch _ thenBranch (some elseBranch), _, inward =>
      ⟨thenBranch.bind_inward _ inward.1, elseBranch.bind_inward _ inward.2⟩
  | loop _ body, _, inward => body.bind_inward _ inward

theorem declared?_bind (s : Stmt Unit) (state : BinderState) :
    (s.bind state).1.declared? = s.declared? := by
  match s with
  | expression _ | print _ | block _ | ret _ _ | declare _ _ | loop _ _ => rfl
  | branch _ _ none => rfl
  | branch _ _ (some _) => rfl
  | function (.mk _ _ _) => rfl
  | classDecl _ none _ => rfl
  | classDecl _ (some _) _ => rfl

/-- What is bound comes from what is read. -/
theorem mem_bindAll {body : List (Stmt Unit)} {state : BinderState} {bound : Stmt Distance}
    (member : bound ∈ (bindAll body state).1) :
    ∃ s ∈ body, ∃ before, bound = (s.bind before).1 := by
  induction body generalizing state with
  | nil => cases member
  | cons s rest ih =>
      have split : bound = (s.bind state).1 ∨ bound ∈ (bindAll rest (s.bind state).2).1 :=
        List.mem_cons.1 member
      rcases split with rfl | later
      · exact ⟨s, List.mem_cons_self, state, rfl⟩
      · obtain ⟨other, among, before, isBound⟩ := ih later
        exact ⟨other, List.mem_cons_of_mem s among, before, isBound⟩

theorem TidyAll.mem {body : List (Stmt Unit)} (tidy : TidyAll body) {s : Stmt Unit}
    (member : s ∈ body) : s.Tidy := by
  induction body with
  | nil => cases member
  | cons first rest ih =>
      rcases List.mem_cons.1 member with rfl | later
      · exact tidy.1
      · exact ih tidy.2 later

end Stmt

/-- In a program that is accepted, what stands directly in it is a declaration or declares nothing. -/
theorem analyze_inward {config : Config} {room : Room} {source : String}
    {program : Program Distance} (accepted : (analyze config room source).program = .ok program)
    {s : Stmt Distance} (member : s ∈ program) (noDeclaration : s.declared? = none) : s.Inward := by
  obtain ⟨plain, accepts⟩ := analyze_eq_ok.1 accepted
  have tidy := Program.tidy_of_parse (by rw [accepts.parsed]) (by rw [accepts.parsed])
  have isBound : (Stmt.bindAll plain ⟨.topLevel, [], #[]⟩).1 = program :=
    congrArg Binding.program accepts.bound
  obtain ⟨read, among, before, rfl⟩ := Stmt.mem_bindAll (isBound ▸ member)
  rw [Stmt.declared?_bind] at noDeclaration
  exact read.bind_inward _ ((tidy.mem among).inward noDeclaration)

/-! ### The names of the globals -/

namespace Machine

theorem mem_globals (machine : Machine) (name : String) :
    name ∈ machine.globals.names ↔ (machine.frames.local? globalFrame name).isSome := by
  rw [Bindings.mem_names, globals, Forest.bindings, Forest.local?]
  cases machine.frames.frames[globalFrame]? <;> rfl

/-- The same names are bound among the globals. -/
def SameGlobals (machine later : Machine) : Prop :=
  ∀ name, name ∈ later.globals.names ↔ name ∈ machine.globals.names

namespace SameGlobals

theorem of_local? {machine later : Machine}
    (same : ∀ name, (later.frames.local? globalFrame name).isSome ↔
      (machine.frames.local? globalFrame name).isSome) : machine.SameGlobals later := by
  intro name
  rw [mem_globals, mem_globals]
  exact same name

theorem refl (machine : Machine) : machine.SameGlobals machine :=
  fun _ => Iff.rfl

theorem trans {machine middle later : Machine} (first : machine.SameGlobals middle)
    (second : middle.SameGlobals later) : machine.SameGlobals later :=
  fun name => (second name).trans (first name)

theorem of_frames {machine later : Machine} (same : later.frames = machine.frames) :
    machine.SameGlobals later :=
  of_local? fun name => by rw [same]

theorem nest (machine : Machine) (parent : FrameId) : machine.SameGlobals (machine.nest parent) :=
  of_local? fun name => by simp only [Machine.nest, Forest.local?_alloc]

/-- Binding a name elsewhere, or binding one again. -/
theorem defining {machine : Machine} {owner : FrameId} {name : String} (value : Value)
    (elsewhere : owner ≠ globalFrame ∨ name ∈ machine.globals.names) :
    machine.SameGlobals (machine.defining owner name value) := by
  apply of_local?
  intro word
  simp only [Machine.defining, Forest.local?_define]
  split
  next isNew =>
    obtain ⟨rfl, rfl, -⟩ := isNew
    rcases elsewhere with other | bound
    · exact absurd rfl other
    · simpa [mem_globals] using bound
  next => rfl

theorem methodSpace {machine : Machine} (root : 0 < machine.fresh) (superclass : Option Class) :
    machine.SameGlobals (machine.methodSpace superclass) := by
  cases superclass with
  | none => exact refl machine
  | some cls => exact (nest machine machine.frame).trans (defining _ (.inl (Nat.ne_of_gt root)))

end SameGlobals

/-- Binding a name among the globals adds it. -/
theorem mem_globals_defining {machine : Machine} (root : 0 < machine.fresh) (name word : String)
    (value : Value) :
    word ∈ (machine.defining globalFrame name value).globals.names ↔
      word ∈ machine.globals.names ∨ name = word := by
  rw [mem_globals, mem_globals]
  simp only [Machine.defining, Forest.local?_define]
  by_cases same : name = word
  · have inside : globalFrame < machine.frames.frames.size := root
    simp [same, inside]
  · simp [same]

end Machine

/-! ### Tasks that declare no globals -/

/-- Whether an activity declares nothing in the frame it begins in. -/
def Activity.Inward : Activity → Prop
  | evaluate _ | evaluateAll _ | call _ _ | bindMethod _ _ => True
  | execute s => s.Inward
  | repeatLoop _ body => body.Inward
  | executeAll _ | declareClass _ _ _ | runProgram _ => False

/-- Whether a task is done within some frame of its own, or declares nothing. -/
def Task.Inner (task : Task) : Prop :=
  task.machine.frame ≠ Machine.globalFrame ∨ task.activity.Inward

/-- What declares nothing enters a frame or goes on with something that declares nothing. -/
theorem Leads.inward {task next : Task} (leads : Leads task next)
    (noBlock : ∀ body, task.activity ≠ .execute (.block body))
    (noCall : ∀ closure arguments, task.activity ≠ .call closure arguments)
    (inward : task.activity.Inward) : next.activity.Inward := by
  cases leads with
  | blockBody => exact absurd rfl (noBlock _)
  | callBody => exact absurd rfl (noCall _ _)
  | @branchThen _ _ _ _ elseBranch _ _ _ _ _ =>
      cases elseBranch with
      | none => exact inward
      | some other => exact inward.1
  | branchElse _ _ => exact inward.2
  | loopStart => exact inward
  | loopBody _ _ => exact inward
  | loopAgain _ _ _ => exact inward
  | classMethods _ => exact inward
  | executeFirst => exact inward.elim
  | executeRest _ => exact inward.elim
  | programFirst => exact inward.elim
  | programRest _ => exact inward.elim
  | _ => trivial

theorem Leads.inner {task next : Task} (leads : Leads task next) (root : 0 < task.machine.fresh)
    (inner : task.Inner) : next.Inner := by
  have fresh : task.machine.fresh ≠ Machine.globalFrame := Nat.ne_of_gt root
  by_cases enters : (∃ body, task.activity = .execute (.block body)) ∨
      ∃ closure arguments, task.activity = .call closure arguments
  · apply Or.inl
    rcases task with ⟨steps, room, activity, machine⟩
    rcases enters with ⟨body, rfl⟩ | ⟨closure, arguments, rfl⟩
    · cases leads
      exact fresh
    · cases leads
      exact fresh
  · have noBlock : ∀ body, task.activity ≠ .execute (.block body) := fun body isBlock =>
      enters (.inl ⟨body, isBlock⟩)
    have noCall : ∀ closure arguments, task.activity ≠ .call closure arguments :=
      fun closure arguments isCall => enters (.inr ⟨closure, arguments, isCall⟩)
    rcases inner with elsewhere | inward
    · left
      rw [leads.stays noBlock noCall]
      exact elsewhere
    · exact .inr (leads.inward noBlock noCall inward)

section History

variable {config : Config} {clock : Nat → Float} {history : List Command}

theorem Visited.root {task : Task} (visited : Visited (.start config clock) history task) :
    0 < task.machine.fresh :=
  (visited_sound visited).heap.root.1

/-- A distance never leads to the globals. -/
theorem Mirrors.target_ne_global {visited : Task → Prop} {forest : Forest Value} {sight : Sight}
    {frame owner : FrameId} (mirrors : Mirrors visited forest sight.layers frame)
    (outermost : forest.parent? Machine.globalFrame = none) {name : String} {distance : Nat}
    (found : sight.distance? name = some distance)
    (reached : forest.frameAt frame distance = .ok owner) : owner ≠ Machine.globalFrame := by
  obtain ⟨inner, layer, outer, split, rfl, -, -⟩ := distanceIn_eq_some found
  obtain ⟨own, around, reachedToo, -, next⟩ := mirrors.opened split
  cases reached.symm.trans reachedToo
  rintro rfl
  rw [Forest.frameAt_add reached, Forest.frameAt_succ_none outermost] at next
  cases next

/-- An assignment goes to a frame of its own or to a global that exists. -/
theorem Visited.assigns {steps room : Nat} {name : Ident} {binding : Distance}
    {value : Expr Distance} {machine following : Machine} {result : Value} {owner : FrameId}
    (visited : Visited (.start config clock) history
      ⟨steps + 1, room + 1, .evaluate (.assign name binding value), machine⟩)
    (evaluated : eval steps room value machine = .ok result following)
    (isOwner : following.Assigns name binding owner) :
    owner ≠ Machine.globalFrame ∨ name.text ∈ following.globals.names := by
  obtain ⟨continues, heap, -⟩ :=
    (visited_settles (visited.closed _ _ .assignValue)).evaluated evaluated
  cases binding with
  | some distance =>
      obtain ⟨-, sight, sees, places⟩ := visited_sound visited
      have right : Reference.Right sight { kind := .write, name := name, binding := some distance } :=
        Accepted.right _ (throughout_cons.1 places).1
      exact .inl ((continues.sees sees).chain.target_ne_global heap.root.2 right.1.symm isOwner)
  | none =>
      have found := Forest.find?_of_parent?_eq_none heap.root.2 name.text
      rw [isOwner] at found
      split at found
      next bound => exact .inr ((following.mem_globals name.text).2 bound)
      next => cases found

theorem Deed.sameGlobals {task : Task} {machine later : Machine}
    (visited : Visited (.start config clock) history task) (inner : task.Inner)
    (deed : Deed task machine later) : machine.SameGlobals later := by
  have fresh : task.machine.fresh ≠ Machine.globalFrame := Nat.ne_of_gt visited.root
  cases deed with
  | aside _ same => exact .of_frames same
  | nest parent => exact .nest machine parent
  | assign evaluated isOwner => exact .defining _ (visited.assigns evaluated isOwner)
  | @declare steps room _ initializer begun _ _ evaluated =>
      have elsewhere := inner.resolve_right id
      have begins : Account.blank.holds begun := trivial
      have upholds := Account.evalOpt_upholds ((Account.blank.eval_and_exec steps).1 room) initializer
        begins
      rw [evaluated] at upholds
      exact .defining _ (.inl (upholds.1.frame.symm ▸ elsewhere))
  | declareFunction => exact .defining _ (.inl (inner.resolve_right id))
  | declareClass => exact .defining _ (.inl (inner.resolve_right id))
  | inherit => exact .methodSpace visited.root _
  | passArgument _ => exact .defining _ (.inl fresh)
  | receive =>
      exact ((Machine.SameGlobals.nest _ _).trans (.defining _ (.inl fresh))).trans (.of_frames rfl)

/-- What is done within some frame, or declares nothing, leaves the names of the globals as they
are: no deed of its own touches them, and its parts are again such tasks. -/
theorem Visited.sameGlobals (task : Task) (visited : Visited (.start config clock) history task)
    (inner : task.Inner) : task.machine.SameGlobals task.final := by
  induction task using Leads.wellFounded.induction with
  | h task ih =>
      apply task.chainedByDeeds.lift .refl (fun _ _ _ => .trans)
        (fun _ _ deed => deed.sameGlobals visited inner)
      intro part member
      have leads := Task.leads_of_mem_parts member
      exact ih part leads (visited.closed task part leads) (leads.inner visited.root inner)

/-! ### Declarations that stand directly in a program -/

/-- How a declaration that stops leaves the machine: as its initializer left it when it stopped, or
as it was. -/
theorem exec_declaration_error {steps room : Nat} {s : Stmt Distance} {name : Ident}
    {machine following : Machine} {stop : Stop} (declares : s.declared? = some name)
    (stopped : exec steps room s machine = .error stop following) :
    following = machine ∨
      ∃ value less fewer, s = .declare name (some value) ∧
        Leads ⟨steps, room, .execute s, machine⟩ ⟨less, fewer, .evaluate value, machine⟩ ∧
        eval less fewer value machine = .error stop following := by
  cases steps with
  | zero =>
      cases stopped
      exact .inl rfl
  | succ steps =>
      cases room with
      | zero =>
          cases stopped
          exact .inl rfl
      | succ room =>
          cases s with
          | declare word initializer =>
              cases declares
              cases initializer with
              | none => cases stopped
              | some value =>
                  right
                  refine ⟨value, steps, room, rfl, .declareValue, ?_⟩
                  simp only [exec, evalOpt] at stopped
                  cases evaluated : eval steps room value machine with
                  | error reason middle =>
                      rw [evaluated] at stopped
                      cases stopped
                      rfl
                  | ok result middle =>
                      rw [evaluated] at stopped
                      cases stopped
          | function declaration => cases stopped
          | classDecl word superclass methods =>
              have isLast := last_evalSuperclass superclass machine
              simp only [exec] at stopped
              cases evaluated : evalSuperclass superclass machine with
              | error reason middle =>
                  rw [evaluated] at isLast stopped
                  cases stopped
                  exact .inl isLast
              | ok cls middle =>
                  obtain ⟨table, identity, identities, -, made, -⟩ :=
                    Run.newClass_spec word cls methods middle
                  rw [evaluated] at stopped
                  simp only [completing, made] at stopped
                  cases stopped
          | _ => cases declares

/-- A declaration at the globals that completes adds its name. -/
theorem Visited.mem_globals_declaration {steps room : Nat} {s : Stmt Distance} {name : Ident}
    {machine following : Machine} {completion : Completion}
    (visited : Visited (.start config clock) history ⟨steps, room, .execute s, machine⟩)
    (atTop : machine.frame = Machine.globalFrame) (declares : s.declared? = some name)
    (completed : exec steps room s machine = .ok completion following) (word : String) :
    word ∈ following.globals.names ↔ word ∈ machine.globals.names ∨ name.text = word := by
  have root : 0 < machine.fresh := visited.root
  have declared : ∀ {space : Machine} {owner : FrameId} (value : Value),
      machine.SameGlobals space → owner = Machine.globalFrame → 0 < space.fresh →
      (word ∈ (space.defining owner name.text value).globals.names ↔
        word ∈ machine.globals.names ∨ name.text = word) := by
    intro space owner value same isGlobal inside
    rw [isGlobal, Machine.mem_globals_defining inside, same word]
  cases steps with
  | zero => cases completed
  | succ steps =>
      cases room with
      | zero => cases completed
      | succ room =>
          cases s with
          | declare _ initializer =>
              cases declares
              cases initializer with
              | none =>
                  cases completed
                  exact declared _ (.refl machine) atTop root
              | some value =>
                  simp only [exec, evalOpt] at completed
                  cases evaluated : eval steps room value machine with
                  | error reason middle =>
                      rw [evaluated] at completed
                      cases completed
                  | ok result middle =>
                      rw [evaluated] at completed
                      cases completed
                      have valueVisited := visited.closed _ _ .declareValue
                      have same := Visited.sameGlobals _ valueVisited (.inr trivial)
                      obtain ⟨continues, heap, -⟩ := (visited_settles valueVisited).evaluated evaluated
                      simp only [Task.final, evaluated, Run.last] at same
                      exact declared _ same (continues.frame.trans atTop) heap.root.1
          | function declaration =>
              cases declares
              cases completed
              exact declared _ (.of_frames rfl) atTop root
          | classDecl _ superclass methods =>
              cases declares
              simp only [exec] at completed
              cases evaluated : evalSuperclass superclass machine with
              | error reason middle =>
                  rw [evaluated] at completed
                  cases completed
              | ok cls middle =>
                  have same : middle = machine := by
                    have isLast := last_evalSuperclass superclass machine
                    rwa [evaluated] at isLast
                  subst same
                  obtain ⟨table, identity, identities, -, made, -⟩ :=
                    Run.newClass_spec name cls methods middle
                  rw [evaluated] at completed
                  simp only [completing, made] at completed
                  cases completed
                  exact declared _ (.methodSpace root cls) atTop
                    (Nat.lt_of_lt_of_le root (middle.resumes_methodSpace cls).grows.frames)
          | _ => cases declares

end History

/-! ### Runs -/

/-- A statement that stands directly in a program is executed to its end when the program is run. -/
def Program.Completes (execute : Stmt Distance → Run Completion) (machine : Machine)
    (program : Program Distance) (s : Stmt Distance) : Prop :=
  ∃ before rest middle completion following, program = before ++ s :: rest ∧
    execProgram execute before machine = .ok () middle ∧
    execute s middle = .ok completion following

theorem Program.completes_cons {execute : Stmt Distance → Run Completion} {machine : Machine}
    {first s : Stmt Distance} {rest : Program Distance} :
    Program.Completes execute machine (first :: rest) s ↔
      ∃ completion following, execute first machine = .ok completion following ∧
        (first = s ∨ Program.Completes execute following rest s) := by
  constructor
  · rintro ⟨before, after, middle, completion, following, split, done, completed⟩
    cases before with
    | nil =>
        cases split
        cases done
        exact ⟨completion, following, completed, .inl rfl⟩
    | cons head before =>
        cases split
        simp only [execProgram] at done
        split at done
        next ended next executed =>
          exact ⟨ended, next, executed, .inr
            ⟨before, after, middle, completion, following, rfl, done, completed⟩⟩
        next => cases done
  · rintro ⟨completion, following, completed, rfl | later⟩
    · exact ⟨[], rest, machine, completion, following, rfl, rfl, completed⟩
    · obtain ⟨before, after, middle, ended, last, rfl, done, completedToo⟩ := later
      refine ⟨first :: before, after, middle, ended, last, rfl, ?_, completedToo⟩
      simp only [execProgram, completed, done]

section Programs

variable {config : Config} {clock : Nat → Float} {history : List Command}

/-- A statement that completes at the globals adds the name it declares, if it declares one. -/
theorem Visited.mem_globals_statement {steps room : Nat} {s : Stmt Distance}
    {machine following : Machine} {completion : Completion}
    (visited : Visited (.start config clock) history ⟨steps, room, .execute s, machine⟩)
    (atTop : machine.frame = Machine.globalFrame) (inward : s.declared? = none → s.Inward)
    (completed : exec steps room s machine = .ok completion following) (word : String) :
    word ∈ following.globals.names ↔
      word ∈ machine.globals.names ∨ ∃ name, s.declared? = some name ∧ name.text = word := by
  cases declares : s.declared? with
  | none =>
      have same := Visited.sameGlobals _ visited (.inr (inward declares))
      simp only [Task.final, completed, Run.last] at same
      simpa using same word
  | some name =>
      simpa using visited.mem_globals_declaration atTop declares completed word

/-- A statement that stops adds nothing, whatever it was to declare. -/
theorem Visited.sameGlobals_of_error {steps room : Nat} {s : Stmt Distance}
    {machine following : Machine} {stop : Stop}
    (visited : Visited (.start config clock) history ⟨steps, room, .execute s, machine⟩)
    (inward : s.declared? = none → s.Inward)
    (stopped : exec steps room s machine = .error stop following) :
    machine.SameGlobals following := by
  cases declares : s.declared? with
  | none =>
      have same := Visited.sameGlobals _ visited (.inr (inward declares))
      simpa only [Task.final, stopped, Run.last] using same
  | some name =>
      rcases exec_declaration_error declares stopped with rfl | ⟨value, _, _, -, leads, evaluated⟩
      · exact .refl following
      · have same := Visited.sameGlobals _ (visited.closed _ _ leads) (.inr trivial)
        simpa only [Task.final, evaluated, Run.last] using same

/-- A program adds the names of the declarations that stand directly in it and complete. -/
theorem Visited.mem_globals_program {steps room : Nat} {program : Program Distance}
    {machine : Machine}
    (visited : Visited (.start config clock) history ⟨steps, room, .runProgram program, machine⟩)
    (atTop : machine.frame = Machine.globalFrame)
    (inward : ∀ s ∈ program, s.declared? = none → s.Inward) (word : String) :
    word ∈ (Run.last (execProgram (exec steps room) program machine)).globals.names ↔
      word ∈ machine.globals.names ∨
        ∃ s name, Program.Completes (exec steps room) machine program s ∧
          s.declared? = some name ∧ name.text = word := by
  induction program generalizing machine with
  | nil =>
      have none : ∀ s, ¬Program.Completes (exec steps room) machine [] s := by
        rintro s ⟨before, rest, -, -, -, split, -⟩
        simp at split
      simp [execProgram, Run.last, none]
  | cons first rest ih =>
      have firstVisited := visited.closed _ _ .programFirst
      have firstInward := inward first List.mem_cons_self
      cases executed : exec steps room first machine with
      | error stop following =>
          have none : ∀ s, ¬Program.Completes (exec steps room) machine (first :: rest) s := by
            intro s completes
            obtain ⟨_, _, completed, -⟩ := Program.completes_cons.1 completes
            cases completed.symm.trans executed
          have same := firstVisited.sameGlobals_of_error firstInward executed
          simpa [execProgram, executed, Run.last, none] using same word
      | ok completion following =>
          have restVisited := visited.closed _ _ (.programRest executed)
          have stays : following.frame = machine.frame :=
            ((visited_settles firstVisited).executed executed).1.frame
          have later := ih restVisited (stays.trans atTop)
            (fun s member => inward s (List.mem_cons_of_mem first member))
          have here := firstVisited.mem_globals_statement atTop firstInward executed word
          have completes : ∀ s, Program.Completes (exec steps room) machine (first :: rest) s ↔
              first = s ∨ Program.Completes (exec steps room) following rest s := by
            intro s
            rw [Program.completes_cons, executed]
            constructor
            · rintro ⟨_, _, same, either⟩
              cases same
              exact either
            · intro either
              exact ⟨completion, following, rfl, either⟩
          simp only [execProgram, executed, later, here, completes]
          constructor
          · rintro ((before | ⟨name, declares, same⟩) | ⟨s, name, completed, declares, same⟩)
            · exact .inl before
            · exact .inr ⟨first, name, .inl rfl, declares, same⟩
            · exact .inr ⟨s, name, .inr completed, declares, same⟩
          · rintro (before | ⟨s, name, rfl | completed, declares, same⟩)
            · exact .inl (.inl before)
            · exact .inl (.inr ⟨name, declares, same⟩)
            · exact .inr ⟨s, name, completed, declares, same⟩

/-- What is left of a program is run where its first part has ended. -/
theorem Reaches.rest {steps room : Nat} {before rest : Program Distance} {machine middle : Machine}
    (done : execProgram (exec steps room) before machine = .ok () middle) :
    Reaches ⟨steps, room, .runProgram (before ++ rest), machine⟩
      ⟨steps, room, .runProgram rest, middle⟩ := by
  induction before generalizing machine with
  | nil =>
      cases done
      exact .refl _
  | cons first before ih =>
      simp only [execProgram] at done
      split at done
      next completion following executed =>
        exact Reaches.trans (.step (.refl _) (.programRest executed)) (ih done)
      next => cases done

/-- The tasks by which a run of a program may add globals: running what is left of the program,
executing a declaration that stands directly in it, and creating the class of such a declaration. -/
inductive Declaring (steps room : Nat) (machine : Machine) (program : Program Distance) :
    Task → Prop where
  | rest {before rest : Program Distance} {middle : Machine} (split : program = before ++ rest)
      (done : execProgram (exec steps room) before machine = .ok () middle) :
      Declaring steps room machine program ⟨steps, room, .runProgram rest, middle⟩
  | declaration {before rest : Program Distance} {s : Stmt Distance} {name : Ident}
      {middle : Machine} (split : program = before ++ s :: rest)
      (done : execProgram (exec steps room) before machine = .ok () middle)
      (declares : s.declared? = some name) :
      Declaring steps room machine program ⟨steps, room, .execute s, middle⟩
  | methods {name : Ident} {superclass : Option (Ident × Distance)} {cls : Option Class}
      {methods : List (Function Distance)} {less fewer : Nat} {middle following : Machine}
      (outer : Declaring steps room machine program
        ⟨steps, room, .execute (.classDecl name superclass methods), middle⟩)
      (leads : Leads ⟨steps, room, .execute (.classDecl name superclass methods), middle⟩
        ⟨less, fewer, .declareClass name cls methods, following⟩) :
      Declaring steps room machine program ⟨less, fewer, .declareClass name cls methods, following⟩

theorem Declaring.leads {steps room : Nat} {machine : Machine} {program : Program Distance}
    {task next : Task} (inward : ∀ s ∈ program, s.declared? = none → s.Inward)
    (declaring : Declaring steps room machine program task) (leads : Leads task next) :
    Declaring steps room machine program next ∨ next.Inner := by
  cases declaring with
  | rest split done =>
      cases leads with
      | @programFirst _ _ s =>
          cases declares : s.declared? with
          | none =>
              have member : s ∈ program := by rw [split]; simp
              exact .inr (.inr (inward s member declares))
          | some name => exact .inl (.declaration split done declares)
      | programRest first =>
          refine .inl (.rest (split.trans (List.append_cons ..)) ?_)
          rw [execProgram_append done]
          simp only [execProgram, first]
  | declaration split done declares =>
      have outer := Declaring.declaration split done declares
      cases leads with
      | declareValue => exact .inr (.inr trivial)
      | classSuperclass => exact .inr (.inr trivial)
      | classMethods first => exact .inl (.methods outer (.classMethods first))
      | _ => cases declares
  | methods outer created => cases leads

/-- Whatever else is done leaves the names of the globals as they are. -/
theorem Ran.declaring_or_sameGlobals {session : Session} {source : String} {room : Room}
    {program : Program Distance} {task : Task}
    (ran : Ran (.start config clock) history session source room program)
    (reaches : Reaches (Ran.task session room program) task) :
    Declaring allowance room.evaluation session.machine program task ∨
      task.machine.SameGlobals task.final := by
  have classified : Declaring allowance room.evaluation session.machine program task ∨
      task.Inner := by
    induction reaches with
    | refl => exact .inl (.rest (List.nil_append program).symm rfl)
    | step first leads ih =>
        rcases ih with declaring | inner
        · exact declaring.leads (fun _ => analyze_inward ran.analyzed) leads
        · exact .inr (leads.inner (ran.visited.reached first).root inner)
  exact classified.imp_right (Visited.sameGlobals task (ran.visited.reached reaches))

end Programs

namespace Session

theorem machine_run {session : Session} {source : String} {room : Room}
    {program : Program Distance} {start : Session} {history : List Command}
    (ran : Ran start history session source room program) :
    (session.run source).1.machine.globals =
      (Run.last (execProgram (exec allowance room.evaluation) program session.machine)).globals := by
  simp only [run, ran.available, ran.analyzed, runBound]
  cases execProgram (exec allowance room.evaluation) program session.machine <;> rfl

/-- After a run the names of the globals are those before and the names of the declarations that
stand directly in the program and completed.  Nothing else that is done in the run, at any depth,
adds a name.  A declaration that stands directly in the program and stops adds none: the globals
are what its initializer has made of them, or what they were. -/
theorem globals_declared {config : Config} {clock : Nat → Float} {history : List Command}
    {session : Session} {source : String} {room : Room} {program : Program Distance}
    (ran : Ran (start config clock) history session source room program) :
    let execute := exec allowance room.evaluation
    (∀ word, word ∈ (session.run source).1.machine.globals.names ↔
      word ∈ session.machine.globals.names ∨
        ∃ s name, Program.Completes execute session.machine program s ∧
          s.declared? = some name ∧ name.text = word) ∧
    (∀ task, Reaches ⟨allowance, room.evaluation, .runProgram program, session.machine⟩ task →
      Declaring allowance room.evaluation session.machine program task ∨
        ∀ word, word ∈ task.final.globals.names ↔ word ∈ task.machine.globals.names) ∧
    ∀ before s rest name middle stop following, program = before ++ s :: rest →
      execProgram execute before session.machine = .ok () middle →
      s.declared? = some name → execute s middle = .error stop following →
      (session.run source).1.machine.globals = following.globals ∧
      (∀ word, word ∈ following.globals.names ↔ word ∈ middle.globals.names) ∧
      (following = middle ∨
        ∃ value less fewer, s = .declare name (some value) ∧
          Leads ⟨allowance, room.evaluation, .execute s, middle⟩
            ⟨less, fewer, .evaluate value, middle⟩ ∧
          eval less fewer value middle = .error stop following) := by
  intro execute
  have inward : ∀ s ∈ program, s.declared? = none → s.Inward := fun _ => analyze_inward ran.analyzed
  refine ⟨?_, fun task => ran.declaring_or_sameGlobals, ?_⟩
  · intro word
    rw [machine_run ran]
    exact ran.visited.mem_globals_program ran.sessionSound.atGlobals inward word
  · intro before s rest name middle stop following split done declares stopped
    subst split
    have reached := ran.visited.reached (.step (Reaches.rest done) .programFirst)
    refine ⟨?_, ?_, exec_declaration_error declares stopped⟩
    · rw [machine_run ran, execProgram_append done, execProgram, stopped]
      rfl
    · have noInward : s.declared? = none → s.Inward := by
        rw [declares]
        intro undeclared
        cases undeclared
      exact reached.sameGlobals_of_error noInward stopped

/-- A variable that is declared again, with a value that cannot be had. -/
def sampleRedeclaration : String :=
  "var a = true; { var b; } var a = -nil;"

theorem sampleRedeclaration_ran :
    Ran sampleStart [.run sampleRedeclaration] sampleStart sampleRedeclaration ⟨25000, 25000⟩
      [.declare ⟨"a", ⟨1, 5⟩⟩ (some (.literal (.bool true))),
        .block [.declare ⟨"b", ⟨1, 21⟩⟩ none],
        .declare ⟨"a", ⟨1, 30⟩⟩ (some (.unary .negate ⟨1, 34⟩ (.literal .nil)))] where
  moment := ⟨[], [], rfl, rfl⟩
  available := by with_unfolding_all rfl
  analyzed := by with_unfolding_all rfl

/-- The first declaration adds a name, the one in the block adds none, and the one that fails leaves
the older value in place. -/
theorem globals_declared_sample :
    let after := (sampleStart.run sampleRedeclaration).1.machine.globals
    "a" ∈ after.names ∧ "b" ∉ after.names ∧ after.get? "a" = some (.bool true) := by
  obtain ⟨names, -, stops⟩ := globals_declared sampleRedeclaration_ran
  refine ⟨?_, ?_, ?_⟩
  · exact (names "a").2 (.inr ⟨_, _, ⟨[], _, _, _, _, rfl, rfl, rfl⟩, rfl, rfl⟩)
  · with_unfolding_all decide
  · obtain ⟨same, -⟩ := stops [_, _] _ [] _ _ _ _ rfl rfl rfl rfl
    rw [same]
    rfl

end Session

end LoxLang
