/-
Module: LoxLang.Proofs.Run.Order
Purpose: The order in which things are done.  Of any two tasks of a history one is done as a part of
  the other, or one was over before the other began; and the machine of the later one has become
  what it is from the machine of the earlier one.
Main exports: Visited.becomes, Ordered, Reaches.ordered, Session.becomes_performAll,
  Visited.ordered
-/
import LoxLang.Proofs.Run.Deed
import LoxLang.Proofs.Run.History

namespace LoxLang

namespace ChainedBy

variable {machine last : Machine} {parts : List Task}

/-- Tasks done one after the other lead from the first machine to the last. -/
theorem becomes (each : ∀ part ∈ parts, part.machine.Becomes part.final)
    (chained : Chained machine parts last) : machine.Becomes last :=
  chained.lift (fun _ => .refl) (fun _ _ _ => .trans) (fun _ _ => .single) each

theorem around (each : ∀ part ∈ parts, part.machine.Becomes part.final)
    (chained : Chained machine parts last) {part : Task} (member : part ∈ parts) :
    machine.Becomes part.machine ∧ part.final.Becomes last := by
  induction parts generalizing machine with
  | nil => cases member
  | cons first parts ih =>
      have eachRest : ∀ other ∈ parts, other.machine.Becomes other.final := fun other member =>
        each other (List.mem_cons_of_mem first member)
      cases List.mem_cons.1 member with
      | inl same =>
          subst same
          exact ⟨chained.1, chained.2.becomes eachRest⟩
      | inr later =>
          obtain ⟨before, after⟩ := ih eachRest chained.2 later
          exact ⟨(chained.1.trans (each first List.mem_cons_self)).trans before, after⟩

/-- Of two such tasks one was over before the other began, unless they are one. -/
theorem ordered (each : ∀ part ∈ parts, part.machine.Becomes part.final)
    (chained : Chained machine parts last) {part other : Task} (member : part ∈ parts)
    (otherMember : other ∈ parts) :
    part = other ∨ part.final.Becomes other.machine ∨ other.final.Becomes part.machine := by
  induction parts generalizing machine with
  | nil => cases member
  | cons first parts ih =>
      have eachRest : ∀ other ∈ parts, other.machine.Becomes other.final := fun other member =>
        each other (List.mem_cons_of_mem first member)
      rcases List.mem_cons.1 member with isFirst | later
      · rcases List.mem_cons.1 otherMember with otherFirst | otherLater
        · exact .inl (isFirst.trans otherFirst.symm)
        · exact .inr (.inl (isFirst ▸ (around eachRest chained.2 otherLater).1))
      · rcases List.mem_cons.1 otherMember with otherFirst | otherLater
        · exact .inr (.inr (otherFirst ▸ (around eachRest chained.2 later).1))
        · exact ih eachRest chained.2 later otherLater

end ChainedBy

/-! ### Within one run -/

theorem Reaches.trans {task middle last : Task} (first : Reaches task middle)
    (second : Reaches middle last) : Reaches task last := by
  induction second with
  | refl => exact first
  | step _ leads ih => exact .step ih leads

/-- What is reached is the task itself or reached from one of its parts. -/
theorem Reaches.part {task last : Task} (reaches : Reaches task last) :
    task = last ∨ ∃ part, Leads task part ∧ Reaches part last := by
  induction reaches with
  | refl => exact .inl rfl
  | @step middle last _ leads ih =>
      rcases ih with rfl | ⟨part, leadsTo, reaches⟩
      · exact .inr ⟨last, leads, .refl last⟩
      · exact .inr ⟨part, leadsTo, .step reaches leads⟩

/-- One of two tasks is done as a part of the other, or one was over before the other began. -/
def Ordered (task other : Task) : Prop :=
  Reaches task other ∨ Reaches other task ∨ task.final.Becomes other.machine ∨
    other.final.Becomes task.machine

theorem Ordered.symm {task other : Task} (ordered : Ordered task other) : Ordered other task := by
  rcases ordered with inside | around | before | after
  · exact .inr (.inl inside)
  · exact .inl around
  · exact .inr (.inr (.inr before))
  · exact .inr (.inr (.inl after))

section History

variable {config : Config} {clock : Nat → Float} {history : List Command}

theorem Visited.chained {task : Task} (visited : Visited (.start config clock) history task) :
    Chained task.machine task.parts task.final :=
  Task.chained Accepted.right (visited_sound visited)

/-- Whatever is done, the machine becomes what it is by single changes. -/
theorem Visited.becomes (task : Task) (visited : Visited (.start config clock) history task) :
    task.machine.Becomes task.final := by
  induction task using Leads.wellFounded.induction with
  | h task ih =>
      apply visited.chained.becomes
      intro part member
      have leads := Task.leads_of_mem_parts member
      exact ih part leads (visited.closed task part leads)

theorem Visited.parts_become {task : Task} (visited : Visited (.start config clock) history task) :
    ∀ part ∈ task.parts, part.machine.Becomes part.final := by
  intro part member
  exact Visited.becomes part (visited.closed task part (Task.leads_of_mem_parts member))

/-- A part is done while the task is done. -/
theorem Leads.within {task part : Task} (leads : Leads task part)
    (visited : Visited (.start config clock) history task) :
    task.machine.Becomes part.machine ∧ part.final.Becomes task.final :=
  visited.chained.around visited.parts_become leads.mem_parts

theorem Visited.reached {task last : Task} (visited : Visited (.start config clock) history task)
    (reaches : Reaches task last) : Visited (.start config clock) history last := by
  rcases visited with ⟨session, source, room, program, ran, first⟩
  exact ⟨session, source, room, program, ran, first.trans reaches⟩

/-- Whatever a task reaches is done while the task is done. -/
theorem Reaches.within {task last : Task} (reaches : Reaches task last)
    (visited : Visited (.start config clock) history task) :
    task.machine.Becomes last.machine ∧ last.final.Becomes task.final := by
  induction reaches with
  | refl => exact ⟨.refl, .refl⟩
  | step first leads ih =>
      obtain ⟨before, after⟩ := leads.within (visited.reached first)
      exact ⟨ih.1.trans before, after.trans ih.2⟩

/-- Two tasks of one run are ordered: by induction on the way to one of them. -/
theorem Reaches.ordered {root task other : Task}
    (visited : Visited (.start config clock) history root) (reaches : Reaches root task)
    (reachesOther : Reaches root other) : Ordered task other := by
  induction reaches with
  | refl => exact .inl reachesOther
  | @step middle task first leads ih =>
      have middleVisited := visited.reached first
      obtain ⟨before, after⟩ := leads.within middleVisited
      rcases ih with inside | around | isBefore | isAfter
      · rcases inside.part with rfl | ⟨part, leadsOther, reachesPart⟩
        · exact .inr (.inl (.step (.refl _) leads))
        · -- the two ways part here
          have partVisited := middleVisited.closed middle part leadsOther
          obtain ⟨begins, ends⟩ := reachesPart.within partVisited
          rcases middleVisited.chained.ordered middleVisited.parts_become leads.mem_parts
            leadsOther.mem_parts with rfl | taskFirst | otherFirst
          · exact .inl reachesPart
          · exact .inr (.inr (.inl (taskFirst.trans begins)))
          · exact .inr (.inr (.inr (ends.trans otherFirst)))
      · exact .inr (.inl (.step around leads))
      · exact .inr (.inr (.inl (after.trans isBefore)))
      · exact .inr (.inr (.inr (isAfter.trans before)))

/-! ### Within a history -/

/-- The task of running a program. -/
def Ran.task (session : Session) (room : Room) (program : Program Distance) : Task :=
  ⟨allowance, room.evaluation, .runProgram program, session.machine⟩

theorem Ran.visited {session : Session} {source : String} {room : Room}
    {program : Program Distance}
    (ran : Ran (.start config clock) history session source room program) :
    Visited (.start config clock) history (Ran.task session room program) :=
  ⟨session, source, room, program, ran, .refl _⟩

/-- After a run the session goes on with what the run left behind. -/
theorem Ran.handsOver {session : Session} {source : String} {room : Room}
    {program : Program Distance}
    (ran : Ran (.start config clock) history session source room program) :
    (Ran.task session room program).final.Becomes (session.perform (.run source)).1.machine := by
  simp only [Session.perform, Session.run, ran.available, ran.analyzed, Session.runBound,
    Task.final, Ran.task]
  cases execProgram (exec allowance room.evaluation) program session.machine <;>
    exact (Machine.Change.handOut _).becomes

theorem Session.becomes_perform {session : Session} {command : Command}
    {earlier later : List Command} (moment : history = earlier ++ command :: later)
    (isSession : session = (Session.start config clock).performAll earlier) :
    session.machine.Becomes (session.perform command).1.machine := by
  cases command with
  | check source => exact .refl
  | run source =>
      cases available : session.room with
      | error ending =>
          simp only [Session.perform, Session.run, available]
          exact .refl
      | ok room =>
          cases analyzed : (analyze session.config room source).program with
          | error ending =>
              simp only [Session.perform, Session.run, available, analyzed]
              exact .refl
          | ok program =>
              have ran : Ran (.start config clock) history session source room program :=
                ⟨⟨earlier, later, moment, isSession⟩, available, analyzed⟩
              exact (Visited.becomes _ ran.visited).trans ran.handsOver

/-- Whatever is asked of a session, its machine becomes what it is by single changes. -/
theorem Session.becomes_performAll {earlier more later : List Command}
    (moment : history = earlier ++ (more ++ later)) :
    ((Session.start config clock).performAll earlier).machine.Becomes
      ((Session.start config clock).performAll (earlier ++ more)).machine := by
  induction more generalizing earlier with
  | nil => rw [List.append_nil]
  | cons command more ih =>
      have first : ((Session.start config clock).performAll earlier).machine.Becomes
          ((Session.start config clock).performAll (earlier ++ [command])).machine := by
        rw [Session.performAll_append]
        exact Session.becomes_perform moment rfl
      have rest := @ih (earlier ++ [command]) (by rw [moment]; simp)
      rw [List.append_assoc] at rest
      exact first.trans rest

/-- A source is run in one way only. -/
theorem Ran.unique {session : Session} {source : String} {room other : Room}
    {program otherProgram : Program Distance}
    (ran : Ran (.start config clock) history session source room program)
    (again : Ran (.start config clock) history session source other otherProgram) :
    Ran.task session room program = Ran.task session other otherProgram := by
  cases ran.available.symm.trans again.available
  cases ran.analyzed.symm.trans again.analyzed
  rfl

/-- A run that comes later in a history begins with what an earlier one has left behind. -/
theorem Ran.handsOn {session : Session} {source : String} {room : Room}
    {program : Program Distance} {earlier between later : List Command}
    (ran : Ran (.start config clock) history session source room program)
    (moment : history = earlier ++ .run source :: (between ++ later))
    (isSession : session = (Session.start config clock).performAll earlier) :
    (Ran.task session room program).final.Becomes
      ((Session.start config clock).performAll (earlier ++ .run source :: between)).machine := by
  have after : (session.perform (.run source)).1 =
      (Session.start config clock).performAll (earlier ++ [.run source]) := by
    rw [Session.performAll_append, isSession]
    rfl
  have rest : ((Session.start config clock).performAll (earlier ++ [.run source])).machine.Becomes
      ((Session.start config clock).performAll ((earlier ++ [.run source]) ++ between)).machine :=
    Session.becomes_performAll (moment.trans (List.append_cons earlier _ _))
  rw [← after, List.append_assoc] at rest
  exact ran.handsOver.trans rest

theorem Ran.ordered {session other : Session} {source otherSource : String}
    {room otherRoom : Room} {program otherProgram : Program Distance}
    {earlier between later : List Command} {task otherTask : Task}
    (ran : Ran (.start config clock) history session source room program)
    (again : Ran (.start config clock) history other otherSource otherRoom otherProgram)
    (isSession : session = (Session.start config clock).performAll earlier)
    (isOther : other = (Session.start config clock).performAll (earlier ++ between))
    (moment : history = earlier ++ (between ++ .run otherSource :: later))
    (runs : ∃ rest, .run source :: rest = between ++ .run otherSource :: later)
    (reaches : Reaches (Ran.task session room program) task)
    (reachesOther : Reaches (Ran.task other otherRoom otherProgram) otherTask) :
    Ordered task otherTask := by
  obtain ⟨rest, isRest⟩ := runs
  cases between with
  | nil =>
      cases isRest
      rw [List.append_nil, ← isSession] at isOther
      subst isOther
      rw [← ran.unique again] at reachesOther
      exact reaches.ordered ran.visited reachesOther
  | cons command between =>
      cases isRest
      have handsOn := ran.handsOn moment isSession
      rw [← isOther] at handsOn
      have ends := (reaches.within ran.visited).2
      have begins := (reachesOther.within again.visited).1
      exact .inr (.inr (.inl (ends.trans (handsOn.trans begins))))

/-- Of any two tasks of a history one is a part of the other, or one was over before the other
began. -/
theorem Visited.ordered {task other : Task} (visited : Visited (.start config clock) history task)
    (otherVisited : Visited (.start config clock) history other) : Ordered task other := by
  rcases visited with ⟨session, source, room, program, ran, reaches⟩
  rcases otherVisited with ⟨session', source', room', program', again, reachesOther⟩
  obtain ⟨earlier, later, moment, isSession⟩ := ran.moment
  obtain ⟨earlier', later', moment', isSession'⟩ := again.moment
  rcases List.append_eq_append_iff.1 (moment.symm.trans moment') with
    ⟨between, isEarlier, isRest⟩ | ⟨between, isEarlier, isRest⟩
  · subst isEarlier
    rw [List.append_assoc] at moment'
    exact ran.ordered again isSession isSession' moment' ⟨later, isRest⟩ reaches reachesOther
  · subst isEarlier
    rw [List.append_assoc] at moment
    exact (again.ordered ran isSession' isSession moment ⟨later', isRest⟩ reachesOther
      reaches).symm

/-- What has no parts was over before everything that did not begin earlier. -/
theorem Visited.after {task other : Task} (visited : Visited (.start config clock) history task)
    (otherVisited : Visited (.start config clock) history other)
    (alone : ∀ part, ¬Leads task part) (different : task ≠ other)
    (notEarlier : ¬other.machine.Becomes task.machine) : task.final.Becomes other.machine := by
  rcases visited.ordered otherVisited with inside | around | before | after
  · rcases inside.part with same | ⟨part, leads, -⟩
    · exact absurd same different
    · exact absurd leads (alone part)
  · exact absurd (around.within otherVisited).1 notEarlier
  · exact before
  · exact absurd ((Visited.becomes _ otherVisited).trans after) notEarlier

/-- The machines of two tasks are one before the other. -/
theorem Visited.comparable {task other : Task}
    (visited : Visited (.start config clock) history task)
    (otherVisited : Visited (.start config clock) history other) :
    task.machine.Becomes other.machine ∨ other.machine.Becomes task.machine := by
  rcases visited.ordered otherVisited with inside | around | before | after
  · exact .inl (inside.within visited).1
  · exact .inr (around.within otherVisited).1
  · exact .inl ((Visited.becomes _ visited).trans before)
  · exact .inr ((Visited.becomes _ otherVisited).trans after)

end History

end LoxLang
