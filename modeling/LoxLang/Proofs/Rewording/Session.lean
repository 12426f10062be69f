/-
Module: LoxLang.Proofs.Rewording.Session
Purpose: What can be seen of a run.  Between two commands a session is like itself, whatever its
  functions captured, so from there on a program and its rewording run alike: they print the same
  lines, end in the same way, and leave global variables behind that look the same.
Main exports: Bindings.shown, Session.shown, Ending.Alike, SessionSound.alike, Shows,
  Session.runBound_shows
-/
import LoxLang.Proofs.Rewording.Running
import LoxLang.Proofs.Run.Resolution

namespace LoxLang

/-! ### What can be seen -/

section Seen

variable {δ σ : Type} [Declaration δ σ]

/-- What can be seen of names and their values: the names in order, and for each the type of its
value, what is printed for it, and how it looks from outside. -/
def Bindings.shown (bindings : Bindings (Value δ)) :
    List (String × Option (String × String × String)) :=
  bindings.names.map fun name =>
    (name, (bindings.get? name).map fun value => (value.typeName, value.text, value.inspect))

/-- What can be seen of the global variables of a session. -/
def Session.shown (session : Session δ) : List (String × Option (String × String × String)) :=
  session.machine.globals.shown

/-- Names with values that cannot be told apart look the same. -/
theorem Bindings.Alike.shown {ε τ : Type} [Declaration ε τ] {relation : Correspondence δ ε}
    {bindings : Bindings (Value δ)} {twin : Bindings (Value ε)}
    (similar : bindings.Alike .keep (Value.Like relation) twin) :
    twin.shown = bindings.shown := by
  have names : twin.names = bindings.names := similar.names.trans (List.map_id _)
  rw [Bindings.shown, Bindings.shown, names]
  refine List.map_congr_left fun name _ => ?_
  rcases both_or_neither (similar.values name) with ⟨missing, alsoMissing⟩ |
    ⟨value, other, found, alsoFound, alike⟩
  · rw [Renaming.rename_keep] at alsoMissing
    rw [missing, alsoMissing]
    rfl
  · rw [Renaming.rename_keep] at alsoFound
    rw [found, alsoFound]
    simp only [Option.map_some, alike.typeName, alike.text, alike.inspect]

end Seen

/-- Endings of runs for the same reason, on lines that correspond. -/
inductive Ending.Alike (lines : Nat → Nat → Prop) : Ending → Ending → Prop where
  | completed : Alike lines .completed .completed
  | failed (cause : RuntimeCause) {line other : Nat} (moved : lines line other) :
      Alike lines (.failed ⟨cause, line⟩) (.failed ⟨cause, other⟩)
  | overflowed : Alike lines .overflowed .overflowed
  | unfinished : Alike lines (.escaped .unfinished) (.escaped .unfinished)

theorem Ending.Alike.eq {ending other : Ending} (alike : ending.Alike Eq other) :
    other = ending := by
  cases alike with
  | failed cause same => rw [same]
  | _ => rfl

/-! ### A session is like itself -/

section Reflexivity

variable {visited : Task → Prop} {accepted : Place → Prop} {forest : Forest Value}
  {lines : Nat → Nat → Prop}

/-- The frames of a session between two commands, none of which renames anything. -/
def Forest.unchanged (forest : Forest Value) : Wording :=
  List.replicate forest.frames.size []

theorem Forest.getElem?_unchanged {forest : Forest Value} {id : FrameId} :
    forest.unchanged[id]? = if id < forest.frames.size then some [] else none := by
  rw [Forest.unchanged, List.getElem?_replicate]

theorem Forest.unchanged_global (root : 0 < forest.frames.size) :
    forest.unchanged[Machine.globalFrame]? = some [] := by
  rw [Forest.getElem?_unchanged]
  exact if_pos root

theorem Function.alike_refl (reflexive : ∀ line, lines line line) {scopes : List Renaming}
    (still : Still scopes) (declaration : Function Distance) :
    declaration.Alike lines scopes declaration :=
  ⟨.fixed, .keep, fun position => reflexive position.line,
    Stmt.consistentFunction_keep (fun _ => rfl) still declaration,
    (Stmt.rewordFunction_keep declaration).symm⟩

theorem Closure.alike_refl (reflexive : ∀ line, lines line line) {inner : List Renaming}
    (still : Still inner) {closure : Closure} (inside : closure.frame < forest.frames.size) :
    closure.Alike lines forest.unchanged inner closure where
  identity := rfl
  frame := rfl
  isInitializer := rfl
  declaration := by
    refine ⟨[], ?_, ?_⟩
    · rw [Forest.getElem?_unchanged, if_pos inside]
    · rw [List.append_nil]
      exact Function.alike_refl reflexive still closure.declaration

theorem Class.alike_refl (reflexive : ∀ line, lines line line) (root : 0 < forest.frames.size)
    {cls : Class} (valid : cls.Valid visited accepted forest) :
    cls.Alike lines forest.unchanged cls where
  identity := rfl
  name := rfl
  methods := by
    intro word
    cases found : cls.findMethod? word with
    | none => exact .none
    | some method =>
        obtain ⟨name, methods, layers, created, -, -, mirrors, -⟩ := valid.method found
        exact .some (Closure.alike_refl reflexive Still.nil.cons (mirrors.inside root))

theorem Value.alike_refl (reflexive : ∀ line, lines line line) (root : 0 < forest.frames.size)
    {value : Value} (valid : value.Valid visited accepted forest) :
    value.Alike lines forest.unchanged value := by
  cases value with
  | nil => exact .nil
  | bool value => exact .bool value
  | number value => exact .number value
  | string value => exact .string value
  | native builtIn => exact .native builtIn
  | function closure =>
      obtain ⟨layers, created, -, -, mirrors, -, -⟩ := valid
      exact .function (Closure.alike_refl reflexive Still.nil (mirrors.inside root))
  | class_ cls => exact .class_ (Class.alike_refl reflexive root valid)
  | object id cls => exact .object id (Class.alike_refl reflexive root valid)

theorem Bindings.alike_refl (reflexive : ∀ line, lines line line)
    (root : 0 < forest.frames.size) {bindings : Bindings Value}
    (valid : ∀ name value, bindings.get? name = some value →
      value.Valid visited accepted forest) :
    bindings.Alike .keep (Value.Alike lines forest.unchanged) bindings where
  names := (List.map_id _).symm
  values := by
    intro name
    rw [Renaming.rename_keep]
    cases found : bindings.get? name with
    | none => exact .none
    | some value => exact .some (Value.alike_refl reflexive root (valid name value found))

/-- Between two commands the machine of a session is like itself, also if something was printed
before. -/
theorem SessionSound.alike {start session : Session} {history : List Command}
    (sound : SessionSound start history session) (reflexive : ∀ line, lines line line)
    (printed : Array String) :
    Running lines printed session.machine.frames.unchanged [] session.machine
      { session.machine with output := printed ++ session.machine.output } where
  size := by simp [Forest.unchanged]
  sizeTwin := by simp [Forest.unchanged]
  parents := fun _ => rfl
  outermost := sound.heap.root.2
  globals := Forest.unchanged_global sound.heap.root.1
  nested := by
    intro id parent scopes link here
    rw [Forest.getElem?_unchanged] at here
    split at here <;> cases here
    have inside := Nat.lt_trans (sound.heap.nested id parent link) (Forest.lt_size_of_parent? link)
    rw [Forest.getElem?_unchanged, if_pos inside]
    rfl
  bound := by
    intro id scopes here
    rw [Forest.getElem?_unchanged] at here
    split at here <;> cases here
    have stored : ∀ name value, (session.machine.frames.bindings id).get? name = some value →
        value.Valid (Visited start history) (Accepted start history) session.machine.frames := by
      intro name value found
      rw [← Forest.local?_eq_get?] at found
      exact sound.heap.stored id name value found
    exact Bindings.alike_refl reflexive sound.heap.root.1 stored
  objects := rfl
  fields := fun id => Bindings.alike_refl reflexive sound.heap.root.1 (sound.heap.fields id)
  frame := rfl
  identities := rfl
  clock := rfl
  readings := rfl
  output := rfl
  here := by
    rw [sound.atGlobals]
    exact Forest.unchanged_global sound.heap.root.1

end Reflexivity

/-! ### Runs that look the same -/

/-- A run looks like another one, but for what was printed before. -/
structure Shows (lines : Nat → Nat → Prop) (printed : Array String)
    (result twin : Session × Outcome) : Prop where
  output : twin.2.output = printed ++ result.2.output
  ending : result.2.ending.Alike lines twin.2.ending
  globals : twin.1.shown = result.1.shown

/-- From sessions that are alike a program and its rewording run alike, unless the program ends in
a fault. -/
theorem Session.runBound_shows {lines : Nat → Nat → Prop} {printed : Array String}
    {wording : Wording} {vocabulary : Vocabulary} {change : Rewording} {session twin : Session}
    {room : Room} {program : Program Distance} {events eventsTwin : List Event}
    (follows : change.Follows lines)
    (consistent : Stmt.ConsistentAll vocabulary change [] program)
    (running : Running lines printed wording [] session.machine twin.machine)
    (ofRun : (session.runBound room program events).2.ending.OfRun) :
    Shows lines printed (session.runBound room program events)
      (twin.runBound room (program.map (Stmt.reword change)) eventsTwin) := by
  have agrees := execProgram_agrees ((eval_and_exec_alike allowance).2.1 room.evaluation) follows
    consistent running
  simp only [runBound] at ofRun ⊢
  generalize execProgram (exec allowance room.evaluation) program session.machine = result
    at agrees ofRun ⊢
  generalize execProgram (exec allowance room.evaluation) (program.map (Stmt.reword change))
    twin.machine = other at agrees ⊢
  cases agrees with
  | ok grows running _ =>
      exact ⟨running.output, .completed, (running.bound _ _ running.globals).shown⟩
  | stopped grows running alike =>
      refine ⟨running.output, ?_, (running.bound _ _ running.globals).shown⟩
      cases alike with
      | error cause moved => exact .failed cause moved
      | overflow => exact .overflowed
      | unfinished => exact .unfinished
      | fault first second => exact ofRun.elim

end LoxLang
