/-
Module: LoxLang.Proofs.Layout.Analysis
Purpose: What is found out about a source before it runs does not depend on places.  Names that
  are moved are bound as before, with the same errors in the same order, and tokens that differ
  only in their places come to the same program or to the same errors.
Main exports: Ending.placeless, Program.bind_moved, verdict, analyze_program,
  verdict_placeless
-/
import LoxLang.Proofs.Layout.Placeless
import LoxLang.Proofs.Rewording.Parsing
import LoxLang.Proofs.Scope.Clean
import LoxLang.Proofs.Token.Lexeme
import LoxLang.Session.Basic

namespace LoxLang

/-! ### Binding names that have been moved -/

/-- An error at a name that has been moved. -/
def ScopeError.reword (change : Rewording) (error : ScopeError) : ScopeError :=
  { error with name := error.name.reword change }

/-- The same scopes, with errors at names that have been moved. -/
def BinderState.reword (change : Rewording) (state : BinderState) : BinderState :=
  { state with errors := state.errors.map (ScopeError.reword change) }

namespace Binder

variable {α β γ δ : Type} {change : Rewording}

/-- A step does to names that have been moved what another one does to them where they were. -/
def Moves (change : Rewording) (image : α → β) (step : Binder α) (other : Binder β) : Prop :=
  ∀ state, other (state.reword change) = (image (step state).1, (step state).2.reword change)

theorem Moves.bind {image : α → β} {after : γ → δ} {step : Binder α} {other : Binder β}
    {next : α → Binder γ} {following : β → Binder δ} (first : Moves change image step other)
    (second : ∀ value, Moves change after (next value) (following (image value))) :
    Moves change after (step >>= next) (other >>= following) := by
  intro state
  simp only [Bind.bind, StateT.bind, first state]
  exact second (step state).1 (step state).2

theorem Moves.within {image : α → β} {step : Binder α} {other : Binder β} (scope : Scope)
    (moves : Moves change image step other) :
    Moves change image (within scope step) (within scope other) := by
  intro state
  have inner := moves { state with scopes := scope :: state.scopes }
  simp only [BinderState.reword] at inner
  simp only [Binder.within, BinderState.reword, inner]
  rfl

theorem Moves.inFunction {image : α → β} {step : Binder α} {other : Binder β}
    (kind : FunctionContext) (moves : Moves change image step other) :
    Moves change image (inFunction kind step) (inFunction kind other) := by
  intro state
  have inner := moves { state with context := { state.context with function := kind } }
  simp only [BinderState.reword] at inner
  simp only [Binder.inFunction, BinderState.reword, inner]
  rfl

theorem Moves.inClass {image : α → β} {step : Binder α} {other : Binder β} (kind : ClassContext)
    (moves : Moves change image step other) :
    Moves change image (inClass kind step) (inClass kind other) := by
  intro state
  have inner := moves { state with context := { state.context with inClass := kind } }
  simp only [BinderState.reword] at inner
  simp only [Binder.inClass, BinderState.reword, inner]
  rfl

theorem report_moves (cause : ScopeCause) (name : Ident) :
    Moves change id (report cause name) (report cause (name.reword change)) := by
  intro state
  simp only [report, BinderState.reword, Array.map_push]
  rfl

theorem markInnermost_moves (name : String) (ready : Bool) :
    Moves change id (markInnermost name ready) (markInnermost name ready) := by
  rintro ⟨context, scopes, errors⟩
  cases scopes <;> rfl

theorem declare_moves (words : change.KeepsWords) (name : Ident) :
    Moves change id (declare name) (declare (name.reword change)) := by
  rintro ⟨context, scopes, errors⟩
  cases scopes with
  | nil => rfl
  | cons innermost outer =>
      simp only [declare, BinderState.reword, Ident.text_reword, words name]
      split
      · exact (report_moves .declaredTwice name).bind (fun _ => markInnermost_moves name.text false)
          ⟨context, innermost :: outer, errors⟩
      · exact markInnermost_moves name.text false ⟨context, innermost :: outer, errors⟩

theorem use_moves (words : change.KeepsWords) (name : Ident) :
    Moves change id (use name) (use (name.reword change)) := by
  intro state
  simp only [use_apply, BinderState.reword, Ident.text_reword, words name]
  split
  · rw [Array.map_push]
    rfl
  · rfl

/-- All steps of binding do the same to names that have been moved. -/
theorem moving (words : change.KeepsWords) : Traversal change (Moves change) (Moves change) where
  words := words
  ofLook := id
  pure := by
    rintro _ _ _ _ _ rfl _
    rfl
  lookThen := Moves.bind
  actThen := Moves.bind
  within := Moves.within
  inFunction := Moves.inFunction
  inClass := Moves.inClass
  surroundings := fun _ => rfl
  declare := declare_moves words
  define := by
    intro name
    rw [define, define, Ident.text_reword, words name]
    exact markInnermost_moves name.text true
  report := report_moves
  distance := fun _ _ => rfl
  use := use_moves words

end Binder

/-- A program whose names have been moved is bound as it was, and its errors move along. -/
theorem Program.bind_moved {change : Rewording} (words : change.KeepsWords)
    (program : Program.Plain) :
    bind (program.map (Stmt.reword change)) =
      { program := (bind program).program.map (Stmt.reword change)
        errors := (bind program).errors.map (ScopeError.reword change) } := by
  have moves := (Binder.moving words).statements program ⟨.topLevel, [], #[]⟩
  have nothing : BinderState.reword change ⟨.topLevel, [], #[]⟩ = ⟨.topLevel, [], #[]⟩ := by
    simp only [BinderState.reword, List.map_toArray, List.map_nil]
  rw [Stmt.rewordAll_eq_map, Stmt.rewordAll_eq_map, nothing] at moves
  exact congrArg (fun result => Binding.mk result.1 result.2.errors) moves

theorem Rewording.keepsWords_placeless : Rewording.placeless.KeepsWords :=
  fun _ => rfl

/-! ### Endings without places -/

/-- An error on no line in particular. -/
def LexicalError.placeless : LexicalError → LexicalError
  | unexpectedCharacter character _ => unexpectedCharacter character Position.start.line
  | unterminatedString _ => unterminatedString Position.start.line

/-- An error at no place in particular. -/
def StaticError.placeless : StaticError → StaticError
  | lexical error => lexical error.placeless
  | syntactic error => syntactic (error.reword .placeless)
  | scoping error => scoping (error.reword .placeless)

/-- An ending whose errors have no places. -/
def Ending.placeless : Ending → Ending
  | rejected errors => rejected (errors.map StaticError.placeless)
  | failed error => failed error.placeless
  | other => other

/-- A program without places, or the reason why there is none. -/
def placelessProgram : Except Ending (Program Distance) → Except Ending (Program Distance)
  | .ok program => .ok (program.map (Stmt.reword .placeless))
  | .error ending => .error ending.placeless

/-! ### Tokens -/

theorem Token.reword_placeless :
    Token.reword .placeless =
      (fun (kind, lexeme, literal) => { kind, lexeme, literal, position := .start }) ∘
        Token.content := by
  funext token
  simp only [Token.reword, Rewording.placeless, ite_self, Function.comp_apply, Token.content]

/-- Tokens that say the same are the same without places. -/
theorem Token.map_placeless_of_content {tokens others : List Token}
    (same : others.map content = tokens.map content) :
    others.map (Token.reword .placeless) = tokens.map (Token.reword .placeless) := by
  rw [Token.reword_placeless, ← List.map_map, same, List.map_map]

/-! ### Analysis -/

/-- A program without errors, or the errors. -/
def judge (errors : List StaticError) (program : Program Distance) :
    Except Ending (Program Distance) :=
  if errors.isEmpty then .ok program else .error (.rejected errors)

theorem settle_program (events : List Event) (errors : List StaticError)
    (program : Program Distance) :
    (settle events errors program).program = judge errors program :=
  apply_ite Analysis.program ..

theorem judge_placeless (errors : List StaticError) (program : Program Distance) :
    judge (errors.map StaticError.placeless) (program.map (Stmt.reword .placeless)) =
      placelessProgram (judge errors program) := by
  cases errors <;> rfl

/-- What becomes of tokens before they run. -/
def verdict (config : Config) (room : Room) (tokens : List Token) :
    Except Ending (Program Distance) :=
  let parsed := Program.parseWithin room.nesting config.argumentLimit tokens
  let errors := parsed.errors.toList.map .syntactic
  match parsed.program with
  | .error .tooDeep => .error .overflowed
  | .error .incomparableLimit => .error (.escaped .incomparableLimit)
  | .ok program =>
      if !errors.isEmpty then judge errors []
      else if !program.fits room.nesting then .error .overflowed
      else judge ((Program.bind program).errors.toList.map .scoping) (Program.bind program).program

/-- Without lexical errors an analysis comes down to the tokens. -/
theorem analyze_program (config : Config) (room : Room) {source : String}
    (clean : (scan source).errors = #[]) :
    (analyze config room source).program = verdict config room (scan source).tokens := by
  simp only [analyze, readSource, verdict, clean, List.map_nil, List.nil_append]
  cases (Program.parseWithin room.nesting config.argumentLimit (scan source).tokens).program with
  | error reason => cases reason <;> rfl
  | ok program => simp only [apply_ite Analysis.program, settle_program]

/-- Tokens without places come to a program without places, or to errors without places. -/
theorem verdict_placeless (config : Config) (room : Room) (first : Token) (rest : List Token) :
    verdict config room ((first :: rest).map (Token.reword .placeless)) =
      placelessProgram (verdict config room (first :: rest)) := by
  have syntactic : ∀ errors : Array SyntaxError,
      (errors.map (SyntaxError.reword .placeless)).toList.map StaticError.syntactic =
        (errors.toList.map StaticError.syntactic).map StaticError.placeless := by
    intro errors
    simp only [Array.toList_map, List.map_map]
    rfl
  have scoping : ∀ errors : Array ScopeError,
      (errors.map (ScopeError.reword .placeless)).toList.map StaticError.scoping =
        (errors.toList.map StaticError.scoping).map StaticError.placeless := by
    intro errors
    simp only [Array.toList_map, List.map_map]
    rfl
  have fits : ∀ program : Program.Plain,
      Program.fits room.nesting (program.map (Stmt.reword .placeless)) =
        program.fits room.nesting := by
    intro program
    rw [Program.fits, ← Stmt.rewordAll_eq_map, Stmt.fitsAll_reword, ← Program.fits]
  simp only [verdict, Program.parseWithin_reword]
  cases (Program.parseWithin room.nesting config.argumentLimit (first :: rest)).program with
  | error reason => cases reason <;> rfl
  | ok program =>
      simp only [Except.map, syntactic, fits, scoping, List.isEmpty_map,
        Program.bind_moved Rewording.keepsWords_placeless, judge_placeless]
      split
      · exact judge_placeless _ []
      · split <;> rfl

end LoxLang
