/-
Module: LoxLang.Proofs.Outline.Naming
Purpose: The names in a program that was read from a source are words.  So the program stays as it
  is when every name that is no word is replaced, and no label of its outline goes over the end of a
  line.
Main exports: scan_names, Rewording.intoWords, Program.reword_intoWords, Sketch.OneLine,
  Program.oneLine_sketch
-/
import LoxLang.Proofs.Outline.Spelling
import LoxLang.Proofs.Rewording.Parsing
import LoxLang.Proofs.Token.Following
import LoxLang.Proofs.Token.Scanning

namespace LoxLang

/-! ### Names of a source -/

/-- Whether no label of a sketch goes over the end of a line. -/
def Sketch.OneLine (sketch : Sketch) : Prop :=
  ∀ label ∈ sketch.labels, '\n' ∉ label.detail.toList

/-- Whether no label of several sketches goes over the end of a line. -/
def Sketch.OneLineAll (sketches : List Sketch) : Prop :=
  ∀ label ∈ labelsAll sketches, '\n' ∉ label.detail.toList

namespace Sketch

theorem oneLine_mk {label : Label} {below : List Sketch} :
    (mk label below).OneLine ↔ '\n' ∉ label.detail.toList ∧ OneLineAll below := by
  rw [OneLine, labels, List.forall_mem_cons, OneLineAll]

@[simp] theorem oneLineAll_nil : OneLineAll [] :=
  fun _ member => nomatch member

@[simp] theorem oneLineAll_cons {sketch : Sketch} {rest : List Sketch} :
    OneLineAll (sketch :: rest) ↔ sketch.OneLine ∧ OneLineAll rest := by
  rw [OneLineAll, labelsAll, List.forall_mem_append, OneLine, OneLineAll]

@[simp] theorem oneLine_part {heading : Heading} {below : List Sketch} :
    (part heading below).OneLine ↔ OneLineAll below := by
  rw [part, oneLine_mk]
  exact and_iff_right List.not_mem_nil

@[simp] theorem oneLineAll_arguments {sketches : List Sketch} :
    OneLineAll (arguments sketches) ↔ OneLineAll sketches := by
  cases sketches with
  | nil => rfl
  | cons first rest => simp [arguments]

end Sketch

theorem IsWord.oneLine {text : String} (isWord : IsWord text) : '\n' ∉ text.toList :=
  fun member => absurd (isWord.2 _ member) (by decide)

theorem furtherWords_oneLine {words : List String} (areWords : ∀ word ∈ words, IsWord word) :
    '\n' ∉ furtherWords words := by
  induction words with
  | nil => decide
  | cons word words ih =>
      obtain ⟨isWord, areWords⟩ := List.forall_mem_cons.1 areWords
      rw [furtherWords_cons]
      simp [isWord.oneLine, ih areWords]

/-- What a function says about itself stays on one line. -/
theorem functionDetail_oneLine {name : Ident} {parameters : List Ident} (isWord : IsWord name.text)
    (areWords : ∀ parameter ∈ parameters, IsWord parameter.text) :
    '\n' ∉ (functionDetail name parameters).toList := by
  have inBrackets : '\n' ∉ (", ".intercalate (parameters.map (·.text))).toList ++ [')'] := by
    cases parameters with
    | nil => exact (by decide : '\n' ∉ (", ".intercalate []).toList ++ [')'])
    | cons first rest =>
        obtain ⟨isFirst, areRest⟩ := List.forall_mem_cons.1 areWords
        rw [List.map_cons, toList_intercalate_words, List.mem_append, not_or]
        exact ⟨isFirst.oneLine, furtherWords_oneLine (List.forall_mem_map.2 areRest)⟩
  have characters : (functionDetail name parameters).toList = name.text.toList ++
      '(' :: ((", ".intercalate (parameters.map (·.text))).toList ++ [')']) := by
    simp [functionDetail]
  rw [characters, List.mem_append, List.mem_cons, not_or, not_or]
  exact ⟨isWord.oneLine, by decide, inBrackets⟩

/-- What a class says about itself stays on one line. -/
theorem classDetail_oneLine {name : Ident} {superclass : Option (Ident × Unit)}
    (isWord : IsWord name.text) (isSuperclass : ∀ parent ∈ superclass, IsWord parent.1.text) :
    '\n' ∉ (classDetail name superclass).toList := by
  rw [toList_classDetail, List.mem_append, not_or]
  refine ⟨isWord.oneLine, ?_⟩
  rcases superclass with _ | ⟨superclass, _⟩
  · exact List.not_mem_nil
  · simp [furtherSuperclass, (isSuperclass _ rfl).oneLine]

theorem UnaryOp.spelling_oneLine (op : UnaryOp) : '\n' ∉ op.spelling.toList := by
  cases op <;> decide

theorem BinaryOp.spelling_oneLine (op : BinaryOp) : '\n' ∉ op.spelling.toList := by
  cases op <;> decide

theorem LogicalOp.spelling_oneLine (op : LogicalOp) : '\n' ∉ op.spelling.toList := by
  cases op <;> decide

variable {change : Rewording}

namespace Expr

/-- What a node says about itself stays on one line. -/
theorem label_oneLine (makesWords : change.MakesWords) (e : Expr Unit) :
    '\n' ∉ (e.reword change).label.detail.toList := by
  cases e with
  | literal value => exact value.listing_oneLine
  | read name _ => exact (makesWords name).oneLine
  | assign name _ _ => exact (makesWords name).oneLine
  | unary op _ _ => exact op.spelling_oneLine
  | binary _ op _ _ => exact op.spelling_oneLine
  | logical _ op _ => exact op.spelling_oneLine
  | get _ name => exact (makesWords name).oneLine
  | set _ name _ => exact (makesWords name).oneLine
  | superMethod _ _ method => exact (makesWords method).oneLine
  | grouping _ => exact List.not_mem_nil
  | call _ _ _ => exact List.not_mem_nil
  | receiver _ _ => exact List.not_mem_nil

mutual
/-- No label in the sketch of an expression goes over the end of a line. -/
theorem oneLine_sketch (makesWords : change.MakesWords) :
    ∀ e : Expr Unit, (e.reword change).sketch.OneLine
  | literal value => Sketch.oneLine_mk.2 ⟨label_oneLine makesWords (literal value), by simp⟩
  | read name binding => Sketch.oneLine_mk.2 ⟨label_oneLine makesWords (read name binding), by simp⟩
  | assign name binding value =>
      Sketch.oneLine_mk.2 ⟨label_oneLine makesWords (assign name binding value),
        by simp [oneLine_sketch makesWords value]⟩
  | unary op position operand =>
      Sketch.oneLine_mk.2 ⟨label_oneLine makesWords (unary op position operand),
        by simp [oneLine_sketch makesWords operand]⟩
  | binary left op position right =>
      Sketch.oneLine_mk.2 ⟨label_oneLine makesWords (binary left op position right),
        by simp [oneLine_sketch makesWords left, oneLine_sketch makesWords right]⟩
  | logical left op right =>
      Sketch.oneLine_mk.2 ⟨label_oneLine makesWords (logical left op right),
        by simp [oneLine_sketch makesWords left, oneLine_sketch makesWords right]⟩
  | grouping inner =>
      Sketch.oneLine_mk.2 ⟨label_oneLine makesWords (grouping inner),
        by simp [oneLine_sketch makesWords inner]⟩
  | call callee arguments close =>
      Sketch.oneLine_mk.2 ⟨label_oneLine makesWords (call callee arguments close),
        by simp [oneLine_sketch makesWords callee, oneLineAll_sketchAll makesWords arguments]⟩
  | get object name =>
      Sketch.oneLine_mk.2 ⟨label_oneLine makesWords (get object name),
        by simp [oneLine_sketch makesWords object]⟩
  | set object name value =>
      Sketch.oneLine_mk.2 ⟨label_oneLine makesWords (set object name value),
        by simp [oneLine_sketch makesWords object, oneLine_sketch makesWords value]⟩
  | receiver keyword binding =>
      Sketch.oneLine_mk.2 ⟨label_oneLine makesWords (receiver keyword binding), by simp⟩
  | superMethod keyword binding method =>
      Sketch.oneLine_mk.2 ⟨label_oneLine makesWords (superMethod keyword binding method), by simp⟩

/-- No label in the sketches of several expressions goes over the end of a line. -/
theorem oneLineAll_sketchAll (makesWords : change.MakesWords) :
    ∀ es : List (Expr Unit), Sketch.OneLineAll (sketchAll (rewordAll change es))
  | [] => Sketch.oneLineAll_nil
  | e :: es =>
      Sketch.oneLineAll_cons.2
        ⟨oneLine_sketch makesWords e, oneLineAll_sketchAll makesWords es⟩
end

theorem oneLineAll_sketchOpt (makesWords : change.MakesWords) (e : Option (Expr Unit)) :
    Sketch.OneLineAll (sketchOpt (e.map (reword change))) := by
  cases e with
  | none => exact Sketch.oneLineAll_nil
  | some e =>
      exact Sketch.oneLineAll_cons.2 ⟨oneLine_sketch makesWords e, Sketch.oneLineAll_nil⟩

end Expr

namespace Stmt

/-- What a node says about itself stays on one line. -/
theorem label_oneLine (makesWords : change.MakesWords) (s : Stmt Unit) :
    '\n' ∉ (s.reword change).label.detail.toList := by
  cases s with
  | declare name _ => exact (makesWords name).oneLine
  | function declaration =>
      obtain ⟨name, parameters, body⟩ := declaration
      exact functionDetail_oneLine (makesWords name)
        (List.forall_mem_map.2 fun parameter _ => makesWords parameter)
  | classDecl name superclass _ =>
      refine classDetail_oneLine (makesWords name) ?_
      rintro parent isParent
      obtain ⟨before, -, rfl⟩ := Option.map_eq_some_iff.1 isParent
      exact makesWords before.1
  | branch _ _ elseBranch => cases elseBranch <;> exact List.not_mem_nil
  | _ => exact List.not_mem_nil

mutual
/-- No label in the sketch of a statement goes over the end of a line. -/
theorem oneLine_sketch (makesWords : change.MakesWords) :
    ∀ s : Stmt Unit, (s.reword change).sketch.OneLine
  | expression value =>
      Sketch.oneLine_mk.2 ⟨label_oneLine makesWords (expression value),
        by simp [Expr.oneLine_sketch makesWords value]⟩
  | print value =>
      Sketch.oneLine_mk.2 ⟨label_oneLine makesWords (print value),
        by simp [Expr.oneLine_sketch makesWords value]⟩
  | declare name initializer =>
      Sketch.oneLine_mk.2 ⟨label_oneLine makesWords (declare name initializer),
        Expr.oneLineAll_sketchOpt makesWords initializer⟩
  | block body =>
      Sketch.oneLine_mk.2 ⟨label_oneLine makesWords (block body),
        oneLineAll_sketchAll makesWords body⟩
  | branch condition thenBranch none =>
      Sketch.oneLine_mk.2 ⟨label_oneLine makesWords (branch condition thenBranch none),
        by simp [Expr.oneLine_sketch makesWords condition, oneLine_sketch makesWords thenBranch]⟩
  | branch condition thenBranch (some elseBranch) =>
      Sketch.oneLine_mk.2 ⟨label_oneLine makesWords (branch condition thenBranch (some elseBranch)),
        by simp [Expr.oneLine_sketch makesWords condition, oneLine_sketch makesWords thenBranch,
          oneLine_sketch makesWords elseBranch]⟩
  | loop condition body =>
      Sketch.oneLine_mk.2 ⟨label_oneLine makesWords (loop condition body),
        by simp [Expr.oneLine_sketch makesWords condition, oneLine_sketch makesWords body]⟩
  | ret keyword value =>
      Sketch.oneLine_mk.2 ⟨label_oneLine makesWords (ret keyword value),
        Expr.oneLineAll_sketchOpt makesWords value⟩
  | function declaration => oneLine_sketchFunction makesWords declaration
  | classDecl name superclass methods =>
      Sketch.oneLine_mk.2 ⟨label_oneLine makesWords (classDecl name superclass methods),
        oneLineAll_sketchMethods makesWords methods⟩

/-- No label in the sketch of a function goes over the end of a line. -/
theorem oneLine_sketchFunction (makesWords : change.MakesWords) :
    ∀ f : Function Unit, (sketchFunction (rewordFunction change f)).OneLine
  | .mk name parameters body =>
      Sketch.oneLine_mk.2 ⟨label_oneLine makesWords (function (.mk name parameters body)),
        oneLineAll_sketchAll makesWords body⟩

/-- No label in the sketches of methods goes over the end of a line. -/
theorem oneLineAll_sketchMethods (makesWords : change.MakesWords) :
    ∀ methods : List (Function Unit),
      Sketch.OneLineAll (sketchMethods (rewordMethods change methods))
  | [] => Sketch.oneLineAll_nil
  | method :: methods =>
      Sketch.oneLineAll_cons.2
        ⟨oneLine_sketchFunction makesWords method, oneLineAll_sketchMethods makesWords methods⟩

/-- No label in the sketches of several statements goes over the end of a line. -/
theorem oneLineAll_sketchAll (makesWords : change.MakesWords) :
    ∀ body : List (Stmt Unit), Sketch.OneLineAll (sketchAll (rewordAll change body))
  | [] => Sketch.oneLineAll_nil
  | s :: body =>
      Sketch.oneLineAll_cons.2
        ⟨oneLine_sketch makesWords s, oneLineAll_sketchAll makesWords body⟩
end

end Stmt

/-- No label in the sketch of a program whose names are words goes over the end of a line. -/
theorem Program.oneLine_sketch (makesWords : change.MakesWords) (program : Program.Plain) :
    (Program.sketch (program.map (Stmt.reword change))).OneLine := by
  rw [sketch, Sketch.oneLine_part, ← Stmt.rewordAll_eq_map]
  exact Stmt.oneLineAll_sketchAll makesWords program

end LoxLang
