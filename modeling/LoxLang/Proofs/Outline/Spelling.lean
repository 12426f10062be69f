/-
Module: LoxLang.Proofs.Outline.Spelling
Purpose: The sketch of a tree tells the tree.  The names in a program that was read are words of
  letters and digits, so what a class or a function says about itself can be taken apart again; and
  everything else that a node says about itself tells what it is.
Main exports: IsWord, functionDetail_injective, classDetail_injective,
  Rewording.MakesWords, Expr.sketch_injective, Stmt.sketchAll_injective
-/
import LoxLang.Proofs.Layout.Placeless
import LoxLang.Proofs.Outline.Constant
import LoxLang.Proofs.Outline.Tree
import LoxLang.Proofs.Token.Lexeme

namespace LoxLang

/-! ### Words -/

/-- Whether a text is a word of letters and digits. -/
def IsWord (text : String) : Prop :=
  text.toList ≠ [] ∧ ∀ c ∈ text.toList, isWordPart c = true

/-- Words that follow a first one, up to the closing bracket. -/
def furtherWords (words : List String) : List Char :=
  (words.flatMap fun word => ',' :: ' ' :: word.toList) ++ [')']

theorem furtherWords_cons (word : String) (words : List String) :
    furtherWords (word :: words) = ',' :: ' ' :: (word.toList ++ furtherWords words) := by
  rw [furtherWords, List.flatMap_cons, List.append_assoc]
  rfl

theorem furtherWords_stops (words : List String) :
    ∀ c ∈ (furtherWords words).head?, isWordPart c = false := by
  intro c isFirst
  cases words with
  | nil =>
      cases isFirst
      rfl
  | cons word words =>
      cases isFirst
      rfl

theorem furtherWords_injective {words others : List String} (areWords : ∀ word ∈ words, IsWord word)
    (areWordsToo : ∀ word ∈ others, IsWord word)
    (same : furtherWords words = furtherWords others) : words = others := by
  induction words generalizing others with
  | nil =>
      cases others with
      | nil => rfl
      | cons other others => exact absurd (congrArg List.head? same) (by simp [furtherWords])
  | cons word words ih =>
      cases others with
      | nil => exact absurd (congrArg List.head? same) (by simp [furtherWords])
      | cons other others =>
          obtain ⟨isWord, areWords⟩ := List.forall_mem_cons.1 areWords
          obtain ⟨isWordToo, areWordsToo⟩ := List.forall_mem_cons.1 areWordsToo
          rw [furtherWords_cons, furtherWords_cons, List.cons.injEq, List.cons.injEq] at same
          obtain ⟨sameWord, sameRest⟩ := run_unique isWord.2 isWordToo.2
            (furtherWords_stops words) (furtherWords_stops others) same.2.2
          rw [String.toList_injective sameWord, ih areWords areWordsToo sameRest]

/-- Words in brackets. -/
theorem toList_intercalate_words (first : String) (rest : List String) :
    (", ".intercalate (first :: rest)).toList ++ [')'] = first.toList ++ furtherWords rest := by
  induction rest generalizing first with
  | nil => simp [furtherWords]
  | cons second rest ih =>
      rw [String.intercalate_cons_cons, String.toList_append, String.toList_append,
        List.append_assoc, ih, furtherWords_cons, List.append_assoc]
      rfl

theorem intercalate_words_injective {words others : List String}
    (areWords : ∀ word ∈ words, IsWord word) (areWordsToo : ∀ word ∈ others, IsWord word)
    (same : (", ".intercalate words).toList ++ [')'] = (", ".intercalate others).toList ++ [')']) :
    words = others := by
  -- no word is empty, so the closing bracket does not come right away
  have nonempty : ∀ {first : String} {rest : List String}, IsWord first →
      (", ".intercalate []).toList ++ [')'] ≠ first.toList ++ furtherWords rest := by
    intro first rest isWord impossible
    obtain ⟨c, more, isFirst⟩ := List.exists_cons_of_ne_nil isWord.1
    have accepted := isWord.2 c (isFirst ▸ List.mem_cons_self)
    rw [isFirst] at impossible
    obtain rfl : ')' = c := (List.cons.inj impossible).1
    exact absurd accepted (by decide)
  cases words with
  | nil =>
      cases others with
      | nil => rfl
      | cons other others =>
          rw [toList_intercalate_words] at same
          exact absurd same (nonempty (areWordsToo other List.mem_cons_self))
  | cons word words =>
      cases others with
      | nil =>
          rw [toList_intercalate_words] at same
          exact absurd same.symm (nonempty (areWords word List.mem_cons_self))
      | cons other others =>
          obtain ⟨isWord, areWords⟩ := List.forall_mem_cons.1 areWords
          obtain ⟨isWordToo, areWordsToo⟩ := List.forall_mem_cons.1 areWordsToo
          rw [toList_intercalate_words, toList_intercalate_words] at same
          obtain ⟨sameWord, sameRest⟩ := run_unique isWord.2 isWordToo.2
            (furtherWords_stops words) (furtherWords_stops others) same
          rw [String.toList_injective sameWord,
            furtherWords_injective areWords areWordsToo sameRest]

/-- What a function says about itself tells its name and its parameters. -/
theorem functionDetail_injective {name other : Ident} {parameters others : List Ident}
    (isWord : IsWord name.text) (isWordToo : IsWord other.text)
    (areWords : ∀ parameter ∈ parameters, IsWord parameter.text)
    (areWordsToo : ∀ parameter ∈ others, IsWord parameter.text)
    (same : functionDetail name parameters = functionDetail other others) :
    name.text = other.text ∧ parameters.map (·.text) = others.map (·.text) := by
  have characters := congrArg String.toList same
  simp only [functionDetail, String.toList_append, List.append_assoc] at characters
  obtain ⟨sameName, sameRest⟩ := run_unique isWord.2 isWordToo.2
    (fun c isNext => by cases isNext; rfl) (fun c isNext => by cases isNext; rfl) characters
  refine ⟨String.toList_injective sameName, intercalate_words_injective ?_ ?_
    (List.append_cancel_left sameRest)⟩
  · exact List.forall_mem_map.2 areWords
  · exact List.forall_mem_map.2 areWordsToo

/-- What follows the name of a class. -/
def furtherSuperclass : Option (Ident × Unit) → List Char
  | none => []
  | some (superclass, _) => ' ' :: '<' :: ' ' :: superclass.text.toList

theorem toList_classDetail (name : Ident) (superclass : Option (Ident × Unit)) :
    (classDetail name superclass).toList = name.text.toList ++ furtherSuperclass superclass := by
  rcases superclass with _ | ⟨superclass, _⟩
  · exact (List.append_nil _).symm
  · rw [classDetail, String.toList_append, String.toList_append, List.append_assoc]
    rfl

/-- What a class says about itself tells its name and that of its superclass. -/
theorem classDetail_injective {name other : Ident}
    {superclass superclassOther : Option (Ident × Unit)} (isWord : IsWord name.text)
    (isWordToo : IsWord other.text)
    (same : classDetail name superclass = classDetail other superclassOther) :
    name.text = other.text ∧
      superclass.map (·.1.text) = superclassOther.map (·.1.text) := by
  have stops : ∀ superclass, ∀ c ∈ (furtherSuperclass superclass).head?, isWordPart c = false := by
    rintro (_ | ⟨superclass, _⟩) c isNext
    · cases isNext
    · cases isNext
      rfl
  have characters := congrArg String.toList same
  rw [toList_classDetail, toList_classDetail] at characters
  obtain ⟨sameName, sameRest⟩ := run_unique isWord.2 isWordToo.2 (stops _) (stops _) characters
  refine ⟨String.toList_injective sameName, ?_⟩
  rcases superclass with _ | ⟨superclass, _⟩ <;>
    rcases superclassOther with _ | ⟨superclassOther, _⟩
  · rfl
  · cases sameRest
  · cases sameRest
  · simp only [furtherSuperclass, List.cons.injEq, true_and] at sameRest
    exact congrArg some (String.toList_injective sameRest)

/-! ### Operators -/

/-- Things that can be found by how they are written are told by it. -/
theorem eq_of_spelling {α : Type} {spelling : α → String} {all : List α}
    (found : ∀ op, all.find? (spelling · == spelling op) = some op) {op other : α}
    (same : spelling op = spelling other) : op = other :=
  Option.some.inj ((found op).symm.trans (same ▸ found other))

theorem UnaryOp.spelling_injective {op other : UnaryOp} (same : op.spelling = other.spelling) :
    op = other := by
  have found : ∀ op : UnaryOp, [not, negate].find? (·.spelling == op.spelling) = some op := by
    intro op
    cases op <;> rfl
  exact eq_of_spelling found same

theorem BinaryOp.spelling_injective {op other : BinaryOp} (same : op.spelling = other.spelling) :
    op = other := by
  have found : ∀ op : BinaryOp, [add, subtract, multiply, divide, equal, notEqual, greater,
      greaterEqual, less, lessEqual].find? (·.spelling == op.spelling) = some op := by
    intro op
    cases op <;> rfl
  exact eq_of_spelling found same

theorem LogicalOp.spelling_injective {op other : LogicalOp} (same : op.spelling = other.spelling) :
    op = other := by
  have found : ∀ op : LogicalOp, [and, or].find? (·.spelling == op.spelling) = some op := by
    intro op
    cases op <;> rfl
  exact eq_of_spelling found same

/-! ### Expressions -/

theorem Ident.eq_of_text {name other : Ident} (same : name.text = other.text) :
    name.reword .placeless = other.reword .placeless := by
  rw [reword, reword]
  exact congrArg (Ident.mk · .start) same

theorem Ident.map_eq_of_text {names others : List Ident}
    (same : names.map (·.text) = others.map (·.text)) :
    names.map (Ident.reword .placeless) = others.map (Ident.reword .placeless) := by
  have texts := congrArg (List.map (Ident.mk · .start)) same
  rwa [List.map_map, List.map_map] at texts

theorem Sketch.arguments_injective {sketches others : List Sketch}
    (same : Sketch.arguments sketches = Sketch.arguments others) : sketches = others := by
  cases sketches with
  | nil =>
      cases others with
      | nil => rfl
      | cons other others => cases same
  | cons sketch sketches =>
      cases others with
      | nil => cases same
      | cons other others =>
          cases same
          rfl

namespace Expr

mutual
/-- The sketch of an expression tells the expression, apart from where it stands. -/
theorem sketch_injective : ∀ e f : Expr Unit, e.sketch = f.sketch →
    e.reword .placeless = f.reword .placeless
  | .literal value, f, same => by
      cases f with
      | literal other =>
          have sameLabel := (Sketch.mk.inj same).1
          rw [Literal.listing_injective (Label.mk.inj sameLabel).2]
      | _ => nomatch same
  | .read name _, f, same => by
      cases f with
      | read other _ =>
          have sameLabel := (Sketch.mk.inj same).1
          rw [reword, reword, Ident.eq_of_text (Label.mk.inj sameLabel).2]
      | _ => nomatch same
  | .assign name _ value, f, same => by
      cases f with
      | assign other _ valueOther =>
          obtain ⟨sameLabel, sameBelow⟩ := Sketch.mk.inj same
          rw [reword, reword, Ident.eq_of_text (Label.mk.inj sameLabel).2,
            sketch_injective value valueOther (List.cons.inj sameBelow).1]
      | _ => nomatch same
  | .unary op _ operand, f, same => by
      cases f with
      | unary other _ operandOther =>
          obtain ⟨sameLabel, sameBelow⟩ := Sketch.mk.inj same
          obtain rfl := UnaryOp.spelling_injective (Label.mk.inj sameLabel).2
          rw [reword, reword, sketch_injective operand operandOther (List.cons.inj sameBelow).1]
          rfl
      | _ => nomatch same
  | .binary left op _ right, f, same => by
      cases f with
      | binary leftOther other _ rightOther =>
          obtain ⟨sameLabel, sameBelow⟩ := Sketch.mk.inj same
          obtain ⟨sameLeft, sameRest⟩ := List.cons.inj sameBelow
          obtain rfl := BinaryOp.spelling_injective (Label.mk.inj sameLabel).2
          rw [reword, reword, sketch_injective left leftOther sameLeft,
            sketch_injective right rightOther (List.cons.inj sameRest).1]
          rfl
      | _ => nomatch same
  | .logical left op right, f, same => by
      cases f with
      | logical leftOther other rightOther =>
          obtain ⟨sameLabel, sameBelow⟩ := Sketch.mk.inj same
          obtain ⟨sameLeft, sameRest⟩ := List.cons.inj sameBelow
          obtain rfl := LogicalOp.spelling_injective (Label.mk.inj sameLabel).2
          rw [reword, reword, sketch_injective left leftOther sameLeft,
            sketch_injective right rightOther (List.cons.inj sameRest).1]
      | _ => nomatch same
  | .grouping inner, f, same => by
      cases f with
      | grouping other =>
          obtain ⟨-, sameBelow⟩ := Sketch.mk.inj same
          rw [reword, reword, sketch_injective inner other (List.cons.inj sameBelow).1]
      | _ => nomatch same
  | .call callee arguments _, f, same => by
      cases f with
      | call calleeOther others _ =>
          obtain ⟨-, sameBelow⟩ := Sketch.mk.inj same
          obtain ⟨samePart, sameRest⟩ := List.cons.inj sameBelow
          obtain ⟨-, sameCallee⟩ := Sketch.mk.inj samePart
          rw [reword, reword, sketch_injective callee calleeOther (List.cons.inj sameCallee).1,
            sketchAll_injective arguments others (Sketch.arguments_injective sameRest)]
          rfl
      | _ => nomatch same
  | .get object name, f, same => by
      cases f with
      | get objectOther other =>
          obtain ⟨sameLabel, sameBelow⟩ := Sketch.mk.inj same
          rw [reword, reword, Ident.eq_of_text (Label.mk.inj sameLabel).2,
            sketch_injective object objectOther (List.cons.inj sameBelow).1]
      | _ => nomatch same
  | .set object name value, f, same => by
      cases f with
      | set objectOther other valueOther =>
          obtain ⟨sameLabel, sameBelow⟩ := Sketch.mk.inj same
          obtain ⟨sameObject, sameRest⟩ := List.cons.inj sameBelow
          rw [reword, reword, Ident.eq_of_text (Label.mk.inj sameLabel).2,
            sketch_injective object objectOther sameObject,
            sketch_injective value valueOther (List.cons.inj sameRest).1]
      | _ => nomatch same
  | .receiver _ _, f, same => by
      cases f with
      | receiver _ _ => rfl
      | _ => nomatch same
  | .superMethod _ _ method, f, same => by
      cases f with
      | superMethod _ _ other =>
          have sameLabel := (Sketch.mk.inj same).1
          rw [reword, reword, Ident.eq_of_text (Label.mk.inj sameLabel).2]
          rfl
      | _ => nomatch same

/-- The sketches of several expressions tell the expressions. -/
theorem sketchAll_injective : ∀ es fs : List (Expr Unit), sketchAll es = sketchAll fs →
    rewordAll .placeless es = rewordAll .placeless fs
  | [], [], _ => rfl
  | [], _ :: _, same => nomatch same
  | _ :: _, [], same => nomatch same
  | e :: es, f :: fs, same => by
      obtain ⟨sameFirst, sameRest⟩ := List.cons.inj same
      rw [rewordAll, rewordAll, sketch_injective e f sameFirst, sketchAll_injective es fs sameRest]
end

/-- The sketch of an expression that may be missing tells the expression. -/
theorem sketchOpt_injective {e f : Option (Expr Unit)} (same : sketchOpt e = sketchOpt f) :
    e.map (reword .placeless) = f.map (reword .placeless) := by
  cases e with
  | none =>
      cases f with
      | none => rfl
      | some f => cases same
  | some e =>
      cases f with
      | none => cases same
      | some f =>
          exact congrArg some (sketch_injective e f (List.cons.inj same).1)

end Expr

/-! ### Statements -/

/-- Whether a rewording makes every name a word. -/
def Rewording.MakesWords (change : Rewording) : Prop :=
  ∀ name, IsWord (change.word name)

namespace Stmt

variable {change : Rewording}

theorem superclass_injective {superclass other : Option (Ident × Unit)}
    (same : superclass.map (·.1.text) = other.map (·.1.text)) :
    superclass.map (fun parent => (parent.1.reword .placeless, parent.2)) =
      other.map fun parent => (parent.1.reword .placeless, parent.2) := by
  rcases superclass with _ | ⟨superclass, _⟩ <;> rcases other with _ | ⟨other, _⟩
  · rfl
  · cases same
  · cases same
  · exact congrArg (fun name => some (name, ())) (Ident.eq_of_text (Option.some.inj same))

theorem label_sketch {ρ : Type} : ∀ s : Stmt ρ, s.sketch.label = s.label
  | expression _ => rfl
  | print _ => rfl
  | declare _ _ => rfl
  | block _ => rfl
  | branch _ _ none => rfl
  | branch _ _ (some _) => rfl
  | loop _ _ => rfl
  | ret _ _ => rfl
  | function (.mk _ _ _) => rfl
  | classDecl _ _ _ => rfl

theorem heading_reword {ρ : Type} (s : Stmt ρ) :
    (s.reword change).label.heading = s.label.heading := by
  cases s with
  | branch _ _ elseBranch => cases elseBranch <;> rfl
  | _ => rfl

/-- Statements of different kinds have different sketches. -/
theorem heading_of_sketch {s t : Stmt Unit}
    (same : (s.reword change).sketch = (t.reword change).sketch) :
    s.label.heading = t.label.heading := by
  have sameLabel := congrArg Sketch.label same
  rw [label_sketch, label_sketch] at sameLabel
  rw [← heading_reword s, ← heading_reword t, sameLabel]

mutual
/-- The sketch of a statement whose names are words tells the statement, apart from where it
stands. -/
theorem sketch_injective (makesWords : change.MakesWords) : ∀ s t : Stmt Unit,
    (s.reword change).sketch = (t.reword change).sketch →
      (s.reword change).reword .placeless = (t.reword change).reword .placeless
  | .expression value, t, same => by
      cases t with
      | expression other =>
          obtain ⟨-, sameBelow⟩ := Sketch.mk.inj same
          simp only [reword, Expr.sketch_injective _ _ (List.cons.inj sameBelow).1]
      | _ => nomatch heading_of_sketch same
  | .print value, t, same => by
      cases t with
      | print other =>
          obtain ⟨-, sameBelow⟩ := Sketch.mk.inj same
          simp only [reword, Expr.sketch_injective _ _ (List.cons.inj sameBelow).1]
      | _ => nomatch heading_of_sketch same
  | .declare name initializer, t, same => by
      cases t with
      | declare other initializerOther =>
          obtain ⟨sameLabel, sameBelow⟩ := Sketch.mk.inj same
          simp only [reword, Ident.eq_of_text (Label.mk.inj sameLabel).2,
            Expr.sketchOpt_injective sameBelow]
      | _ => nomatch heading_of_sketch same
  | .block body, t, same => by
      cases t with
      | block other =>
          obtain ⟨-, sameBelow⟩ := Sketch.mk.inj same
          simp only [reword, sketchAll_injective makesWords body other sameBelow]
      | _ => nomatch heading_of_sketch same
  | .branch condition thenBranch none, t, same => by
      cases t with
      | branch conditionOther thenOther elseOther =>
          cases elseOther with
          | none =>
              obtain ⟨sameCondition, sameRest⟩ := List.cons.inj (Sketch.mk.inj same).2
              have sameThen := (List.cons.inj sameRest).1
              simp only [reword, Expr.sketch_injective _ _ (Sketch.part_injective sameCondition),
                sketch_injective makesWords thenBranch thenOther (Sketch.part_injective sameThen)]
          | some elseOther =>
              have sameRest := (List.cons.inj (Sketch.mk.inj same).2).2
              nomatch (List.cons.inj sameRest).2
      | _ => nomatch heading_of_sketch same
  | .branch condition thenBranch (some elseBranch), t, same => by
      cases t with
      | branch conditionOther thenOther elseOther =>
          cases elseOther with
          | none =>
              have sameRest := (List.cons.inj (Sketch.mk.inj same).2).2
              nomatch (List.cons.inj sameRest).2
          | some elseOther =>
              obtain ⟨sameCondition, sameRest⟩ := List.cons.inj (Sketch.mk.inj same).2
              obtain ⟨sameThen, sameLast⟩ := List.cons.inj sameRest
              have sameElse := (List.cons.inj sameLast).1
              simp only [reword, Expr.sketch_injective _ _ (Sketch.part_injective sameCondition),
                sketch_injective makesWords thenBranch thenOther (Sketch.part_injective sameThen),
                sketch_injective makesWords elseBranch elseOther (Sketch.part_injective sameElse)]
      | _ => nomatch heading_of_sketch same
  | .loop condition body, t, same => by
      cases t with
      | loop conditionOther other =>
          obtain ⟨-, sameBelow⟩ := Sketch.mk.inj same
          obtain ⟨sameCondition, sameRest⟩ := List.cons.inj sameBelow
          have sameBody := (List.cons.inj sameRest).1
          simp only [reword, Expr.sketch_injective _ _ (Sketch.part_injective sameCondition),
            sketch_injective makesWords body other (Sketch.part_injective sameBody)]
      | _ => nomatch heading_of_sketch same
  | .ret _ value, t, same => by
      cases t with
      | ret _ other =>
          obtain ⟨-, sameBelow⟩ := Sketch.mk.inj same
          simp only [reword, Expr.sketchOpt_injective sameBelow]
          rfl
      | _ => nomatch heading_of_sketch same
  | .function declaration, t, same => by
      cases t with
      | function other =>
          simp only [reword, sketchFunction_injective makesWords declaration other same]
      | _ => nomatch heading_of_sketch same
  | .classDecl name superclass methods, t, same => by
      cases t with
      | classDecl other superclassOther others =>
          obtain ⟨sameLabel, sameBelow⟩ := Sketch.mk.inj same
          obtain ⟨sameName, sameSuperclass⟩ :=
            classDetail_injective (makesWords name) (makesWords other) (Label.mk.inj sameLabel).2
          simp only [reword]
          rw [Ident.eq_of_text sameName, superclass_injective sameSuperclass,
            sketchMethods_injective makesWords methods others sameBelow]
      | _ => nomatch heading_of_sketch same

/-- The sketch of a function whose names are words tells the function. -/
theorem sketchFunction_injective (makesWords : change.MakesWords) : ∀ f g : Function Unit,
    sketchFunction (rewordFunction change f) = sketchFunction (rewordFunction change g) →
      rewordFunction .placeless (rewordFunction change f) =
        rewordFunction .placeless (rewordFunction change g)
  | .mk name parameters body, .mk other others bodyOther, same => by
      obtain ⟨sameLabel, sameBelow⟩ := Sketch.mk.inj same
      obtain ⟨sameName, sameParameters⟩ := functionDetail_injective (makesWords name)
        (makesWords other) (List.forall_mem_map.2 fun parameter _ => makesWords parameter)
        (List.forall_mem_map.2 fun parameter _ => makesWords parameter) (Label.mk.inj sameLabel).2
      have eqName := Ident.eq_of_text
        (show (name.reword change).text = (other.reword change).text from sameName)
      simp only [rewordFunction, eqName, Ident.map_eq_of_text sameParameters,
        sketchAll_injective makesWords body bodyOther sameBelow]

/-- The sketches of methods whose names are words tell the methods. -/
theorem sketchMethods_injective (makesWords : change.MakesWords) :
    ∀ methods others : List (Function Unit),
      sketchMethods (rewordMethods change methods) = sketchMethods (rewordMethods change others) →
        rewordMethods .placeless (rewordMethods change methods) =
          rewordMethods .placeless (rewordMethods change others)
  | [], [], _ => rfl
  | [], _ :: _, same => nomatch same
  | _ :: _, [], same => nomatch same
  | method :: methods, other :: others, same => by
      obtain ⟨sameFirst, sameRest⟩ := List.cons.inj same
      simp only [rewordMethods, sketchFunction_injective makesWords method other sameFirst,
        sketchMethods_injective makesWords methods others sameRest]

/-- The sketches of statements whose names are words tell the statements. -/
theorem sketchAll_injective (makesWords : change.MakesWords) : ∀ body other : List (Stmt Unit),
    sketchAll (rewordAll change body) = sketchAll (rewordAll change other) →
      rewordAll .placeless (rewordAll change body) = rewordAll .placeless (rewordAll change other)
  | [], [], _ => rfl
  | [], _ :: _, same => nomatch same
  | _ :: _, [], same => nomatch same
  | s :: body, t :: other, same => by
      obtain ⟨sameFirst, sameRest⟩ := List.cons.inj same
      simp only [rewordAll, sketch_injective makesWords s t sameFirst,
        sketchAll_injective makesWords body other sameRest]
end

end Stmt

end LoxLang
