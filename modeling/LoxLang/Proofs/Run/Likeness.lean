/-
Module: LoxLang.Proofs.Run.Likeness
Purpose: Values of two machines that a program cannot tell apart.  The machines may run functions of
  different kinds of declarations, and which functions correspond is left open; but those that do
  look the same.  Then values that differ in nothing but such functions are printed, compared and
  called alike, and operators yield values that are alike again.
Main exports: Correspondence, Correspondence.Within, Class.Like, Value.Like, Value.Like.text,
  Value.Like.same, ResultLike, UnaryOp.apply_like, BinaryOp.apply_like, Completion.Like
-/
import LoxLang.Machine.Eval

namespace LoxLang

/-! ### Missing values -/

section Missing

variable {α β : Type} {good goal : α → β → Prop} {first : Option α} {second : Option β}

/-- Results that correspond are both missing or both there. -/
theorem both_or_neither (related : Option.Rel good first second) :
    (first = none ∧ second = none) ∨
      ∃ value twin, first = some value ∧ second = some twin ∧ good value twin := by
  cases related with
  | none => exact .inl ⟨rfl, rfl⟩
  | some similar => exact .inr ⟨_, _, rfl, rfl, similar⟩

/-- What holds of two values that may be missing still does if something weaker is asked. -/
theorem optionRel_mono (related : Option.Rel good first second)
    (weaker : ∀ value other, good value other → goal value other) :
    Option.Rel goal first second := by
  cases related with
  | none => exact .none
  | some similar => exact .some (weaker _ _ similar)

end Missing

/-! ### Functions that correspond -/

variable {δ ε σ τ : Type} [Declaration δ σ] [Declaration ε τ]

/-- Functions that look the same to a program that does not call them. -/
structure Closure.LooksLike (closure : Closure δ) (twin : Closure ε) : Prop where
  identity : twin.identity = closure.identity
  name : twin.name = closure.name
  arity : twin.arity = closure.arity

/-- Which functions of two machines correspond: those that are values, and those that are methods
which no object has been bound to. -/
structure Correspondence (δ ε : Type) {σ τ : Type} [Declaration δ σ] [Declaration ε τ] where
  functions : Closure δ → Closure ε → Prop
  methods : Closure δ → Closure ε → Prop
  functionsLook : ∀ {closure twin}, functions closure twin → closure.LooksLike twin
  methodsLook : ∀ {closure twin}, methods closure twin → closure.LooksLike twin

/-- What corresponds in one way does in another one as well. -/
structure Correspondence.Within (first second : Correspondence δ ε) : Prop where
  functions : ∀ {closure twin}, first.functions closure twin → second.functions closure twin
  methods : ∀ {closure twin}, first.methods closure twin → second.methods closure twin

variable {relation later : Correspondence δ ε}

/-! ### Classes and values -/

/-- Classes that are called the same and have methods alike, inherited ones included. -/
structure Class.Like (relation : Correspondence δ ε) (cls : Class δ) (twin : Class ε) : Prop where
  identity : twin.identity = cls.identity
  name : twin.name = cls.name
  methods : ∀ word, Option.Rel relation.methods (cls.findMethod? word) (twin.findMethod? word)

/-- Values that a program cannot tell apart. -/
inductive Value.Like (relation : Correspondence δ ε) : Value δ → Value ε → Prop where
  | nil : Like relation .nil .nil
  | bool (value : Bool) : Like relation (.bool value) (.bool value)
  | number (value : Float) : Like relation (.number value) (.number value)
  | string (value : String) : Like relation (.string value) (.string value)
  | native (builtIn : Native) : Like relation (.native builtIn) (.native builtIn)
  | function {closure : Closure δ} {twin : Closure ε} (similar : relation.functions closure twin) :
      Like relation (.function closure) (.function twin)
  | class_ {cls : Class δ} {twin : Class ε} (similar : cls.Like relation twin) :
      Like relation (.class_ cls) (.class_ twin)
  | object (id : Nat) {cls : Class δ} {twin : Class ε} (similar : cls.Like relation twin) :
      Like relation (.object id cls) (.object id twin)

namespace Class.Like

variable {cls : Class δ} {twin : Class ε}

theorem mono (similar : cls.Like relation twin) (weaker : relation.Within later) :
    cls.Like later twin where
  identity := similar.identity
  name := similar.name
  methods := fun word => optionRel_mono (similar.methods word) fun _ _ => weaker.methods

theorem arity (similar : cls.Like relation twin) : twin.arity = cls.arity := by
  rcases both_or_neither (similar.methods "init") with ⟨missing, alsoMissing⟩ |
    ⟨initializer, other, found, alsoFound, alike⟩
  · simp only [Class.arity, Class.initializer?, missing, alsoMissing]
  · simp only [Class.arity, Class.initializer?, found, alsoFound,
      (relation.methodsLook alike).arity]

end Class.Like

/-- Classes with superclasses and methods of their own alike are alike. -/
theorem Class.like_mk {identity identityTwin : Nat} {name nameTwin : String}
    {superclass : Option (Class δ)} {superclassTwin : Option (Class ε)}
    {table : Bindings (Closure δ)} {tableTwin : Bindings (Closure ε)}
    (sameIdentity : identityTwin = identity) (sameName : nameTwin = name)
    (inherited : Option.Rel (Class.Like relation) superclass superclassTwin)
    (own : ∀ word, Option.Rel relation.methods (table.get? word) (tableTwin.get? word)) :
    (Class.mk identity name superclass table).Like relation
      (.mk identityTwin nameTwin superclassTwin tableTwin) where
  identity := sameIdentity
  name := sameName
  methods := by
    intro word
    cases inherited with
    | none => exact own word
    | some similar =>
        rw [Class.findMethod?, Class.findMethod?]
        rcases both_or_neither (own word) with ⟨missing, alsoMissing⟩ |
          ⟨found, foundTwin, isOwn, alsoOwn, methods⟩
        · rw [missing, alsoMissing]
          exact similar.methods word
        · rw [isOwn, alsoOwn]
          exact .some methods

namespace Value.Like

variable {value second : Value δ} {twin secondTwin : Value ε}

theorem mono (similar : value.Like relation twin) (weaker : relation.Within later) :
    value.Like later twin := by
  cases similar with
  | nil => exact .nil
  | bool value => exact .bool value
  | number value => exact .number value
  | string value => exact .string value
  | native builtIn => exact .native builtIn
  | function similar => exact .function (weaker.functions similar)
  | class_ similar => exact .class_ (similar.mono weaker)
  | object id similar => exact .object id (similar.mono weaker)

theorem ofLiteral (literal : Literal) :
    Value.Like relation (.ofLiteral literal) (.ofLiteral literal) := by
  cases literal with
  | nil => exact .nil
  | bool value => exact .bool value
  | number value => exact .number value
  | string value => exact .string value

/-! #### What can be seen of a value -/

theorem text (similar : value.Like relation twin) : twin.text = value.text := by
  cases similar with
  | function similar => simp only [Value.text, (relation.functionsLook similar).name]
  | class_ similar => exact similar.name
  | object id similar => simp only [Value.text, similar.name]
  | bool value => cases value <;> rfl
  | _ => rfl

theorem typeName (similar : value.Like relation twin) : twin.typeName = value.typeName := by
  cases similar with
  | object id similar => exact similar.name
  | _ => rfl

theorem inspect (similar : value.Like relation twin) : twin.inspect = value.inspect := by
  cases similar with
  | function similar =>
      exact congrArg (fun word => s!"FunctionValue({word})") (relation.functionsLook similar).name
  | class_ similar => exact congrArg (fun word => s!"ClassValue({word})") similar.name
  | object id similar => exact congrArg (fun word => s!"InstanceValue({word})") similar.name
  | _ => rfl

theorem isTrue (similar : value.Like relation twin) : twin.isTrue = value.isTrue := by
  cases similar <;> rfl

theorem arity? (similar : value.Like relation twin) : twin.arity? = value.arity? := by
  cases similar with
  | function similar => exact congrArg some (relation.functionsLook similar).arity
  | class_ similar => exact congrArg some similar.arity
  | _ => rfl

theorem same (similar : value.Like relation twin) (alsoSimilar : second.Like relation secondTwin) :
    twin.same secondTwin = value.same second := by
  cases similar with
  | function similar =>
      cases alsoSimilar with
      | function alsoSimilar =>
          simp only [Value.same, (relation.functionsLook similar).identity,
            (relation.functionsLook alsoSimilar).identity]
      | _ => rfl
  | class_ similar =>
      cases alsoSimilar with
      | class_ alsoSimilar => simp only [Value.same, similar.identity, alsoSimilar.identity]
      | _ => rfl
  | _ => cases alsoSimilar <;> rfl

end Value.Like

/-! ### Operators -/

/-- Results that are alike: both are values that are alike, or both the same error. -/
inductive ResultLike (relation : Correspondence δ ε) :
    Except RuntimeCause (Value δ) → Except RuntimeCause (Value ε) → Prop where
  | ok {value : Value δ} {twin : Value ε} (alike : value.Like relation twin) :
      ResultLike relation (.ok value) (.ok twin)
  | error (cause : RuntimeCause) : ResultLike relation (.error cause) (.error cause)

section Operators

variable {left right : Value δ} {leftTwin rightTwin : Value ε}

theorem UnaryOp.apply_like (op : UnaryOp) (alike : left.Like relation leftTwin) :
    ResultLike relation (op.apply left) (op.apply leftTwin) := by
  cases op with
  | not =>
      simp only [apply, alike.isTrue]
      exact .ok (.bool _)
  | negate =>
      cases alike with
      | number value => exact .ok (.number _)
      | _ => exact .error _

theorem BinaryOp.applyNumbers_like (op : BinaryOp) (first second : Float) :
    Value.Like relation (op.applyNumbers first second) (op.applyNumbers first second) := by
  cases op with
  | add | subtract | multiply | divide => exact .number _
  | _ => exact .bool _

/-- A binary operator, by cases: it compares for equality, it takes two numbers, it joins two
strings, or it refuses its operands. -/
theorem BinaryOp.apply_like (op : BinaryOp) (alike : left.Like relation leftTwin)
    (alikeToo : right.Like relation rightTwin) :
    ResultLike relation (op.apply left right) (op.apply leftTwin rightTwin) := by
  cases op with
  | equal | notEqual =>
      simp only [apply, alike.same alikeToo]
      exact .ok (.bool _)
  | add =>
      cases alike with
      | number first =>
          cases alikeToo with
          | number second => exact .ok (applyNumbers_like .add first second)
          | _ => exact .error _
      | string first =>
          cases alikeToo with
          | string second => exact .ok (.string _)
          | _ => exact .error _
      | _ => exact .error _
  | subtract | multiply | divide | greater | greaterEqual | less | lessEqual =>
      cases alike with
      | number first =>
          cases alikeToo with
          | number second => exact .ok (applyNumbers_like _ first second)
          | _ => exact .error _
      | _ => exact .error _

theorem LogicalOp.decides_like (op : LogicalOp) (alike : left.Like relation leftTwin) :
    op.decides leftTwin = op.decides left := by
  cases op <;> simp only [decides, alike.isTrue]

end Operators

/-! ### Completions -/

/-- Ways for a statement to end that are alike. -/
inductive Completion.Like (relation : Correspondence δ ε) : Completion δ → Completion ε → Prop where
  | normal : Like relation .normal .normal
  | returning {value : Value δ} {twin : Value ε} (alike : value.Like relation twin) :
      Like relation (.returning value) (.returning twin)

theorem Completion.Like.value {completion : Completion δ} {twin : Completion ε}
    (alike : completion.Like relation twin) : completion.value.Like relation twin.value := by
  cases alike with
  | normal => exact .nil
  | returning alike => exact alike

end LoxLang
