/-
Module: LoxLang.Proofs.Parser.Statement
Purpose: What the statement and declaration parsers read, put together from what the parsers of
  their parts read.  Soundness and completeness hold for any readings of the parts.
Main exports: Parsing.statementAfter, Parsing.declarationAfter, Parsing.led,
  Parser.statementOf_sound, Parser.declarationOf_sound, Parser.statementOf_complete,
  Parser.declarationOf_complete
-/
import LoxLang.Proofs.Parser.Expression

namespace LoxLang

open LoxLang.Stream (Passes)

variable {limit : ArgumentLimit} {need : Int}

/-! ### What statements are put together from -/

namespace Parsing

/-- An expression, unless the token that ends it comes right away. -/
def expressionBefore (kind : Kind) (expression : Parsing (Expr Unit)) :
    Parsing (Option (Expr Unit)) :=
  (seen kind).andThen fun closes =>
    if closes then pure none else expression.andThen fun value => pure (some value)

/-- An expression used as a statement. -/
def expressionStatement (expression : Parsing (Expr Unit)) : Parsing (Stmt Unit) :=
  expression.andThen fun value => (token .semicolon).andThen fun _ => pure (.expression value)

/-- The rest of a `print` statement. -/
def printStatement (expression : Parsing (Expr Unit)) : Parsing (Stmt Unit) :=
  expression.andThen fun value => (token .semicolon).andThen fun _ => pure (.print value)

/-- The rest of a `return` statement. -/
def returnStatement (keyword : Position) (expression : Parsing (Expr Unit)) :
    Parsing (Stmt Unit) :=
  (expressionBefore .semicolon expression).andThen fun value =>
    (token .semicolon).andThen fun _ => pure (.ret keyword value)

/-- The rest of a `var` declaration. -/
def variableDeclaration (expression : Parsing (Expr Unit)) : Parsing (Stmt Unit) :=
  name.andThen fun name => ifAccepted .equal
    (expression.andThen fun value =>
      (token .semicolon).andThen fun _ => pure (.declare name (some value)))
    ((token .semicolon).andThen fun _ => pure (.declare name none))

/-- Whether a token ends the declarations of a block. -/
def endsBlock (kind : Kind) : Bool :=
  kind = .eof || kind = .rightBrace

/-- The rest of a block. -/
def block (declaration : Parsing (Stmt Unit)) : Parsing (List (Stmt Unit)) :=
  (items endsBlock declaration).andThen fun body =>
    (token .rightBrace).andThen fun _ => pure body

/-- The rest of an `if` statement. -/
def ifStatement (expression : Parsing (Expr Unit)) (statement : Parsing (Stmt Unit)) :
    Parsing (Stmt Unit) :=
  (token .leftParen).andThen fun _ => expression.andThen fun condition =>
    (token .rightParen).andThen fun _ => statement.andThen fun thenBranch =>
      ifAccepted (.keyword .else_)
        (statement.andThen fun elseBranch =>
          pure (.branch condition thenBranch (some elseBranch)))
        (pure (.branch condition thenBranch none))

/-- The rest of a `while` loop. -/
def whileLoop (expression : Parsing (Expr Unit)) (statement : Parsing (Stmt Unit)) :
    Parsing (Stmt Unit) :=
  (token .leftParen).andThen fun _ => expression.andThen fun condition =>
    (token .rightParen).andThen fun _ => statement.andThen fun body =>
      pure (.loop condition body)

/-- The first clause of a `for` loop. -/
def forInitializer (expression : Parsing (Expr Unit)) : Parsing (Option (Stmt Unit)) :=
  ifAccepted .semicolon (pure none)
    (ifAccepted (.keyword .var_)
      ((variableDeclaration expression).andThen fun declaration => pure (some declaration))
      ((expressionStatement expression).andThen fun statement => pure (some statement)))

/-- The rest of a `for` loop. -/
def forLoop (expression : Parsing (Expr Unit)) (statement : Parsing (Stmt Unit)) :
    Parsing (Stmt Unit) :=
  (token .leftParen).andThen fun _ => (forInitializer expression).andThen fun initializer =>
    (expressionBefore .semicolon expression).andThen fun condition =>
      (token .semicolon).andThen fun _ =>
        (expressionBefore .rightParen expression).andThen fun increment =>
          (token .rightParen).andThen fun _ => statement.andThen fun body =>
            pure (Stmt.forLoop initializer condition increment body)

/-- A function or method from its name on. -/
def function (limit : ArgumentLimit) (declaration : Parsing (Stmt Unit)) :
    Parsing (Function Unit) :=
  name.andThen fun functionName => (token .leftParen).andThen fun _ =>
    (elements limit name).andThen fun parameters => (token .rightParen).andThen fun _ =>
      (token .leftBrace).andThen fun _ => (block declaration).andThen fun body =>
        pure (.mk functionName parameters body)

theorem name_nonempty (found : Ident) (taken : List Token) (next : Kind)
    (reads : name found taken next) : taken ≠ [] := by
  rcases reads with ⟨token, -, rfl, -⟩
  exact List.cons_ne_nil _ _

theorem function_nonempty {limit : ArgumentLimit} {declaration : Parsing (Stmt Unit)}
    (method : Function Unit) (taken : List Token) (next : Kind)
    (reads : function limit declaration method taken next) : taken ≠ [] := by
  obtain ⟨name, after, -, rfl, -⟩ := andThen_name.1 reads
  exact List.cons_ne_nil _ _

/-- The superclass of a class, if one is named. -/
def superclass : Parsing (Option (Ident × Unit)) :=
  ifAccepted .less (name.andThen fun superclass => pure (some (superclass, ()))) (pure none)

/-- The rest of a class declaration. -/
def classDeclaration (limit : ArgumentLimit) (declaration : Parsing (Stmt Unit)) :
    Parsing (Stmt Unit) :=
  name.andThen fun className => superclass.andThen fun parent =>
    (token .leftBrace).andThen fun _ =>
      (items endsBlock (function limit declaration)).andThen fun methods =>
        (token .rightBrace).andThen fun _ => pure (.classDecl className parent methods)

/-- What a keyword at the start of a statement leads to. -/
def statementAfter (expression : Parsing (Expr Unit)) (statement declaration : Parsing (Stmt Unit))
    (keyword : Token) : Option (Parsing (Stmt Unit)) :=
  match keyword.kind with
  | .keyword .for_ => some (forLoop expression statement)
  | .keyword .if_ => some (ifStatement expression statement)
  | .keyword .print_ => some (printStatement expression)
  | .keyword .return_ => some (returnStatement keyword.position expression)
  | .keyword .while_ => some (whileLoop expression statement)
  | .leftBrace => some ((block declaration).andThen fun body => pure (.block body))
  | _ => none

/-- What a keyword at the start of a declaration leads to. -/
def declarationAfter (limit : ArgumentLimit) (expression : Parsing (Expr Unit))
    (declaration : Parsing (Stmt Unit)) (keyword : Token) : Option (Parsing (Stmt Unit)) :=
  match keyword.kind with
  | .keyword .class_ => some (classDeclaration limit declaration)
  | .keyword .fun_ =>
      some ((function limit declaration).andThen fun declared => pure (.function declared))
  | .keyword .var_ => some (variableDeclaration expression)
  | _ => none

/-- What the first token leads to, or else something that does not depend on it. -/
def led {α : Type} (after : Token → Option (Parsing α)) (otherwise : Parsing α) : Parsing α :=
  fun value taken next =>
    (∃ first rest reading, after first = some reading ∧ taken = first :: rest ∧
      reading value rest next) ∨
    ((∀ first rest, taken = first :: rest → after first = none) ∧ otherwise value taken next)

end Parsing

namespace Parser

/-! ### Loops over items -/

section Loops

variable {ε α : Type} {ends : Kind → Bool} {item : Parsing α}

/-- What a recovering parser reads: if it has recovered, an error has been reported. -/
def present (item : Parsing α) : Parsing (Option α) := fun result taken next =>
  ∃ value, result = some value ∧ item value taken next

/-- One turn of a loop that collects what a parser yields, up to a token that `ends` it. -/
def stepUntil (ends : Kind → Bool) (parser : EStateM ε Stream (Option α)) (seen : Array α) :
    EStateM ε Stream (Bool × Array α) := fun stream =>
  if ends stream.current.kind then .ok (false, seen) stream
  else
    match parser stream with
    | .ok none rest => .ok (true, seen) rest
    | .ok (some value) rest => .ok (true, seen.push value) rest
    | .error interrupt rest => .error interrupt rest

theorem stepUntil_sound {parser : Parser (Option α)}
    (sound : Sound limit need parser (present item)) (seen : Array α) :
    Sound limit need (stepUntil ends parser seen) (Parsing.manyStep ends item seen) := by
  intro stream proper
  unfold stepUntil
  by_cases isEnd : ends stream.current.kind = true
  · rw [if_pos isEnd]
    exact ⟨[], Passes.refl stream, fun _ => Or.inl ⟨rfl, rfl, isEnd⟩⟩
  · rw [if_neg isEnd]
    have outcome := sound stream proper
    cases result : parser stream with
    | error interrupt following =>
        rw [result] at outcome
        exact outcome
    | ok found following =>
        rw [result] at outcome
        rcases outcome with ⟨taken, passes, reads⟩
        cases found with
        | none =>
            refine ⟨taken, passes, fun clean => ?_⟩
            obtain ⟨value, impossible, -⟩ := reads clean
            cases impossible
        | some value =>
            refine ⟨taken, passes, fun clean => Or.inr ⟨value, ?_, ?_, rfl⟩⟩
            · have split := passes.tokens
              rw [Stream.tokens, Stream.tokens] at split
              rwa [← firstKind_of_split split, ← Bool.not_eq_true]
            · obtain ⟨other, same, reads⟩ := reads clean
              cases same
              exact reads

theorem stepUntil_complete {parser : EStateM ε Stream (Option α)}
    (complete : Complete parser (present item)) (seen : Array α) :
    Complete (stepUntil ends parser seen) (Parsing.manyStep ends item seen) := by
  rintro stream result taken next rest split bounded
    (⟨rfl, rfl, isEnd⟩ | ⟨value, goesOn, reads, rfl⟩)
  · rw [List.nil_append] at split
    have current : stream.current = next := (List.cons.inj split).1
    rw [stepUntil, current, if_pos isEnd, stream.moveTo_self split]
  · have current := split
    rw [Stream.tokens] at current
    rw [stepUntil, firstKind_of_split current, goesOn,
      complete stream (some value) taken next rest split bounded ⟨value, rfl, reads⟩]
    rfl

theorem lift_ok {parser : Recovered α} {stream following : Stream} {value : α}
    (result : parser stream = .ok value following) :
    lift parser stream = .ok value following := by
  rw [lift, result]

theorem lift_complete {parser : Recovered α} (complete : Complete parser item) :
    Complete (lift parser) item :=
  fun stream value taken next rest split bounded reads =>
    lift_ok (complete stream value taken next rest split bounded reads)

/-- A parser that has recovered has reported the error it recovered from. -/
theorem recovering_sound {parser : Parser α} (sound : Sound limit need parser item) :
    Sound limit need (lift (recovering parser)) (present item) := by
  intro stream proper
  have outcome := sound stream proper
  unfold lift recovering
  cases result : parser stream with
  | ok value following =>
      rw [result] at outcome
      rcases outcome with ⟨taken, passes, reads⟩
      exact ⟨taken, passes, fun clean => ⟨value, rfl, reads clean⟩⟩
  | error interrupt following =>
      rw [result] at outcome
      rcases outcome with ⟨⟨taken, passes⟩, excused⟩
      cases interrupt with
      | abort reason => exact ⟨⟨taken, passes⟩, excused⟩
      | syntaxError error =>
          obtain ⟨skipped, synchronized⟩ := Stream.passes_synchronize (following.report error)
          have reported := (Passes.report following error).trans synchronized
          refine ⟨_, passes.trans reported, fun clean => ?_⟩
          have none := synchronized.clean clean
          simp [Stream.report] at none

theorem recovering_complete {parser : Parser α} (complete : Complete parser item) :
    Complete (recovering parser) (present item) := by
  rintro stream result taken next rest split bounded ⟨value, rfl, reads⟩
  rw [recovering, complete stream value taken next rest split bounded reads]

end Loops

/-! ### The parsers read what their parts read -/

section Sound

variable {expression : Parser (Expr Unit)} {statement : Parser (Stmt Unit)}
  {declaration : Recovered (Option (Stmt Unit))} {readingE : Parsing (Expr Unit)}
  {readingS readingD : Parsing (Stmt Unit)}

theorem expressionBefore_sound (kind : Kind) (sound : Sound limit need expression readingE) :
    Sound limit need (expressionBefore kind expression)
      (Parsing.expressionBefore kind readingE) := by
  refine (Sound.check kind).bind fun closes => ?_
  cases closes with
  | true => exact Sound.pure _
  | false => exact sound.bind fun value => Sound.pure _

theorem expressionStatement_sound (sound : Sound limit need expression readingE) :
    Sound limit need (expressionStatement expression)
      (Parsing.expressionStatement readingE) :=
  sound.bind fun _ => (Sound.expect (by decide) _).bind fun _ => Sound.pure _

theorem printStatement_sound (sound : Sound limit need expression readingE) :
    Sound limit need (printStatement expression) (Parsing.printStatement readingE) :=
  sound.bind fun _ => (Sound.expect (by decide) _).bind fun _ => Sound.pure _

theorem returnStatement_sound (keyword : Position)
    (sound : Sound limit need expression readingE) :
    Sound limit need (returnStatement keyword expression)
      (Parsing.returnStatement keyword readingE) :=
  (expressionBefore_sound _ sound).bind fun _ =>
    (Sound.expect (by decide) _).bind fun _ => Sound.pure _

theorem variableDeclaration_sound (sound : Sound limit need expression readingE) :
    Sound limit need (variableDeclaration expression)
      (Parsing.variableDeclaration readingE) :=
  (Sound.name _).bind fun _ => Sound.ifAccept (by decide)
    ((sound.needLess (by omega)).bind fun _ =>
      (Sound.expect (by decide) _).bind fun _ => Sound.pure _)
    ((Sound.expect (by decide) _).bind fun _ => Sound.pure _)

theorem ifStatement_sound (soundE : Sound limit need expression readingE)
    (soundS : Sound limit need statement readingS) :
    Sound limit need (ifStatement expression statement)
      (Parsing.ifStatement readingE readingS) :=
  (Sound.expect (by decide) _).bind fun _ => soundE.bind fun _ =>
    (Sound.expect (by decide) _).bind fun _ => soundS.bind fun _ =>
      Sound.ifAccept (by decide)
        ((soundS.needLess (by omega)).bind fun _ => Sound.pure _) (Sound.pure _)

theorem whileLoop_sound (soundE : Sound limit need expression readingE)
    (soundS : Sound limit need statement readingS) :
    Sound limit need (whileLoop expression statement) (Parsing.whileLoop readingE readingS) :=
  (Sound.expect (by decide) _).bind fun _ => soundE.bind fun _ =>
    (Sound.expect (by decide) _).bind fun _ => soundS.bind fun _ => Sound.pure _

theorem forInitializer_sound (sound : Sound limit need expression readingE) :
    Sound limit need (forInitializer expression) (Parsing.forInitializer readingE) :=
  Sound.ifAccept (by decide) (Sound.pure _) (Sound.ifAccept (by decide)
    ((variableDeclaration_sound (sound.needLess (by omega))).bind fun _ => Sound.pure _)
    ((expressionStatement_sound sound).bind fun _ => Sound.pure _))

theorem forLoop_sound (soundE : Sound limit need expression readingE)
    (soundS : Sound limit need statement readingS) :
    Sound limit need (forLoop expression statement) (Parsing.forLoop readingE readingS) :=
  (Sound.expect (by decide) _).bind fun _ => (forInitializer_sound soundE).bind fun _ =>
    (expressionBefore_sound _ soundE).bind fun _ => (Sound.expect (by decide) _).bind fun _ =>
      (expressionBefore_sound _ soundE).bind fun _ =>
        (Sound.expect (by decide) _).bind fun _ => soundS.bind fun _ => Sound.pure _

theorem declarations_eq (declaration : Recovered (Option (Stmt Unit))) :
    declarations declaration =
      repeating (stepUntil Parsing.endsBlock (lift declaration)) #[] >>= fun all =>
        pure all.toList := by
  unfold declarations
  congr 2
  funext seen stream
  simp only [stepUntil, Parsing.endsBlock, Stream.atEnd]
  cases lift declaration stream with
  | ok found rest => cases found <;> rfl
  | error interrupt rest => rfl

theorem block_sound (nonempty : ∀ s taken next, readingD s taken next → taken ≠ [])
    (sound : Sound limit need (lift declaration) (present readingD)) :
    Sound limit need (block declaration) (Parsing.block readingD) := by
  have all := Sound.repeating (stepUntil_sound sound)
    (Parsing.manyStep_progressing Parsing.endsBlock nonempty) #[]
  have body := all.bind fun all => Sound.pure all.toList
  rw [← declarations_eq] at body
  exact body.bind fun _ => (Sound.expect (by decide) _).bind fun _ => Sound.pure _

theorem function_sound (role : FunctionRole)
    (nonempty : ∀ s taken next, readingD s taken next → taken ≠ [])
    (sound : Sound limit need (lift declaration) (present readingD)) :
    Sound limit need (function limit role declaration) (Parsing.function limit readingD) :=
  (Sound.name _).bind fun _ => (Sound.expect (by decide) _).bind fun _ =>
    (elements_sound _ (Sound.name _) Parsing.name_nonempty).bind fun _ =>
      (Sound.expect (by decide) _).bind fun _ => (Sound.expect (by decide) _).bind fun _ =>
        (block_sound nonempty sound).bind fun _ => Sound.pure _

theorem methods_eq (declaration : Recovered (Option (Stmt Unit))) :
    methods limit declaration =
      repeating (stepUntil Parsing.endsBlock
        (function limit .method declaration >>= fun method => pure (some method))) #[] >>=
          fun all => pure all.toList := by
  unfold methods
  congr 2
  funext seen stream
  simp only [bind_apply, check, stepUntil, Parsing.endsBlock]
  by_cases closes : stream.current.kind = .rightBrace
  · simp [closes, pure_apply]
  · by_cases stops : stream.current.kind = .eof
    · simp [stops, pure_apply]
    · simp only [closes, stops, decide_false, Bool.or_self, Bool.false_eq_true, if_false,
        bind_apply]
      cases function limit .method declaration stream <;> rfl

theorem classDeclaration_sound (nonempty : ∀ s taken next, readingD s taken next → taken ≠ [])
    (sound : Sound limit need (lift declaration) (present readingD)) :
    Sound limit need (classDeclaration limit declaration)
      (Parsing.classDeclaration limit readingD) := by
  have method : Sound limit need (function limit .method declaration >>= fun method =>
      pure (some method)) (present (Parsing.function limit readingD)) := by
    refine ((function_sound .method nonempty sound).bind fun _ => Sound.pure _).mono ?_
    intro found taken next reads
    obtain ⟨method, read, rfl⟩ := Parsing.andThen_pure.1 reads
    exact ⟨method, rfl, read⟩
  have all := Sound.repeating (stepUntil_sound method)
    (Parsing.manyStep_progressing Parsing.endsBlock Parsing.function_nonempty) #[]
  have body := all.bind fun all => Sound.pure all.toList
  rw [← methods_eq] at body
  have parent : Sound limit need superclass? Parsing.superclass :=
    Sound.ifAccept (by decide) ((Sound.name _).bind fun _ => Sound.pure _) (Sound.pure _)
  exact (Sound.name _).bind fun _ => parent.bind fun _ => (Sound.expect (by decide) _).bind fun _ =>
    body.bind fun _ => (Sound.expect (by decide) _).bind fun _ => Sound.pure _

/-- A parser that goes by the first token. -/
theorem led_sound {α : Type} {parser : Parser α} {after : Token → Option (Parsing α)}
    {otherwise : Parsing α}
    (leads : ∀ stream : Stream, stream.Proper →
      (∃ reading, after stream.current = some reading ∧ Outcome limit need stream
        (fun value taken next => ∃ rest, taken = stream.current :: rest ∧ reading value rest next)
        (parser stream)) ∨
      (after stream.current = none ∧ Outcome limit need stream otherwise (parser stream))) :
    Sound limit need parser (Parsing.led after otherwise) := by
  intro stream proper
  rcases leads stream proper with ⟨reading, known, outcome⟩ | ⟨unknown, outcome⟩
  · refine outcome.mono ?_
    rintro value taken next ⟨rest, rfl, reads⟩
    exact Or.inl ⟨stream.current, rest, reading, known, rfl, reads⟩
  · cases result : parser stream with
    | error interrupt following =>
        rw [result] at outcome
        exact outcome
    | ok value following =>
        rw [result] at outcome
        rcases outcome with ⟨taken, passes, reads⟩
        refine ⟨taken, passes, fun clean => Or.inr ⟨?_, reads clean⟩⟩
        rintro first rest rfl
        have split := passes.tokens
        simp only [Stream.tokens, List.cons_append, List.cons.injEq] at split
        rw [← split.1]
        exact unknown

theorem statementOf_sound (nonempty : ∀ s taken next, readingD s taken next → taken ≠ [])
    (soundE : Sound limit need expression readingE)
    (soundS : Sound limit (need - 2) statement readingS)
    (soundD : Sound limit (need - 2) (lift declaration) (present readingD)) :
    Sound limit need (statementOf expression statement declaration)
      (Parsing.led (Parsing.statementAfter readingE readingS readingD)
        (Parsing.expressionStatement readingE)) := by
  have inner : Sound limit (need - 2) expression readingE := soundE.needLess (by omega)
  refine led_sound fun stream proper => ?_
  unfold statementOf
  split
  · rename_i isKind
    exact Or.inl ⟨_, by rw [Parsing.statementAfter, isKind],
      (forLoop_sound inner soundS).advancing proper (by simp [isKind])⟩
  · rename_i isKind
    exact Or.inl ⟨_, by rw [Parsing.statementAfter, isKind],
      (ifStatement_sound inner soundS).advancing proper (by simp [isKind])⟩
  · rename_i isKind
    exact Or.inl ⟨_, by rw [Parsing.statementAfter, isKind],
      (printStatement_sound inner).advancing proper (by simp [isKind])⟩
  · rename_i isKind
    exact Or.inl ⟨_, by rw [Parsing.statementAfter, isKind],
      (returnStatement_sound _ inner).advancing proper (by simp [isKind])⟩
  · rename_i isKind
    exact Or.inl ⟨_, by rw [Parsing.statementAfter, isKind],
      (whileLoop_sound inner soundS).advancing proper (by simp [isKind])⟩
  · rename_i isKind
    have outcome := ((block_sound nonempty soundD).bind fun body =>
      Sound.pure (Stmt.block body)).advancing proper (by simp [isKind])
    rw [bind_apply] at outcome
    refine Or.inl ⟨_, by rw [Parsing.statementAfter, isKind], ?_⟩
    cases result : block declaration stream.advance with
    | ok body rest => rw [result] at outcome; exact outcome
    | error interrupt rest => rw [result] at outcome; exact outcome
  · refine Or.inr ⟨?_, expressionStatement_sound soundE stream proper⟩
    unfold Parsing.statementAfter
    split <;> simp_all

theorem declarationOf_sound (nonempty : ∀ s taken next, readingD s taken next → taken ≠ [])
    (soundE : Sound limit (need - 2) expression readingE)
    (soundS : Sound limit need statement readingS)
    (soundD : Sound limit (need - 2) (lift declaration) (present readingD)) :
    Sound limit need (declarationOf limit expression statement declaration)
      (Parsing.led (Parsing.declarationAfter limit readingE readingD) readingS) := by
  refine led_sound fun stream proper => ?_
  unfold declarationOf
  split
  · rename_i isKind
    exact Or.inl ⟨_, by rw [Parsing.declarationAfter, isKind],
      (classDeclaration_sound nonempty soundD).advancing proper (by simp [isKind])⟩
  · rename_i isKind
    exact Or.inl ⟨_, by rw [Parsing.declarationAfter, isKind],
      ((function_sound .function nonempty soundD).bind fun _ => Sound.pure _).advancing proper
        (by simp [isKind])⟩
  · rename_i isKind
    exact Or.inl ⟨_, by rw [Parsing.declarationAfter, isKind],
      (variableDeclaration_sound soundE).advancing proper (by simp [isKind])⟩
  · refine Or.inr ⟨?_, soundS stream proper⟩
    unfold Parsing.declarationAfter
    split <;> simp_all

end Sound

section Complete

variable {expression : Parser (Expr Unit)} {statement : Parser (Stmt Unit)}
  {declaration : Recovered (Option (Stmt Unit))} {readingE : Parsing (Expr Unit)}
  {readingS readingD : Parsing (Stmt Unit)}

theorem expressionBefore_complete (kind : Kind) (complete : Complete expression readingE) :
    Complete (expressionBefore kind expression) (Parsing.expressionBefore kind readingE) := by
  refine (Complete.check kind).bind fun closes => ?_
  cases closes with
  | true => exact Complete.pure _
  | false => exact complete.bind fun value => Complete.pure _

theorem expressionStatement_complete (complete : Complete expression readingE) :
    Complete (expressionStatement expression) (Parsing.expressionStatement readingE) :=
  complete.bind fun _ => (Complete.expect (by decide) _).bind fun _ => Complete.pure _

theorem printStatement_complete (complete : Complete expression readingE) :
    Complete (printStatement expression) (Parsing.printStatement readingE) :=
  complete.bind fun _ => (Complete.expect (by decide) _).bind fun _ => Complete.pure _

theorem returnStatement_complete (keyword : Position) (complete : Complete expression readingE) :
    Complete (returnStatement keyword expression) (Parsing.returnStatement keyword readingE) :=
  (expressionBefore_complete _ complete).bind fun _ =>
    (Complete.expect (by decide) _).bind fun _ => Complete.pure _

theorem variableDeclaration_complete (complete : Complete expression readingE) :
    Complete (variableDeclaration expression) (Parsing.variableDeclaration readingE) :=
  (Complete.name _).bind fun _ => Complete.ifAccept (by decide)
    (complete.bind fun _ => (Complete.expect (by decide) _).bind fun _ => Complete.pure _)
    ((Complete.expect (by decide) _).bind fun _ => Complete.pure _)

theorem ifStatement_complete (completeE : Complete expression readingE)
    (completeS : Complete statement readingS) :
    Complete (ifStatement expression statement) (Parsing.ifStatement readingE readingS) :=
  (Complete.expect (by decide) _).bind fun _ => completeE.bind fun _ =>
    (Complete.expect (by decide) _).bind fun _ => completeS.bind fun _ =>
      Complete.ifAccept (by decide) (completeS.bind fun _ => Complete.pure _) (Complete.pure _)

theorem whileLoop_complete (completeE : Complete expression readingE)
    (completeS : Complete statement readingS) :
    Complete (whileLoop expression statement) (Parsing.whileLoop readingE readingS) :=
  (Complete.expect (by decide) _).bind fun _ => completeE.bind fun _ =>
    (Complete.expect (by decide) _).bind fun _ => completeS.bind fun _ => Complete.pure _

theorem forInitializer_complete (complete : Complete expression readingE) :
    Complete (forInitializer expression) (Parsing.forInitializer readingE) :=
  Complete.ifAccept (by decide) (Complete.pure _) (Complete.ifAccept (by decide)
    ((variableDeclaration_complete complete).bind fun _ => Complete.pure _)
    ((expressionStatement_complete complete).bind fun _ => Complete.pure _))

theorem forLoop_complete (completeE : Complete expression readingE)
    (completeS : Complete statement readingS) :
    Complete (forLoop expression statement) (Parsing.forLoop readingE readingS) :=
  (Complete.expect (by decide) _).bind fun _ => (forInitializer_complete completeE).bind fun _ =>
    (expressionBefore_complete _ completeE).bind fun _ =>
      (Complete.expect (by decide) _).bind fun _ =>
        (expressionBefore_complete _ completeE).bind fun _ =>
          (Complete.expect (by decide) _).bind fun _ => completeS.bind fun _ => Complete.pure _

theorem block_complete (nonempty : ∀ s taken next, readingD s taken next → taken ≠ [])
    (complete : Complete declaration (present readingD)) :
    Complete (block declaration) (Parsing.block readingD) := by
  have all := Complete.repeating (stepUntil_complete (lift_complete complete))
    (Parsing.manyStep_progressing Parsing.endsBlock nonempty) #[]
  have body := all.bind fun all => Complete.pure all.toList
  rw [← declarations_eq] at body
  exact body.bind fun _ => (Complete.expect (by decide) _).bind fun _ => Complete.pure _

theorem function_complete (role : FunctionRole)
    (nonempty : ∀ s taken next, readingD s taken next → taken ≠ [])
    (complete : Complete declaration (present readingD)) :
    Complete (function limit role declaration) (Parsing.function limit readingD) :=
  (Complete.name _).bind fun _ => (Complete.expect (by decide) _).bind fun _ =>
    (elements_complete _ (Complete.name _) Parsing.name_nonempty).bind fun _ =>
      (Complete.expect (by decide) _).bind fun _ => (Complete.expect (by decide) _).bind fun _ =>
        (block_complete nonempty complete).bind fun _ => Complete.pure _

theorem classDeclaration_complete (nonempty : ∀ s taken next, readingD s taken next → taken ≠ [])
    (complete : Complete declaration (present readingD)) :
    Complete (classDeclaration limit declaration) (Parsing.classDeclaration limit readingD) := by
  have method : Complete (function limit .method declaration >>= fun method =>
      pure (some method)) (present (Parsing.function limit readingD)) := by
    refine ((function_complete .method nonempty complete).bind fun _ => Complete.pure _).mono ?_
    rintro found taken next ⟨method, rfl, reads⟩
    exact Parsing.andThen_pure.2 ⟨method, reads, rfl⟩
  have all := Complete.repeating (stepUntil_complete method)
    (Parsing.manyStep_progressing Parsing.endsBlock Parsing.function_nonempty) #[]
  have body := all.bind fun all => Complete.pure all.toList
  rw [← methods_eq] at body
  have parent : Complete superclass? Parsing.superclass :=
    Complete.ifAccept (by decide) ((Complete.name _).bind fun _ => Complete.pure _)
      (Complete.pure _)
  exact (Complete.name _).bind fun _ => parent.bind fun _ =>
    (Complete.expect (by decide) _).bind fun _ => body.bind fun _ =>
      (Complete.expect (by decide) _).bind fun _ => Complete.pure _

theorem statementOf_complete (nonempty : ∀ s taken next, readingD s taken next → taken ≠ [])
    (nonemptyE : ∀ e taken next, readingE e taken next → taken ≠ [])
    (completeE : Complete expression readingE) (completeS : Complete statement readingS)
    (completeD : Complete declaration (present readingD)) :
    Complete (statementOf expression statement declaration)
      (Parsing.led (Parsing.statementAfter readingE readingS readingD)
        (Parsing.expressionStatement readingE)) := by
  rintro stream s taken next rest split bounded
    (⟨first, after, reading, known, rfl, reads⟩ | ⟨unknown, reads⟩)
  · unfold Parsing.statementAfter at known
    split at known
    · rename_i isKind
      cases known
      obtain ⟨current, read⟩ := (forLoop_complete completeE completeS).advancing split
        (by simp [isKind]) bounded reads
      simp only [statementOf, current, isKind, read]
    · rename_i isKind
      cases known
      obtain ⟨current, read⟩ := (ifStatement_complete completeE completeS).advancing split
        (by simp [isKind]) bounded reads
      simp only [statementOf, current, isKind, read]
    · rename_i isKind
      cases known
      obtain ⟨current, read⟩ := (printStatement_complete completeE).advancing split
        (by simp [isKind]) bounded reads
      simp only [statementOf, current, isKind, read]
    · rename_i isKind
      cases known
      obtain ⟨current, read⟩ := (returnStatement_complete _ completeE).advancing split
        (by simp [isKind]) bounded reads
      simp only [statementOf, current, isKind, read]
    · rename_i isKind
      cases known
      obtain ⟨current, read⟩ := (whileLoop_complete completeE completeS).advancing split
        (by simp [isKind]) bounded reads
      simp only [statementOf, current, isKind, read]
    · rename_i isKind
      cases known
      obtain ⟨body, inner, rfl⟩ := Parsing.andThen_pure.1 reads
      obtain ⟨current, read⟩ := (block_complete nonempty completeD).advancing split
        (by simp [isKind]) bounded inner
      simp only [statementOf, current, isKind, read]
    · cases known
  · have nonemptyS : taken ≠ [] := by
      rcases reads with ⟨value, before, after, rfl, read, -⟩
      simp [nonemptyE _ _ _ read]
    have unknown := unknown _ _ (Stream.current_of_split split nonemptyS)
    have other : statementOf expression statement declaration stream =
        expressionStatement expression stream := by
      unfold Parsing.statementAfter at unknown
      unfold statementOf
      split <;> simp_all
    rw [other]
    exact expressionStatement_complete completeE stream s taken next rest split bounded reads

theorem declarationOf_complete (nonempty : ∀ s taken next, readingD s taken next → taken ≠ [])
    (nonemptyS : ∀ s taken next, readingS s taken next → taken ≠ [])
    (completeE : Complete expression readingE) (completeS : Complete statement readingS)
    (completeD : Complete declaration (present readingD)) :
    Complete (declarationOf limit expression statement declaration)
      (Parsing.led (Parsing.declarationAfter limit readingE readingD) readingS) := by
  rintro stream s taken next rest split bounded
    (⟨first, after, reading, known, rfl, reads⟩ | ⟨unknown, reads⟩)
  · unfold Parsing.declarationAfter at known
    split at known
    · rename_i isKind
      cases known
      obtain ⟨current, read⟩ := (classDeclaration_complete nonempty completeD).advancing split
        (by simp [isKind]) bounded reads
      simp only [declarationOf, current, isKind, read]
    · rename_i isKind
      cases known
      obtain ⟨current, read⟩ := ((function_complete .function nonempty completeD).bind fun _ =>
        Complete.pure _).advancing split (by simp [isKind]) bounded reads
      simp only [declarationOf, current, isKind, functionDeclaration, read]
    · rename_i isKind
      cases known
      obtain ⟨current, read⟩ := (variableDeclaration_complete completeE).advancing split
        (by simp [isKind]) bounded reads
      simp only [declarationOf, current, isKind, read]
    · cases known
  · have unknown := unknown _ _ (Stream.current_of_split split (nonemptyS _ _ _ reads))
    have other : declarationOf limit expression statement declaration stream =
        statement stream := by
      unfold Parsing.declarationAfter at unknown
      unfold declarationOf
      split <;> simp_all
    rw [other]
    exact completeS stream s taken next rest split bounded reads

end Complete

end Parser

end LoxLang
