/-
Module: LoxLang.Proofs.Parser.Program
Purpose: Reading a whole token list.  With a limit that can be compared with a number reading is
  never given up, and it reports no error exactly if the tokens before the end are spelled as
  declarations.
Main exports: Program.parse_total, Program.parse_clean, Program.parse_declared,
  Program.parseWithin_clean
-/
import LoxLang.Proofs.Parser.Declaration

namespace LoxLang

open LoxLang.Stream (Passes)

variable {limit : ArgumentLimit}

/-- Whether a token is the end of the source. -/
def endsSource (kind : Kind) : Bool :=
  kind = .eof

namespace Parser

theorem lift_repeatUpTo {β : Type} (step : β → Recovered (Bool × β)) (bound : Nat) (state : β)
    (stream : Stream) :
    lift (repeatUpTo step bound state) stream =
      repeatUpTo (fun state => lift (step state)) bound state stream := by
  induction bound generalizing state stream with
  | zero => rfl
  | succ bound ih =>
      cases result : step state stream with
      | error reason rest => simp only [lift, repeatUpTo, result]
      | ok outcome rest =>
          rcases outcome with ⟨again, following⟩
          cases again with
          | false => simp only [lift, repeatUpTo, result]
          | true => simpa only [lift, repeatUpTo, result] using ih following rest

theorem lift_stepUntil {α : Type} (ends : Kind → Bool) (parser : Recovered (Option α))
    (seen : Array α) : lift (stepUntil ends parser seen) = stepUntil ends (lift parser) seen := by
  funext stream
  simp only [lift, stepUntil]
  cases ends stream.current.kind with
  | true => rfl
  | false =>
      cases parser stream with
      | error reason rest => rfl
      | ok found rest => cases found <;> rfl

theorem program_eq (declaration : Recovered (Option (Stmt Unit))) :
    program declaration =
      repeating (stepUntil endsSource declaration) #[] >>= fun all => pure all.toList := by
  funext stream
  have agree : ∀ {step : Array (Stmt Unit) → Recovered (Bool × Array (Stmt Unit))} {outcome},
      repeating step #[] stream = outcome →
      (∀ seen following, step seen following = stepUntil endsSource declaration seen following) →
      repeating (stepUntil endsSource declaration) #[] stream = outcome := by
    intro step outcome isOutcome same
    rw [← funext fun seen => funext fun following => same seen following]
    exact isOutcome
  simp only [program]
  split
  all_goals
    next read =>
      have collected := agree read (by
        intro seen following
        simp only [stepUntil, endsSource, Stream.atEnd]
        cases declaration following with
        | error reason rest => rfl
        | ok found rest => cases found <;> rfl)
      simp only [bind_apply, collected, pure_apply]

theorem lift_program (declaration : Recovered (Option (Stmt Unit))) :
    lift (program declaration) =
      repeating (stepUntil endsSource (lift declaration)) #[] >>= fun all => pure all.toList := by
  have steps : (fun seen => lift (stepUntil endsSource declaration seen)) =
      stepUntil endsSource (lift declaration) :=
    funext fun seen => lift_stepUntil endsSource declaration seen
  funext stream
  have lifted := lift_repeatUpTo (stepUntil endsSource declaration) stream.size #[] stream
  rw [steps] at lifted
  rw [bind_apply, repeating, ← lifted, lift, program_eq, bind_apply, lift, repeating]
  cases repeatUpTo (stepUntil endsSource declaration) stream.size #[] stream <;> rfl

/-- What is known of a parser of declarations is known of the parser of programs. -/
theorem program_sound_of {need : Int} {declaration : Recovered (Option (Stmt Unit))}
    {reading : Parsing (Stmt Unit)} (sound : Sound limit need (lift declaration) (present reading))
    (nonempty : ∀ value taken next, reading value taken next → taken ≠ []) :
    Sound limit need (lift (program declaration)) (Parsing.items endsSource reading) := by
  rw [lift_program]
  exact (Sound.repeating (stepUntil_sound sound)
    (Parsing.manyStep_progressing endsSource nonempty) #[]).bind fun all => Sound.pure all.toList

theorem program_sound (room : Nat) :
    Sound limit (room - 3) (lift (program (declaration limit room)))
      (Parsing.items endsSource (declarationAt limit)) :=
  program_sound_of (declaration_sound room) declarationAt_nonempty

theorem program_complete {room size : Nat} (enough : 2 * size + 1 ≤ room) :
    Complete (program (declaration limit room))
      (Parsing.items endsSource (declarationWithin limit size)) := by
  rw [program_eq]
  exact (Complete.repeating (stepUntil_complete (declaration_complete enough))
    (Parsing.manyStep_progressing endsSource declarationWithin_nonempty) #[]).bind
      fun all => Complete.pure all.toList

end Parser

/-! ### Whole token lists -/

theorem Stream.ofTokens_proper {tokens : List Token} (ends : EndsOnce tokens) :
    (Stream.ofTokens tokens).Proper ∧ (Stream.ofTokens tokens).tokens = tokens := by
  cases tokens with
  | nil => exact ends.elim
  | cons first rest => exact ⟨⟨ends, by simp [Stream.ofTokens, Stream.tokens]⟩, rfl⟩

/-- The end of the source stands behind all other tokens. -/
theorem EndsOnce.split_at_end {body taken rest : List Token} {last current : Token}
    (ends : EndsOnce (body ++ [last])) (split : body ++ [last] = taken ++ current :: rest)
    (isEnd : current.kind = .eof) : taken = body ∧ current = last := by
  have endsHere : EndsOnce (current :: rest) := (split ▸ ends).drop (List.cons_ne_nil _ _)
  obtain rfl := endsHere.singleton isEnd
  obtain ⟨sameBody, sameLast⟩ := List.append_inj' split rfl
  exact ⟨sameBody.symm, (List.cons.inj sameLast).1.symm⟩

namespace Program

variable {tokens body : List Token} {last : Token}

/-- The room that reading takes for granted is never used up, whatever the tokens are. -/
theorem parse_shallow (limit : ArgumentLimit) (ends : EndsOnce tokens) :
    (parse limit tokens).program ≠ .error .tooDeep := by
  intro gaveUp
  obtain ⟨proper, same⟩ := Stream.ofTokens_proper ends
  have sound : Parser.Sound limit _ _ _ := Parser.program_sound (2 * tokens.length + 4)
  have outcome := sound _ proper
  unfold parse parseWithin at gaveUp
  cases result : Parser.program (Parser.declaration limit (2 * tokens.length + 4))
      (.ofTokens tokens) with
  | ok program following =>
      rw [result] at gaveUp
      cases gaveUp
  | error reason following =>
      rw [result] at gaveUp
      cases gaveUp
      rw [Parser.lift, result] at outcome
      have excused := outcome.2
      simp only [Parser.Excused, same] at excused
      omega

/-- How reading a token list comes out. -/
theorem parse_outcome (ends : EndsOnce tokens) (comparable : limit ≠ .incomparable) :
    ∃ (program : List (Stmt Unit)) (taken : List Token) (following : Stream),
      parse limit tokens = { program := .ok program, errors := following.errors } ∧
      Passes (.ofTokens tokens) taken following ∧
      (following.errors = #[] → Parsing.items endsSource (declarationAt limit) program taken
        following.current.kind) := by
  obtain ⟨proper, same⟩ := Stream.ofTokens_proper ends
  have sound : Parser.Sound limit _ _ _ := Parser.program_sound (2 * tokens.length + 4)
  have outcome := sound _ proper
  unfold parse parseWithin
  cases result : Parser.program (Parser.declaration limit (2 * tokens.length + 4))
      (.ofTokens tokens) with
  | ok program following =>
      rw [Parser.lift_ok result] at outcome
      rcases outcome with ⟨taken, passes, reads⟩
      exact ⟨program, taken, following, rfl, passes, reads⟩
  | error reason following =>
      rw [Parser.lift, result] at outcome
      rcases outcome with ⟨-, excused⟩
      cases reason with
      | incomparableLimit => exact absurd excused comparable
      | tooDeep => exact absurd (by rw [parse, parseWithin, result]) (parse_shallow limit ends)

theorem declaredAll_of_many {program : List (Stmt Unit)} {taken : List Token} {next : Kind}
    (many : Parsing.Many (Parsing.unended endsSource (declarationAt limit)) program taken next) :
    Stmt.DeclaredAll limit program taken := by
  induction many with
  | nil => exact .nil
  | cons reads _ ih =>
      rcases reads with ⟨-, isOpen, declared, -⟩
      exact .cons declared ih

/-- What is read without an error within a given room is a list of declarations. -/
theorem parseWithin_clean {room : Nat} {program : Program.Plain} (ends : EndsOnce tokens)
    (read : (parseWithin room limit tokens).program = .ok program)
    (clean : (parseWithin room limit tokens).errors = #[]) :
    ∃ taken rest, tokens = taken ++ rest ∧ Stmt.DeclaredAll limit program taken := by
  obtain ⟨proper, same⟩ := Stream.ofTokens_proper ends
  have sound : Parser.Sound limit _ _ _ := Parser.program_sound room
  have outcome := sound _ proper
  unfold parseWithin at read clean
  cases result : Parser.program (Parser.declaration limit room) (.ofTokens tokens) with
  | error reason following =>
      rw [result] at read
      cases read
  | ok found following =>
      rw [result] at read clean
      cases read
      rw [Parser.lift_ok result] at outcome
      rcases outcome with ⟨taken, passes, reads⟩
      obtain ⟨many, -⟩ := Parsing.items_iff.1 (reads clean)
      exact ⟨taken, following.tokens, same ▸ passes.tokens, declaredAll_of_many many⟩

/-- A limit that can be compared with a number is never a reason to give up reading. -/
theorem parseWithin_comparable {room : Nat} (ends : EndsOnce tokens)
    (comparable : limit ≠ .incomparable) :
    (parseWithin room limit tokens).program ≠ .error .incomparableLimit := by
  intro read
  obtain ⟨proper, -⟩ := Stream.ofTokens_proper ends
  have sound : Parser.Sound limit _ _ _ := Parser.program_sound room
  have outcome := sound _ proper
  unfold parseWithin at read
  cases result : Parser.program (Parser.declaration limit room) (.ofTokens tokens) with
  | ok found following =>
      rw [result] at read
      cases read
  | error reason following =>
      rw [result] at read
      cases read
      rw [Parser.lift, result] at outcome
      exact comparable outcome.2

/-- Reading is never given up. -/
theorem parse_total (ends : EndsOnce tokens) (comparable : limit ≠ .incomparable) :
    ∃ program, (parse limit tokens).program = .ok program := by
  obtain ⟨program, taken, following, result, -⟩ := parse_outcome ends comparable
  exact ⟨program, by rw [result]⟩

/-- What is read without an error is a list of declarations up to the end. -/
theorem parse_clean (ends : EndsOnce (body ++ [last])) (comparable : limit ≠ .incomparable)
    (clean : (parse limit (body ++ [last])).errors = #[]) :
    ∃ program, (parse limit (body ++ [last])).program = .ok program ∧
      Stmt.DeclaredAll limit program body := by
  obtain ⟨program, taken, following, result, passes, reads⟩ := parse_outcome ends comparable
  rw [result] at clean ⊢
  obtain ⟨many, isEnd⟩ := Parsing.items_iff.1 (reads clean)
  refine ⟨program, rfl, ?_⟩
  obtain ⟨proper, same⟩ := Stream.ofTokens_proper ends
  have split := passes.tokens
  rw [same, Stream.tokens] at split
  obtain ⟨rfl, -⟩ := ends.split_at_end split (by simpa [endsSource] using isEnd)
  exact declaredAll_of_many many

theorem many_of_declaredAll {program : List (Stmt Unit)} {taken : List Token} {next : Kind}
    {size : Nat} (declared : Stmt.DeclaredAll limit program taken) (short : taken.length ≤ size)
    (noElse : next ≠ .keyword .else_) :
    Parsing.Many (Parsing.unended endsSource (declarationWithin limit size)) program taken next := by
  refine (Parsing.many_of_declaredAll declared short noElse).mono ?_
  rintro s ts following ⟨goesOn, within⟩
  refine ⟨?_, within⟩
  simp only [Parsing.endsBlock, Bool.or_eq_false_iff] at goesOn
  exact goesOn.1

/-- What a complete parser has to read up to the end is what comes of a token list. -/
theorem parseWithin_many {room : Nat} {reading : Parsing (Stmt Unit)} {program : List (Stmt Unit)}
    (complete : Parser.Complete (Parser.program (Parser.declaration limit room))
      (Parsing.items endsSource reading)) (isEnd : last.kind = .eof)
    (many : Parsing.Many (Parsing.unended endsSource reading) program body last.kind) :
    parseWithin room limit (body ++ [last]) = { program := .ok program, errors := #[] } := by
  have tokens : (Stream.ofTokens (body ++ [last])).tokens = body ++ [last] := by
    cases body <;> rfl
  have bounded : (Stream.ofTokens (body ++ [last])).tokens.length ≤
      (Stream.ofTokens (body ++ [last])).size := by
    cases body <;> simp [Stream.ofTokens, Stream.tokens]
  have errors : (Stream.ofTokens (body ++ [last])).errors = #[] := by
    cases body <;> rfl
  have read := complete (.ofTokens (body ++ [last])) program body last [] tokens bounded
    (Parsing.items_iff.2 ⟨many, by simp [endsSource, isEnd]⟩)
  rw [parseWithin, read]
  simp only [Stream.errors_moveTo, errors]

/-- Declarations up to the end are read as they are spelled, without an error. -/
theorem parse_declared {program : List (Stmt Unit)} (isEnd : last.kind = .eof)
    (declared : Stmt.DeclaredAll limit program body) :
    parse limit (body ++ [last]) = { program := .ok program, errors := #[] } := by
  have enough : 2 * body.length + 1 ≤ 2 * (body ++ [last]).length + 4 := by
    simp only [List.length_append]
    omega
  exact parseWithin_many (Parser.program_complete enough) isEnd
    (many_of_declaredAll declared (Nat.le_refl _) (by simp [isEnd]))

end Program

end LoxLang
