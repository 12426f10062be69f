/-
Module: LoxLang.Proofs.Parser.Beginning
Purpose: A well-formed beginning of a token list is read apart from what follows it.  Its
  declarations are read as they are alone, and the rest is then read as it is alone, however
  malformed it is: neither what has been collected nor the tokens that have been passed make a
  difference to it.
Main exports: Parser.repeatUpTo_many, Parser.repeatUpTo_collected, Parser.repeatUpTo_steady,
  Program.parseWithin_apart, Program.parse_apart
-/
import LoxLang.Proofs.Depth.Parsing
import LoxLang.Proofs.Parser.Boundary
import LoxLang.Proofs.Parser.Progress

namespace LoxLang

namespace Parser

variable {ε α : Type} {ends : Kind → Bool} {item : Parsing α}

/-! ### The turns of a loop -/

/-- Where items stand ahead, a loop collects them and goes on behind them. -/
theorem repeatUpTo_many {parser : EStateM ε Stream (Option α)}
    (complete : Complete parser (present item)) (nonempty : item.Nonempty) {list : List α}
    {taken : List Token} {next : Token} {rest : List Token}
    (many : Parsing.Many (Parsing.unended ends item) list taken next.kind) :
    ∀ (bound : Nat) (seen : Array α) (stream : Stream), stream.tokens = taken ++ next :: rest →
      stream.tokens.length ≤ stream.size → stream.tokens.length ≤ bound →
      ∃ left, (next :: rest).length ≤ left ∧
        repeatUpTo (stepUntil ends parser) bound seen stream =
          repeatUpTo (stepUntil ends parser) left (seen ++ list.toArray)
            (stream.moveTo next rest) := by
  generalize isNext : next.kind = kind at many
  induction many with
  | nil =>
      intro bound seen stream split bounded enough
      rw [List.nil_append] at split
      refine ⟨bound, split ▸ enough, ?_⟩
      rw [stream.moveTo_self split]
      simp
  | @cons first others before after kind reads _ ih =>
      intro bound seen stream split bounded enough
      subst isNext
      obtain ⟨goesOn, isItem⟩ := reads
      obtain ⟨current, tokens, isCurrent⟩ := exists_first after next rest
      rw [List.append_assoc, ← isCurrent] at split
      rw [← firstKind_of_split isCurrent] at goesOn isItem
      have shorter := congrArg List.length split
      have positive := List.length_pos_iff.2 (nonempty _ _ _ isItem)
      rw [List.length_append] at shorter
      cases bound with
      | zero => simp [Stream.tokens] at enough
      | succ bound =>
          have turn : stepUntil ends parser seen stream =
              .ok (true, seen.push first) (stream.moveTo current tokens) :=
            stepUntil_complete complete seen stream _ before current tokens split bounded
              (.inr ⟨first, goesOn, isItem, rfl⟩)
          obtain ⟨left, large, same⟩ := ih rfl bound (seen.push first)
            (stream.moveTo current tokens) isCurrent
            (by rw [Stream.tokens_moveTo, Stream.size_moveTo]; omega)
            (by rw [Stream.tokens_moveTo]; omega)
          refine ⟨left, large, ?_⟩
          rw [repeatUpTo, turn]
          simp only [same, Stream.moveTo_moveTo]
          simp

/-- A result with something collected before it. -/
def collectedAfter (before : Array α) :
    EStateM.Result ε Stream (Array α) → EStateM.Result ε Stream (Array α)
  | .ok all following => .ok (before ++ all) following
  | .error reason following => .error reason following

/-- What has been collected makes no difference to what a loop collects from there. -/
theorem repeatUpTo_collected (ends : Kind → Bool) (parser : EStateM ε Stream (Option α))
    (before : Array α) (bound : Nat) (seen : Array α) (stream : Stream) :
    repeatUpTo (stepUntil ends parser) bound (before ++ seen) stream =
      collectedAfter before (repeatUpTo (stepUntil ends parser) bound seen stream) := by
  induction bound generalizing seen stream with
  | zero => rfl
  | succ bound ih =>
      simp only [repeatUpTo, stepUntil]
      cases ends stream.current.kind with
      | true => rfl
      | false =>
          cases parser stream with
          | error reason rest => rfl
          | ok found rest =>
              cases found with
              | none => exact ih seen rest
              | some value =>
                  have turn := ih (seen.push value) rest
                  rw [Array.append_push] at turn
                  exact turn

/-! ### Loops over declarations -/

theorem result_of_lift {parser other : Recovered α} {stream start : Stream} {size : Nat}
    (same : lift parser start = resized size (lift other stream)) :
    parser start = resized size (other stream) := by
  cases read : parser start <;> cases readToo : other stream <;>
    simp only [lift, read, readToo] at same <;> cases same <;> rfl

/-- Declarations are collected in the same way whatever the bounds for loops are, as long as they
are not less than the number of tokens. -/
theorem repeatUpTo_steady (limit : ArgumentLimit) (room : Nat) (seen : Array (Stmt Unit))
    {bound other size : Nat} {stream : Stream} (proper : stream.Proper)
    (large : stream.tokens.length ≤ bound) (largeToo : stream.tokens.length ≤ other)
    (enough : stream.tokens.length ≤ size) :
    repeatUpTo (stepUntil endsSource (declaration limit room)) other seen (stream.resize size) =
      resized size
        (repeatUpTo (stepUntil endsSource (declaration limit room)) bound seen stream) := by
  have atEnd : endsSource .eof = true := rfl
  have turns := stepUntil_advances atEnd (declaration_advances limit room)
  have steady : repeatUpTo (stepUntil endsSource (lift (declaration limit room))) other seen
        (stream.resize size) =
      resized size
        (repeatUpTo (stepUntil endsSource (lift (declaration limit room))) bound seen stream) :=
    (Advances.repeatUpTo turns proper large).2 other size largeToo enough
  have steps : (fun seen => lift (stepUntil endsSource (declaration limit room) seen)) =
      stepUntil endsSource (lift (declaration limit room)) :=
    funext fun seen => lift_stepUntil endsSource (declaration limit room) seen
  rw [← steps, ← lift_repeatUpTo, ← lift_repeatUpTo] at steady
  exact result_of_lift steady

end Parser

/-! ### Token lists -/

namespace Program

variable {limit : ArgumentLimit} {room : Nat} {body after : List Token} {end_ : Token}
  {first : Program.Plain}

/-- A program is what the loop over declarations collects. -/
theorem parseWithin_eq (room : Nat) (limit : ArgumentLimit) (tokens : List Token) :
    parseWithin room limit tokens =
      match Parser.repeatUpTo (Parser.stepUntil endsSource (Parser.declaration limit room))
        (Stream.ofTokens tokens).size #[] (.ofTokens tokens) with
      | .ok all following => { program := .ok all.toList, errors := following.errors }
      | .error reason following => { program := .error reason, errors := following.errors } := by
  rw [parseWithin, Parser.program_eq, Parser.bind_apply, Parser.repeating]
  cases Parser.repeatUpTo (Parser.stepUntil endsSource (Parser.declaration limit room))
    (Stream.ofTokens tokens).size #[] (.ofTokens tokens) <;> rfl

/-- Within any room, a beginning that is read without an error is read apart from what follows it,
unless that begins with an `else`. -/
theorem parseWithin_apart (ends : EndsOnce (body ++ [end_])) (endsToo : EndsOnce after)
    (noElse : ∀ token ∈ after.head?, token.kind ≠ .keyword .else_)
    (read : parseWithin room limit (body ++ [end_]) = { program := .ok first, errors := #[] }) :
    parseWithin room limit (body ++ after) =
      { program := (parseWithin room limit after).program.map (first ++ ·)
        errors := (parseWithin room limit after).errors } := by
  obtain ⟨reading, sound, complete, closed⟩ :
      ∃ reading : Parsing (Stmt Unit),
        Parser.Sound limit (-1) (Parser.lift (Parser.declaration limit room))
          (Parser.present reading) ∧
        Parser.Complete (Parser.declaration limit room) (Parser.present reading) ∧
          reading.Ends := (Parser.statement_and_declaration_exact room).2
  obtain ⟨next, rest, rfl⟩ : ∃ next rest, after = next :: rest := by
    cases after with
    | nil => exact endsToo.elim
    | cons next rest => exact ⟨next, rest, rfl⟩
  have whole : Parser.Sound limit (-1) _ _ := Parser.program_sound_of sound closed.nonempty
  have many := (parseWithin_reads whole ends read).before closed (noElse next rfl)
  -- the stream of all tokens, and where it stands behind the beginning
  have start : (Stream.ofTokens (body ++ next :: rest)).tokens = body ++ next :: rest := by
    cases body <;> rfl
  have size : (Stream.ofTokens (body ++ next :: rest)).size = (body ++ next :: rest).length := by
    cases body <;> rfl
  have moved : (Stream.ofTokens (body ++ next :: rest)).moveTo next rest =
      (Stream.ofTokens (next :: rest)).resize (body ++ next :: rest).length := by
    cases body <;> rfl
  obtain ⟨left, large, collected⟩ := Parser.repeatUpTo_many complete closed.nonempty many
    (body ++ next :: rest).length #[] _ start (by rw [start, size]) (by rw [start])
  obtain ⟨proper, same⟩ := Stream.ofTokens_proper endsToo
  have length : (Stream.ofTokens (next :: rest)).tokens.length = (next :: rest).length :=
    congrArg List.length same
  have enough : (next :: rest).length ≤ (body ++ next :: rest).length := by simp
  have steady := Parser.repeatUpTo_steady limit room #[] proper (Nat.le_of_eq length)
    (length ▸ large) (length ▸ enough)
  have fromHere := Parser.repeatUpTo_collected endsSource
    (Parser.declaration limit room) first.toArray left #[]
    ((Stream.ofTokens (next :: rest)).resize (body ++ next :: rest).length)
  rw [Array.append_empty] at fromHere
  rw [Array.empty_append, moved, fromHere, steady] at collected
  rw [parseWithin_eq, size, collected, parseWithin_eq]
  have sizeToo : (Stream.ofTokens (next :: rest)).size = (next :: rest).length := rfl
  rw [sizeToo]
  cases Parser.repeatUpTo (Parser.stepUntil endsSource (Parser.declaration limit room))
      (next :: rest).length #[] (.ofTokens (next :: rest)) with
  | error reason following => rfl
  | ok all following =>
      simp only [Parser.resized, Parser.collectedAfter, Array.toList_append, Except.map]
      rfl

/-- A beginning that is read without an error is read apart from what follows it, unless that begins
with an `else`: the program is that of the beginning and then that of the rest, and the errors are
those of the rest. -/
theorem parse_apart (ends : EndsOnce (body ++ [end_])) (endsToo : EndsOnce after)
    (noElse : ∀ token ∈ after.head?, token.kind ≠ .keyword .else_) (most : Int)
    (clean : (parse (.count most) (body ++ [end_])).errors = #[]) :
    ∃ first second : Program.Plain,
      (parse (.count most) (body ++ [end_])).program = .ok first ∧
      (parse (.count most) after).program = .ok second ∧
      parse (.count most) (body ++ after) =
        { program := .ok (first ++ second), errors := (parse (.count most) after).errors } := by
  have comparable : ArgumentLimit.count most ≠ .incomparable := nofun
  obtain ⟨first, read⟩ := parse_total ends comparable
  obtain ⟨second, readToo⟩ := parse_total endsToo comparable
  refine ⟨first, second, read, readToo, ?_⟩
  have more : ∀ tokens : List Token, EndsOnce tokens → tokens.length ≤ (body ++ after).length →
      parseWithin (2 * (body ++ after).length + 4) (.count most) tokens =
        parse (.count most) tokens := fun tokens endsOnce shorter =>
    parseWithin_deeper _ tokens (by omega) (parse_shallow _ endsOnce)
  have enough : (body ++ [end_]).length ≤ (body ++ after).length := by
    cases after with
    | nil => exact endsToo.elim
    | cons next rest => simp
  have whole : parse (.count most) (body ++ [end_]) = { program := .ok first, errors := #[] } := by
    rw [← read, ← clean]
  have apart := parseWithin_apart ends endsToo noElse ((more _ ends enough).trans whole)
  rw [more after endsToo (by simp), readToo] at apart
  exact apart

/-- The tokens of `if (a) b;`, less the end: an `else` could follow. -/
def sampleOpen : List Token :=
  [⟨.keyword .if_, "if", none, ⟨1, 1⟩⟩, ⟨.leftParen, "(", none, ⟨1, 4⟩⟩,
    ⟨.identifier, "a", none, ⟨1, 5⟩⟩, ⟨.rightParen, ")", none, ⟨1, 6⟩⟩,
    ⟨.identifier, "b", none, ⟨1, 8⟩⟩, ⟨.semicolon, ";", none, ⟨1, 9⟩⟩]

/-- The tokens of `) x; c;` on the next line: nothing begins with a parenthesis that closes. -/
def sampleMalformed : List Token :=
  [⟨.rightParen, ")", none, ⟨2, 1⟩⟩, ⟨.identifier, "x", none, ⟨2, 3⟩⟩,
    ⟨.semicolon, ";", none, ⟨2, 4⟩⟩, ⟨.identifier, "c", none, ⟨2, 6⟩⟩,
    ⟨.semicolon, ";", none, ⟨2, 7⟩⟩, .eof ⟨2, 7⟩]

/-- The branch is read as it is alone, the parenthesis is reported, and `c;` is read after it. -/
theorem parse_apart_sampleMalformed :
    EndsOnce (sampleOpen ++ [.eof ⟨1, 9⟩]) ∧ EndsOnce sampleMalformed ∧
      (∀ token ∈ sampleMalformed.head?, token.kind ≠ .keyword .else_) ∧
      (parse (.count 255) (sampleOpen ++ [.eof ⟨1, 9⟩])).errors = #[] ∧
      ∃ branch,
        (parse (.count 255) (sampleOpen ++ [.eof ⟨1, 9⟩])).program = .ok [branch] ∧
        parse (.count 255) (sampleOpen ++ sampleMalformed) =
          { program := .ok [branch, .expression (.read ⟨"c", ⟨2, 6⟩⟩ ())]
            errors := #[⟨.expected .expression, ⟨.rightParen, ")", none, ⟨2, 1⟩⟩⟩] } := by
  have ends : EndsOnce (sampleOpen ++ [.eof ⟨1, 9⟩]) :=
    ⟨nofun, nofun, nofun, nofun, nofun, nofun, rfl⟩
  have endsToo : EndsOnce sampleMalformed := ⟨nofun, nofun, nofun, nofun, nofun, rfl⟩
  have noElse : ∀ token ∈ sampleMalformed.head?, token.kind ≠ .keyword .else_ := by
    intro token isFirst
    cases isFirst
    exact nofun
  have clean : (parse (.count 255) (sampleOpen ++ [.eof ⟨1, 9⟩])).errors = #[] := by
    with_unfolding_all rfl
  refine ⟨ends, endsToo, noElse, clean, ?_⟩
  obtain ⟨first, second, read, readToo, whole⟩ := parse_apart ends endsToo noElse 255 clean
  have one : ∃ branch,
      (parse (.count 255) (sampleOpen ++ [.eof ⟨1, 9⟩])).program = .ok [branch] := by
    with_unfolding_all exact ⟨_, rfl⟩
  have rest : parse (.count 255) sampleMalformed =
      { program := .ok [.expression (.read ⟨"c", ⟨2, 6⟩⟩ ())]
        errors := #[⟨.expected .expression, ⟨.rightParen, ")", none, ⟨2, 1⟩⟩⟩] } := by
    with_unfolding_all rfl
  obtain ⟨branch, isBranch⟩ := one
  refine ⟨branch, isBranch, ?_⟩
  rw [isBranch] at read
  rw [rest] at readToo whole
  cases read
  cases readToo
  exact whole

end Program

end LoxLang
